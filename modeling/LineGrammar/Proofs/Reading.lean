import LineGrammar.Proofs.Recording
import LineGrammar.Source

/-!
Reading alternatives, rule heads, lines and whole sources. What a line does is decided by its text
and by the head of the open rule; nothing else that the loader has gathered matters.
-/

namespace LineGrammar

namespace SymbolTable

variable {table : SymbolTable} {id : NonterminalId} {n : Nonterminal}

theorem spells_nonterminal_iff (h : table.Sound) (hn : table.nonterminals[id]? = some n)
    (hs : n.synthetic = false) {word : Word} {symbol : Symbol} (hw : table.Spells word symbol) :
    symbol = .nonterminal id ↔ word = ⟨.nonterminal n.name, none⟩ := by
  constructor
  case mp =>
    rintro rfl
    cases hw
    case plain hd =>
      cases hd with | nonterminal hm _ =>
      cases hn.symm.trans hm
      rfl
    case repeated m hsyn _ hm =>
      cases hn.symm.trans hm
      simp [hs] at hsyn
  case mpr =>
    rintro rfl
    cases hw with | plain hd =>
    exact hd.unique h (.nonterminal hn hs)

theorem forall₂_spells_singleton_iff (h : table.Sound) (hn : table.nonterminals[id]? = some n)
    (hs : n.synthetic = false) {words : List Word} {symbols : List Symbol}
    (hw : List.Forall₂ table.Spells words symbols) :
    symbols = [.nonterminal id] ↔ words = [⟨.nonterminal n.name, none⟩] := by
  cases hw
  case nil => simp
  case cons hw hr =>
    cases hr
    case nil  => simp [spells_nonterminal_iff h hn hs hw]
    case cons => simp

end SymbolTable

namespace Loader

variable {loader : Loader} {heads : List String} {clauses : List Clause} {id : NonterminalId}
variable {n : Nonterminal} {name : String} {fault : Fault}

theorem run_fail {α : Type} :
    (fail fault : Reading α).run loader = .error ⟨loader.location, fault⟩ loader :=
  rfl

structure SamePlace (a b : Loader) : Prop where
  file    : b.file = a.file
  line    : b.line = a.line
  current : b.current = a.current

namespace SamePlace

theorem refl (loader : Loader) : loader.SamePlace loader :=
  ⟨rfl, rfl, rfl⟩

theorem trans {a b c : Loader} (h₁ : a.SamePlace b) (h₂ : b.SamePlace c) : a.SamePlace c :=
  ⟨h₂.file.trans h₁.file, h₂.line.trans h₁.line, h₂.current.trans h₁.current⟩

theorem location_eq {a b : Loader} (h : a.SamePlace b) : b.location = a.location := by
  simp [location, h.file, h.line]

end SamePlace

theorem Advances.samePlace {new : Loader} (h : loader.Advances new) : loader.SamePlace new :=
  ⟨h.file, h.line, h.current⟩

theorem samePlace_addProduction (symbols : List Symbol) :
    loader.SamePlace (loader.addProduction id symbols) := by
  unfold addProduction
  split <;> exact ⟨rfl, rfl, rfl⟩

theorem Sound.addProduction (h : loader.Sound) (hw : loader.symbols.isSynthetic id = false)
    (hd : loader.rules.hasHead id) {symbols : List Symbol}
    (hk : ∀ symbol ∈ symbols, loader.symbols.Knows symbol) :
    (loader.addProduction id symbols).Sound := by
  unfold Loader.addProduction
  split
  case isTrue  => exact h
  case isFalse =>
    refine ⟨h.symbols, h.rules.add hd hw hk, h.root, fun hc => ?_⟩
    exact ⟨(h.current hc).left, Rules.hasHead_add.mpr (.inl (h.current hc).right)⟩

-- The open rule is that of the last head, which is no helper.
theorem exists_of_current (h : loader.Sound) (hr : loader.Records heads clauses)
    (hc : loader.current = some id) :
    ∃ n, loader.symbols.nonterminals[id]? = some n ∧ n.synthetic = false ∧
      heads.getLast? = some n.name := by
  have ⟨hw, hd⟩ := h.current hc
  have ⟨n, hn, _⟩ := h.rules.defined.mp hd
  refine ⟨n, hn, SymbolTable.isSynthetic_of_getElem? hn ▸ hw, ?_⟩
  rw [← hr.current, hc, Option.map_some, SymbolTable.nonterminalName_of_getElem? hn]

section

variable {texts : List (List Char)}

theorem run_addAlternative_ok (h : loader.Sound) (hr : loader.Records heads clauses)
    (hc : loader.current = some id) (hl : heads.getLast? = some name) (ht : texts ≠ [])
    (hf : (Clause.mk name texts).fault? = none) :
    ∃ new, (addAlternative id texts).run loader = .ok () new ∧ new.Sound ∧
      new.Records heads (clauses ++ [⟨name, texts⟩]) ∧ loader.SamePlace new := by
  cases hw : alternativeOfTexts texts
  case error => simp [Clause.fault?, Clause.words, hw] at hf
  case ok words =>
    have ⟨symbols, mid, hrun, hm⟩ := run_mapM_symbolOf h (wellFormed_of_alternativeOfTexts hw)
    have hrm := hr.advance h hm.sound hm.advances
    have ⟨n, hn, hs, hl'⟩ := exists_of_current hm.sound hrm (hm.advances.current.trans hc)
    cases hl.symm.trans hl'
    have hself : symbols ≠ [.nonterminal id] := by
      rw [Ne, SymbolTable.forall₂_spells_singleton_iff hm.sound.symbols hn hs hm.spells]
      rintro rfl
      simp [Clause.fault?, Clause.words, hw] at hf
    have ⟨hwritten, hd⟩ := hm.sound.current (hm.advances.current.trans hc)
    exact ⟨mid.addProduction id symbols, by simp [addAlternative, hw, hrun, hself],
      hm.sound.addProduction hwritten hd hm.knows,
      hrm.addProduction hn hs hd hm.sound.symbols ht hw hm.spells,
      hm.advances.samePlace.trans (samePlace_addProduction symbols)⟩

theorem run_addAlternative_error (h : loader.Sound) (hr : loader.Records heads clauses)
    (hc : loader.current = some id) (hl : heads.getLast? = some name)
    (hf : (Clause.mk name texts).fault? = some fault) :
    ∃ new, (addAlternative id texts).run loader = .error ⟨loader.location, fault⟩ new := by
  cases hw : alternativeOfTexts texts
  case error =>
    simp only [Clause.fault?, Clause.words, hw, Option.some.injEq] at hf
    exact ⟨loader, by simp [addAlternative, hw, run_fail, hf]⟩
  case ok words =>
    have ⟨symbols, mid, hrun, hm⟩ := run_mapM_symbolOf h (wellFormed_of_alternativeOfTexts hw)
    have hrm := hr.advance h hm.sound hm.advances
    have ⟨n, hn, hs, hl'⟩ := exists_of_current hm.sound hrm (hm.advances.current.trans hc)
    cases hl.symm.trans hl'
    simp only [Clause.fault?, Clause.words, hw] at hf
    by_cases he : words = [⟨.nonterminal n.name, none⟩]
    case neg => simp [he] at hf
    case pos =>
      simp only [he, ↓reduceIte, Option.some.injEq] at hf
      have hself :=
        (SymbolTable.forall₂_spells_singleton_iff hm.sound.symbols hn hs hm.spells).mpr he
      refine ⟨mid, ?_⟩
      simp [addAlternative, hw, hrun, hself, run_fail, SymbolTable.nonterminalName_of_getElem? hn,
        hm.advances.samePlace.location_eq, hf]

end

section

variable {alternatives : List (List (List Char))}

theorem addAlternatives_cons (texts : List (List Char)) :
    addAlternatives id (texts :: alternatives) =
      addAlternative id texts >>= fun _ => addAlternatives id alternatives :=
  rfl

theorem run_addAlternatives_ok (h : loader.Sound) (hr : loader.Records heads clauses)
    (hc : loader.current = some id) (hl : heads.getLast? = some name)
    (ht : ∀ texts ∈ alternatives, texts ≠ [])
    (hf : ∀ texts ∈ alternatives, (Clause.mk name texts).fault? = none) :
    ∃ new, (addAlternatives id alternatives).run loader = .ok () new ∧ new.Sound ∧
      new.Records heads (clauses ++ alternatives.map (⟨name, ·⟩)) ∧ loader.SamePlace new := by
  induction alternatives generalizing loader clauses
  case nil => exact ⟨loader, rfl, h, by simpa using hr, .refl loader⟩
  case cons texts rest ih =>
    simp only [List.mem_cons, forall_eq_or_imp] at ht hf
    have ⟨mid, hrun, hm, hrm, hp⟩ := run_addAlternative_ok h hr hc hl ht.left hf.left
    have ⟨new, hrun', hn, hrn, hp'⟩ := ih hm hrm (hp.current.trans hc) ht.right hf.right
    exact ⟨new, by simp [addAlternatives_cons, hrun, hrun'], hn, by simpa using hrn, hp.trans hp'⟩

theorem run_addAlternatives_error (h : loader.Sound) (hr : loader.Records heads clauses)
    (hc : loader.current = some id) (hl : heads.getLast? = some name)
    (ht : ∀ texts ∈ alternatives, texts ≠ [])
    (hf : alternatives.findSome? (fun texts => (Clause.mk name texts).fault?) = some fault) :
    ∃ new, (addAlternatives id alternatives).run loader = .error ⟨loader.location, fault⟩ new := by
  induction alternatives generalizing loader clauses
  case nil => simp at hf
  case cons texts rest ih =>
    simp only [List.mem_cons, forall_eq_or_imp] at ht
    rw [List.findSome?_cons] at hf
    cases hfirst : (Clause.mk name texts).fault?
    case some first =>
      simp only [hfirst, Option.some.injEq] at hf
      have ⟨new, hrun⟩ := run_addAlternative_error h hr hc hl hfirst
      exact ⟨new, by simp [addAlternatives_cons, hrun, hf]⟩
    case none =>
      rw [hfirst] at hf
      have ⟨mid, hrun, hm, hrm, hp⟩ := run_addAlternative_ok h hr hc hl ht.left hfirst
      have ⟨new, hrun'⟩ := ih hm hrm (hp.current.trans hc) ht.right hf
      exact ⟨new, by simp [addAlternatives_cons, hrun, hrun', hp.location_eq]⟩

end

theorem openRule_eq (loader : Loader) (id : NonterminalId) (name : String) :
    loader.openRule id name = { loader with
      symbols := if loader.root.isNone then
          (loader.symbols.define id loader.location).reference id
        else loader.symbols.define id loader.location
      rules := loader.rules.declare id
      root := loader.root.or (some id)
      current := some id
      notes := loader.notes ++ [.ruleHead name loader.line] } := by
  simp only [openRule, note]
  cases h : loader.root <;> simp [Loader.reference]

@[simp]
theorem rules_openRule : (loader.openRule id name).rules = loader.rules.declare id := by
  rw [openRule_eq]

@[simp]
theorem root_openRule : (loader.openRule id name).root = loader.root.or (some id) := by
  rw [openRule_eq]

@[simp]
theorem current_openRule : (loader.openRule id name).current = some id := by
  rw [openRule_eq]

theorem symbols_openRule_of_root (h : loader.root.isSome) :
    (loader.openRule id name).symbols = loader.symbols.define id loader.location := by
  have ⟨root, hr⟩ := Option.isSome_iff_exists.mp h
  simp [openRule_eq, hr]

theorem symbols_openRule_of_no_root (h : loader.root = none) :
    (loader.openRule id name).symbols =
      (loader.symbols.define id loader.location).reference id := by
  simp [openRule_eq, h]

theorem grows_openRule (loader : Loader) (id : NonterminalId) (name : String) :
    loader.symbols.Grows (loader.openRule id name).symbols := by
  cases h : loader.root
  case none =>
    rw [symbols_openRule_of_no_root h]
    exact SymbolTable.grows_define.trans SymbolTable.grows_reference
  case some =>
    rw [symbols_openRule_of_root (h ▸ rfl)]
    exact SymbolTable.grows_define

theorem length_openRule : (loader.openRule id name).symbols.nonterminals.length =
    loader.symbols.nonterminals.length := by
  rw [openRule_eq]
  by_cases h : loader.root.isNone <;> simp [h, SymbolTable.define, SymbolTable.reference]

theorem Sound.openRule (h : loader.Sound) (hn : loader.symbols.nonterminals[id]? = some n)
    (hs : n.synthetic = false) (name : String) : (loader.openRule id name).Sound := by
  have hfits := h.rules.declare (lt_length_of_getElem? hn) loader.location
  constructor
  case symbols =>
    cases hr : loader.root
    case none => rw [symbols_openRule_of_no_root hr]; exact h.symbols.define.reference
    case some => rw [symbols_openRule_of_root (hr ▸ rfl)]; exact h.symbols.define
  case rules =>
    rw [rules_openRule]
    cases hr : loader.root
    case none =>
      rw [symbols_openRule_of_no_root hr]
      exact hfits.mentions (SymbolTable.mentions_reference id)
    case some => rw [symbols_openRule_of_root (hr ▸ rfl)]; exact hfits
  case root =>
    intro i hi
    rw [root_openRule] at hi
    cases hr : loader.root
    case none =>
      simp only [hr, Option.none_or, Option.some.injEq] at hi
      subst hi
      rw [symbols_openRule_of_no_root hr]
      exact SymbolTable.reference_knows
        ((SymbolTable.Denotes.nonterminal hn hs).mono SymbolTable.grows_define)
    case some root =>
      simp only [hr, Option.some_or, Option.some.injEq] at hi
      subst hi
      exact (h.root hr).mono (grows_openRule ..)
  case current =>
    intro i hi
    cases current_openRule.symm.trans hi
    have ⟨n', hn', hg⟩ := (grows_openRule loader id name).nonterminals hn
    rw [SymbolTable.isSynthetic_of_getElem? hn', hg.synthetic, rules_openRule]
    exact ⟨hs, Rules.hasHead_declare.mpr (.inr rfl)⟩

theorem Records.openRule (hr : loader.Records heads clauses) (h : loader.Sound)
    (hn : loader.symbols.nonterminals[id]? = some n) (hs : n.synthetic = false) :
    (loader.openRule id n.name).Records (heads ++ [n.name]) clauses := by
  have hg := grows_openRule loader id n.name
  have hlt := lt_length_of_getElem? hn
  have hreflect : ∀ {i : NonterminalId} {m},
      (loader.openRule id n.name).symbols.nonterminals[i]? = some m →
      ∃ k, loader.symbols.nonterminals[i]? = some k ∧ k.Grows m := fun hm =>
    hg.reflect (length_openRule ▸ lt_length_of_getElem? hm) hm
  have hname : (loader.openRule id n.name).symbols.nonterminalName id = n.name :=
    (hg.nonterminalName hlt).trans (SymbolTable.nonterminalName_of_getElem? hn)
  refine ⟨⟨?entered, ?hasHead, ?headed, ?productions⟩, ?root, ?current⟩
  case root =>
    rw [root_openRule, List.head?_append, ← hr.root]
    cases he : loader.root
    case none   => simp [hname]
    case some i => simp [hg.nonterminalName (h.root he).lt_length]
  case current => simp [hname]
  case entered =>
    intro name hm
    have hold : ∃ (i : NonterminalId) (k : Nonterminal),
        loader.symbols.nonterminals[i]? = some k ∧ k.synthetic = false ∧ k.name = name := by
      cases List.mem_append.mp hm
      case inl hm => exact hr.entered name hm
      case inr hm => exact ⟨id, n, hn, hs, (List.mem_singleton.mp hm).symm⟩
    have ⟨i, k, hk, hw, he⟩ := hold
    have ⟨m, hm, hgm⟩ := hg.nonterminals hk
    exact ⟨i, m, hm, hgm.synthetic.trans hw, hgm.name.trans he⟩
  case hasHead =>
    intro i m hm hw
    have ⟨k, hk, hgk⟩ := hreflect hm
    have hid : id = i ↔ k.name = n.name := by
      constructor
      · rintro rfl
        cases hn.symm.trans hk
        rfl
      · exact fun he => h.symbols.id_eq hn hk he.symm
    rw [rules_openRule, Rules.hasHead_declare, hr.hasHead hk (hgk.synthetic ▸ hw), hid, ← hgk.name]
    simp
  case headed =>
    intro clause hm
    exact ⟨List.mem_append_left _ (hr.headed clause hm).left, (hr.headed clause hm).right⟩
  case productions =>
    intro i m hm hw
    have ⟨k, hk, hgk⟩ := hreflect hm
    rw [rules_openRule, Rules.productionsOf_declare, hgk.name]
    exact (hr.productions hk (hgk.synthetic ▸ hw)).imp fun _ _ hx => hx.mono hg

-- The name of a helper is no identifier, so a rule head never clashes with one.
theorem run_declare_eq (h : loader.Sound) (hi : isIdentifier name.toList) :
    (declare name).run loader = .ok (loader.internNonterminal name).1
      ((loader.internNonterminal name).2.openRule (loader.internNonterminal name).1 name) := by
  have hd := SymbolTable.internNonterminal_denotes h.symbols hi loader.location
  have hw : (loader.internNonterminal name).2.symbols.isSynthetic (loader.internNonterminal name).1 =
      false := by
    cases hd with | nonterminal hn hw =>
    exact (SymbolTable.isSynthetic_of_getElem? hn).trans hw
  simp [declare, hw]

theorem run_declare (h : loader.Sound) (hr : loader.Records heads clauses)
    (hi : isIdentifier name.toList) :
    ∃ id new, (declare name).run loader = .ok id new ∧ new.Sound ∧
      new.Records (heads ++ [name]) clauses ∧ new.current = some id ∧
      new.location = loader.location ∧ new.file = loader.file := by
  have hg := loader.symbols.mentions_internNonterminal name loader.location
  have hd := SymbolTable.internNonterminal_denotes h.symbols hi loader.location
  have hsound : (loader.symbols.internNonterminal name loader.location).2.Sound :=
    h.symbols.internNonterminal hi
  have hm := h.of_mentions hsound hg
  have hrm := hr.advance h hm (.of_mentions hg)
  generalize hid : (loader.symbols.internNonterminal name loader.location).1 = id at hd
  cases hd with | nonterminal hn hs =>
  refine ⟨id, _, ?_, hm.openRule hn hs _, hrm.openRule hm hn hs, ?_⟩
  · subst hid
    exact run_declare_eq h hi
  · rw [openRule_eq]
    exact ⟨rfl, rfl, rfl⟩

section

variable {text : List Char}

-- A line that is not at fault is read to its end, and what it says is recorded.
theorem run_readLine_ok (number : Nat) (h : loader.Sound) (hr : loader.Records heads clauses)
    (hf : (Line.ofText text).fault? heads.getLast? = none) :
    ∃ new, (readLine number text).run loader = .ok () new ∧ new.Sound ∧
      new.Records (heads ++ (Line.ofText text).head?.toList)
        (clauses ++ (Line.ofText text).clauses heads.getLast?) ∧ new.file = loader.file := by
  have ht := Line.texts_ne_nil text
  have hs := h.atLine number
  have hrs := hr.atLine number
  cases hline : Line.ofText text
  case blank =>
    refine ⟨loader.atLine number, by simp [readLine, hline], hs, ?_, rfl⟩
    cases heads.getLast? <;> simpa [Line.head?, Line.clauses, Line.texts] using hrs
  case alternatives alternatives =>
    simp only [hline, Line.texts] at ht
    rw [hline] at hf
    cases hc : loader.current
    case none =>
      have hl := hr.current
      simp only [hc, Option.map_none] at hl
      simp [Line.fault?, ← hl] at hf
    case some id =>
      obtain ⟨n, _, _, hl⟩ := exists_of_current h hr hc
      rw [hl] at hf
      simp only [Line.fault?, Line.clauses, Line.head?, Line.texts, Option.none_or,
        List.findSome?_map, List.findSome?_eq_none_iff] at hf
      obtain ⟨new, hrun, hn, hrn, hp⟩ := run_addAlternatives_ok hs hrs hc hl ht hf
      refine ⟨new, ?_, hn, ?_, hp.file⟩
      · have : (loader.atLine number).current = some id := hc
        simp [readLine, hline, this, hrun]
      · simpa [Line.head?, Line.clauses, Line.texts, hl] using hrn
  case rule head alternatives =>
    simp only [hline, Line.texts] at ht
    rw [hline] at hf
    by_cases hi : isIdentifier head
    case neg => simp [Line.fault?, hi] at hf
    case pos =>
      simp only [Line.fault?, hi, ↓reduceIte, Line.clauses, Line.head?, Line.texts, Option.some_or,
        List.findSome?_map, List.findSome?_eq_none_iff] at hf
      have hi' : isIdentifier (String.ofList head).toList := by simpa using hi
      obtain ⟨id, mid, hrun, hm, hrm, hc, _, hfile⟩ := run_declare hs hrs hi'
      obtain ⟨new, hrun', hn, hrn, hp⟩ :=
        run_addAlternatives_ok hm hrm hc (by simp) ht hf
      refine ⟨new, by simp [readLine, hline, hi, hrun, hrun'], hn, ?_, hp.file.trans hfile⟩
      simpa [Line.head?, Line.clauses, Line.texts] using hrn

-- The first fault of a line ends the reading there.
theorem run_readLine_error (number : Nat) (h : loader.Sound) (hr : loader.Records heads clauses)
    (hf : (Line.ofText text).fault? heads.getLast? = some fault) :
    ∃ new, (readLine number text).run loader = .error ⟨⟨loader.file, number⟩, fault⟩ new := by
  have ht := Line.texts_ne_nil text
  have hs := h.atLine number
  have hrs := hr.atLine number
  have hloc : (loader.atLine number).location = ⟨loader.file, number⟩ := rfl
  cases hline : Line.ofText text
  case blank => simp [hline, Line.fault?] at hf
  case alternatives alternatives =>
    simp only [hline, Line.texts] at ht
    rw [hline] at hf
    cases hc : loader.current
    case none =>
      have hl := hr.current
      simp only [hc, Option.map_none] at hl
      have : (loader.atLine number).current = none := hc
      simp only [Line.fault?, ← hl, Option.some.injEq] at hf
      exact ⟨loader.atLine number, by simp [readLine, hline, this, run_fail, hloc, hf]⟩
    case some id =>
      obtain ⟨n, _, _, hl⟩ := exists_of_current h hr hc
      rw [hl] at hf
      simp only [Line.fault?, Line.clauses, Line.head?, Line.texts, Option.none_or,
        List.findSome?_map] at hf
      obtain ⟨new, hrun⟩ := run_addAlternatives_error hs hrs hc hl ht hf
      have : (loader.atLine number).current = some id := hc
      exact ⟨new, by simp [readLine, hline, this, hrun, hloc]⟩
  case rule head alternatives =>
    simp only [hline, Line.texts] at ht
    rw [hline] at hf
    by_cases hi : isIdentifier head
    case neg =>
      simp only [Line.fault?, hi, Bool.false_eq_true, ↓reduceIte, Option.some.injEq] at hf
      exact ⟨loader.atLine number, by simp [readLine, hline, hi, run_fail, hloc, hf]⟩
    case pos =>
      simp only [Line.fault?, hi, ↓reduceIte, Line.clauses, Line.head?, Line.texts, Option.some_or,
        List.findSome?_map] at hf
      have hi' : isIdentifier (String.ofList head).toList := by simpa using hi
      obtain ⟨id, mid, hrun, hm, hrm, hc, hmid, _⟩ := run_declare hs hrs hi'
      obtain ⟨new, hrun'⟩ := run_addAlternatives_error hm hrm hc (by simp) ht hf
      exact ⟨new, by simp [readLine, hline, hi, hrun, hrun', hmid, hloc]⟩

end

section

variable {number : Nat} {texts : List (List Char)}

theorem readLines_cons (text : List Char) (rest : List (Option (List Char))) :
    readLines number (some text :: rest) =
      readLine number text >>= fun _ => readLines (number + 1) rest :=
  rfl

theorem readLines_append (before after : List (Option (List Char))) :
    readLines number (before ++ after) =
      readLines number before >>= fun _ => readLines (number + before.length) after := by
  induction before generalizing number
  case nil => rfl
  case cons line rest ih =>
    cases line
    case none => rfl
    case some text =>
      rw [List.cons_append, readLines_cons, readLines_cons, ih, bind_assoc, List.length_cons,
        Nat.add_right_comm, Nat.add_assoc]

theorem run_readLines_ok (h : loader.Sound) (hr : loader.Records heads clauses)
    (hf : firstFault? heads.getLast? number (texts.map Line.ofText) = none) :
    ∃ new, (readLines number (texts.map some)).run loader = .ok () new ∧ new.Sound ∧
      new.Records (heads ++ headNames (texts.map Line.ofText))
        (clauses ++ clausesFrom heads.getLast? (texts.map Line.ofText)) ∧
      new.file = loader.file := by
  induction texts generalizing loader heads clauses number
  case nil => exact ⟨loader, rfl, h, by simpa [headNames, clausesFrom] using hr, rfl⟩
  case cons text rest ih =>
    simp only [List.map_cons, firstFault?] at hf
    split at hf
    case h_1 => simp at hf
    case h_2 hline =>
      obtain ⟨mid, hrun, hm, hrm, hfile⟩ := run_readLine_ok number h hr hline
      rw [← getLast?_append_toList] at hf
      obtain ⟨new, hrun', hn, hrn, hfile'⟩ := ih hm hrm hf
      refine ⟨new, by simp [readLines_cons, hrun, hrun'], hn, ?_, hfile'.trans hfile⟩
      rw [getLast?_append_toList] at hrn
      simpa [clausesFrom, headNames_cons] using hrn

theorem run_readLines_error (h : loader.Sound) (hr : loader.Records heads clauses) {line : Nat}
    (hf : firstFault? heads.getLast? number (texts.map Line.ofText) = some (line, fault)) :
    ∃ new, (readLines number (texts.map some)).run loader =
      .error ⟨⟨loader.file, line⟩, fault⟩ new := by
  induction texts generalizing loader heads clauses number
  case nil => simp [firstFault?] at hf
  case cons text rest ih =>
    simp only [List.map_cons, firstFault?] at hf
    split at hf
    case h_1 first hline =>
      cases hf
      obtain ⟨new, hrun⟩ := run_readLine_error line h hr hline
      exact ⟨new, by simp [readLines_cons, hrun]⟩
    case h_2 hline =>
      obtain ⟨mid, hrun, hm, hrm, hfile⟩ := run_readLine_ok number h hr hline
      rw [← getLast?_append_toList] at hf
      obtain ⟨new, hrun'⟩ := ih hm hrm hf
      exact ⟨new, by simp [readLines_cons, hrun, hrun', hfile]⟩

end

theorem exists_texts_of_readLines {lines : List (Option (List Char))} {number : Nat} {new : Loader}
    (h : (readLines number lines).run loader = .ok () new) :
    ∃ texts : List (List Char), lines = texts.map some := by
  induction lines generalizing loader number
  case nil => exact ⟨[], rfl⟩
  case cons line rest ih =>
    cases line
    case none => simp [readLines] at h
    case some text =>
      rw [readLines_cons, EStateM.run_bind] at h
      split at h
      case h_1 =>
        obtain ⟨texts, rfl⟩ := ih h
        exact ⟨text :: texts, rfl⟩
      case h_2 => simp at h

end Loader

namespace Grammar

variable {file : Option String} {lines : List (Option (List Char))} {g : Grammar}

structure Records (g : Grammar) (heads : List String) (clauses : List Clause) : Prop
    extends g.rules.Record g.symbols heads clauses where
  root : heads.head? = some (g.symbols.nonterminalName g.root)

section

variable {texts : List (List Char)}

theorem ofLines_of_fault {line : Nat} {fault : Fault}
    (hf : firstFault? none 1 (texts.map Line.ofText) = some (line, fault)) :
    ofLines file (texts.map some) = .error ⟨⟨file, line⟩, fault⟩ := by
  have hr := Loader.records_start file
  have ⟨loader, hrun⟩ := Loader.run_readLines_error (Loader.sound_start file) hr hf
  rw [ofLines, Loader.run, hrun]
  rfl

theorem exists_run_of_no_fault (file : Option String)
    (hf : firstFault? none 1 (texts.map Line.ofText) = none) :
    ∃ loader, Loader.run file (texts.map some) = .ok () loader ∧ loader.Sound ∧
      loader.Records (headNames (texts.map Line.ofText)) (clausesFrom none (texts.map Line.ofText)) ∧
      loader.file = file := by
  have hr := Loader.records_start file
  have ⟨loader, hrun, hs, hr', hfile⟩ := Loader.run_readLines_ok (Loader.sound_start file) hr hf
  exact ⟨loader, hrun, hs, by simpa using hr', hfile⟩

theorem ofLines_of_no_heads (hf : firstFault? none 1 (texts.map Line.ofText) = none)
    (hh : headNames (texts.map Line.ofText) = []) :
    ofLines file (texts.map some) = .error ⟨⟨file, 0⟩, .emptyGrammar⟩ := by
  have ⟨loader, hrun, _, hr, hfile⟩ := exists_run_of_no_fault file hf
  have hroot := hr.root
  simp only [hh, List.head?_nil, Option.map_eq_none_iff] at hroot
  simp [ofLines, hrun, Loader.finish, hroot, hfile]

theorem exists_of_no_fault (file : Option String)
    (hf : firstFault? none 1 (texts.map Line.ofText) = none)
    (hh : headNames (texts.map Line.ofText) ≠ []) :
    ∃ g, ofLines file (texts.map some) = .ok g ∧ g.Sound ∧
      g.Records (headNames (texts.map Line.ofText)) (clausesFrom none (texts.map Line.ofText)) := by
  have ⟨loader, hrun, hs, hr, _⟩ := exists_run_of_no_fault file hf
  have hhead := hr.root
  cases hroot : loader.root
  case none =>
    simp only [hroot, Option.map_none] at hhead
    exact absurd (List.head?_eq_none_iff.mp hhead.symm) hh
  case some root =>
    rw [hroot, Option.map_some] at hhead
    exact ⟨⟨loader.symbols, loader.rules, root, loader.file⟩,
      by simp [ofLines, hrun, Loader.finish, hroot],
      ⟨hs.symbols, hs.rules, hs.root hroot⟩, hr.toRecord, hhead.symm⟩

end

theorem exists_run_of_ofLines (h : ofLines file lines = .ok g) :
    ∃ loader, Loader.run file lines = .ok () loader ∧ loader.finish = .ok g := by
  unfold ofLines at h
  split at h
  case h_1 loader hrun => exact ⟨loader, hrun, h⟩
  case h_2             => simp at h

theorem exists_texts_of_ofLines (h : ofLines file lines = .ok g) :
    ∃ texts : List (List Char), lines = texts.map some := by
  have ⟨_, hrun, _⟩ := exists_run_of_ofLines h
  exact Loader.exists_texts_of_readLines hrun

theorem sound_and_records_of_ofLines (h : ofLines file lines = .ok g) :
    g.Sound ∧ g.Records (headNames (linesOf lines)) (clausesFrom none (linesOf lines)) := by
  obtain ⟨texts, rfl⟩ := exists_texts_of_ofLines h
  rw [linesOf_map_some]
  cases hf : firstFault? none 1 (texts.map Line.ofText)
  case some => simp [ofLines_of_fault hf] at h
  case none =>
    by_cases hh : headNames (texts.map Line.ofText) = []
    case pos => simp [ofLines_of_no_heads hf hh] at h
    case neg =>
      have ⟨g', hg, hs⟩ := exists_of_no_fault file hf hh
      cases h.symm.trans hg
      exact hs

theorem sound_of_ofLines (h : ofLines file lines = .ok g) : g.Sound :=
  (sound_and_records_of_ofLines h).left

theorem exists_of_ofLines {p : Grammar → Prop} [DecidablePred p]
    (h : (ofLines file lines).toOption.any (decide <| p ·)) :
    ∃ g, ofLines file lines = .ok g ∧ p g := by
  cases hg : ofLines file lines
  case error => simp [hg, Except.toOption] at h
  case ok g  => exact ⟨g, rfl, by simpa [hg, Except.toOption] using h⟩

end Grammar
end LineGrammar
