import LineGrammar.Proofs.Endings
import LineGrammar.Proofs.RuleLine
import LineGrammar.Proofs.Recasting

/-!
The three ways to give a rule further alternatives: behind a bar in its line, in a line that starts with a
bar, and in a line with its head again. They come to the same, whatever has been read before, also where one
of the alternatives is at fault.
-/

namespace LineGrammar

def barLine (right : List Char) : List Char :=
  ['|', ' '] ++ right

namespace Line

variable {right : List Char}

theorem ofText_barLine (hr : '#' ∉ right) :
    ofText (barLine right) = alternatives (splitAlternatives right) := by
  have hcomment : '#' ∉ barLine right := by simp [barLine, hr]
  have hbody : (barLine right).takeWhile (· != '#') = [] ++ '|' :: ' ' :: right := takeWhile_ne_hash hcomment
  rw [ofText_of_bar hbody (by simp), splitAlternatives, words_cons_blank (by decide), splitAlternatives]

theorem splitAlternatives_append_bar (right right' : List Char) :
    splitAlternatives (right ++ [' ', '|', ' '] ++ right') =
      splitAlternatives right ++ splitAlternatives right' := by
  rw [splitAlternatives, words_append_bar, List.append_assoc, List.singleton_append,
    List.splitOn_append_cons_self, List.filter_append, splitAlternatives, splitAlternatives]

end Line

namespace SymbolTable

variable {old new table : SymbolTable} {name : String} {id : NonterminalId} {location : Location}

theorem Grows.nonterminalNamed? (h : old.Grows new) (hid : old.nonterminalNamed? name = some id) :
    new.nonterminalNamed? name = some id := by
  obtain ⟨hlt, hname, hfirst⟩ := List.findIdx?_eq_some_iff_getElem.mp hid
  have hsame : ∀ {i} (hi : i < old.nonterminals.length), ∃ hi' : i < new.nonterminals.length,
      new.nonterminals[i].name = old.nonterminals[i].name := by
    intro i hi
    obtain ⟨n, hn, hg⟩ := h.nonterminals (List.getElem?_eq_getElem hi)
    obtain ⟨hi', rfl⟩ := List.getElem?_eq_some_iff.mp hn
    exact ⟨hi', hg.name⟩
  obtain ⟨hlt', he⟩ := hsame hlt
  refine List.findIdx?_eq_some_iff_getElem.mpr ⟨hlt', by rwa [he], fun j hj => ?_⟩
  obtain ⟨_, he⟩ := hsame (hj.trans hlt)
  rw [he]
  exact hfirst j hj

theorem nonterminalNamed?_internNonterminal (table : SymbolTable) (name : String) (location : Location) :
    (table.internNonterminal name location).2.nonterminalNamed? name =
      some (table.internNonterminal name location).1 := by
  unfold internNonterminal
  cases h : table.nonterminalNamed? name
  case some => exact h
  case none =>
    rw [nonterminalNamed?] at h ⊢
    simp [List.findIdx?_append, h, Nonterminal.mentioned, List.findIdx?_cons]

theorem define_of_defined {n : Nonterminal} (hn : table.nonterminals[id]? = some n) (hd : n.defined) :
    table.define id location = table := by
  have hdefine : n.define location = n := by simp [Nonterminal.define, hd]
  refine congrArg (SymbolTable.mk _) (List.ext_getElem? fun i => ?_)
  rw [List.getElem?_modify]
  by_cases hi : id = i
  case neg => simp [hi]
  case pos =>
    subst hi
    simp [hn, hdefine]

end SymbolTable

namespace Loader

section

variable {α β : Type} {a b : Loader} {x : Reading α} {g g' : α → Reading β}

def withoutNotes (loader : Loader) : Loader :=
  { loader with notes := [] }

def outcome (loader : Loader) (x : Reading α) : Except GrammarError α × Loader :=
  match x.run loader with
  | .ok a new        => (.ok a, new.withoutNotes)
  | .error error new => (.error error, new.withoutNotes)

theorem outcome_of_run_eq {y : Reading α} (h : x.run a = y.run b) : outcome a x = outcome b y := by
  rw [outcome, outcome, h]

theorem run_bind_congr (hg : ∀ c new, x.run a = .ok c new → (g c).run new = (g' c).run new) :
    (x >>= g).run a = (x >>= g').run a := by
  rw [EStateM.run_bind, EStateM.run_bind]
  cases hrun : x.run a
  case error    => rfl
  case ok c new => exact hg c new hrun

theorem outcome_bind_congr (hg : ∀ c new, x.run a = .ok c new → outcome new (g c) = outcome new (g' c)) :
    outcome a (x >>= g) = outcome a (x >>= g') := by
  rw [outcome, outcome, EStateM.run_bind, EStateM.run_bind]
  cases hrun : x.run a
  case error    => rfl
  case ok c new => exact hg c new hrun

-- A reading that does not see the notes of before does the same to loaders that differ in these only.
theorem outcome_note (h : ∀ earlier loader, Recasts id earlier loader x x) (loader : Loader) (note : Note) :
    outcome (loader.note note) x = outcome loader x := by
  have hrecast : ∀ earlier, outcome (loader.withoutNotes.recast id earlier) x =
      outcome loader.withoutNotes x := by
    intro earlier
    have hrun := h earlier loader.withoutNotes
    unfold Recasts at hrun
    rw [outcome, outcome, hrun]
    cases x.run loader.withoutNotes
    all_goals simp [recast_id, withoutNotes]
  have hnoted : loader.withoutNotes.recast id (loader.notes ++ [note]) = loader.note note := by
    simp [recast_id, withoutNotes, Loader.note]
  have hself : loader.withoutNotes.recast id loader.notes = loader := by
    simp [recast_id, withoutNotes]
  calc outcome (loader.note note) x
      = outcome (loader.withoutNotes.recast id (loader.notes ++ [note])) x := by rw [hnoted]
    _ = outcome loader.withoutNotes x := hrecast _
    _ = outcome (loader.withoutNotes.recast id loader.notes) x := (hrecast _).symm
    _ = outcome loader x := by rw [hself]

end

variable {loader new a b : Loader} {number : Nat} {name : String} {id : NonterminalId}

-- What the words of an alternative leave as it is: where the reading is, the root, what is known of the
-- entries and which nonterminals head a rule.
structure Retains (old new : Loader) : Prop extends old.SamePlace new where
  root    : new.root = old.root
  symbols : old.symbols.Grows new.symbols
  hasHead : ∀ {id}, old.rules.hasHead id → new.rules.hasHead id

namespace Retains

theorem refl (loader : Loader) : loader.Retains loader :=
  ⟨.refl loader, rfl, .refl _, fun h => h⟩

theorem trans {a b c : Loader} (h₁ : a.Retains b) (h₂ : b.Retains c) : a.Retains c where
  toSamePlace := h₁.toSamePlace.trans h₂.toSamePlace
  root        := h₂.root.trans h₁.root
  symbols     := h₁.symbols.trans h₂.symbols
  hasHead h   := h₂.hasHead (h₁.hasHead h)

theorem addProduction (loader : Loader) (head : NonterminalId) (symbols : List Symbol) :
    loader.Retains (loader.addProduction head symbols) := by
  refine ⟨samePlace_addProduction symbols, ?_, ?_, fun h => ?_⟩
  all_goals unfold Loader.addProduction; split
  any_goals rfl
  any_goals exact .refl _
  case isTrue  => exact h
  case isFalse => exact Rules.hasHead_add.mpr (.inl h)

theorem addHelper {name : String} (h : loader.symbols.nonterminalNamed? name = none) (base : Symbol)
    (repetition : Repetition) : loader.Retains (loader.addHelper name base repetition).2 := by
  have hentered : loader.Retains (Loader.note
      { loader with symbols := (loader.symbols.insertHelper name loader.location).2 }
      (.repetition name loader.line)) :=
    ⟨⟨rfl, rfl, rfl⟩, rfl, SymbolTable.grows_insertHelper h _, fun h => h⟩
  exact (hentered.trans (addProduction ..)).trans (addProduction ..)

end Retains

def Retaining {α : Type} (x : Reading α) : Prop :=
  ∀ loader : Loader, loader.Retains (loader.after x)

namespace Retaining

variable {α β : Type} {x : Reading α} {g : α → Reading β}

theorem pure (a : α) : Retaining (pure a : Reading α) :=
  fun loader => .refl loader

theorem fail (fault : Fault) : Retaining (Loader.fail fault : Reading α) :=
  fun loader => .refl loader

theorem modify {f : Loader → Loader} (h : ∀ loader : Loader, loader.Retains (f loader)) :
    Retaining (modify f) :=
  h

theorem modifyGet {f : Loader → α × Loader} (h : ∀ loader : Loader, loader.Retains (f loader).2) :
    Retaining (modifyGet f : Reading α) :=
  h

theorem bind (hx : Retaining x) (hg : ∀ a, Retaining (g a)) : Retaining (x >>= g) := by
  intro loader
  have hfirst := hx loader
  unfold after at hfirst ⊢
  rw [EStateM.run_bind]
  cases hrun : x.run loader
  case error =>
    rw [hrun] at hfirst
    exact hfirst
  case ok a mid =>
    rw [hrun] at hfirst
    exact hfirst.trans (hg a mid)

end Retaining

theorem retaining_resolve (item : Item) : Retaining (resolve item) := by
  cases item
  case terminal t =>
    refine .bind (.modifyGet fun loader => ?_) fun _ => .pure _
    exact ⟨⟨rfl, rfl, rfl⟩, rfl, SymbolTable.grows_internTerminal t, fun h => h⟩
  case nonterminal name =>
    refine .bind (.modifyGet fun loader => ?_) fun id => .bind (.modify fun loader => ?_) fun _ => .pure _
    · exact ⟨⟨rfl, rfl, rfl⟩, rfl, SymbolTable.grows_internNonterminal, fun h => h⟩
    · exact ⟨⟨rfl, rfl, rfl⟩, rfl, SymbolTable.grows_reference, fun h => h⟩

theorem retaining_repeated (base : Symbol) (repetition : Repetition) :
    Retaining (repeated base repetition) := by
  intro loader
  cases h : loader.symbols.nonterminalNamed? ((loader.symbols.symbolName base).push repetition.mark)
  case none    => simpa [after, repeated, h] using Retains.addHelper h base repetition
  case some id =>
    cases hs : loader.symbols.isSynthetic id
    case false => simpa [after, repeated, h, hs, run_fail] using Retains.refl loader
    case true  => simpa [after, repeated, h, hs] using Retains.refl loader

theorem retaining_symbolOf (word : Word) : Retaining (symbolOf word) := by
  refine .bind (retaining_resolve word.item) fun base => ?_
  cases word.repetition
  case none => exact .pure _
  case some => exact .bind (retaining_repeated base _) fun _ => .pure _

theorem retaining_mapM_symbolOf (words : List Word) : Retaining (words.mapM symbolOf) := by
  induction words
  case nil => exact .pure []
  case cons word rest ih =>
    rw [List.mapM_cons]
    exact .bind (retaining_symbolOf word) fun _ => .bind ih fun _ => .pure _

theorem retaining_addAlternative (head : NonterminalId) (texts : List (List Char)) :
    Retaining (addAlternative head texts) := by
  have hadd := fun symbols => Retaining.modify fun loader => .addProduction loader head symbols
  unfold addAlternative
  cases alternativeOfTexts texts
  case error => exact .fail _
  case ok words =>
    refine .bind (retaining_mapM_symbolOf words) fun symbols => ?_
    split
    case isTrue  => exact .bind (fun loader => .refl loader) fun _ => .bind (.fail _) fun _ => hadd symbols
    case isFalse => exact hadd symbols

theorem retaining_addAlternatives (head : NonterminalId) (alternatives : List (List (List Char))) :
    Retaining (addAlternatives head alternatives) := by
  induction alternatives
  case nil                => exact .pure _
  case cons texts rest ih => exact .bind (retaining_addAlternative head texts) fun _ => ih

structure Opened (loader : Loader) (name : String) (id : NonterminalId) : Prop where
  current : loader.current = some id
  root    : loader.root.isSome
  named   : loader.symbols.nonterminalNamed? name = some id
  entered : ∃ n, loader.symbols.nonterminals[id]? = some n ∧ n.defined ∧ n.synthetic = false
  hasHead : loader.rules.hasHead id

namespace Opened

theorem retains (h : a.Opened name id) (hr : a.Retains b) : b.Opened name id where
  current := hr.current.trans h.current
  root    := hr.root ▸ h.root
  named   := hr.symbols.nonterminalNamed? h.named
  hasHead := hr.hasHead h.hasHead
  entered := by
    obtain ⟨n, hn, hd, hs⟩ := h.entered
    obtain ⟨m, hm, hg⟩ := hr.symbols.nonterminals hn
    exact ⟨m, hm, hg.defined hd, hg.synthetic.trans hs⟩

theorem openRule_eq (h : loader.Opened name id) :
    loader.openRule id name = loader.note (.ruleHead name loader.line) := by
  obtain ⟨n, hn, hd, _⟩ := h.entered
  obtain ⟨root, hroot⟩ := Option.isSome_iff_exists.mp h.root
  have hdeclare : loader.rules.declare id = loader.rules := if_pos h.hasHead
  rw [Loader.openRule_eq, SymbolTable.define_of_defined hn hd, hdeclare]
  simp [note, hroot, h.current]

theorem run_declare (h : loader.Opened name id) :
    (declare name).run loader = .ok id (loader.note (.ruleHead name loader.line)) := by
  obtain ⟨n, hn, _, hs⟩ := h.entered
  have hsynthetic := (SymbolTable.isSynthetic_of_getElem? hn).trans hs
  have hintern : loader.internNonterminal name = (id, loader) := by
    simp [internNonterminal, SymbolTable.internNonterminal, h.named]
  simp [declare, hintern, hsynthetic, h.openRule_eq]

end Opened

theorem opened_openRule {n : Nonterminal} (hnamed : loader.symbols.nonterminalNamed? name = some id)
    (hn : loader.symbols.nonterminals[id]? = some n) (hs : n.synthetic = false) :
    (loader.openRule id name).Opened name id where
  current := current_openRule
  root    := by cases h : loader.root <;> simp [h]
  named   := (grows_openRule loader id name).nonterminalNamed? hnamed
  hasHead := by
    rw [rules_openRule]
    exact Rules.hasHead_declare.mpr (.inr rfl)
  entered := by
    have hdefined : (loader.symbols.define id loader.location).nonterminals[id]? =
        some (n.define loader.location) := by
      simp [SymbolTable.define, hn]
    have hsynthetic : (n.define loader.location).synthetic = false :=
      (Nonterminal.grows_define loader.location).synthetic.trans hs
    cases hroot : loader.root
    case some =>
      rw [symbols_openRule_of_root (hroot ▸ rfl)]
      exact ⟨_, hdefined, Nonterminal.define_defined _, hsynthetic⟩
    case none =>
      rw [symbols_openRule_of_no_root hroot]
      exact ⟨(n.define loader.location).reference, by simp [SymbolTable.reference, hdefined],
        Nonterminal.define_defined _, hsynthetic⟩

theorem opened_of_run_declare (h : (declare name).run loader = .ok id new) :
    new.Opened name id ∧ new.line = loader.line := by
  have hnamed := loader.symbols.nonterminalNamed?_internNonterminal name loader.location
  obtain ⟨hlt, _⟩ := List.findIdx?_eq_some_iff_getElem.mp hnamed
  have hn := List.getElem?_eq_getElem hlt
  cases hs : (loader.internNonterminal name).2.symbols.isSynthetic (loader.internNonterminal name).1
  case true  => simp [declare, hs, run_fail] at h
  case false =>
    simp [declare, hs] at h
    obtain ⟨rfl, rfl⟩ := h
    refine ⟨opened_openRule hnamed hn ?_, ?_⟩
    · exact (SymbolTable.isSynthetic_of_getElem? hn).symm.trans hs
    · rw [openRule_eq]
      rfl

theorem opened_of_run {alternatives : List (List (List Char))} {mid : Loader}
    (hdeclare : (declare name).run loader = .ok id mid)
    (hadd : (addAlternatives id alternatives).run mid = .ok () new) :
    new.Opened name id ∧ new.line = loader.line := by
  have ⟨hopened, hline⟩ := opened_of_run_declare hdeclare
  have hretains := retaining_addAlternatives id alternatives mid
  rw [after, hadd] at hretains
  exact ⟨hopened.retains hretains, hretains.line.trans hline⟩

section

variable {name right right' : List Char}

theorem addAlternatives_append (before after : List (List (List Char))) :
    addAlternatives id (before ++ after) =
      addAlternatives id before >>= fun _ => addAlternatives id after :=
  List.forM_append

theorem readLine_headLine (hn : isIdentifier name) (hr : '#' ∉ right) :
    readLine number (headLine name right) = (do
      modify (·.atLine number)
      let id ← declare (String.ofList name)
      addAlternatives id (Line.splitAlternatives right)) := by
  simp [readLine, Line.ofText_headLine hn hr, hn]

theorem run_readLine_barLine (h : loader.current = some id) (hr : '#' ∉ right) :
    (readLine loader.line (barLine right)).run loader =
      (addAlternatives id (Line.splitAlternatives right)).run loader := by
  have hline : loader.atLine loader.line = loader := rfl
  simp [readLine, Line.ofText_barLine hr, hline, h]

theorem Opened.outcome_readLine_headLine (h : loader.Opened (String.ofList name) id)
    (hn : isIdentifier name) (hr : '#' ∉ right) :
    outcome loader (readLine loader.line (headLine name right)) =
      outcome loader (addAlternatives id (Line.splitAlternatives right)) := by
  have hline : loader.atLine loader.line = loader := rfl
  have hrun : (readLine loader.line (headLine name right)).run loader =
      (addAlternatives id (Line.splitAlternatives right)).run
        (loader.note (.ruleHead (String.ofList name) loader.line)) := by
    simp [readLine_headLine hn hr, hline, h.run_declare]
  rw [outcome_of_run_eq hrun]
  exact outcome_note (fun _ _ => recasts_addAlternatives _) ..

theorem opened_of_run_readLine_headLine (hn : isIdentifier name) (hr : '#' ∉ right)
    (h : (readLine number (headLine name right)).run loader = .ok () new) :
    new.line = number ∧ ∃ id, new.Opened (String.ofList name) id := by
  rw [readLine_headLine hn hr, EStateM.run_bind, EStateM.run_modify] at h
  dsimp only at h
  rw [EStateM.run_bind] at h
  split at h
  case h_2 => cases h
  case h_1 id mid hdeclare =>
    have ⟨hopened, hline⟩ := opened_of_run hdeclare h
    exact ⟨hline, id, hopened⟩

-- The lines that give a rule two right-hand sides: the second one behind a bar, in a line that starts with a
-- bar, or under the same head again.
structure AddAlike (loader : Loader) (number : Nat) (name right right' : List Char) : Prop where
  continued : (readLine number (headLine name (right ++ [' ', '|', ' '] ++ right'))).run loader =
    (do readLine number (headLine name right); readLine number (barLine right')).run loader
  repeated : outcome loader (readLine number (headLine name (right ++ [' ', '|', ' '] ++ right'))) =
    outcome loader do readLine number (headLine name right); readLine number (headLine name right')

theorem run_readLine_bar (hn : isIdentifier name) (hr : '#' ∉ right) (hr' : '#' ∉ right') :
    (readLine number (headLine name (right ++ [' ', '|', ' '] ++ right'))).run loader =
      (do readLine number (headLine name right); readLine number (barLine right')).run loader := by
  have hjoined : '#' ∉ right ++ [' ', '|', ' '] ++ right' := by simp [hr, hr']
  rw [readLine_headLine hn hjoined, readLine_headLine hn hr, Line.splitAlternatives_append_bar]
  simp only [addAlternatives_append, bind_assoc]
  refine run_bind_congr fun _ mid hmid => ?_
  cases hmid
  refine run_bind_congr fun id opened hdeclare => run_bind_congr fun _ new hadd => ?_
  obtain ⟨hopened, hline⟩ := opened_of_run hdeclare hadd
  have hnumber : new.line = number := hline
  rw [← hnumber, run_readLine_barLine hopened.current hr']

theorem addAlike_of_isIdentifier (loader : Loader) (number : Nat) (hn : isIdentifier name)
    (hr : '#' ∉ right) (hr' : '#' ∉ right') : loader.AddAlike number name right right' where
  continued := run_readLine_bar hn hr hr'
  repeated := by
    rw [outcome_of_run_eq (run_readLine_bar hn hr hr')]
    refine outcome_bind_congr fun _ new hrun => ?_
    obtain ⟨rfl, id, hopened⟩ := opened_of_run_readLine_headLine hn hr hrun
    rw [hopened.outcome_readLine_headLine hn hr']
    exact outcome_of_run_eq (run_readLine_barLine hopened.current hr')

-- There are bars at both ends of the two texts, a doubled one between alternatives, and an arrow and a bar in
-- a literal. The five productions are three of the root and two of a helper.
theorem addAlike_of_doubled_bars :
    (start none).AddAlike 1 ['S'] "| a | | '→|' A*".toList "| 0 |".toList ∧
      (outcome (start none) do
        readLine 1 (headLine ['S'] "| a | | '→|' A*".toList)
        readLine 1 (barLine "| 0 |".toList)).2.nextProduction = 5 :=
  ⟨addAlike_of_isIdentifier (start none) 1 (by decide +kernel) (by decide +kernel) (by decide +kernel),
    by decide +kernel⟩

end

end Loader
end LineGrammar
