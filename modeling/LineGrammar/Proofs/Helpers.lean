import LineGrammar.Proofs.Census

/-!
The helpers of repetitions. Each repeated word that a source has gets one helper, whose two productions
say what the mark means. Nothing that is read later changes them, and no rule is ever opened for one.
-/

namespace LineGrammar

namespace Loader

variable {a b c loader new : Loader} {piece : Piece} {pieces : List Piece} {id : NonterminalId}

structure KeepsHelpers (old new : Loader) : Prop where
  symbols       : old.symbols.Grows new.symbols
  productionsOf : ∀ {id}, old.symbols.isSynthetic id = true →
    new.rules.productionsOf id = old.rules.productionsOf id

namespace KeepsHelpers

theorem refl (loader : Loader) : loader.KeepsHelpers loader :=
  ⟨.refl _, fun _ => rfl⟩

theorem trans (h₁ : a.KeepsHelpers b) (h₂ : b.KeepsHelpers c) : a.KeepsHelpers c where
  symbols          := h₁.symbols.trans h₂.symbols
  productionsOf hs :=
    (h₂.productionsOf (h₁.symbols.isSynthetic hs)).trans (h₁.productionsOf hs)

end KeepsHelpers

theorem keepsHelpers_addProduction {head : NonterminalId} (hw : loader.symbols.isSynthetic head = false)
    (symbols : List Symbol) : loader.KeepsHelpers (loader.addProduction head symbols) := by
  refine ⟨symbols_addProduction head symbols ▸ .refl _, fun {id} hs => ?_⟩
  have hne : head ≠ id := by
    rintro rfl
    simp [hw] at hs
  unfold addProduction
  split
  case isTrue  => rfl
  case isFalse => exact Rules.productionsOf_add.trans (if_neg hne)

theorem keepsHelpers_addHelper {name : String} (hs : loader.Sound)
    (hf : loader.symbols.nonterminalNamed? name = none) (base : Symbol) (repetition : Repetition) :
    loader.KeepsHelpers (loader.addHelper name base repetition).2 := by
  refine ⟨symbols_addHelper name base repetition ▸ SymbolTable.grows_insertHelper hf loader.location,
    fun {id} hid => ?_⟩
  have hne : loader.symbols.nonterminals.length ≠ id := by
    rintro rfl
    simp [SymbolTable.isSynthetic] at hid
  rw [addHelper_eq hs hf]
  simp [Rules.productionsOf_add, hne]

theorem Step.keepsHelpers (hs : a.Sound) (h : a.Step piece b) : a.KeepsHelpers b := by
  cases h
  case line        => exact ⟨.refl _, fun _ => rfl⟩
  case shared      => exact .refl a
  case terminal t _ => exact ⟨SymbolTable.grows_internTerminal t, fun _ => rfl⟩
  case nonterminal =>
    exact ⟨SymbolTable.grows_internNonterminal.trans SymbolTable.grows_reference, fun _ => rfl⟩
  case head name _ =>
    have hg : a.symbols.Grows (a.internNonterminal name).2.symbols := SymbolTable.grows_internNonterminal
    refine ⟨hg.trans (grows_openRule ..), fun _ => ?_⟩
    rw [rules_openRule, Rules.productionsOf_declare]
    rfl
  case helper hf => exact keepsHelpers_addHelper hs hf _ _
  case alternative hc _ _ => exact keepsHelpers_addProduction (hs.current hc).left _

theorem Steps.keepsHelpers (hs : a.Sound) (h : a.Steps pieces b) : a.KeepsHelpers b := by
  induction h
  case nil => exact .refl _
  case cons hstep _ ih => exact (hstep.keepsHelpers hs).trans (ih (hstep.sound hs))

-- The root has been entered by a rule head, so it is no helper.
theorem Records.isSynthetic_root {heads : List String} {clauses : List Clause}
    (hr : loader.Records heads clauses) (hs : loader.Sound) (hroot : loader.root = some id) :
    loader.symbols.isSynthetic id = false := by
  have ⟨n, hn, _⟩ := hs.root hroot
  have hhead := hr.root
  rw [hroot, Option.map_some, SymbolTable.nonterminalName_of_getElem? hn] at hhead
  exact hr.isSynthetic_of_mem_heads hs.symbols hn (List.mem_of_head? hhead.symm)

theorem run_readLines_append_iff {number : Nat} {before after : List (Option (List Char))} :
    (readLines number (before ++ after)).run loader = .ok () new ↔
      ∃ mid, (readLines number before).run loader = .ok () mid ∧
        (readLines (number + before.length) after).run mid = .ok () new := by
  rw [readLines_append, EStateM.run_bind]
  cases (readLines number before).run loader <;> simp

theorem sound_and_records_of_run {file : Option String} {lines : List (Option (List Char))}
    (h : run file lines = .ok () new) :
    new.Sound ∧ new.Records (headNames (linesOf lines)) (clausesFrom none (linesOf lines)) := by
  obtain ⟨texts, rfl⟩ := exists_texts_of_readLines h
  rw [linesOf_map_some]
  cases hf : firstFault? none 1 (texts.map Line.ofText)
  case some =>
    have ⟨_, hrun⟩ := run_readLines_error (sound_start file) (records_start file) hf
    cases hrun.symm.trans h
  case none =>
    have ⟨loader, hrun, hs, hr, _⟩ := Grammar.exists_run_of_no_fault file hf
    cases hrun.symm.trans h
    exact ⟨hs, hr⟩

end Loader

def Repetition.expansion {α : Type} (helper base : α) : Repetition → List (List α)
  | zeroOrMore => [[helper, base], []]
  | oneOrMore  => [[helper, base], [base]]
  | optional   => [[base], []]

theorem Repetition.map_expansion {α β : Type} (f : α → β) (helper base : α) (repetition : Repetition) :
    (repetition.expansion helper base).map (List.map f) = repetition.expansion (f helper) (f base) := by
  cases repetition <;> rfl

theorem Rules.Expand.map_symbols_eq {rules : Rules} {helper : NonterminalId} {base : Symbol}
    {repetition : Repetition} (h : rules.Expand helper base repetition) :
    (rules.productionsOf helper).map Production.symbols =
      repetition.expansion (.nonterminal helper) base := by
  rw [h]
  cases repetition <;> rfl

namespace Grammar

variable {g : Grammar} {base other : Symbol} {repetition repetition' : Repetition} {helper : NonterminalId}

-- The helper is named after the symbol and the mark. A nonterminal whose name does not start with an
-- uppercase character is never what stands before a mark, as there its name is that of a terminal.
structure Repeats (g : Grammar) (base : Symbol) (repetition : Repetition) (helper : NonterminalId) :
    Prop where
  item  : ∃ item : Item, item.WellFormed ∧ g.symbols.Denotes item base
  entry : ∃ n, g.symbols.nonterminals[helper]? = some n ∧ n.synthetic = true ∧
    n.name = (g.symbols.symbolName base).push repetition.mark

-- A helper is found again by its name, which is the repeated word as it is written. So there is one
-- for each such word of the lines and no other, and what the two productions of a helper are can be
-- told from the word.
structure SharesHelpers (g : Grammar) (lines : List Line) : Prop where
  used        : ∀ (base : List Char) (repetition : Repetition),
    (∃ n ∈ g.symbols.nonterminals, n.synthetic = true ∧ n.name.toList = base ++ [repetition.mark]) ↔
      ∃ line ∈ lines, ∃ texts ∈ line.texts, base ++ [repetition.mark] ∈ texts
  single      : ∀ {i j : NonterminalId} {m n}, g.symbols.nonterminals[i]? = some m →
    g.symbols.nonterminals[j]? = some n → m.name = n.name → i = j
  repeats     : ∀ {id}, g.symbols.isSynthetic id = true → ∃ base repetition, g.Repeats base repetition id
  distinct    : ∀ {base other repetition repetition' id}, g.Repeats base repetition id →
    g.Repeats other repetition' id → base = other ∧ repetition = repetition'
  productions : ∀ {base repetition id}, g.Repeats base repetition id →
    (g.productionsOf id).map Production.symbols = repetition.expansion (.nonterminal id) base
  root        : g.symbols.isSynthetic g.root = false

theorem Repeats.unique (hg : g.Sound) (h₁ : g.Repeats base repetition helper)
    (h₂ : g.Repeats other repetition' helper) : base = other ∧ repetition = repetition' := by
  have ⟨item, hi, hd⟩ := h₁.item
  have ⟨item', hi', hd'⟩ := h₂.item
  have ⟨n, hn, _, he⟩ := h₁.entry
  have ⟨m, hm, _, he'⟩ := h₂.entry
  cases hn.symm.trans hm
  have htext : Word.text ⟨item, some repetition⟩ = Word.text ⟨item', some repetition'⟩ := by
    have := congrArg String.toList (he.symm.trans he')
    simpa [hd.symbolName, hd'.symbolName, Word.text] using this
  cases Word.text_injective hi hi' htext
  exact ⟨hd.unique hg.symbols hd', rfl⟩

theorem exists_repeats (hg : g.Sound) (hs : g.symbols.isSynthetic helper = true) :
    ∃ base repetition, g.Repeats base repetition helper ∧ g.rules.Expand helper base repetition := by
  cases hn : g.symbols.nonterminals[helper]?
  case none => simp [SymbolTable.isSynthetic, hn] at hs
  case some n =>
    rw [SymbolTable.isSynthetic_of_getElem? hn] at hs
    obtain ⟨_, item, repetition, base, hi, ht, hd, hx⟩ := hg.rules.helpers hn hs
    refine ⟨base, repetition, ⟨⟨item, hi, hd⟩, n, hn, hs, String.toList_injective ?_⟩, hx⟩
    simpa [hd.symbolName, Word.text] using ht

theorem Repeats.map_symbols_eq (hg : g.Sound) (h : g.Repeats base repetition helper) :
    (g.productionsOf helper).map Production.symbols =
      repetition.expansion (.nonterminal helper) base := by
  have ⟨n, hn, hs, _⟩ := h.entry
  have ⟨_, _, h', hx⟩ := exists_repeats hg (SymbolTable.isSynthetic_of_getElem? hn ▸ hs)
  obtain ⟨rfl, rfl⟩ := h.unique hg h'
  exact hx.map_symbols_eq

variable {file : Option String} {lines : List (Option (List Char))}

theorem exists_helper_iff (h : ofLines file lines = .ok g) {base : List Char} :
    (∃ n ∈ g.symbols.nonterminals, n.synthetic = true ∧ n.name.toList = base ++ [repetition.mark]) ↔
      ∃ line ∈ linesOf lines, ∃ texts ∈ line.texts, base ++ [repetition.mark] ∈ texts := by
  obtain ⟨hg, hr⟩ := sound_and_records_of_ofLines h
  have hc := census_of_ofLines h
  have hf := firstFault?_of_ofLines h
  constructor
  case mp =>
    rintro ⟨n, hm, hs, he⟩
    obtain ⟨item, repetition', hi, ht⟩ := (hg.symbols.nonterminal n hm).repeated hs
    obtain ⟨clause, hclause, words, hw, hu⟩ := (hc.helper item repetition' hi).mp ⟨n, hm, hs, ht⟩
    obtain ⟨line, hl, htexts⟩ := exists_line_of_mem_clausesFrom hclause
    have := (mem_iff_of_alternativeOfTexts hw).mp hu
    exact ⟨line, hl, clause.texts, htexts, he ▸ ht ▸ this.right⟩
  case mpr =>
    rintro ⟨line, hl, texts, htexts, hm⟩
    obtain ⟨clause, hclause, rfl⟩ := exists_clause_of_mem_texts hf hl htexts
    obtain ⟨_, _, _, words, hw, _⟩ := exists_writes_of_mem_clauses hr hclause
    cases alternativeOfTexts_eq_ok_iff.mp hw
    case inl hz =>
      rw [hz.left, List.mem_singleton] at hm
      cases repetition <;> simp [Repetition.mark, List.append_eq_singleton_iff] at hm
    case inr hwords =>
      obtain ⟨word, hmem, ht⟩ := exists_right_of_forall₂ hwords.right hm
      obtain ⟨item, hi, rfl, rfl⟩ := Word.ofText_append_mark_eq_ok_iff.mp ht
      exact (hc.helper item repetition hi).mpr ⟨clause, hclause, words, hw, hmem⟩

theorem sharesHelpers_of_ofLines (h : ofLines file lines = .ok g) :
    g.SharesHelpers (linesOf lines) := by
  have ⟨hg, hr⟩ := sound_and_records_of_ofLines h
  constructor
  case used        => exact fun _ _ => exists_helper_iff h
  case single      => exact hg.symbols.id_eq
  case repeats     => exact fun hs => (exists_repeats hg hs).imp fun _ => .imp fun _ => And.left
  case distinct    => exact fun h₁ h₂ => h₁.unique hg h₂
  case productions => exact fun hr => hr.map_symbols_eq hg
  case root =>
    have ⟨n, hn, _⟩ := hg.root
    have hhead := hr.root
    rw [SymbolTable.nonterminalName_of_getElem? hn] at hhead
    exact hr.isSynthetic_of_mem_heads hg.symbols hn (List.mem_of_head? hhead)

-- Whatever follows a part of the source, the helpers of that part stay as they are, and neither the
-- root nor the open rule is that of a helper.
theorem sharesHelpers_and_keeps_of_ofLines (h : ofLines file lines = .ok g) :
    g.SharesHelpers (linesOf lines) ∧
      ∀ before after, lines = before ++ after → ∃ mid, Loader.run file before = .ok () mid ∧
        (∀ id, mid.root = some id ∨ mid.current = some id → mid.symbols.isSynthetic id = false) ∧
        ∀ (id : NonterminalId) n, mid.symbols.nonterminals[id]? = some n → n.synthetic = true →
          (∃ n', g.symbols.nonterminals[id]? = some n' ∧ n'.synthetic = true ∧ n'.name = n.name) ∧
            g.productionsOf id = mid.rules.productionsOf id := by
  refine ⟨sharesHelpers_of_ofLines h, ?_⟩
  rintro before after rfl
  have ⟨last, hrun, hfinish⟩ := exists_run_of_ofLines h
  have ⟨mid, hbefore, hafter⟩ := Loader.run_readLines_append_iff.mp hrun
  have ⟨hs, hr⟩ := Loader.sound_and_records_of_run hbefore
  obtain ⟨texts, rfl⟩ := Loader.exists_texts_of_readLines hafter
  have hkeeps := (Loader.steps_of_run_readLines hs hafter).keepsHelpers hs
  obtain ⟨root, hroot, rfl⟩ := Loader.finish_eq_ok_iff.mp hfinish
  refine ⟨mid, hbefore, fun id hor => ?_, fun id n hn hsyn => ⟨?_, ?_⟩⟩
  · cases hor
    case inl hroot => exact hr.isSynthetic_root hs hroot
    case inr hc    => exact (hs.current hc).left
  · have ⟨n', hn', hgrows⟩ := hkeeps.symbols.nonterminals hn
    exact ⟨n', hn', hgrows.synthetic.trans hsyn, hgrows.name⟩
  · exact hkeeps.productionsOf (SymbolTable.isSynthetic_of_getElem? hn ▸ hsyn)

-- The rule for `foo` adds nothing to the helper of the terminal that has the same name.
theorem sharesHelpers_of_head_named_like_base :
    ∃ g, ofLines none (["A → foo* foo* | b?", "foo → foo* | 0 | 0", "| A+"].map (some ·.toList)) = .ok g ∧
      g.symbols.nonterminals[3]? = some ⟨"foo", ⟨none, 2⟩, false, true, false⟩ ∧
      g.Repeats (.terminal 0) .zeroOrMore 1 ∧
      (g.productionsOf 1).map Production.symbols = [[.nonterminal 1, .terminal 0], []] ∧
      ∃ mid, Loader.run none (["A → foo* foo* | b?"].map (some ·.toList)) = .ok () mid ∧
        ∀ id, mid.current = some id → mid.symbols.isSynthetic id = false := by
  obtain ⟨g, hg, hb, hs, hfoo⟩ : ∃ g,
      ofLines none (["A → foo* foo* | b?", "foo → foo* | 0 | 0", "| A+"].map (some ·.toList)) = .ok g ∧
      g.symbols.terminals[0]? = some (.named "foo") ∧
      g.symbols.nonterminals[1]? = some (.helper "foo*" ⟨none, 1⟩) ∧
      g.symbols.nonterminals[3]? = some ⟨"foo", ⟨none, 2⟩, false, true, false⟩ :=
    exists_of_ofLines (by decide +kernel)
  have ⟨hshares, hkeeps⟩ := sharesHelpers_and_keeps_of_ofLines hg
  have hrepeats : g.Repeats (.terminal 0) .zeroOrMore 1 :=
    ⟨⟨.terminal (.named "foo"), ⟨by decide +kernel, by decide +kernel⟩, .terminal hb⟩, _, hs, rfl,
      by rw [(SymbolTable.Denotes.terminal hb).symbolName]; decide +kernel⟩
  have ⟨mid, hrun, hwritten, _⟩ := hkeeps (["A → foo* foo* | b?"].map (some ·.toList)) _ rfl
  exact ⟨g, hg, hfoo, hrepeats, hshares.productions hrepeats, mid, hrun,
    fun id hc => hwritten id (.inr hc)⟩

end Grammar
end LineGrammar
