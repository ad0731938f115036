import LineGrammar.Proofs.Ebnf
import LineGrammar.Proofs.Languages
import LineGrammar.Proofs.Reading

/-!
Compiling a source keeps its languages. A nonterminal that is written down derives what its
alternatives say, and the helper of a repetition derives the repeated language.
-/

open Computability

namespace LineGrammar

variable {g : Grammar} {heads : List String} {clauses : List Clause} {meaning : Meaning}
variable {item : Item} {word : Word} {words : List Word} {symbol : Symbol} {symbols : List Symbol}
variable {helper : NonterminalId} {base : Symbol} {repetition : Repetition}

theorem Repetition.prod_le {meaning : Symbol → Language Terminal}
    (hh : meaning (.nonterminal helper) = repetition.language (meaning base))
    (hs : symbols = (Loader.helperAlternatives helper base repetition).1 ∨
      symbols = (Loader.helperAlternatives helper base repetition).2) :
    (symbols.map meaning).prod ≤ meaning (.nonterminal helper) := by
  cases repetition <;> obtain rfl | rfl := hs <;>
    simp only [Loader.helperAlternatives, List.map_cons, List.map_nil, List.prod_cons, List.prod_nil,
      mul_one, hh, Repetition.language]
  case zeroOrMore.inl => exact kstar_mul_le_kstar
  case zeroOrMore.inr => exact one_le_kstar
  case oneOrMore.inl =>
    rw [mul_assoc]
    exact mul_le_mul_right kstar_mul_le_kstar _
  case oneOrMore.inr => exact le_mul_of_one_le_right' one_le_kstar
  case optional.inl => exact le_add_self
  case optional.inr => exact le_self_add

theorem Grammar.language_le_helper (h : g.rules.Expand helper base repetition) :
    repetition.language (g.formLanguage [base]) ≤ g.formLanguage [.nonterminal helper] := by
  have ⟨⟨first, hfirst, he₁⟩, second, hsecond, he₂⟩ := h.mem
  have h₁ : g.formLanguage first.symbols ≤ g.formLanguage [.nonterminal helper] :=
    formLanguage_le_of_mem hfirst
  have h₂ : g.formLanguage second.symbols ≤ g.formLanguage [.nonterminal helper] :=
    formLanguage_le_of_mem hsecond
  rw [he₁] at h₁
  rw [he₂] at h₂
  have happend : g.formLanguage [.nonterminal helper, base] =
      g.formLanguage [.nonterminal helper] * g.formLanguage [base] :=
    formLanguage_append (a := [.nonterminal helper])
  cases repetition <;> simp only [Loader.helperAlternatives, happend, formLanguage_nil] at h₁ h₂
  case zeroOrMore => exact kstar_le_of_mul_le_left h₂ h₁
  case oneOrMore  => exact mul_kstar_le h₂ h₁
  case optional   => exact add_le h₂ h₁

namespace SymbolTable

variable {table : SymbolTable}

-- What a symbol says: the nonterminals go by their names, and a helper by the word that it is named
-- after.
def language (table : SymbolTable) (meaning : Meaning) : Symbol → Language Terminal
  | .terminal id    => {string | ∃ t, table.terminals[id]? = some t ∧ string = [t]}
  | .nonterminal id =>
    match table.nonterminals[id]? with
    | none   => 0
    | some n =>
      if n.synthetic then
        match Word.ofText n.name.toList with
        | .error _ => 0
        | .ok word => word.language meaning
      else meaning n.name

theorem Denotes.language (h : table.Denotes item symbol) :
    table.language meaning symbol = item.language meaning := by
  cases h
  case terminal t ht =>
    apply Language.ext
    intro string
    constructor
    · rintro ⟨t', ht', rfl⟩
      cases ht.symm.trans ht'
      rfl
    · rintro rfl
      exact ⟨t, ht, rfl⟩
  case nonterminal hn hs => simp [SymbolTable.language, hn, hs, Item.language]

theorem Spells.language (h : table.Spells word symbol) (hw : word.item.WellFormed) :
    table.language meaning symbol = word.language meaning := by
  cases h
  case plain hd => exact hd.language
  case repeated item repetition id n hn hs ht =>
    have : Word.ofText n.name.toList = .ok ⟨item, some repetition⟩ :=
      Word.ofText_eq_ok_iff.mpr ⟨hw, ht⟩
    simp [SymbolTable.language, hn, hs, this]

theorem prod_language (h : List.Forall₂ table.Spells words symbols)
    (hw : ∀ word ∈ words, word.item.WellFormed) :
    (symbols.map (table.language meaning)).prod = wordsLanguage meaning words := by
  induction h
  case nil => rfl
  case cons hs _ ih =>
    rw [List.forall_mem_cons] at hw
    rw [List.map_cons, List.prod_cons, hs.language hw.left, ih hw.right]
    rfl

end SymbolTable

namespace Grammar

-- The productions say nothing that the alternatives do not.
theorem formLanguage_le_of_closedUnder (hg : g.Sound) (hr : g.Records heads clauses)
    (hc : ClosedUnder clauses meaning) (form : List Symbol) :
    g.formLanguage form ≤ (form.map (g.symbols.language meaning)).prod := by
  apply formLanguage_le
  case ht => exact fun id t ht => ⟨t, ht, rfl⟩
  case hp =>
    intro id production hp
    obtain ⟨n, hn⟩ : ∃ n, g.symbols.nonterminals[id]? = some n :=
      ⟨_, List.getElem?_eq_getElem (hg.lt_nonterminalCount hp)⟩
    cases hs : n.synthetic
    case false =>
      have ⟨texts, ht, words, hw, hf⟩ := exists_left_of_forall₂ (hr.productions hn hs) hp
      have hm := mem_alternativesOf.mp ((mem_keepFirst isEpsilonText_iff).mp ht)
      rw [SymbolTable.prod_language hf (wellFormed_of_alternativeOfTexts hw),
        (SymbolTable.Denotes.nonterminal hn hs).language]
      exact hc _ hm words hw
    case true =>
      have ⟨_, item, repetition, base, hi, ht, hd, hx⟩ := hg.rules.helpers hn hs
      refine Repetition.prod_le ?_ (hx.symbols_eq hp)
      rw [(SymbolTable.Spells.repeated hn hs ht).language hi, hd.language]
      rfl

def namedLanguage (g : Grammar) : Meaning :=
  fun name => {string | ∃ (id : NonterminalId) (n : Nonterminal),
    g.symbols.nonterminals[id]? = some n ∧ n.synthetic = false ∧ n.name = name ∧
      string ∈ g.formLanguage [.nonterminal id]}

theorem namedLanguage_eq (hg : g.Sound) {id : NonterminalId} {n : Nonterminal}
    (hn : g.symbols.nonterminals[id]? = some n) (hs : n.synthetic = false) :
    g.namedLanguage n.name = g.formLanguage [.nonterminal id] := by
  apply Language.ext
  intro string
  constructor
  case mp =>
    intro ⟨i, m, hm, _, he, hy⟩
    cases hg.symbols.id_eq hm hn he
    exact hy
  case mpr => exact fun hy => ⟨id, n, hn, hs, rfl, hy⟩

theorem language_of_denotes (hg : g.Sound) (h : g.symbols.Denotes item symbol) :
    item.language g.namedLanguage = g.formLanguage [symbol] := by
  cases h
  case terminal ht       => exact (formLanguage_terminal ht).symm
  case nonterminal hn hs => exact namedLanguage_eq hg hn hs

theorem language_le_of_spells (hg : g.Sound) (h : g.symbols.Spells word symbol)
    (hw : word.item.WellFormed) : word.language g.namedLanguage ≤ g.formLanguage [symbol] := by
  cases h
  case plain hd => exact (language_of_denotes hg hd).le
  case repeated item repetition id n hn hs ht =>
    have ⟨_, item', repetition', base, hi, ht', hd, hx⟩ := hg.rules.helpers hn hs
    cases Word.text_injective hw hi (ht.symm.trans ht')
    have := language_le_helper hx
    rwa [← language_of_denotes hg hd] at this

theorem wordsLanguage_le_of_spells (hg : g.Sound) (h : List.Forall₂ g.symbols.Spells words symbols)
    (hw : ∀ word ∈ words, word.item.WellFormed) :
    wordsLanguage g.namedLanguage words ≤ g.formLanguage symbols := by
  rw [formLanguage_eq_prod]
  induction h
  case nil => exact le_refl _
  case cons hs _ ih =>
    rw [List.forall_mem_cons] at hw
    exact mul_le_mul' (language_le_of_spells hg hs hw.left) (ih hw.right)

-- The productions say all that the alternatives do.
theorem closedUnder_namedLanguage (hg : g.Sound) (hr : g.Records heads clauses) :
    ClosedUnder clauses g.namedLanguage := by
  intro ⟨head, texts⟩ hm words hw
  obtain ⟨id, n, hn, hs, rfl⟩ := hr.entered head (hr.headed _ hm).left
  have ht := (mem_keepFirst isEpsilonText_iff).mpr (mem_alternativesOf.mpr hm)
  have ⟨production, hp, words', hw', hf⟩ := exists_right_of_forall₂ (hr.productions hn hs) ht
  cases hw.symm.trans hw'
  calc wordsLanguage g.namedLanguage words
      ≤ g.formLanguage production.symbols :=
        wordsLanguage_le_of_spells hg hf (wellFormed_of_alternativeOfTexts hw)
    _ ≤ g.formLanguage [.nonterminal id] := formLanguage_le_of_mem hp
    _ = g.namedLanguage n.name := (namedLanguage_eq hg hn hs).symm

theorem formLanguage_of_denotes (hg : g.Sound) (hr : g.Records heads clauses)
    (h : g.symbols.Denotes item symbol) :
    g.formLanguage [symbol] = item.language (ebnfLanguage clauses) := by
  refine le_antisymm ?_ ?_
  · simpa [h.language] using formLanguage_le_of_closedUnder hg hr closedUnder_ebnfLanguage [symbol]
  · rw [← language_of_denotes hg h]
    exact item.language_mono (ebnfLanguage_le (closedUnder_namedLanguage hg hr))

theorem formLanguage_of_spells (hg : g.Sound) (hr : g.Records heads clauses)
    (h : g.symbols.Spells word symbol) (hw : word.item.WellFormed) :
    g.formLanguage [symbol] = word.language (ebnfLanguage clauses) := by
  refine le_antisymm ?_ ?_
  · simpa [h.language hw] using formLanguage_le_of_closedUnder hg hr closedUnder_ebnfLanguage [symbol]
  · have hle := word.language_mono (ebnfLanguage_le (closedUnder_namedLanguage hg hr))
    exact hle.trans (language_le_of_spells hg h hw)

variable {file : Option String} {lines : List (Option (List Char))}

theorem generates_ebnfLanguage (h : ofLines file lines = .ok g) {id : NonterminalId}
    {n : Nonterminal} (hn : g.symbols.nonterminals[id]? = some n) :
    (n.synthetic = false →
      g.Generates id (ebnfLanguage (clausesFrom none (linesOf lines)) n.name)) ∧
    (n.synthetic = true → ∃ item repetition,
      Word.ofText n.name.toList = .ok ⟨item, some repetition⟩ ∧
      g.Generates id
        (repetition.language (item.language (ebnfLanguage (clausesFrom none (linesOf lines)))))) := by
  have ⟨hg, hr⟩ := sound_and_records_of_ofLines h
  have hgen := generates_formLanguage hg id
  constructor
  case left =>
    intro hs
    rwa [formLanguage_of_denotes hg hr (.nonterminal hn hs)] at hgen
  case right =>
    intro hs
    have ⟨_, item, repetition, _, hi, ht, _⟩ := hg.rules.helpers hn hs
    refine ⟨item, repetition, Word.ofText_eq_ok_iff.mpr ⟨hi, ht⟩, ?_⟩
    rwa [formLanguage_of_spells hg hr (.repeated hn hs ht) hi] at hgen

theorem generates_recursion_through_helper :
    ∃ g, ofLines none (["S → A* b", "A → a S", "| c"].map (some ·.toList)) = .ok g ∧
      g.Generates 1 (ebnfLanguage (clausesFrom none
        (linesOf (["S → A* b", "A → a S", "| c"].map (some ·.toList)))) "A") ∧
      g.Generates 2 (ebnfLanguage (clausesFrom none
        (linesOf (["S → A* b", "A → a S", "| c"].map (some ·.toList)))) "A")∗ := by
  obtain ⟨g, hg, hA, hstar⟩ : ∃ g,
      ofLines none (["S → A* b", "A → a S", "| c"].map (some ·.toList)) = .ok g ∧
      g.symbols.nonterminals[1]? = some ⟨"A", ⟨none, 2⟩, true, true, false⟩ ∧
      g.symbols.nonterminals[2]? = some (.helper "A*" ⟨none, 1⟩) :=
    exists_of_ofLines (by decide +kernel)
  have hword : Word.ofText "A*".toList = .ok ⟨.nonterminal "A", some .zeroOrMore⟩ := by
    decide +kernel
  have ⟨item, repetition, hw, hgen⟩ := (generates_ebnfLanguage hg hstar).right rfl
  cases hword.symm.trans hw
  exact ⟨g, hg, (generates_ebnfLanguage hg hA).left rfl, hgen⟩

end Grammar
end LineGrammar
