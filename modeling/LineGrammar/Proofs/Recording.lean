import LineGrammar.Proofs.Clauses
import LineGrammar.Proofs.Soundness

/-!
What the loader makes of the lines that it has read: its rules record the clauses of the lines, each
under its own head, in the order in which they are written.
-/

namespace LineGrammar

namespace SymbolTable

variable {table new : SymbolTable} {id : NonterminalId}

def Writes (table : SymbolTable) (texts : List (List Char)) (production : Production) : Prop :=
  ∃ words, alternativeOfTexts texts = .ok words ∧
    List.Forall₂ table.Spells words production.symbols

theorem Writes.mono {texts : List (List Char)} {production : Production}
    (h : table.Writes texts production) (hg : table.Grows new) : new.Writes texts production :=
  h.imp fun _ ⟨hw, hs⟩ => ⟨hw, hs.imp fun _ _ hs => hs.mono hg⟩

theorem Writes.map_symbolName {texts : List (List Char)} {production : Production}
    (h : table.Writes texts production) :
    production.symbols.map table.symbolName = alternativeNames texts := by
  have ⟨words, hw, hs⟩ := h
  unfold alternativeNames
  cases alternativeOfTexts_eq_ok_iff.mp hw
  case inl h =>
    obtain ⟨rfl, rfl⟩ := h
    simp [List.forall₂_nil_left_iff.mp hs, isEpsilonText]
  case inr h =>
    have hne : ¬isEpsilonText texts := by
      rw [isEpsilonText_iff]
      rintro rfl
      simp at h
    have hnames : List.Forall₂ (fun text symbol => String.ofList text = table.symbolName symbol)
        texts production.symbols :=
      forall₂_trans h.right hs fun _ _ _ ht hx =>
        (Word.ofText_eq_ok_iff.mp ht).right ▸ hx.symbolName.symm
    rw [if_neg hne, map_eq_map_of_forall₂ hnames fun _ _ => id]

theorem Writes.isEpsilon_iff {texts : List (List Char)} {production : Production}
    (h : table.Writes texts production) (hn : texts ≠ []) :
    production.isEpsilon = isEpsilonText texts := by
  have ⟨words, hw, hs⟩ := h
  have := eq_nil_iff_of_alternativeOfTexts hw hn
  rw [Bool.eq_iff_iff, Production.isEpsilon, isEpsilonText, List.isEmpty_iff, beq_iff_eq, ← this]
  constructor
  · intro he
    rw [he] at hs
    exact List.forall₂_nil_right_iff.mp hs
  · rintro rfl
    exact List.forall₂_nil_left_iff.mp hs

theorem Grows.reflect (h : table.Grows new) (hlt : id < table.nonterminals.length) {n : Nonterminal}
    (hn : new.nonterminals[id]? = some n) :
    ∃ m, table.nonterminals[id]? = some m ∧ m.Grows n := by
  have ⟨n', hn', hg⟩ := h.nonterminals (List.getElem?_eq_getElem hlt)
  cases hn.symm.trans hn'
  exact ⟨_, List.getElem?_eq_getElem hlt, hg⟩

end SymbolTable

-- The rules are those of the heads and clauses: each head has one, and each clause is recorded as a
-- production of its head.
structure Rules.Record (rules : Rules) (table : SymbolTable) (heads : List String)
    (clauses : List Clause) : Prop where
  entered     : ∀ name ∈ heads, ∃ (id : NonterminalId) (n : Nonterminal),
    table.nonterminals[id]? = some n ∧ n.synthetic = false ∧ n.name = name
  hasHead     : ∀ {id : NonterminalId} {n}, table.nonterminals[id]? = some n →
    n.synthetic = false → (rules.hasHead id ↔ n.name ∈ heads)
  headed      : ∀ clause ∈ clauses, clause.head ∈ heads ∧ clause.texts ≠ []
  productions : ∀ {id : NonterminalId} {n}, table.nonterminals[id]? = some n →
    n.synthetic = false →
    List.Forall₂ table.Writes (keepFirst isEpsilonText (alternativesOf n.name clauses))
      (rules.productionsOf id)

theorem Rules.Record.isSynthetic_of_mem_heads {rules : Rules} {table : SymbolTable}
    {heads : List String} {clauses : List Clause} (h : rules.Record table heads clauses)
    (ht : table.Sound) {id : NonterminalId} {n : Nonterminal}
    (hn : table.nonterminals[id]? = some n) (hm : n.name ∈ heads) : table.isSynthetic id = false := by
  have ⟨i, m, hi, hs, he⟩ := h.entered n.name hm
  cases ht.id_eq hi hn he
  rw [SymbolTable.isSynthetic_of_getElem? hi, hs]

namespace Loader

variable {loader new : Loader} {heads : List String} {clauses : List Clause}

structure Records (loader : Loader) (heads : List String) (clauses : List Clause) : Prop
    extends loader.rules.Record loader.symbols heads clauses where
  root    : loader.root.map loader.symbols.nonterminalName = heads.head?
  current : loader.current.map loader.symbols.nonterminalName = heads.getLast?

theorem records_start (file : Option String) : (start file).Records [] [] := by
  refine ⟨⟨?_, ?_, ?_, ?_⟩, ?_, ?_⟩ <;> simp [start, SymbolTable.empty]

theorem Records.atLine (h : loader.Records heads clauses) (number : Nat) :
    (loader.atLine number).Records heads clauses :=
  ⟨h.toRecord, h.root, h.current⟩

namespace Records

-- A nonterminal that has come in since is not a head, so it has neither a rule nor a clause.
theorem not_mem_heads (h : loader.Records heads clauses) (hs : new.symbols.Sound)
    (hg : loader.symbols.Grows new.symbols) {id : NonterminalId} {n : Nonterminal}
    (hn : new.symbols.nonterminals[id]? = some n) (hle : loader.symbols.nonterminals.length ≤ id) :
    n.name ∉ heads := by
  intro hm
  have ⟨i, m, hi, _, he⟩ := h.entered n.name hm
  have ⟨m', hi', hgm⟩ := hg.nonterminals hi
  cases hs.id_eq hi' hn (hgm.name.trans he)
  exact absurd (lt_length_of_getElem? hi) (Nat.not_lt.mpr hle)

theorem advance (h : loader.Records heads clauses) (hs : loader.Sound) (hs' : new.Sound)
    (ha : loader.Advances new) : new.Records heads clauses where
  root := by
    rw [ha.root, ← h.root]
    cases hr : loader.root
    case none => rfl
    case some id => simp [ha.symbols.nonterminalName (hs.root hr).lt_length]
  current := by
    rw [ha.current, ← h.current]
    cases hc : loader.current
    case none => rfl
    case some id =>
      have ⟨n, hn, _⟩ := hs.rules.defined.mp (hs.current hc).right
      simp [ha.symbols.nonterminalName (lt_length_of_getElem? hn)]
  entered name hm := by
    have ⟨id, n, hn, hw, he⟩ := h.entered name hm
    have ⟨n', hn', hg⟩ := ha.symbols.nonterminals hn
    exact ⟨id, n', hn', hg.synthetic.trans hw, hg.name.trans he⟩
  hasHead {id n} hn hw := by
    rw [ha.hasHead (SymbolTable.isSynthetic_of_getElem? hn ▸ hw)]
    by_cases hlt : id < loader.symbols.nonterminals.length
    case pos =>
      have ⟨m, hm, hg⟩ := ha.symbols.reflect hlt hn
      rw [h.hasHead hm (hg.synthetic ▸ hw), hg.name]
    case neg =>
      have hno := h.not_mem_heads hs'.symbols ha.symbols hn (Nat.not_lt.mp hlt)
      rw [hs.rules.defined]
      simp [List.getElem?_eq_none (Nat.not_lt.mp hlt), hno]
  headed := h.headed
  productions {id n} hn hw := by
    rw [ha.productionsOf (SymbolTable.isSynthetic_of_getElem? hn ▸ hw)]
    by_cases hlt : id < loader.symbols.nonterminals.length
    case pos =>
      have ⟨m, hm, hg⟩ := ha.symbols.reflect hlt hn
      rw [hg.name]
      exact (h.productions hm (hg.synthetic ▸ hw)).imp fun _ _ hx => hx.mono ha.symbols
    case neg =>
      have hno := h.not_mem_heads hs'.symbols ha.symbols hn (Nat.not_lt.mp hlt)
      rw [hs.rules.productionsOf_eq_nil (Nat.not_lt.mp hlt), alternativesOf_eq_nil]
      · exact .nil
      · intro clause hm he
        exact hno (he ▸ (h.headed clause hm).left)

theorem any_isEpsilon (h : loader.Records heads clauses) {id : NonterminalId} {n : Nonterminal}
    (hn : loader.symbols.nonterminals[id]? = some n) (hs : n.synthetic = false) :
    (loader.rules.productionsOf id).any Production.isEpsilon =
      (alternativesOf n.name clauses).any isEpsilonText := by
  have hall := h.productions hn hs
  have hne : ∀ texts ∈ keepFirst isEpsilonText (alternativesOf n.name clauses), texts ≠ [] := by
    intro texts hm
    have := mem_alternativesOf.mp ((mem_keepFirst isEpsilonText_iff).mp hm)
    exact (h.headed _ this).right
  rw [← any_keepFirst (l := alternativesOf n.name clauses), Bool.eq_iff_iff, List.any_eq_true,
    List.any_eq_true]
  constructor
  case mp =>
    intro ⟨p, hp, he⟩
    have ⟨texts, hm, hx⟩ := exists_left_of_forall₂ hall hp
    exact ⟨texts, hm, hx.isEpsilon_iff (hne texts hm) ▸ he⟩
  case mpr =>
    intro ⟨texts, hm, he⟩
    have ⟨p, hp, hx⟩ := exists_right_of_forall₂ hall hm
    exact ⟨p, hp, (hx.isEpsilon_iff (hne texts hm)).trans he⟩

-- The rule of the head gets what the clause says, unless that is a second empty alternative.
theorem addProduction (h : loader.Records heads clauses) {id : NonterminalId} {n : Nonterminal}
    {texts : List (List Char)} {words : List Word} {symbols : List Symbol}
    (hn : loader.symbols.nonterminals[id]? = some n) (hs : n.synthetic = false)
    (hd : loader.rules.hasHead id) (hu : loader.symbols.Sound)
    (ht : texts ≠ []) (hw : alternativeOfTexts texts = .ok words)
    (hf : List.Forall₂ loader.symbols.Spells words symbols) :
    (loader.addProduction id symbols).Records heads (clauses ++ [⟨n.name, texts⟩]) := by
  have hwrites : loader.symbols.Writes texts ⟨loader.nextProduction, symbols, loader.location⟩ :=
    ⟨words, hw, hf⟩
  have hsame : (loader.addProduction id symbols).symbols = loader.symbols := by
    unfold Loader.addProduction
    split <;> rfl
  have hheaded : ∀ clause ∈ clauses ++ [⟨n.name, texts⟩], clause.head ∈ heads ∧ clause.texts ≠ [] := by
    simp only [List.mem_append, List.mem_singleton]
    rintro clause (hm | rfl)
    · exact h.headed clause hm
    · exact ⟨(h.hasHead hn hs).mp hd, ht⟩
  have hother : ∀ {i : NonterminalId} {m}, loader.symbols.nonterminals[i]? = some m → i ≠ id →
      alternativesOf m.name (clauses ++ [⟨n.name, texts⟩]) = alternativesOf m.name clauses := by
    intro i m hm hne
    have : n.name ≠ m.name := fun he => hne (hu.id_eq hm hn he.symm)
    simp [alternativesOf_append_singleton, this]
  unfold Loader.addProduction at hsame ⊢
  have hempty : symbols.isEmpty = isEpsilonText texts := hwrites.isEpsilon_iff ht
  rw [hempty, h.any_isEpsilon hn hs] at hsame ⊢
  split
  case isTrue he =>
    rw [Bool.and_eq_true] at he
    refine ⟨⟨h.entered, h.hasHead, hheaded, fun {i m} hm hw => ?_⟩, h.root, h.current⟩
    by_cases hi : i = id
    case neg => exact hother hm hi ▸ h.productions hm hw
    case pos =>
      -- The rule has an empty production already, and so the head has an empty alternative.
      subst hi
      cases hm.symm.trans hn
      rw [alternativesOf_append_singleton, if_pos rfl, keepFirst_append_of_any he.right he.left]
      exact h.productions hn hs
  case isFalse he =>
    rw [Bool.and_eq_true, and_comm] at he
    refine ⟨⟨h.entered, fun {i m} hm hw => ?_, hheaded, fun {i m} hm hw => ?_⟩, h.root, h.current⟩
    · rw [Rules.hasHead_add, ← h.hasHead hm hw]
      exact or_iff_left_of_imp fun hi => hi ▸ hd
    · rw [Rules.productionsOf_add]
      by_cases hi : i = id
      case neg => rw [if_neg (Ne.symm hi), hother hm hi]; exact h.productions hm hw
      case pos =>
        subst hi
        cases hm.symm.trans hn
        rw [if_pos rfl, alternativesOf_append_singleton, if_pos rfl, keepFirst_append he]
        exact List.rel_append (h.productions hn hs) (.cons hwrites .nil)

end Records
end Loader
end LineGrammar
