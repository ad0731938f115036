import LineGrammar.Loader
import LineGrammar.Proofs.Symbols

/-!
How the rules and the symbol table of a grammar that is being read hang together, and that each
operation on one of them keeps it so.
-/

namespace LineGrammar

namespace Rules

variable {rules : Rules} {head other : NonterminalId} {production : Production}

theorem map_head_add :
    (rules.add head production).map Rule.head = (rules.declare head).map Rule.head := by
  simp [add, Function.comp_def, apply_ite Rule.head]

theorem hasHead_add : (rules.add head production).hasHead other ↔
    rules.hasHead other ∨ head = other := by
  rw [← hasHead_declare]
  have : ∀ rules : Rules, rules.hasHead other ↔ other ∈ rules.map Rule.head := by simp
  rw [this, this, map_head_add]

theorem nodup_declare (h : (rules.map Rule.head).Nodup) :
    ((rules.declare head).map Rule.head).Nodup := by
  unfold declare
  split
  case isTrue     => exact h
  case isFalse hd => exact nodup_map_append h (by simpa using hd)

theorem productionsOf_eq_nil (h : ¬rules.hasHead head) : rules.productionsOf head = [] := by
  have : rules.find? (·.head == head) = none := by simpa using h
  simp [productionsOf, this]

theorem productionsOf_of_mem (h : (rules.map Rule.head).Nodup) {rule : Rule} (hm : rule ∈ rules) :
    rules.productionsOf rule.head = rule.productions := by
  cases hf : rules.find? (·.head == rule.head)
  case none => simpa using List.find?_eq_none.mp hf rule hm
  case some other =>
    have he : other.head = rule.head := by simpa using List.find?_some hf
    simp [productionsOf, hf, List.inj_on_of_nodup_map h (List.mem_of_find?_eq_some hf) hm he]

theorem mem_productions_iff (h : (rules.map Rule.head).Nodup) :
    production ∈ rules.productions ↔ ∃ head, production ∈ rules.productionsOf head := by
  rw [productions, List.mem_flatMap]
  constructor
  case mp => exact fun ⟨rule, hm, hp⟩ => ⟨rule.head, productionsOf_of_mem h hm ▸ hp⟩
  case mpr =>
    intro ⟨head, hp⟩
    cases hf : rules.find? (·.head == head)
    case none => simp [productionsOf, hf] at hp
    case some rule => exact ⟨rule, List.mem_of_find?_eq_some hf, by simpa [productionsOf, hf] using hp⟩

end Rules

namespace SymbolTable

variable {table new : SymbolTable} {symbol : Symbol} {item : Item}

def Knows (table : SymbolTable) : Symbol → Prop
  | .terminal id    => id < table.terminals.length
  | .nonterminal id => ∃ n, table.nonterminals[id]? = some n ∧ n.referenced = true

theorem Knows.mono (h : table.Knows symbol) (hg : table.Grows new) : new.Knows symbol := by
  match symbol, h with
  | .terminal id, h =>
    exact lt_length_of_getElem? (hg.terminals (List.getElem?_eq_getElem h))
  | .nonterminal id, ⟨n, hn, hr⟩ =>
    have ⟨n', hn', hg⟩ := hg.nonterminals hn
    exact ⟨n', hn', hg.referenced hr⟩

theorem Knows.lt_length {id : NonterminalId} (h : table.Knows (.nonterminal id)) :
    id < table.nonterminals.length :=
  lt_length_of_getElem? h.choose_spec.left

-- The table grows, but neither by a rule head nor by a helper.
structure Mentions (old new : SymbolTable) : Prop extends old.Grows new where
  reflects : ∀ {id : NonterminalId} {n}, new.nonterminals[id]? = some n →
    n.defined = true ∨ n.synthetic = true →
    ∃ m, old.nonterminals[id]? = some m ∧ m.defined = n.defined ∧ m.synthetic = n.synthetic

theorem Mentions.trans {a b c : SymbolTable} (h₁ : a.Mentions b) (h₂ : b.Mentions c) :
    a.Mentions c where
  toGrows := h₁.toGrows.trans h₂.toGrows
  reflects hn hf := by
    have ⟨m, hm, hd, hs⟩ := h₂.reflects hn hf
    have ⟨k, hk, hd', hs'⟩ := h₁.reflects hm (by rwa [hd, hs])
    exact ⟨k, hk, hd'.trans hd, hs'.trans hs⟩

theorem mentions_internTerminal (t : Terminal) : table.Mentions (table.internTerminal t).2 where
  toGrows := grows_internTerminal t
  reflects {_ n} hn _ := ⟨n, nonterminals_internTerminal t ▸ hn, rfl, rfl⟩

theorem mentions_internNonterminal (name : String) (location : Location) :
    table.Mentions (table.internNonterminal name location).2 where
  toGrows := grows_internNonterminal
  reflects {id n} hn hf := by
    unfold internNonterminal at hn
    split at hn
    case h_1 => exact ⟨n, hn, rfl, rfl⟩
    case h_2 =>
      simp only [List.getElem?_append, List.getElem?_singleton] at hn
      split at hn
      case isTrue => exact ⟨n, hn, rfl, rfl⟩
      case isFalse =>
        split at hn <;> cases hn
        simp [Nonterminal.mentioned] at hf

theorem mentions_reference (id : NonterminalId) : table.Mentions (table.reference id) where
  toGrows := grows_reference
  reflects {i n} hn _ := by
    simp only [reference, List.getElem?_modify, Option.map_eq_map, Option.map_eq_some_iff] at hn
    obtain ⟨m, hm, rfl⟩ := hn
    exact ⟨m, hm, by split <;> simp [Nonterminal.reference]⟩

theorem reference_knows {id : NonterminalId} (h : table.Denotes item (.nonterminal id)) :
    (table.reference id).Knows (.nonterminal id) := by
  cases h
  case nonterminal n _ hn => exact ⟨n.reference, by simp [reference, hn], rfl⟩

end SymbolTable

def Rules.Expand (rules : Rules) (helper : NonterminalId) (base : Symbol)
    (repetition : Repetition) : Prop :=
  (rules.productionsOf helper).map Production.symbols =
    [(Loader.helperAlternatives helper base repetition).1,
      (Loader.helperAlternatives helper base repetition).2]

namespace Rules.Expand

variable {rules : Rules} {helper : NonterminalId} {base : Symbol} {repetition : Repetition}

theorem mem (h : rules.Expand helper base repetition) :
    (∃ production ∈ rules.productionsOf helper,
        production.symbols = (Loader.helperAlternatives helper base repetition).1) ∧
      ∃ production ∈ rules.productionsOf helper,
        production.symbols = (Loader.helperAlternatives helper base repetition).2 := by
  rw [← List.mem_map, ← List.mem_map, h]
  simp

theorem symbols_eq (h : rules.Expand helper base repetition) {production : Production}
    (hp : production ∈ rules.productionsOf helper) :
    production.symbols = (Loader.helperAlternatives helper base repetition).1 ∨
      production.symbols = (Loader.helperAlternatives helper base repetition).2 := by
  have := List.mem_map_of_mem (f := Production.symbols) hp
  rw [h] at this
  simpa using this

theorem exists_base_mem (h : rules.Expand helper base repetition) :
    ∃ production ∈ rules.productionsOf helper, base ∈ production.symbols := by
  have ⟨⟨first, hm, he⟩, _⟩ := h.mem
  refine ⟨first, hm, ?_⟩
  rw [he]
  cases repetition <;> simp [Loader.helperAlternatives]

theorem eq_of_mem_symbols (h : rules.Expand helper base repetition) {production : Production}
    (hp : production ∈ rules.productionsOf helper) {symbol : Symbol} (hs : symbol ∈ production.symbols) :
    symbol = .nonterminal helper ∨ symbol = base := by
  cases repetition <;> rcases h.symbols_eq hp with he | he <;> simp_all [Loader.helperAlternatives]

end Rules.Expand

-- The rules use only what is in the table, the table knows which nonterminals have a rule, and the
-- rules of helpers are those of the repetitions that they are named after.
structure Rules.Fits (rules : Rules) (table : SymbolTable) : Prop where
  heads_nodup : (rules.map Rule.head).Nodup
  defined     : ∀ {id}, rules.hasHead id ↔
    ∃ n, table.nonterminals[id]? = some n ∧ n.defined = true
  known       : ∀ {head production}, production ∈ rules.productionsOf head →
    ∀ symbol ∈ production.symbols, table.Knows symbol
  helpers     : ∀ {id : NonterminalId} {n}, table.nonterminals[id]? = some n → n.synthetic = true →
    n.referenced = true ∧ ∃ item repetition base, item.WellFormed ∧
      n.name.toList = Word.text ⟨item, some repetition⟩ ∧ table.Denotes item base ∧
      rules.Expand id base repetition

namespace Rules.Fits

variable {rules : Rules} {table new : SymbolTable} {head id : NonterminalId}
variable {production : Production}

theorem empty : Rules.Fits [] .empty := by
  constructor <;> simp [SymbolTable.empty, Rules.productionsOf]

theorem mentions (h : rules.Fits table) (hg : table.Mentions new) : rules.Fits new where
  heads_nodup := h.heads_nodup
  defined {id} := by
    rw [h.defined]
    constructor
    case mp =>
      intro ⟨n, hn, hd⟩
      have ⟨n', hn', hg⟩ := hg.nonterminals hn
      exact ⟨n', hn', hg.defined hd⟩
    case mpr =>
      intro ⟨n, hn, hd⟩
      have ⟨m, hm, he, _⟩ := hg.reflects hn (.inl hd)
      exact ⟨m, hm, he.trans hd⟩
  known hp symbol hs := (h.known hp symbol hs).mono hg.toGrows
  helpers {id n} hn hs := by
    have ⟨m, hm, _, he⟩ := hg.reflects hn (.inr hs)
    have ⟨hr, item, repetition, base, hi, ht, hd, hx⟩ := h.helpers hm (he.trans hs)
    have ⟨n', hn', hg'⟩ := hg.nonterminals hm
    cases hn.symm.trans hn'
    exact ⟨hg'.referenced hr, item, repetition, base, hi, hg'.name ▸ ht, hd.mono hg.toGrows, hx⟩

theorem productionsOf_eq_nil (h : rules.Fits table) (hid : table.nonterminals.length ≤ id) :
    rules.productionsOf id = [] := by
  apply Rules.productionsOf_eq_nil
  rw [h.defined]
  rintro ⟨n, hn, _⟩
  simp [List.getElem?_eq_none hid] at hn

theorem hasHead_of_synthetic (h : rules.Fits table) {n : Nonterminal}
    (hn : table.nonterminals[id]? = some n) (hs : n.synthetic = true) : rules.hasHead id := by
  have ⟨_, _, _, _, _, _, _, hx⟩ := h.helpers hn hs
  by_contra hno
  simp [Rules.Expand, Rules.productionsOf_eq_nil hno] at hx

theorem defined_of_synthetic (h : rules.Fits table) {n : Nonterminal}
    (hn : table.nonterminals[id]? = some n) (hs : n.synthetic = true) : n.defined = true := by
  have ⟨m, hm, hd⟩ := h.defined.mp (h.hasHead_of_synthetic hn hs)
  cases hn.symm.trans hm
  exact hd

theorem declare (h : rules.Fits table) (hid : id < table.nonterminals.length)
    (location : Location) : (rules.declare id).Fits (table.define id location) where
  heads_nodup := nodup_declare h.heads_nodup
  defined {i} := by
    rw [hasHead_declare, h.defined]
    by_cases hi : id = i
    case pos => subst hi; simp [SymbolTable.define, hid]
    case neg => simp [SymbolTable.define, hi]
  known hp symbol hs := by
    rw [productionsOf_declare] at hp
    exact (h.known hp symbol hs).mono SymbolTable.grows_define
  helpers {i n} hn hs := by
    simp only [SymbolTable.define, List.getElem?_modify, Option.map_eq_map,
      Option.map_eq_some_iff] at hn
    obtain ⟨m, hm, rfl⟩ := hn
    have hg : m.Grows (if id = i then m.define location else m) := by
      split
      · exact Nonterminal.grows_define location
      · exact .refl m
    obtain ⟨hr, item, repetition, base, hi, ht, hd, hx⟩ := h.helpers hm (hg.synthetic ▸ hs)
    refine ⟨hg.referenced hr, item, repetition, base, hi, hg.name ▸ ht,
      hd.mono SymbolTable.grows_define, ?_⟩
    rwa [Rules.Expand, productionsOf_declare]

theorem add (h : rules.Fits table) (hd : rules.hasHead head)
    (hw : table.isSynthetic head = false)
    (hs : ∀ symbol ∈ production.symbols, table.Knows symbol) :
    (rules.add head production).Fits table where
  heads_nodup := map_head_add ▸ nodup_declare h.heads_nodup
  defined {i} := by
    rw [hasHead_add, ← h.defined]
    exact or_iff_left_of_imp fun he => he ▸ hd
  known {i p} hp := by
    rw [productionsOf_add] at hp
    split at hp
    case isFalse => exact h.known hp
    case isTrue =>
      cases List.mem_append.mp hp
      case inl hp => exact h.known hp
      case inr hp => exact List.mem_singleton.mp hp ▸ hs
  helpers {i n} hn hs := by
    have hne : head ≠ i := by
      rintro rfl
      simp [SymbolTable.isSynthetic_of_getElem? hn, hs] at hw
    simpa [Rules.Expand, productionsOf_add, hne] using h.helpers hn hs

-- A helper comes with its two productions. Its number is the next one, so no other rule changes.
theorem addHelper (h : rules.Fits table) {name : String} {item : Item} {repetition : Repetition}
    {base : Symbol} (first second : Production) (location : Location) (hi : item.WellFormed)
    (hn : name.toList = Word.text ⟨item, some repetition⟩)
    (hf : table.nonterminalNamed? name = none) (hb : table.Denotes item base)
    (hk : table.Knows base)
    (h₁ : first.symbols =
      (Loader.helperAlternatives table.nonterminals.length base repetition).1)
    (h₂ : second.symbols =
      (Loader.helperAlternatives table.nonterminals.length base repetition).2) :
    ((rules.add table.nonterminals.length first).add table.nonterminals.length second).Fits
      (table.insertHelper name location).2 := by
  have hg : table.Grows (table.insertHelper name location).2 := SymbolTable.grows_insertHelper hf location
  have hnew : (table.insertHelper name location).2.nonterminals =
      table.nonterminals ++ [.helper name location] := by simp [SymbolTable.insertHelper, hf]
  have hself : (table.insertHelper name location).2.Knows
      (.nonterminal table.nonterminals.length) :=
    ⟨.helper name location, by simp [hnew], rfl⟩
  have hnil : rules.productionsOf table.nonterminals.length = [] :=
    h.productionsOf_eq_nil (Nat.le_refl _)
  constructor
  case heads_nodup =>
    rw [map_head_add]
    exact nodup_declare (map_head_add ▸ nodup_declare h.heads_nodup)
  case defined =>
    intro (id : Nat)
    rw [hasHead_add, hasHead_add, or_assoc, or_self, h.defined, hnew]
    simp only [List.getElem?_append, List.getElem?_singleton]
    by_cases hlt : id < table.nonterminals.length
    case pos => simp [hlt, Nat.ne_of_gt hlt]
    case neg =>
      by_cases he : table.nonterminals.length = id
      case pos => subst he; simp [Nonterminal.helper]
      case neg =>
        have : id - table.nonterminals.length ≠ 0 := by omega
        simp [hlt, he, this]
  case known =>
    intro head p hp
    simp only [productionsOf_add] at hp
    split at hp
    case isFalse => exact fun symbol hs => (h.known hp symbol hs).mono hg
    case isTrue =>
      simp only [hnil, ← ‹_ = head›, List.nil_append, List.cons_append, List.mem_cons,
        List.not_mem_nil, or_false] at hp
      have := hk.mono hg
      cases hp <;> subst p <;> cases repetition <;>
        simp_all [Loader.helperAlternatives]
  case helpers =>
    intro (id : Nat) n hid hs
    by_cases hlt : id < table.nonterminals.length
    case pos =>
      rw [hnew, List.getElem?_append_left hlt] at hid
      obtain ⟨hr, item, repetition, base, hi, ht, hd, hx⟩ := h.helpers hid hs
      refine ⟨hr, item, repetition, base, hi, ht, hd.mono hg, ?_⟩
      rwa [Rules.Expand, productionsOf_add, productionsOf_add, if_neg (Nat.ne_of_gt hlt),
        if_neg (Nat.ne_of_gt hlt)]
    case neg =>
      rw [hnew, List.getElem?_append_right (Nat.not_lt.mp hlt), List.getElem?_singleton] at hid
      split at hid <;> cases hid
      -- The only new number is that of the helper.
      have he : table.nonterminals.length = id := by omega
      refine ⟨rfl, item, repetition, base, hi, hn, hb.mono hg, ?_⟩
      simp [Rules.Expand, productionsOf_add, ← he, hnil, h₁, h₂]

end Rules.Fits

namespace Grammar

variable {g : Grammar} {head : NonterminalId} {production : Production} {symbol : Symbol}

structure Sound (g : Grammar) : Prop where
  symbols : g.symbols.Sound
  rules   : g.rules.Fits g.symbols
  root    : g.symbols.Knows (.nonterminal g.root)

namespace Sound

theorem known (h : g.Sound) (hp : production ∈ g.productionsOf head) (hs : symbol ∈ production.symbols) :
    g.symbols.Knows symbol :=
  h.rules.known hp symbol hs

theorem lt_nonterminalCount (h : g.Sound) (hp : production ∈ g.productionsOf head) :
    head < g.nonterminalCount := by
  by_contra hn
  have : g.productionsOf head = [] := h.rules.productionsOf_eq_nil (Nat.not_lt.mp hn)
  simp [this] at hp

theorem exists_of_mem_rules (h : g.Sound) {rule : Rule} (hr : rule ∈ g.rules) :
    ∃ n, g.symbols.nonterminals[rule.head]? = some n := by
  have ⟨n, hn, _⟩ := h.rules.defined.mp (Rules.hasHead_iff.mpr ⟨rule, hr, rfl⟩)
  exact ⟨n, hn⟩

theorem hasHead_of_synthetic (h : g.Sound) {id : NonterminalId} {n : Nonterminal}
    (hn : g.symbols.nonterminals[id]? = some n) (hs : n.synthetic = true) : g.rules.hasHead id :=
  h.rules.hasHead_of_synthetic hn hs

theorem defined_of_synthetic (h : g.Sound) {id : NonterminalId} {n : Nonterminal}
    (hn : g.symbols.nonterminals[id]? = some n) (hs : n.synthetic = true) : n.defined = true :=
  h.rules.defined_of_synthetic hn hs

end Sound
end Grammar
end LineGrammar
