import LineGrammar.Proofs.Derivation

/-!
Derivation trees. What can be derived from a form are the frontiers of the forests over it.
-/

namespace LineGrammar.Grammar

-- A tree over each symbol of the form. Below a nonterminal stands a forest over one of its productions.
inductive Forest (g : Grammar) : List Symbol → Type
  | nil : Forest g []
  | terminal (id : TerminalId) {rest : List Symbol} (tail : Forest g rest) :
    Forest g (.terminal id :: rest)
  | nonterminal {head : NonterminalId} {production : Production} {rest : List Symbol}
      (mem : production ∈ g.productionsOf head) (children : Forest g production.symbols)
      (tail : Forest g rest) : Forest g (.nonterminal head :: rest)

abbrev Tree (g : Grammar) (id : NonterminalId) : Type :=
  g.Forest [.nonterminal id]

variable {g : Grammar} {id : NonterminalId} {form : List Symbol} {string : List TerminalId}

namespace Forest

def height {form : List Symbol} : g.Forest form → Nat
  | nil                         => 0
  | terminal _ tail             => tail.height
  | nonterminal _ children tail => max (children.height + 1) tail.height

def frontier {form : List Symbol} : g.Forest form → List TerminalId
  | nil                         => []
  | terminal id tail            => id :: tail.frontier
  | nonterminal _ children tail => children.frontier ++ tail.frontier

theorem yields (forest : g.Forest form) : g.Yields form forest.frontier := by
  induction forest
  case nil                         => exact .nil
  case terminal ih                 => exact .terminal ih
  case nonterminal mem _ _ hc ht   => exact .nonterminal mem hc ht

theorem height_pos (forest : g.Forest form) (hm : .nonterminal id ∈ form) : 0 < forest.height := by
  induction forest
  case nil           => cases hm
  case terminal ih   => exact ih (by simpa using hm)
  case nonterminal   => exact Nat.lt_of_lt_of_le (Nat.succ_pos _) (Nat.le_max_left _ _)

theorem one_lt_height (h : ∀ production ∈ g.productionsOf id, production.nonterminals ≠ [])
    (tree : g.Tree id) : 1 < tree.height := by
  cases tree with | nonterminal mem children tail =>
  obtain ⟨other, hm⟩ := List.exists_mem_of_ne_nil _ (h _ mem)
  have hpos : 0 < children.height := children.height_pos (Production.mem_nonterminals_iff.mp hm)
  exact Nat.lt_of_lt_of_le (Nat.succ_lt_succ hpos) (Nat.le_max_left _ _)

end Forest

theorem Yields.exists_forest (h : g.Yields form string) :
    ∃ forest : g.Forest form, forest.frontier = string := by
  induction h
  case nil => exact ⟨.nil, rfl⟩
  case terminal id _ _ _ ih =>
    obtain ⟨tail, rfl⟩ := ih
    exact ⟨.terminal id tail, rfl⟩
  case nonterminal mem _ _ hc ht =>
    obtain ⟨children, rfl⟩ := hc
    obtain ⟨tail, rfl⟩ := ht
    exact ⟨.nonterminal mem children tail, rfl⟩

theorem derives_iff_exists_forest :
    g.Derives form (string.map .terminal) ↔ ∃ forest : g.Forest form, forest.frontier = string := by
  rw [derives_iff_yields]
  constructor
  · exact Yields.exists_forest
  · rintro ⟨forest, rfl⟩
    exact forest.yields

end LineGrammar.Grammar
