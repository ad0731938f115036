import LineGrammar.Fault
import LineGrammar.Grammar

/-!
The check that every nonterminal is reachable from the root. A walk marks the root, and then expands
one marked nonterminal after the other by marking those that occur in its productions.
-/

namespace LineGrammar

-- What is marked, by number, and what of it is still to be expanded, the next one first.
structure Walk where
  marked : List Bool
  stack : List NonterminalId
  deriving DecidableEq, Repr

namespace Walk

def visit (walk : Walk) (id : NonterminalId) : Walk :=
  if walk.marked[id]? = some false then ⟨walk.marked.set id true, id :: walk.stack⟩ else walk

-- What the walk can still take: each nonterminal that is not marked, and each one on the stack.
def pending (walk : Walk) : Nat :=
  walk.marked.count false + walk.stack.length

theorem pending_visit (walk : Walk) (id : NonterminalId) :
    (walk.visit id).pending = walk.pending := by
  unfold visit
  split
  case isTrue h =>
    obtain ⟨hlt, hid⟩ := List.getElem?_eq_some_iff.mp h
    have hpos : 0 < walk.marked.count false := List.count_pos_iff.mpr (List.mem_of_getElem? h)
    simp only [pending, List.count_set hlt, hid, List.length_cons]
    simp
    omega
  case isFalse => rfl

theorem pending_foldl_visit (walk : Walk) (ids : List NonterminalId) :
    (ids.foldl visit walk).pending = walk.pending := by
  induction ids generalizing walk with
  | nil => rfl
  | cons id rest ih => rw [List.foldl_cons, ih, pending_visit]

end Walk

namespace Grammar

variable (g : Grammar)

def occurrences (id : NonterminalId) : List NonterminalId :=
  (g.productionsOf id).flatMap Production.nonterminals

def walkStart : Walk :=
  ⟨(List.replicate g.nonterminalCount false).set g.root true, [g.root]⟩

def expand (marked : List Bool) (id : NonterminalId) (rest : List NonterminalId) : Walk :=
  (g.occurrences id).foldl Walk.visit ⟨marked, rest⟩

def walk : Walk → Walk
  | ⟨marked, []⟩         => ⟨marked, []⟩
  | ⟨marked, id :: rest⟩ => walk (g.expand marked id rest)
termination_by w => w.pending
decreasing_by
  rw [expand, Walk.pending_foldl_visit]
  simp [Walk.pending]

def unreached : List NonterminalId :=
  let marked := (g.walk g.walkStart).marked
  g.nonterminalIds.filter fun id => marked[id]? != some true

def checkReachability : Except GrammarError Unit :=
  if g.unreached.isEmpty then .ok ()
  else .error ⟨⟨g.file, 0⟩, .unreachable (g.unreached.map g.symbols.nonterminalName)⟩

end Grammar
end LineGrammar
