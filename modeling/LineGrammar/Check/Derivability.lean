import LineGrammar.Fault
import LineGrammar.Grammar

/-!
The check that every nonterminal derives a string of terminals. Sweeps over the nonterminals that
are still open move out those with a production whose nonterminals are all known to derive one. They
end with the first sweep that moves none out.
-/

namespace LineGrammar

structure Agenda where
  known : List NonterminalId
  remaining : List NonterminalId
  deriving DecidableEq, Repr

namespace Grammar

variable (g : Grammar)

def derivesBy (known : List NonterminalId) (production : Production) : Bool :=
  production.symbols.all fun
    | .terminal _     => true
    | .nonterminal id => known.contains id

def hasDerivingProduction (known : List NonterminalId) (id : NonterminalId) : Bool :=
  (g.productionsOf id).any (derivesBy known)

-- A nonterminal that is moved out counts as known for those that come later in the same sweep.
def sweepFrom (known : List NonterminalId) : List NonterminalId → Agenda
  | [] => ⟨known, []⟩
  | id :: rest =>
    if g.hasDerivingProduction known id then sweepFrom (id :: known) rest
    else
      let agenda := sweepFrom known rest
      { agenda with remaining := id :: agenda.remaining }

def sweep (agenda : Agenda) : Agenda :=
  g.sweepFrom agenda.known agenda.remaining

theorem sweepFrom_remaining_length_le (known remaining : List NonterminalId) :
    (g.sweepFrom known remaining).remaining.length ≤ remaining.length := by
  induction remaining generalizing known with
  | nil => simp [sweepFrom]
  | cons id rest ih =>
    rw [sweepFrom]
    split
    · exact Nat.le_succ_of_le (ih _)
    · simpa using ih known

def settle (agenda : Agenda) : Agenda :=
  let swept := g.sweep agenda
  if swept.remaining = [] ∨ swept.remaining.length = agenda.remaining.length then swept
  else settle swept
termination_by agenda.remaining.length
decreasing_by
  rename_i h
  have := g.sweepFrom_remaining_length_le agenda.known agenda.remaining
  simp only [sweep, not_or, swept] at h ⊢
  omega

def underivable : List NonterminalId :=
  (g.settle ⟨[], g.nonterminalIds⟩).remaining

def checkDerivability : Except GrammarError Unit :=
  if g.underivable.isEmpty then .ok ()
  else .error ⟨⟨g.file, 0⟩, .nonDerivable (g.underivable.map g.symbols.nonterminalName)⟩

end Grammar
end LineGrammar
