import LineGrammar.Check.Derivability
import LineGrammar.Check.Reachability
import LineGrammar.Check.References
import LineGrammar.Note

/-!
The checks in their order. A grammar is sound if it passes all four.
-/

namespace LineGrammar

namespace Check

def all : List Check :=
  [references, ruleLists, derivability, reachability]

def run : Check → Grammar → Except GrammarError Unit
  | references,   g => g.checkReferences
  | ruleLists,    g => g.checkRuleLists
  | derivability, g => g.checkDerivability
  | reachability, g => g.checkReachability

end Check

namespace Grammar

variable (g : Grammar)

def validate : Except GrammarError Unit :=
  Check.all.forM (·.run g)

-- Each check leaves a note when it starts, so the last note is that of the one that fails.
def startedChecks : List Check → List Check
  | [] => []
  | check :: rest =>
    match check.run g with
    | .ok ()   => check :: startedChecks rest
    | .error _ => [check]

def validationNotes : List Note :=
  (g.startedChecks Check.all).map .checking

end Grammar
end LineGrammar
