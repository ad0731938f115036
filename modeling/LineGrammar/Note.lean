import LineGrammar.Fault

/-!
The notes that are taken while a grammar is read, checked and published.
-/

namespace LineGrammar

inductive Level
  | error
  | warn
  | info
  | debug
  | trace
  deriving DecidableEq, Repr

namespace Level

def detail : Level → Nat
  | error => 1
  | warn  => 2
  | info  => 3
  | debug => 4
  | trace => 5

def label : Level → String
  | error => "ERROR"
  | warn  => "WARN"
  | info  => "INFO"
  | debug => "DEBUG"
  | trace => "TRACE"

end Level

inductive Check
  | references
  | ruleLists
  | derivability
  | reachability
  deriving DecidableEq, Repr

def Check.subject : Check → String
  | references   => "nonterminals are referenced"
  | ruleLists    => "nonterminals have productions"
  | derivability => "nonterminals derive terminal strings"
  | reachability => "nonterminals are reachable from the root"

inductive Note
  | ruleHead (name : String) (line : Nat)
  | repetition (name : String) (line : Nat)
  | checking (check : Check)
  | loaded (file : Option String) (nonterminals terminals productions : Nat)
  | keepingPrevious (path : String) (error : GrammarError)
  | published (path : String)
  | watching (path : String) (seconds : Nat)
  deriving DecidableEq, Repr

namespace Note

def level : Note → Level
  | ruleHead _ _ | repetition _ _ | checking _     => .debug
  | loaded _ _ _ _ | published _ | watching _ _    => .info
  | keepingPrevious _ _                            => .warn

def message : Note → String
  | ruleHead name line   => "rule head " ++ name ++ " at line " ++ toString line
  | repetition name line => "expanding repeat " ++ name ++ " at line " ++ toString line
  | checking check       => "checking that " ++ check.subject
  | loaded file nonterminals terminals productions =>
    "loaded grammar" ++ (file.map (" " ++ ·)).getD "" ++ ": " ++
      toString nonterminals ++ " nonterminals, " ++ toString terminals ++ " terminals, " ++
      toString productions ++ " productions"
  | keepingPrevious path error =>
    "keeping previous grammar, rebuild of " ++ path ++ " failed: " ++ error.message
  | published path        => "published new grammar from " ++ path
  | watching path seconds => "watching " ++ path ++ " every " ++ toString seconds ++ "s"

end Note

abbrev Threshold := Option Level

def Threshold.shows (threshold : Threshold) (note : Note) : Bool :=
  threshold.any (note.level.detail ≤ ·.detail)

end LineGrammar
