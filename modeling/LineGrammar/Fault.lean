import LineGrammar.Location

/-!
What can be wrong with a grammar, how it is worded, and where it is reported.
-/

namespace LineGrammar

inductive ReadFault
  | notFound
  | isDirectory
  | notDirectory
  | nameTooLong
  | nameWithNul
  | notUtf8
  | other (words : String)
  deriving DecidableEq, Repr

def ReadFault.words : ReadFault → String
  | notFound     => "No such file or directory (os error 2)"
  | isDirectory  => "Is a directory (os error 21)"
  | notDirectory => "Not a directory (os error 20)"
  | nameTooLong  => "File name too long (os error 36)"
  | nameWithNul  => "file name contained an unexpected NUL byte"
  | notUtf8      => "stream did not contain valid UTF-8"
  | other words  => words

-- The faults of a single line come first, then the grammar without rules, then those that only show
-- once all lines have been read.
inductive Fault
  | unreadable (cause : ReadFault)
  | missingNonterminal
  | invalidNonterminalName (name : String)
  | invalidIdentifier (text : String)
  | unmatchedQuote (text : String)
  | epsilonNotAlone
  | derivesItself (name : String)
  | syntheticNameClash (name : String)
  | emptyGrammar
  | unreferenced (name : String)
  | undefinedNonterminal (name : String)
  | noProductions (name : String)
  | nonDerivable (names : List String)
  | unreachable (names : List String)
  deriving DecidableEq, Repr

namespace Fault

def words : Fault → String
  | unreadable cause            => "Unable to open or read grammar file: " ++ cause.words
  | missingNonterminal          => "Missing nonterminal: `|` alternative without a preceding rule"
  | invalidNonterminalName name => "Invalid nonterminal name '" ++ name ++ "' in grammar"
  | invalidIdentifier text      => "Invalid identifier '" ++ text ++ "'"
  | unmatchedQuote text         => "Unmatched quote in literal " ++ text
  | epsilonNotAlone             => "Empty (epsilon) rule must be of the form NT -> 0"
  | derivesItself name          => "Nonterminal " ++ name ++ " deriving itself"
  | syntheticNameClash name     =>
    "Repeat nonterminal " ++ name ++ " clashes with a declared nonterminal"
  | emptyGrammar                => "Grammar contains no rules"
  | unreferenced name           => "Nonterminal " ++ name ++ " is never referenced in a production"
  | undefinedNonterminal name   => "Nonterminal " ++ name ++ " is referenced but never defined"
  | noProductions name          => "Nonterminal " ++ name ++ " has no productions"
  | nonDerivable names          =>
    "Nonterminals " ++ ", ".intercalate names ++ " do not derive terminal strings"
  | unreachable names           =>
    "Nonterminals " ++ ", ".intercalate names ++ " are unreachable from the root"

def isReadFault : Fault → Bool
  | unreadable _ => true
  | _            => false

def isSyntaxFault : Fault → Bool
  | missingNonterminal | invalidNonterminalName _ | invalidIdentifier _ | unmatchedQuote _
  | epsilonNotAlone | derivesItself _ | syntheticNameClash _ => true
  | _ => false

end Fault

structure GrammarError where
  location : Location
  fault : Fault
  deriving DecidableEq, Repr

def GrammarError.message (error : GrammarError) : String :=
  if error.location.isUnknown then error.fault.words
  else error.location.text ++ ": " ++ error.fault.words

theorem GrammarError.message_of_file {error : GrammarError} {file : String}
    (h : error.location.file = some file) : error.message =
      file ++ (if error.location.line = 0 then "" else ":" ++ toString error.location.line) ++ ": " ++
        error.fault.words := by
  obtain ⟨⟨_, line⟩, fault⟩ := error
  obtain rfl : _ = some file := h
  cases line <;> simp [message, Location.isUnknown, Location.text, String.append_assoc]

end LineGrammar
