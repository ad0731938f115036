import LineGrammar.Text.Alphabetic
import LineGrammar.Text.Numeral

/-!
Identifiers, the names of rules and of named terminals.
-/

namespace LineGrammar

def startsIdentifier (c : Char) : Bool :=
  isAlphabetic c || c == '_'

def continuesIdentifier (c : Char) : Bool :=
  isAlphabetic c || isNumeral c || c == '_'

def isIdentifier : List Char → Bool
  | [] => false
  | c :: rest => startsIdentifier c && rest.all continuesIdentifier

end LineGrammar
