/-!
Where something was written down.
-/

namespace LineGrammar

-- Line 0 stands for no particular line.
structure Location where
  file : Option String
  line : Nat
  deriving DecidableEq, Repr

namespace Location

def isUnknown (location : Location) : Bool :=
  location.file.isNone && location.line == 0

def text : Location → String
  | ⟨some file, 0⟩ => file
  | ⟨some file, line⟩ => file ++ ":" ++ toString line
  | ⟨none, 0⟩ => "<input>"
  | ⟨none, line⟩ => "line " ++ toString line

end Location
end LineGrammar
