import LineGrammar.Fault
import LineGrammar.Path

/-!
When two errors count as the same.
-/

namespace LineGrammar

-- Causes other than the ones listed are not told apart.
def ReadFault.agrees : ReadFault → ReadFault → Bool
  | other _, other _ => true
  | a,       b       => a == b

def Fault.agrees : Fault → Fault → Bool
  | unreadable a, unreadable b => a.agrees b
  | a,            b            => a == b

def Location.agrees (a b : Location) : Bool :=
  a.line == b.line && a.file.map Path.ofString == b.file.map Path.ofString

def GrammarError.agrees (a b : GrammarError) : Bool :=
  a.fault.agrees b.fault && a.location.agrees b.location

end LineGrammar
