/-!
A class of characters given by the ranges of code points that make it up.
-/

namespace LineGrammar

-- Ranges of code points, each by its first and its last, in ascending order.
abbrev Ranges := List (Nat × Nat)

namespace Ranges

-- The search stops at the first range that begins after the code point, so that small code points,
-- which are the common ones, are decided by the first few ranges.
def coversCode : Ranges → Nat → Bool
  | [], _ => false
  | (first, last) :: rest, code =>
    if code < first then false else code ≤ last || coversCode rest code

def covers (ranges : Ranges) (c : Char) : Bool :=
  ranges.coversCode c.toNat

end Ranges
end LineGrammar
