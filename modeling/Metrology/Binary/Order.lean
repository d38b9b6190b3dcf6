/-
  Metrology.Binary.Order

  Two orders of floating-point numbers. Comparison by value leaves out what is no number
  and does not tell the two zeros apart; the total order places every number.
-/
import Metrology.Binary.Rounding

namespace Metrology.Binary

variable {f : Format}

/-- The place of a number among the values, where both zeros have place zero. -/
def valuePlace? : Binary f → Option Int
  | .nan => none
  | .infinite negative => some (if negative then -(f.rankCount : Int) else f.rankCount)
  | .finite negative rank _ => some (if negative then -(rank : Int) else rank)

/-- Comparison by value, absent if either side is no number. -/
def compare? (x y : Binary f) : Option Ordering := do
  let a ← x.valuePlace?
  let b ← y.valuePlace?
  pure (compare a b)

/-- Equality of values: the zeros are equal, and what is no number equals nothing. -/
def valueEq (x y : Binary f) : Bool := x.compare? y == some .eq

/-- The place of a number in the total order: no number, negative infinity, the negative
numbers, negative zero, zero, the positive numbers, infinity. -/
def totalPlace : Binary f → Int
  | .nan => -(f.rankCount : Int) - 2
  | .infinite negative => if negative then -(f.rankCount : Int) - 1 else f.rankCount
  | .finite negative rank _ => if negative then -(rank : Int) - 1 else rank

def totalCompare (x y : Binary f) : Ordering := compare x.totalPlace y.totalPlace

end Metrology.Binary
