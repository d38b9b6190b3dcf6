/-
  Metrology.Binary.Shortest

  The shortest decimal of a floating-point number: among the multiples of the greatest
  power of ten that has a multiple rounding to the number, the one nearest to its value.
-/
import Metrology.Binary.Rounding

namespace Metrology

/-- The number `coefficient * 10 ^ exponent`. -/
structure Decimal where
  coefficient : Nat
  exponent : Int
  deriving DecidableEq, Repr

namespace Decimal

def toRat (d : Decimal) : Rat := (d.coefficient : Rat) * (10 : Rat) ^ d.exponent

/-- Positional digits, without an exponent and without a point after a whole number. -/
def toChars (d : Decimal) : List Char :=
  let digits := Nat.toDigits 10 d.coefficient
  if 0 ≤ d.exponent then
    if d.coefficient = 0 then ['0'] else digits ++ List.replicate d.exponent.toNat '0'
  else
    let places := (-d.exponent).toNat
    if places < digits.length then
      digits.take (digits.length - places) ++ '.' :: digits.drop (digits.length - places)
    else '0' :: '.' :: List.replicate (places - digits.length) '0' ++ digits

end Decimal

/-! ## The reals that round to a number -/

/-- An interval of rationals, with or without its ends. -/
structure RoundingInterval where
  lower : Rat
  upper : Rat
  closed : Bool

namespace RoundingInterval

/-- Whether a rational lies in the interval. -/
def has (i : RoundingInterval) (q : Rat) : Bool :=
  if i.closed then decide (i.lower ≤ q) && decide (q ≤ i.upper)
  else decide (i.lower < q) && decide (q < i.upper)

/-- The magnitudes that round to the given rank: up to halfway to either neighbour, the
ends included for an even rank, which wins ties. -/
def ofRank (f : Format) (rank : Nat) : RoundingInterval where
  lower := (f.magnitude (rank - 1) + f.magnitude rank) / 2
  upper := (f.magnitude rank + f.magnitude (rank + 1)) / 2
  closed := rank % 2 == 0

/-- The multiple of `10 ^ exponent` in the interval that is nearest to `q`, the greater one
of two that are equally near. -/
def nearestMultiple? (i : RoundingInterval) (q : Rat) (exponent : Int) : Option Decimal :=
  let step : Rat := (10 : Rat) ^ exponent
  let below : Decimal := ⟨(q / step).floor.toNat, exponent⟩
  let above : Decimal := ⟨below.coefficient + 1, exponent⟩
  match i.has below.toRat, i.has above.toRat with
  -- Both round to the number, and the nearer one has the better last digit.
  | true, true => if q - below.toRat < above.toRat - q then some below else some above
  | true, false => some below
  | false, true => some above
  | false, false => none

/-- The nearest multiple of the greatest power of ten, from `10 ^ (least + fuel)` down to
`10 ^ least`, that has one in the interval. -/
def coarsestMultiple? (i : RoundingInterval) (q : Rat) (least : Int) : Nat → Option Decimal
  | 0 => i.nearestMultiple? q least
  | fuel + 1 =>
    match i.nearestMultiple? q (least + (fuel + 1 : Nat)) with
    | some d => some d
    | none => coarsestMultiple? i q least fuel

end RoundingInterval

namespace Format

/-- The shortest decimal that rounds to the magnitude of a rank. Every magnitude is a
multiple of `10 ^ leastExponent`, so the search ends with a decimal. -/
def shortest (f : Format) (rank : Nat) : Decimal :=
  let q := f.magnitude rank
  -- No power of ten above the whole part has a multiple in the interval but zero.
  let digits := (Nat.toDigits 10 q.floor.toNat).length
  let fuel := ((digits : Int) - f.leastExponent).toNat
  ((RoundingInterval.ofRank f rank).coarsestMultiple? q f.leastExponent fuel).getD ⟨0, 0⟩

end Format

end Metrology
