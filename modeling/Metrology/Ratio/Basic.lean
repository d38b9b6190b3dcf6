/-
  Metrology.Ratio.Basic

  Exact rational numbers. Conversion factors are composed from them without rounding; the
  only operations without a result are division by zero and taking the exact value of a
  floating-point number that is not finite.
-/
import Metrology.Ratio.NumberError
import Metrology.Integer.Euclid
import Metrology.Integer.Squaring
import Metrology.Integer.Width

namespace Metrology

/-- An exact rational number, always in lowest terms with a positive denominator. -/
abbrev Ratio := Rat

namespace Ratio

/-! ## Construction -/

/-- The fraction `num / den` in lowest terms. -/
def ofFraction (num den : Int) : Except NumberError Ratio :=
  if den = 0 then .error .divisionByZero else .ok (Rat.divInt num den)

/-- The exact value of a finite floating-point number. -/
def ofBinary (x : Binary .double) : Except NumberError Ratio :=
  match x.toRat? with
  | some q => .ok q
  | none => .error (.notFinite x)

/-! ## Arithmetic -/

/-- The quotient, absent for a zero divisor. -/
def div (a b : Ratio) : Except NumberError Ratio :=
  if b = 0 then .error .divisionByZero else .ok (a / b)

/-- The reciprocal, absent for zero. -/
def recip (a : Ratio) : Except NumberError Ratio := div 1 a

def abs (a : Ratio) : Ratio := if a < 0 then -a else a

/-- The integer power; for a negative exponent the reciprocal of the positive power, which
zero does not have. -/
def pow (a : Ratio) (n : Int) : Except NumberError Ratio :=
  let power := powerBySquaring (· * ·) 1 a n.natAbs
  if n < 0 then recip power else .ok power

/-- The greatest rational of which both are integer multiples: the divisor of the numerators
over the multiple of the denominators. It is zero only for two zeros. -/
def gcd (a b : Ratio) : Ratio :=
  let divisor := euclid a.num.natAbs b.num.natAbs
  let multiple := a.den * b.den / euclid a.den b.den
  mkRat divisor multiple

/-! ## Views -/

def isInteger (a : Ratio) : Bool := a.den == 1

/-- The integer part, toward zero. -/
def trunc (a : Ratio) : Int := a.num.tdiv a.den

/-- The integer of 64 bits that the ratio is. -/
def toInt64? (a : Ratio) : Option (FixedInt .w64) :=
  if isInteger a then FixedInt.ofInt? .w64 a.num else none

/-- The nearest floating-point number of 64 bits. -/
def toBinary (a : Ratio) : Binary .double := Binary.ofRat a

/-- Comparison by value. -/
def compare (a b : Ratio) : Ordering :=
  if a < b then .lt else if a = b then .eq else .gt

@[simp] theorem div_zero (a : Ratio) : div a 0 = .error .divisionByZero := rfl

theorem div_of_ne_zero (a : Ratio) {b : Ratio} (h : b ≠ 0) : div a b = .ok (a / b) := if_neg h

end Ratio

end Metrology
