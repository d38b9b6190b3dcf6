/-
  Metrology.Json.Number

  How a number in JSON text is measured against the doubles. Its leading digits, as many as
  fit 64 bits, and the power of ten that scales them are rounded to doubles; so is their
  product, which has to be finite.
-/
import Metrology.Binary.Arithmetic
import Metrology.Binary.Text

namespace Metrology.Json

/-! ## Leading digits -/

/-- The number with digits appended while it fits 64 bits, and the digits left over. -/
def appendDigits (n : Nat) : List Char → Nat × List Char
  | [] => (n, [])
  | c :: s =>
    let longer := 10 * n + (c.toNat - '0'.toNat)
    if longer < 1 <<< 64 then appendDigits longer s else (n, c :: s)

/-- The leading digits of a number in absolute value, scaled by the power of ten that its
point, its exponent and its dropped digits call for. -/
def leadingDecimal (literal : List Char) : Decimal :=
  let (whole, places, tail) := Binary.splitPoint (Integer.splitSign literal).2
  let exponent := (Integer.read? (tail.drop 1)).getD 0
  -- Digits dropped before the point leave their place value, those after it do not. A place
  -- may fit where the digit before the point did not, if it is smaller.
  let (n, dropped) := appendDigits 0 whole
  let (n, unused) := appendDigits n places
  ⟨n, exponent + (dropped.length : Int) - ((places.length : Int) - (unused.length : Int))⟩

/-! ## Range -/

/-- Whether the rounded product of the leading digits and their power of ten is infinite.
Zero is in range whatever its exponent, and a negative exponent only divides. -/
def isOutsideDoubles (literal : String) : Bool :=
  let d := leadingDecimal literal.toList
  let digits : Binary .double := .ofDecimal false ⟨d.coefficient, 0⟩
  let scale : Binary .double := .ofDecimal false ⟨1, d.exponent⟩
  d.coefficient != 0 && decide (0 ≤ d.exponent) && !(digits.mul scale).isFinite

end Metrology.Json
