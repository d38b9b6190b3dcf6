/-
  Metrology.Binary.Text

  Decimal text of floating-point numbers: the shortest digits without an exponent on the
  way out, any decimal notation on the way in.
-/
import Metrology.Binary.Shortest
import Metrology.Integer.Text

namespace Metrology.Binary

variable {f : Format}

/-! ## Writing -/

/-- The text of a number: its sign, and the shortest digits that read back to it. -/
def toChars : Binary f → List Char
  | .nan => "NaN".toList
  | .infinite negative => if negative then "-inf".toList else "inf".toList
  | .finite negative rank _ =>
    let digits := if rank = 0 then ['0'] else (f.shortest rank).toChars
    if negative then '-' :: digits else digits

/-- The text of a number, as a string. -/
def text (x : Binary f) : String := String.ofList x.toChars

/-! ## Reading -/

/-- The digits before a point, the digits after it, and what follows them. -/
def splitPoint (s : List Char) : List Char × List Char × List Char :=
  let whole := s.takeWhile Char.isDigit
  match s.dropWhile Char.isDigit with
  | '.' :: r => (whole, r.takeWhile Char.isDigit, r.dropWhile Char.isDigit)
  | r => (whole, [], r)

/-- Reads digits with an optional point and an optional exponent; at least one digit must
stand before or after the point. -/
def readDecimal? (s : List Char) : Option Decimal :=
  let (whole, places, tail) := splitPoint s
  let digits := whole ++ places
  if digits.isEmpty then none
  else
    let scaled (e : Int) : Decimal := ⟨Nat.ofDigitChars 10 digits 0, e - (places.length : Int)⟩
    match tail with
    | [] => some (scaled 0)
    | c :: r => if c = 'e' ∨ c = 'E' then (Integer.read? r).map scaled else none

/-- The number nearest to a decimal. Decimals far outside the format are settled by their
number of digits, since `10 ^ k` lies beyond `2 ^ k`. -/
def ofDecimal (negative : Bool) (d : Decimal) : Binary f :=
  if d.coefficient = 0 then zero negative
  else
    let point := ((Nat.toDigits 10 d.coefficient).length : Int) + d.exponent
    if f.overflowExponent < point then .infinite negative
    else if point < f.leastExponent then zero negative
    else ofSigned negative d.toRat

/-- Reads a number: an optional sign, then a decimal or one of the words `inf`, `infinity`
and `nan` in any case. -/
def read? (f : Format) (s : List Char) : Option (Binary f) :=
  let (negative, body) := Integer.splitSign s
  match readDecimal? body with
  | some d => some (ofDecimal negative d)
  | none =>
    let word := body.map Char.toLower
    if word = "inf".toList ∨ word = "infinity".toList then some (.infinite negative)
    else if word = "nan".toList then some .nan
    else none

end Metrology.Binary
