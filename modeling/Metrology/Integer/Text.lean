/-
  Metrology.Integer.Text

  Decimal text of integers. One printer, and two readers: the plain one takes a sign and
  digits, the grouped one also takes underscores between the digits.
-/

namespace Metrology.Integer

/-! ## Writing -/

/-- The decimal digits, after a minus sign for a negative integer. -/
def toChars : Int → List Char
  | .ofNat n => Nat.toDigits 10 n
  | .negSucc n => '-' :: Nat.toDigits 10 (n + 1)

def text (n : Int) : String := String.ofList (toChars n)

/-! ## Reading -/

/-- Whether the text starts with a minus sign, and what follows its one optional sign. -/
def splitSign : List Char → Bool × List Char
  | '-' :: s => (true, s)
  | '+' :: s => (false, s)
  | s => (false, s)

/-- The integer with the given sign and absolute value. -/
def signed (negative : Bool) (n : Nat) : Int := if negative then -(n : Int) else n

/-- The number that a text of ASCII digits stands for; the empty text stands for zero. -/
def ofDigits? (s : List Char) : Option Nat :=
  if s.all Char.isDigit then some (Nat.ofDigitChars 10 s 0) else none

/-- Reads an optional sign and at least one digit. -/
def read? (s : List Char) : Option Int :=
  let (negative, body) := splitSign s
  if body.isEmpty then none else (ofDigits? body).map (signed negative)

/-- Reads an optional sign and at least one character, where leading zeros and then every
underscore are passed over and digits must remain. -/
def readGrouped? (s : List Char) : Option Int :=
  let (negative, body) := splitSign s
  if body.isEmpty then none
  else (ofDigits? ((body.dropWhile (· == '0')).filter (· != '_'))).map (signed negative)

end Metrology.Integer
