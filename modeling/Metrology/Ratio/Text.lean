/-
  Metrology.Ratio.Text

  The text of exact rationals. A ratio is written as an integer or a fraction in lowest
  terms; it is read from an integer, a decimal, or a fraction of these. Several slashes
  group to the right.
-/
import Metrology.Ratio.Basic
import Metrology.Text.Blank
import Metrology.Text.Cut

namespace Metrology.Ratio

/-! ## Writing -/

/-- The numerator, followed by a slash and the denominator unless that is one. -/
def toChars (a : Ratio) : List Char :=
  if isInteger a then Integer.toChars a.num
  else Integer.toChars a.num ++ '/' :: Nat.toDigits 10 a.den

def text (a : Ratio) : String := String.ofList (toChars a)

/-! ## Reading -/

/-- A sign that stands in front of a decimal. -/
def isSign (c : Char) : Bool := c == '-' || c == '+'

/-- Ten to the number of places of a decimal. The number is kept in 32 bits and wraps there, so
only fewer than `2 ^ 31` places are counted as they are. -/
def scale? (places : Nat) : Option Ratio := (pow 10 (Int.bmod places 4294967296)).toOption

/-- Reads an integer, or a decimal with at least one digit after its point. The digits on
both sides of the point make one integer, which a minus sign at the start negates. -/
def readPlain? (s : List Char) : Option Ratio :=
  match Text.cut ['.'] s with
  | none => (Integer.readGrouped? s).map fun (n : Int) => (n : Ratio)
  | some (whole, places) =>
    if places.isEmpty || !places.all Char.isDigit then none
    else do
      -- All signs in front are dropped, and the first character alone decides the sign.
      let digits ← Integer.readGrouped? (whole.dropWhile isSign ++ places)
      let value := if whole.head? = some '-' then -digits else digits
      let scale ← scale? places.length
      pure ((value : Ratio) / scale)

/-- Reads the parts between slashes, each with blanks around it: the first is divided by
what the others make. -/
def readParts? : List (List Char) → Option Ratio
  | [] => none
  | [part] => readPlain? (Text.trim part)
  | part :: parts => do
    let numerator ← readPlain? (Text.trim part)
    let denominator ← readParts? parts
    if denominator = 0 then none else some (numerator / denominator)

/-- Reads a ratio. Only the division by the outermost denominator is told apart from text
that is no number. -/
def ofChars (s : List Char) : Except NumberError Ratio :=
  let body := Text.trim s
  let malformed : Except NumberError Ratio := .error (.malformed (String.ofList body))
  match body.splitOn '/' with
  | [] => malformed
  | [part] => (readPlain? part).elim malformed .ok
  | part :: parts =>
    match readPlain? (Text.trim part), readParts? parts with
    -- The division is the checked one, so that a zero denominator has an error of its own.
    | some numerator, some denominator => div numerator denominator
    | _, _ => malformed

def ofText (s : String) : Except NumberError Ratio := ofChars s.toList

end Metrology.Ratio
