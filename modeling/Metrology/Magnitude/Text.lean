/-
  Metrology.Magnitude.Text

  The text of magnitudes. A magnitude is written as its coefficient, after a tilde if that
  is approximate, and its power of pi. It is read from a product of factors separated by
  stars, each a number, a power of pi, or both with a denominator: `2pi/3`, `1/180*pi`.
-/
import Metrology.Magnitude.Basic
import Metrology.Ratio.Text

namespace Metrology.Magnitude

/-! ## Writing -/

/-- The text of a coefficient, after a tilde if it is approximate. -/
def coefficientChars : Coefficient → List Char
  | .exact value => value.toChars
  | .approx value => '~' :: value.toChars

/-- The coefficient and the power of pi, where the powers zero and one are left out. -/
def toChars (m : Magnitude) : List Char :=
  let suffix :=
    if m.pi.val = 0 then []
    else if m.pi.val = 1 then "*pi".toList
    else "*pi^".toList ++ Integer.toChars m.pi.val
  coefficientChars m.coefficient ++ suffix

def text (m : Magnitude) : String := String.ofList m.toChars

/-! ## Reading -/

/-- Reads a number, as an exact ratio or as a floating-point number. -/
def readNumber (approximate : Bool) (s : List Char) : Except NumberError Magnitude :=
  if approximate then
    match Binary.read? .double (Text.trim s) with
    | some value => approx value
    | none => .error (.malformed (String.ofList s))
  else exact <$> Ratio.ofChars s

/-- The text around the first `pi`, or else around the first `π`. -/
def cutPi (s : List Char) : Option (List Char × List Char) :=
  (Text.cut "pi".toList s).or (Text.cut ['π'] s)

/-- Reads what stands between `pi` and a denominator: nothing, or a power. -/
def readPower? (s : List Char) : Option Power :=
  match s with
  | '^' :: digits => (Integer.read? (Text.trim digits)).bind (FixedInt.ofInt? .w32)
  | _ => if (Text.trim s).isEmpty then some 1 else none

def readFactor (approximate : Bool) (s : List Char) : Except NumberError Magnitude := do
  let factor := Text.trim s
  match cutPi factor with
  | none => readNumber approximate factor
  | some (front, rest) =>
    let coefficient ← if front.isEmpty then pure one else readNumber approximate front
    let (powerText, denominator) :=
      match Text.cut ['/'] rest with
      | some (power, denominator) => (power, some denominator)
      | none => (rest, none)
    match readPower? powerText with
    | none => .error (.malformed (String.ofList factor))
    | some power =>
      -- The power of pi belongs to the numerator; the denominator is a plain number.
      let numerator ← coefficient.timesPi power
      match denominator with
      | none => pure numerator
      | some denominator => numerator.div (← readNumber approximate denominator)

/-- Multiplies the factors together, from the left. -/
def readProduct (approximate : Bool) : Magnitude → List (List Char) → Except NumberError Magnitude
  | product, [] => .ok product
  | product, factor :: factors => do
    let product ← product.mul (← readFactor approximate factor)
    readProduct approximate product factors

/-- Reads a magnitude. A tilde at the start makes every number in it approximate. -/
def ofChars (s : List Char) : Except NumberError Magnitude :=
  let trimmed := Text.trim s
  let (approximate, body) :=
    match trimmed with
    | '~' :: rest => (true, rest)
    | _ => (false, trimmed)
  if body.isEmpty then .error (.malformed (String.ofList trimmed))
  else readProduct approximate one (body.splitOn '*')

def ofText (s : String) : Except NumberError Magnitude := ofChars s.toList

end Metrology.Magnitude
