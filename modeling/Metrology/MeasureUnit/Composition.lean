/-
  Metrology.MeasureUnit.Composition

  Products, quotients and powers of units, and the unit in which two values are added or
  compared.
-/
import Metrology.MeasureUnit.Conversion

namespace Metrology.MeasureUnit

/-! ## Products and powers -/

def multiply (a b : MeasureUnit) : Except Error MeasureUnit := do
  -- A dimension out of range is found before a magnitude out of range.
  let dimension ← a.dimension.multiply b.dimension
  let magnitude ← Error.lift (a.magnitude.mul b.magnitude)
  pure (mk (a.symbol ++ "·" ++ b.symbol) (a.name ++ " " ++ b.name) dimension magnitude .composed)

def divide (a b : MeasureUnit) : Except Error MeasureUnit := do
  let dimension ← a.dimension.divide b.dimension
  let magnitude ← Error.lift (a.magnitude.div b.magnitude)
  pure (mk (a.symbol ++ "/" ++ b.symbol) (a.name ++ " per " ++ b.name) dimension magnitude
    .composed)

/-- The power of a unit; the first power is the unit itself. -/
def power (u : MeasureUnit) (n : Power) : Except Error MeasureUnit :=
  if n.val = 1 then .ok u
  else do
    let dimension ← u.dimension.power n
    let magnitude ← Error.lift (u.magnitude.pow n)
    pure (mk (u.symbol ++ "^" ++ Integer.text n.val) (u.name ++ " to the " ++ Integer.text n.val)
      dimension magnitude .composed)

def inverse (u : MeasureUnit) : Except Error MeasureUnit := do
  let dimension ← u.dimension.invert
  let magnitude ← Error.lift u.magnitude.recip
  pure (mk ("1/" ++ u.symbol) ("inverse " ++ u.name) dimension magnitude .composed)

/-! ## Common units -/

/-- The unit made from the greatest common divisor of two magnitudes. -/
def ofCommonDivisor (a b : MeasureUnit) (divisor : Magnitude) : MeasureUnit :=
  mk ("common(" ++ a.symbol ++ ", " ++ b.symbol ++ ")")
    ("common unit of " ++ a.name ++ " and " ++ b.name) a.dimension divisor .common

/-- The unit that values in `a` and `b` are converted to before they are added or compared.
Where one magnitude is an integer multiple of the other the finer unit is taken, the left
one of equals. Other exact magnitudes with one power of pi meet in their greatest common
divisor, so that integers stay integers. All else falls back to the smaller unit. -/
def common (a b : MeasureUnit) : Except Error MeasureUnit := do
  checkCompatible "common unit" a b
  if a.same b then pure a
  else
    let ratio ← Error.lift (a.magnitude.div b.magnitude)
    -- Different units may still have one magnitude.
    if ratio.isOne then pure a
    else if ratio.isInteger then pure b
    else
      let inverse ← Error.lift (b.magnitude.div a.magnitude)
      if inverse.isInteger then pure a
      else
        -- Approximate magnitudes and different powers of pi have no common divisor.
        match a.magnitude.commonDivisor? b.magnitude with
        | some divisor => pure (ofCommonDivisor a b divisor)
        | none => pure (if b.magnitude.compareValue a.magnitude = .lt then b else a)

end Metrology.MeasureUnit
