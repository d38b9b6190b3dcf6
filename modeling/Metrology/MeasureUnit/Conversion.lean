/-
  Metrology.MeasureUnit.Conversion

  Factors between units. A conversion needs one dimension; a bridge also crosses between
  unit systems, where dimensions differ in the reference units of their base dimensions.
-/
import Metrology.MeasureUnit.Basic

namespace Metrology.MeasureUnit

/-! ## Mismatches -/

/-- Why two units of different dimensions do not go together in an operation. -/
def mismatch (operation : String) (a b : MeasureUnit) : Error :=
  if a.dimension.isBridgeable b.dimension then
    ⟨.referenceMismatch operation a.symbol b.symbol, []⟩
  else
    ⟨.dimensionMismatch operation a.dimension.text b.dimension.text,
      [a.symbol ++ " vs " ++ b.symbol]⟩

/-- Fails unless both units measure one dimension. -/
def checkCompatible (operation : String) (a b : MeasureUnit) : Except Error PUnit :=
  if a.isCompatible b then .ok ⟨⟩ else .error (mismatch operation a b)

/-! ## Factors -/

/-- The number by which a value in `a` is multiplied to get the value in `b`. -/
def conversionFactor (a b : MeasureUnit) : Except Error Magnitude := do
  checkCompatible "convert" a b
  Error.lift (a.magnitude.div b.magnitude)

/-- The magnitude in the canonical units of the base names, which all systems share. -/
def canonicalMagnitude (u : MeasureUnit) : Except Error Magnitude := do
  let reference ← u.dimension.referenceMagnitude
  Error.lift (u.magnitude.mul reference)

/-- The factor between units of one dimension or of bridgeable dimensions. -/
def bridgeFactor (a b : MeasureUnit) : Except Error Magnitude :=
  if a.isCompatible b then a.conversionFactor b
  else if a.dimension.isBridgeable b.dimension then do
    let source ← a.canonicalMagnitude
    let target ← b.canonicalMagnitude
    Error.lift (source.div target)
  else .error (mismatch "cast" a b)

end Metrology.MeasureUnit
