/-
  Metrology.Catalog.Declare

  Declarations, one at a time. Each checks everything before its first write, because what has
  been written stays when a later step is refused.
-/
import Metrology.Catalog.Similar
import Metrology.Catalog.Update
import Metrology.Text.Blank

namespace Metrology.Catalog

open Update (refuse)

/-! ## Base dimensions -/

/-- Declares a base dimension whose reference unit is `magnitude` times the canonical unit
for its name. -/
def declareBase (name referenceUnit : String) (magnitude : Magnitude) :
    Update BaseDimension := do
  let c ← get
  if name.isEmpty ∨ name.toList.any Text.isBlank then
    refuse (.badDeclaration (.baseName name))
  else if referenceUnit.toList.all Text.isBlank then
    refuse (.badDeclaration (.noReferenceUnit name))
  else if magnitude.isZero then
    refuse (.badDeclaration (.zeroReferenceMagnitude name))
  else if (c.base? name referenceUnit).isSome then
    refuse (.duplicate "base dimension" (BaseDimension.label name referenceUnit))
  else
    let base : BaseDimension := ⟨name, referenceUnit, magnitude⟩
    modify fun c => { c with bases := c.bases ++ [base] }
    -- The order of base dimensions is the order of exponents, so it is kept here.
    modify fun c => { c with bases := BaseDimension.sort c.bases }
    return base

/-! ## Units -/

/-- The first base dimension of a dimension that has not been declared. -/
def undeclaredBase? (c : Catalog) (d : Dimension) : Option BaseDimension :=
  (d.exponents.map Exponent.base).find? fun b => !c.hasBase b

def declareUnit (key : String) (u : MeasureUnit) : Update MeasureUnit := do
  let c ← get
  if key.isEmpty then refuse (.badDeclaration .emptyKey)
  else if c.isTaken key then refuse (.duplicate "unit" key)
  else
    match c.undeclaredBase? u.dimension with
    | some b =>
      -- The label tells base dimensions of one name apart, and the note says who needs it.
      throw ⟨.unknownDimension (BaseDimension.label b.name b.referenceUnit),
        ["while declaring " ++ key]⟩
    | none =>
      if u.magnitude.isZero then refuse (.badDeclaration (.zeroMagnitude key))
      else
        modify fun c => { c with units := put c.units (· == key) key u }
        return u

/-- Declares the coherent unit of a dimension under its symbol. -/
def declareCoherent (symbol name : String) (d : Dimension) : Update MeasureUnit :=
  declareUnit symbol (.coherent symbol name d)

/-- Declares a factor times the unit under a key. -/
def declareScaled (symbol name reference : String) (factor : Magnitude) :
    Update MeasureUnit :=
  -- A zero factor is refused even where the reference is unknown.
  if factor.isZero then refuse (.badDeclaration (.zeroFactor symbol))
  else do
    let c ← get
    let reference ← c.require reference
    let u ← MeasureUnit.scaled symbol name reference factor
    declareUnit symbol u

/-- Declares a prefix applied to the unit under a key. -/
def declarePrefixed (scale : UnitPrefix) (reference : String) : Update MeasureUnit := do
  let c ← get
  let reference ← c.require reference
  let u ← MeasureUnit.prefixed scale reference
  declareUnit u.symbol u

/-- Declares the unit under a key with each of the prefixes, until one is refused. -/
def declarePrefixes (reference : String) (scales : List UnitPrefix) :
    Update (List MeasureUnit) :=
  scales.mapM fun scale => declarePrefixed scale reference

/-- Declares a unit of a named dimension from the units under one key for each of its base
dimensions. -/
def declareDeduced (symbol name dimension : String) (constituents : List String) :
    Update MeasureUnit := do
  let c ← get
  match c.dimension? dimension with
  | none => refuse (.unknownDimension dimension)
  | some d =>
    let units ← constituents.mapM (m := Except Error) c.require
    let u ← MeasureUnit.deduced symbol name d units
    declareUnit symbol u

/-! ## Names -/

/-- Gives a display name to a dimension that has none. -/
def nameDimension (name : String) (d : Dimension) : Update Unit := do
  let c ← get
  if name.toList.all Text.isBlank then refuse (.badDeclaration .emptyDimensionName)
  else if hasEntry c.dimensions name then refuse (.duplicate "dimension" name)
  else
    match c.dimensionName? d with
    | some existing =>
      -- A dimension keeps the first name that it was given.
      throw ⟨.duplicate "dimension" d.text, ["already named '" ++ existing ++ "'"]⟩
    | none =>
      match c.undeclaredBase? d with
      | some b => refuse (.unknownDimension b.name)
      | none =>
        modify fun c => { c with names := put c.names (·.same d) d name }
        modify fun c => { c with dimensions := put c.dimensions (· == name) name d }

def declareDerived (name : String) (exponents : List Exponent) : Update Dimension := do
  let d ← Dimension.ofExponents exponents
  nameDimension name d
  return d

/-- Makes `other` stand for the unit under `key`. -/
def declareAlias (other key : String) : Update Unit := do
  let c ← get
  if c.isTaken other then refuse (.duplicate "unit" other)
  else if !hasEntry c.units key then refuse (.unknownUnit key [])
  else modify fun c => { c with aliases := put c.aliases (· == other) other key }

end Metrology.Catalog
