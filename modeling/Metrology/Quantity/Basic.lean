/-
  Metrology.Quantity.Basic

  Quantities: values in units. There is no equality of quantities as such, since values in
  different units are compared only after conversion.
-/
import Metrology.MeasureUnit.Composition
import Metrology.Representation.Operations

namespace Metrology

/-- A value of a number type, in a unit of measure. -/
structure Quantity (r : Representation) where
  value : r.Value
  unit : MeasureUnit

namespace Quantity

variable {r : Representation}

def dimensionless (value : r.Value) : Quantity r := ⟨value, .dimensionless⟩

/-- The dimension, which is always that of the unit. -/
def dimension (q : Quantity r) : Dimension := q.unit.dimension

/-- A quantity in a unit of the dimension of pure numbers. -/
def isDimensionless (q : Quantity r) : Bool := q.dimension.isDimensionless

/-- The quantity with a serial number for its unit. -/
def numbered (serial : Nat) (q : Quantity r) : Quantity r := ⟨q.value, q.unit.numbered serial⟩

/-- The value, followed by the symbol of the unit if that has one. -/
def text (q : Quantity r) : String :=
  if q.unit.symbol.isEmpty then r.valueText q.value
  else r.valueText q.value ++ " " ++ q.unit.symbol

/-! ## Conversion -/

/-- The quantity in another unit of its dimension, if no value of the number type could
lose anything by the conversion. -/
def convertTo (q : Quantity r) (target : MeasureUnit) : Except Error (Quantity r) := do
  let factor ← q.unit.conversionFactor target
  -- The factor decides, not the value: zero is refused as well.
  if r.isLossless factor then
    let value ← r.rescale q.value factor
    pure ⟨value, target⟩
  else
    .error ⟨.narrowing q.unit.symbol target.symbol factor.text, ["representation " ++ r.name]⟩

/-- The quantity in another unit, with the loss that the number type makes necessary. Units
of one physical quantity in two unit systems are bridged. -/
def castTo (q : Quantity r) (target : MeasureUnit) : Except Error (Quantity r) := do
  let factor ← q.unit.bridgeFactor target
  let value ← r.rescale q.value factor
  pure ⟨value, target⟩

/-- The quantity in a number type that holds all values of the present one. -/
def widen? (q : Quantity r) (s : Representation) : Option (Quantity s) :=
  (r.widen? s q.value).map (⟨·, q.unit⟩)

/-- The quantity in another number type, by way of its exact value. -/
def castRepresentation (q : Quantity r) (s : Representation) : Except Error (Quantity s) := do
  let exactValue ← r.toRatio q.value
  let value ← s.ofRatio exactValue
  pure ⟨value, q.unit⟩

/-- The reference unit of an exponent's base dimension, with the power unless it is one. -/
def referenceText (e : Exponent) : String :=
  if e.power.val = 1 then e.base.referenceUnit
  else e.base.referenceUnit ++ "^" ++ Integer.text e.power.val

/-- The coherent unit made from the reference units of a dimension. -/
def coherentUnit (d : Dimension) : MeasureUnit :=
  let parts := d.exponents.map referenceText
  .coherent ("·".intercalate parts) (" ".intercalate parts) d

/-- The quantity in the coherent unit of its dimension. -/
def toCoherent (q : Quantity r) : Except Error (Quantity r) :=
  if q.unit.isCoherent then .ok q else q.convertTo (coherentUnit q.dimension)

end Quantity

end Metrology
