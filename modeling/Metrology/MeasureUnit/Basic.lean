/-
  Metrology.MeasureUnit.Basic

  Units of measure: a dimension and a magnitude relative to the coherent unit of that
  dimension. A unit remembers how it was declared, which lets a catalog check it again.
-/
import Metrology.Dimension.Basic
import Metrology.MeasureUnit.Prefix

namespace Metrology

/-! ## Units -/

/-- How a unit was declared, in terms of the units of type `α` it was made from. -/
inductive UnitKind (α : Type) where
  /-- The reference unit of its dimension, with magnitude one. -/
  | coherent
  /-- A factor times a reference unit. -/
  | scaled (reference : α)
  /-- A prefix applied to a reference unit. -/
  | prefixed (scale : UnitPrefix) (reference : α)
  /-- Made for a derived dimension from one unit for each base dimension. -/
  | deduced (constituents : List α)
  /-- A product, quotient or power. -/
  | composed
  /-- Made so that two units can be added and compared exactly. -/
  | common

/-- A unit of measure. Its serial number, zero until one is given, is kept by all copies of
the unit and so tells it from a unit made again in the same way. -/
inductive MeasureUnit where
  | mk (symbol name : String) (dimension : Dimension) (magnitude : Magnitude)
      (kind : UnitKind MeasureUnit) (serial : Nat := 0)

namespace MeasureUnit

/-- The symbol written after a value. -/
def symbol : MeasureUnit → String
  | mk symbol .. => symbol

/-- The name in words. -/
def name : MeasureUnit → String
  | mk _ name .. => name

def dimension : MeasureUnit → Dimension
  | mk _ _ dimension .. => dimension

/-- The ratio to the coherent unit of the dimension. -/
def magnitude : MeasureUnit → Magnitude
  | mk _ _ _ magnitude .. => magnitude

def kind : MeasureUnit → UnitKind MeasureUnit
  | mk _ _ _ _ kind _ => kind

def serial : MeasureUnit → Nat
  | mk _ _ _ _ _ serial => serial

/-- The unit with a serial number; one that it already has stays. -/
def numbered (serial : Nat) : MeasureUnit → MeasureUnit
  | mk symbol name dimension magnitude kind 0 => mk symbol name dimension magnitude kind serial
  | u => u

/-! ## Predicates -/

def scale? (u : MeasureUnit) : Option UnitPrefix :=
  match u.kind with
  | .prefixed scale _ => some scale
  | _ => none

def isCoherent (u : MeasureUnit) : Bool := u.magnitude.isOne

def measures (u : MeasureUnit) (d : Dimension) : Bool := u.dimension.same d

/-- Both units measure one dimension. -/
def isCompatible (a b : MeasureUnit) : Bool := a.dimension.same b.dimension

/-- Equal symbols, dimensions and magnitudes; names and declarations take no part. Where the
magnitude is no number, which equals nothing, only copies of one unit are the same. -/
def same (a b : MeasureUnit) : Bool :=
  a.symbol == b.symbol && a.dimension.same b.dimension &&
    (a.magnitude.sameValue b.magnitude ||
      a.serial == b.serial && decide (a.magnitude = b.magnitude))

/-! ## Declared units -/

def coherent (symbol name : String) (dimension : Dimension) : MeasureUnit :=
  mk symbol name dimension .one .coherent

def dimensionless : MeasureUnit := coherent "" "one" .dimensionless

def scaled (symbol name : String) (reference : MeasureUnit) (factor : Magnitude) :
    Except Error MeasureUnit := do
  let magnitude ← Error.lift (reference.magnitude.mul factor)
  pure (mk symbol name reference.dimension magnitude (.scaled reference))

/-- A prefix applied to a reference unit that has none; symbols and names are joined. -/
def prefixed (scale : UnitPrefix) (reference : MeasureUnit) : Except Error MeasureUnit :=
  match reference.scale? with
  | some _ => fail (.badDeclaration (.alreadyPrefixed reference.symbol))
  | none => do
    let factor ← Error.lift scale.magnitude
    let magnitude ← Error.lift (reference.magnitude.mul factor)
    pure (mk (scale.symbol ++ reference.symbol) (scale.name ++ reference.name)
      reference.dimension magnitude (.prefixed scale reference))

/-- The constituents that measure exactly a base dimension to the first power. -/
def measuring (base : BaseDimension) (constituents : List MeasureUnit) : List MeasureUnit :=
  constituents.filter fun u => u.dimension.asBase?.any (·.same base)

/-- The product of the constituents, each raised to the power of its base dimension. -/
def deducedMagnitude (symbol : String) (constituents : List MeasureUnit) :
    Magnitude → List Exponent → Except Error Magnitude
  | product, [] => .ok product
  | product, e :: es =>
    match measuring e.base constituents with
    | [u] => do
      let power ← Error.lift (u.magnitude.pow e.power)
      let product ← Error.lift (product.mul power)
      deducedMagnitude symbol constituents product es
    | _ => fail (.badDeclaration (.constituentOf symbol e.base.name))

/-- The unit of a derived dimension made from one constituent for each of its base
dimensions. -/
def deduced (symbol name : String) (dimension : Dimension) (constituents : List MeasureUnit) :
    Except Error MeasureUnit :=
  let needed := dimension.exponents.length
  if constituents.length ≠ needed then
    fail (.badDeclaration (.constituentCount symbol needed dimension.text constituents.length))
  else do
    let magnitude ← deducedMagnitude symbol constituents .one dimension.exponents
    pure (mk symbol name dimension magnitude (.deduced constituents))

end MeasureUnit

end Metrology
