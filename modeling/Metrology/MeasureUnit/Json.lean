/-
  Metrology.MeasureUnit.Json

  Dimensions, prefixes and units as JSON. A unit names the units it was declared from by
  their symbols.
-/
import Metrology.Magnitude.Json
import Metrology.MeasureUnit.Basic

namespace Metrology

/-! ## Dimensions -/

/-- The name and reference unit that identify a base dimension. -/
def BaseDimension.toJson (b : BaseDimension) : Json :=
  .object [("name", .string b.name), ("reference_unit", .string b.referenceUnit)]

def Exponent.toJson (e : Exponent) : Json :=
  .object [("base", e.base.toJson), ("power", .ofInt e.power.val)]

/-- The records of exponents, in their order. -/
def Exponents.toJson (es : List Exponent) : Json := .array (es.map Exponent.toJson)

/-- The text of a dimension and its exponents. -/
def Dimension.toJson (d : Dimension) : Json :=
  .object [("text", .string d.text), ("exponents", Exponents.toJson d.exponents)]

/-! ## Units -/

def PrefixFamily.text : PrefixFamily → String
  | decimal => "decimal"
  | binary => "binary"

def PrefixFamily.find? (name : String) : Option PrefixFamily :=
  [decimal, binary].find? fun family => family.text == name

def UnitPrefix.toJson (p : UnitPrefix) : Json :=
  .object
    [("symbol", .string p.symbol), ("name", .string p.name),
      ("family", .string p.family.text), ("exponent", .ofInt p.exponent.val)]

/-- How a unit was declared: the name of the kind, with what it was made from if the kind
has that. -/
def UnitKind.toJson : UnitKind MeasureUnit → Json
  | coherent => .string "coherent"
  | scaled reference => .object [("scaled", .string reference.symbol)]
  | prefixed scale reference =>
    .object [("prefixed", Json.ofStrings [scale.symbol, reference.symbol])]
  | deduced constituents =>
    .object [("deduced", Json.ofStrings (constituents.map MeasureUnit.symbol))]
  | composed => .string "composed"
  | common => .string "common"

def MeasureUnit.toJson (u : MeasureUnit) : Json :=
  .object
    [("symbol", .string u.symbol), ("name", .string u.name),
      ("dimension", Exponents.toJson u.dimension.exponents),
      ("magnitude", u.magnitude.toJson), ("kind", u.kind.toJson)]

end Metrology
