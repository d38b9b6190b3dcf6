/-
  Metrology.Document.Basic

  Documents: a unit system described as data, in four lists. A document stands for the
  declarations of its base dimensions with their units, then its derived dimensions, its
  other units, and its aliases.
-/
import Metrology.Catalog.Declaration
import Metrology.Document.AliasMap

namespace Metrology

/-! ## Entries -/

/-- A base dimension with its coherent unit. -/
structure BaseEntry where
  name : String
  referenceUnit : String
  unitName : String
  /-- The reference unit in the canonical unit for the name. -/
  referenceMagnitude : Option Magnitude
  /-- The key of the unit, where its symbol is not to be used. -/
  key : Option String

structure ExponentEntry where
  base : String
  /-- Needed where several base dimensions share the name. -/
  referenceUnit : Option String
  power : Power

structure DimensionEntry where
  name : String
  exponents : List ExponentEntry

/-- A unit made from units that have been declared. -/
inductive UnitEntry where
  | scaled (symbol name reference : String) (factor : Magnitude)
  | prefixed (symbol reference : String)
  | deduced (symbol name dimension : String) (constituents : List String)

/-- A unit system described as data. -/
structure Document where
  bases : List BaseEntry
  dimensions : List DimensionEntry
  units : List UnitEntry
  aliases : AliasMap

/-! ## Declarations -/

/-- A base dimension and its coherent unit. -/
def BaseEntry.declarations (e : BaseEntry) : List Declaration :=
  let magnitude := e.referenceMagnitude.getD .one
  let base : BaseDimension := ⟨e.name, e.referenceUnit, magnitude⟩
  [.base e.name e.referenceUnit magnitude,
    .unit (e.key.getD e.referenceUnit) (.coherent e.referenceUnit e.unitName (.ofBase base))]

/-- The base dimension and power that an exponent names. -/
def ExponentEntry.part (e : ExponentEntry) : BaseName × Power :=
  (⟨e.base, e.referenceUnit⟩, e.power)

/-- The dimension composed of the exponents. -/
def DimensionEntry.declaration (e : DimensionEntry) : Declaration :=
  .composed e.name (e.exponents.map ExponentEntry.part)

def UnitEntry.declaration : UnitEntry → Declaration
  | scaled symbol name reference factor => .scaled symbol name reference factor
  | prefixed symbol reference => .prefixedBy symbol reference
  | deduced symbol name dimension constituents => .deduced symbol name dimension constituents

namespace Document

/-- The declarations of a document, in the order in which they are made. -/
def declarations (d : Document) : List Declaration :=
  d.bases.flatMap BaseEntry.declarations ++ d.dimensions.map DimensionEntry.declaration ++
    d.units.map UnitEntry.declaration ++ d.aliases.entries.map fun e => .alias e.1 e.2

end Document

/-- The declarations of a document, one after the other. -/
def Catalog.load (c : Catalog) (d : Document) : Catalog.Outcome Unit :=
  c.applyAll d.declarations

end Metrology
