/-
  Metrology.Catalog.Basic

  Catalogs of declared base dimensions, named dimensions and units. A unit is found by its
  key, which is usually its symbol; a symbol that another system has taken is registered
  under a qualified key such as `cgs:cm`. The tables keep the order of declaration, and no
  answer depends on it.
-/
import Metrology.Quantity.Report

namespace Metrology

/-- Everything that has been declared. -/
structure Catalog where
  /-- The base dimensions, in their order. -/
  bases : List BaseDimension := []
  /-- The units under their keys. -/
  units : List (String × MeasureUnit) := []
  /-- Other names for keys. -/
  aliases : List (String × String) := []
  /-- The display name of each named dimension. -/
  names : List (Dimension × String) := []
  /-- The dimension of each name. -/
  dimensions : List (String × Dimension) := []

namespace Catalog

/-- The catalog in which nothing is declared. -/
def empty : Catalog := {}

/-! ## Tables -/

/-- The value under a key. -/
def lookup? {α : Type} (table : List (String × α)) (key : String) : Option α :=
  (table.find? fun e => e.1 == key).map Prod.snd

/-- Whether a key has a value. -/
def hasEntry {α : Type} (table : List (String × α)) (key : String) : Bool :=
  (lookup? table key).isSome

/-- The table with a value under a key. A key that is there already gets the new value. -/
def put {α β : Type} (table : List (α × β)) (same : α → Bool) (key : α) (value : β) :
    List (α × β) :=
  if table.any fun e => same e.1 then
    table.map fun e => if same e.1 then (e.1, value) else e
  else table ++ [(key, value)]

def hasBase (c : Catalog) (base : BaseDimension) : Bool := c.bases.any (·.same base)

/-- The key is taken, by a unit or as an alias. -/
def isTaken (c : Catalog) (key : String) : Bool := hasEntry c.units key || hasEntry c.aliases key

/-! ## Lookup -/

/-- The unit under a key or an alias of it. -/
def unit? (c : Catalog) (key : String) : Option MeasureUnit :=
  match lookup? c.units key with
  | some u => some u
  | none => (lookup? c.aliases key).bind (lookup? c.units)

/-- The base dimension with a name and reference unit. -/
def base? (c : Catalog) (name referenceUnit : String) : Option BaseDimension :=
  c.bases.find? fun b => b.name == name && b.referenceUnit == referenceUnit

/-- The base dimensions with a name, one for each unit system. -/
def basesNamed (c : Catalog) (name : String) : List BaseDimension :=
  c.bases.filter fun b => b.name == name

def dimension? (c : Catalog) (name : String) : Option Dimension := lookup? c.dimensions name

def dimensionName? (c : Catalog) (d : Dimension) : Option String :=
  (c.names.find? fun e => e.1.same d).map Prod.snd

/-! ## Serial numbers -/

/-- The catalog with a serial number for every unit that has none yet. -/
def numbered (serial : Nat) (c : Catalog) : Catalog :=
  { c with units := c.units.map fun e => (e.1, e.2.numbered serial) }

/-! ## Listings -/

/-- Strings in the order of their code points. -/
def sortStrings (items : List String) : List String :=
  items.mergeSort fun a b => (compare a b).isLE

/-- The keys of all units, sorted. -/
def symbols (c : Catalog) : List String := sortStrings (c.units.map Prod.fst)

/-- Order by magnitude, and by symbol among equal magnitudes. -/
def compareUnits (a b : MeasureUnit) : Ordering :=
  (a.magnitude.compareValue b.magnitude).then (compare a.symbol b.symbol)

/-- The units that measure a dimension, the smallest first. -/
def unitsOf (c : Catalog) (d : Dimension) : List MeasureUnit :=
  ((c.units.map Prod.snd).filter (·.measures d)).mergeSort fun a b => (compareUnits a b).isLE

/-- The report of a quantity, with the name that the catalog has for its dimension. -/
def describe (c : Catalog) {r : Representation} (q : Quantity r) : QuantityReport :=
  { q.report with dimensionName := c.dimensionName? q.dimension }

end Catalog

end Metrology
