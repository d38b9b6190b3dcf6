/-
  Metrology.Document.Json

  Documents as JSON. Absent fields are left out when a document is written; every list may
  be missing when it is read.
-/
import Metrology.Document.Basic
import Metrology.Json.Number
import Metrology.Magnitude.Json

namespace Metrology

/-! ## Base dimensions -/

namespace BaseEntry

def toJson (e : BaseEntry) : Json :=
  Json.ofMembers
    [("name", some (.string e.name)), ("reference_unit", some (.string e.referenceUnit)),
      ("unit_name", some (.string e.unitName)),
      ("reference_magnitude", e.referenceMagnitude.map Magnitude.toJson),
      ("key", e.key.map .string)]

/-- Reads the record of a base dimension. -/
def ofJson? (j : Json) : Option BaseEntry := do
  match ← j.fields? ["name", "reference_unit", "unit_name", "reference_magnitude", "key"] with
  | [name, referenceUnit, unitName, referenceMagnitude, key] =>
    let name ← Json.required? Json.asString? name
    let referenceUnit ← Json.required? Json.asString? referenceUnit
    let unitName ← Json.required? Json.asString? unitName
    let referenceMagnitude ← Json.optional? Magnitude.ofJson? referenceMagnitude
    let key ← Json.optional? Json.asString? key
    pure ⟨name, referenceUnit, unitName, referenceMagnitude, key⟩
  | _ => none

end BaseEntry

/-! ## Dimensions -/

namespace ExponentEntry

def toJson (e : ExponentEntry) : Json :=
  Json.ofMembers
    [("base", some (.string e.base)), ("reference_unit", e.referenceUnit.map .string),
      ("power", some (.ofInt e.power.val))]

def ofJson? (j : Json) : Option ExponentEntry := do
  match ← j.fields? ["base", "reference_unit", "power"] with
  | [base, referenceUnit, power] =>
    let base ← Json.required? Json.asString? base
    let referenceUnit ← Json.optional? Json.asString? referenceUnit
    let power ← Json.required? Json.asPower? power
    pure ⟨base, referenceUnit, power⟩
  | _ => none

end ExponentEntry

namespace DimensionEntry

def toJson (e : DimensionEntry) : Json :=
  .object
    [("name", .string e.name), ("exponents", .array (e.exponents.map ExponentEntry.toJson))]

def ofJson? (j : Json) : Option DimensionEntry := do
  match ← j.fields? ["name", "exponents"] with
  | [name, exponents] =>
    let name ← Json.required? Json.asString? name
    let exponents ← Json.required? (Json.itemsOf? ExponentEntry.ofJson?) exponents
    pure ⟨name, exponents⟩
  | _ => none

end DimensionEntry

/-! ## Units -/

namespace UnitEntry

/-- The record of a unit, tagged with its kind. -/
def toJson : UnitEntry → Json
  | scaled symbol name reference factor =>
    .object
      [("kind", .string "scaled"), ("symbol", .string symbol), ("name", .string name),
        ("reference", .string reference), ("factor", factor.toJson)]
  | prefixed symbol reference =>
    .object
      [("kind", .string "prefixed"), ("prefix", .string symbol), ("reference", .string reference)]
  | deduced symbol name dimension constituents =>
    .object
      [("kind", .string "deduced"), ("symbol", .string symbol), ("name", .string name),
        ("dimension", .string dimension), ("constituents", Json.ofStrings constituents)]

/-- Whether a value can be kept aside until the kind of the record that holds it is known:
everything in it denotes something, and its arrays and objects are nested no deeper than
the limit. -/
def canBeKept : Nat → Json → Bool
  | _, .meaningless => false
  | _, .number literal => !Json.isOutsideDoubles literal
  | 0, .array _ => false
  | 0, .object _ => false
  | limit + 1, .array items => items.all (canBeKept limit)
  | limit + 1, .object members => members.all fun m => canBeKept limit m.2
  | _, _ => true

/-- The depth to which the values of a unit may be nested. -/
def nestingLimit : Nat := 124

/-- Reads the fields of a scaled unit. -/
def scaledOf? (j : Json) : Option UnitEntry := do
  match ← j.fields? ["symbol", "name", "reference", "factor"] with
  | [symbol, name, reference, factor] =>
    let symbol ← Json.required? Json.asString? symbol
    let name ← Json.required? Json.asString? name
    let reference ← Json.required? Json.asString? reference
    let factor ← Json.required? Magnitude.ofJson? factor
    pure (scaled symbol name reference factor)
  | _ => none

/-- Reads the fields of a unit with a prefix. -/
def prefixedOf? (j : Json) : Option UnitEntry := do
  match ← j.fields? ["prefix", "reference"] with
  | [symbol, reference] =>
    let symbol ← Json.required? Json.asString? symbol
    let reference ← Json.required? Json.asString? reference
    pure (prefixed symbol reference)
  | _ => none

/-- Reads the fields of a deduced unit. -/
def deducedOf? (j : Json) : Option UnitEntry := do
  match ← j.fields? ["symbol", "name", "dimension", "constituents"] with
  | [symbol, name, dimension, constituents] =>
    let symbol ← Json.required? Json.asString? symbol
    let name ← Json.required? Json.asString? name
    let dimension ← Json.required? Json.asString? dimension
    let constituents ← Json.required? (Json.itemsOf? Json.asString?) constituents
    pure (deduced symbol name dimension constituents)
  | _ => none

/-- Reads the fields of a unit of a kind. -/
def ofKind? (kind : String) (j : Json) : Option UnitEntry :=
  if kind = "scaled" then scaledOf? j
  else if kind = "prefixed" then prefixedOf? j
  else if kind = "deduced" then deducedOf? j
  else none

/-- Reads the record of a unit: an object with its kind as one member, or an array with its
kind in front of its fields. -/
def ofJson? : Json → Option UnitEntry
  | .object members =>
    if members.all fun m => canBeKept nestingLimit m.2 then
      match Json.pick? ["kind"] members with
      | some [some (.string kind)] => ofKind? kind (.object members)
      | _ => none
    else none
  | .array (.string kind :: fields) => ofKind? kind (.array fields)
  | _ => none

end UnitEntry

/-! ## Aliases -/

namespace AliasMap

def toJson (m : AliasMap) : Json := .object (m.entries.map fun e => (e.1, .string e.2))

/-- Reads an object of strings; the last value of a repeated key counts. -/
def ofJson? : Json → Option AliasMap
  | .object members =>
    ofEntries <$> members.mapM fun m => (m.1, ·) <$> m.2.asString?
  | _ => none

/-- Reads a field of aliases that may be missing. -/
def ofField? : Option Json → Option AliasMap
  | none => some empty
  | some value => ofJson? value

end AliasMap

/-! ## Documents -/

namespace Document

def toJson (d : Document) : Json :=
  .object
    [("bases", .array (d.bases.map BaseEntry.toJson)),
      ("dimensions", .array (d.dimensions.map DimensionEntry.toJson)),
      ("units", .array (d.units.map UnitEntry.toJson)), ("aliases", d.aliases.toJson)]

def ofJson? (j : Json) : Option Document := do
  match ← j.fields? ["bases", "dimensions", "units", "aliases"] with
  | [bases, dimensions, units, aliases] =>
    let bases ← Json.listed? BaseEntry.ofJson? bases
    let dimensions ← Json.listed? DimensionEntry.ofJson? dimensions
    let units ← Json.listed? UnitEntry.ofJson? units
    let aliases ← AliasMap.ofField? aliases
    pure ⟨bases, dimensions, units, aliases⟩
  | _ => none

def ofText? (text : String) : Option Document := (Json.read? text).bind ofJson?

end Document

end Metrology
