/-
  Metrology.Catalog.Verify

  Checks a whole catalog: units measure declared dimensions and have the magnitudes that
  their declarations give, aliases lead to units, and the two tables of dimension names
  agree.
-/
import Metrology.Catalog.Declaration
import Metrology.Json.Report

namespace Metrology.Catalog

/-! ## Units -/

/-- The magnitude that the declaration of a unit gives, where it gives one. -/
def expectedMagnitude (u : MeasureUnit) : Except Error (Option Magnitude) :=
  match u.kind with
  | .coherent => .ok (some .one)
  | .prefixed scale reference => do
    let factor ← Error.lift scale.magnitude
    some <$> Error.lift (reference.magnitude.mul factor)
  | .deduced constituents => do
    let again ← MeasureUnit.deduced u.symbol u.name u.dimension constituents
    pure (some again.magnitude)
  -- The factor of a scaled unit is not kept, so only its dimension can be checked.
  | .scaled reference =>
    if reference.isCompatible u then .ok none
    else fail (.dimensionMismatch "scaled unit" u.dimension.text reference.dimension.text)
  | .composed => .ok none
  | .common => .ok none

/-- Fails unless the magnitude of a unit is the one that its declaration gives. -/
def checkMagnitude (u : MeasureUnit) : Except Error PUnit :=
  if u.magnitude.isZero then fail (.badDeclaration (.hasZeroMagnitude u.symbol))
  else do
    match ← expectedMagnitude u with
    | none => pure ⟨⟩
    | some expected =>
      if u.magnitude.sameValue expected then pure ⟨⟩
      else
        fail (.badDeclaration (.otherMagnitude u.symbol u.magnitude.text expected.text))

/-- What is wrong with a registered unit. -/
def unitProblems (c : Catalog) (key : String) (u : MeasureUnit) : List Error :=
  let undeclared := (u.dimension.exponents.map Exponent.base).filter fun b => !c.hasBase b
  let unknown := undeclared.map fun b => ⟨.unknownDimension b.name, ["unit " ++ key]⟩
  match checkMagnitude u with
  | .ok _ => unknown
  | .error e => unknown ++ [e.note ("unit " ++ key)]

/-! ## Names -/

/-- What is wrong with an alias. -/
def aliasProblems (c : Catalog) (other key : String) : List Error :=
  if hasEntry c.units key then [] else [⟨.unknownUnit key [], ["alias " ++ other]⟩]

/-- What is wrong with a named dimension. -/
def nameProblems (c : Catalog) (name : String) (d : Dimension) : List Error :=
  if c.dimensionName? d = some name then []
  else [⟨.badDeclaration (.notDisplayName name d.text), []⟩]

/-- Some base dimension occurs twice. -/
def hasRepeatedBase : List BaseDimension → Bool
  | [] => false
  | b :: bs => bs.any (·.same b) || hasRepeatedBase bs

/-! ## The whole catalog -/

/-- Everything that is wrong with a catalog, in the order of its tables. -/
def problems (c : Catalog) : List Error :=
  c.units.flatMap (fun (key, u) => c.unitProblems key u) ++
    c.aliases.flatMap (fun (other, key) => c.aliasProblems other key) ++
    c.dimensions.flatMap (fun (name, d) => c.nameProblems name d) ++
    if hasRepeatedBase c.bases then [⟨.badDeclaration .baseTwice, []⟩] else []

/-- The reports of everything that is wrong with a catalog, in the order of their texts. -/
def verify (c : Catalog) : List ErrorReport :=
  ErrorReport.sort (c.problems.map Error.report)

end Metrology.Catalog
