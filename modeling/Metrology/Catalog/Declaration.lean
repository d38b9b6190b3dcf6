/-
  Metrology.Catalog.Declaration

  Declarations as data. A unit system is a list of declarations, and loading it applies
  them in order until one is refused; what was declared before stays.
-/
import Metrology.Catalog.Declare

namespace Metrology

/-- A base dimension by its name, and by its reference unit where that is given. -/
structure BaseName where
  name : String
  referenceUnit : Option String := none
  deriving DecidableEq, Repr

/-- One step in building a catalog. -/
inductive Declaration where
  | base (name referenceUnit : String) (magnitude : Magnitude)
  /-- Goes on only if the base dimension has been declared. -/
  | needsBase (name referenceUnit : String)
  | unit (key : String) (unit : MeasureUnit)
  | scaled (symbol name reference : String) (factor : Magnitude)
  | prefixed (scale : UnitPrefix) (reference : String)
  /-- A prefix given by its symbol. -/
  | prefixedBy (symbol reference : String)
  | deduced (symbol name dimension : String) (constituents : List String)
  /-- A dimension composed of base dimensions given by name. -/
  | composed (name : String) (parts : List (BaseName × Power))
  | derived (name : String) (exponents : List Exponent)
  | named (name : String) (dimension : Dimension)
  | alias (other key : String)

namespace Catalog

/-- The base dimension that a name stands for. A name without a reference unit must belong
to one base dimension only. -/
def resolveBase (c : Catalog) (b : BaseName) : Except Error BaseDimension :=
  match b.referenceUnit with
  | some referenceUnit =>
    match c.base? b.name referenceUnit with
    | some base => .ok base
    | none => fail (.unknownDimension (BaseDimension.label b.name referenceUnit))
  | none =>
    match c.basesNamed b.name with
    | [base] => .ok base
    | [] => fail (.unknownDimension b.name)
    | _ => fail (.badDeclaration (.ambiguousBase b.name))

/-- The exponents that named parts stand for. -/
def resolveParts (c : Catalog) (parts : List (BaseName × Power)) :
    Except Error (List Exponent) :=
  parts.mapM fun (b, power) => (⟨·, power⟩) <$> c.resolveBase b

open Update (refuse)

def declare : Declaration → Update Unit
  | .base name referenceUnit magnitude => discard (declareBase name referenceUnit magnitude)
  | .needsBase name referenceUnit => do
    let c ← get
    if (c.base? name referenceUnit).isSome then return else refuse (.unknownDimension name)
  | .unit key u => discard (declareUnit key u)
  | .scaled symbol name reference factor => discard (declareScaled symbol name reference factor)
  | .prefixed scale reference => discard (declarePrefixed scale reference)
  | .prefixedBy symbol reference =>
    match UnitPrefix.find? symbol with
    | some scale => discard (declarePrefixed scale reference)
    | none => refuse (.badDeclaration (.unknownPrefix symbol))
  | .deduced symbol name dimension constituents =>
    discard (declareDeduced symbol name dimension constituents)
  | .composed name parts => do
    let c ← get
    let exponents ← c.resolveParts parts
    discard (declareDerived name exponents)
  | .derived name exponents => discard (declareDerived name exponents)
  | .named name d => nameDimension name d
  | .alias other key => declareAlias other key

/-! ## On a catalog -/

def apply (c : Catalog) (d : Declaration) : Outcome Unit := (declare d).run c

/-- Makes the declarations one after the other, until one of them is refused. -/
def applyAll (c : Catalog) (ds : List Declaration) : Outcome Unit :=
  (forM ds declare).run c

end Catalog

end Metrology
