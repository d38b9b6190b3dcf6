/-
  Metrology.Dimension.Base

  Base dimensions. Name and reference unit together identify one: the length measured in
  metres and the length measured in centimetres are two dimensions, which only an explicit
  cast relates.
-/
import Metrology.Magnitude.Text

namespace Metrology

/-- An irreducible dimension such as length or time. -/
structure BaseDimension where
  name : String
  referenceUnit : String
  /-- The reference unit in the canonical unit for the name. -/
  referenceMagnitude : Magnitude
  deriving DecidableEq

namespace BaseDimension

/-- The base dimension whose reference unit is the canonical one for its name. -/
def canonical (name referenceUnit : String) : BaseDimension := ⟨name, referenceUnit, .one⟩

/-- Equal name and reference unit; the reference magnitude takes no part. -/
def same (a b : BaseDimension) : Bool :=
  a.name == b.name && a.referenceUnit == b.referenceUnit

/-- Equal name, possibly another reference unit. -/
def sharesName (a b : BaseDimension) : Bool := a.name == b.name

/-- Order by name, and by reference unit where the names are equal. -/
def compare (a b : BaseDimension) : Ordering :=
  (Ord.compare a.name b.name).then (Ord.compare a.referenceUnit b.referenceUnit)

/-- At most the other one in the order. -/
def atMost (a b : BaseDimension) : Bool := (a.compare b).isLE

/-- Base dimensions in their order, equal ones in the order given. -/
def sort (bases : List BaseDimension) : List BaseDimension := bases.mergeSort atMost

/-- The name and the reference unit in brackets. -/
def label (name referenceUnit : String) : String := name ++ " [" ++ referenceUnit ++ "]"

end BaseDimension

end Metrology
