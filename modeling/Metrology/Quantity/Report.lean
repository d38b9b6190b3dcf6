/-
  Metrology.Quantity.Report

  What is told of a quantity: its value, number type and unit, and its dimension with the
  name that a catalog may have for it.
-/
import Metrology.Quantity.Basic

namespace Metrology

/-- What is told of a power of a base dimension. -/
structure ExponentReport where
  base : String
  referenceUnit : String
  power : Int
  deriving DecidableEq, Repr

/-- What is told of a quantity. -/
structure QuantityReport where
  value : String
  representation : String
  unit : String
  magnitude : String
  dimension : List ExponentReport
  dimensionName : Option String
  deriving DecidableEq, Repr

def Exponent.report (e : Exponent) : ExponentReport :=
  ⟨e.base.name, e.base.referenceUnit, e.power.val⟩

/-- The report of a quantity, without a name for its dimension. -/
def Quantity.report {r : Representation} (q : Quantity r) : QuantityReport :=
  ⟨r.valueText q.value, r.name, q.unit.symbol, q.unit.magnitude.text,
    q.dimension.exponents.map Exponent.report, none⟩

end Metrology
