/-
  Metrology.Quantity.Json

  Reports of quantities as JSON.
-/
import Metrology.Json.Basic
import Metrology.Quantity.Report

namespace Metrology

def ExponentReport.toJson (e : ExponentReport) : Json :=
  .object
    [("base", .string e.base), ("reference_unit", .string e.referenceUnit),
      ("power", .ofInt e.power)]

/-- The record of a report; a name that the dimension does not have is left out. -/
def QuantityReport.toJson (r : QuantityReport) : Json :=
  Json.ofMembers
    [("value", some (.string r.value)), ("representation", some (.string r.representation)),
      ("unit", some (.string r.unit)), ("magnitude", some (.string r.magnitude)),
      ("dimension", some (.array (r.dimension.map ExponentReport.toJson))),
      ("dimension_name", r.dimensionName.map .string)]

end Metrology
