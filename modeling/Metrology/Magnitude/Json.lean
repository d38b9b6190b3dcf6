/-
  Metrology.Magnitude.Json

  Ratios and magnitudes as JSON. Both are strings that hold their texts, so no digit is lost
  to the numbers of JSON.
-/
import Metrology.Json.Members
import Metrology.Magnitude.Text

namespace Metrology

def Ratio.toJson (q : Ratio) : Json := .string (Ratio.text q)

/-- The ratio that a string is the text of. -/
def Ratio.ofJson? (j : Json) : Option Ratio :=
  j.asString?.bind fun s => (Ratio.ofText s).toOption

def Magnitude.toJson (m : Magnitude) : Json := .string m.text

/-- The magnitude that a string is the text of. -/
def Magnitude.ofJson? (j : Json) : Option Magnitude :=
  j.asString?.bind fun s => (Magnitude.ofText s).toOption

end Metrology
