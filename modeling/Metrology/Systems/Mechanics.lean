/-
  Metrology.Systems.Mechanics

  Two systems of mechanical units. The international system has metre, kilogram, second
  and radian; the older one has centimetre and gram as reference units of a length and a
  mass of their own, and shares the second.
-/
import Metrology.Catalog.Declaration

namespace Metrology.Systems

/-! ## Base dimensions -/

def length : BaseDimension := .canonical "length" "m"

def mass : BaseDimension := .canonical "mass" "kg"

def time : BaseDimension := .canonical "time" "s"

def angle : BaseDimension := .canonical "angle" "rad"

def cgsLength : BaseDimension := ⟨"length", "cm", .exact (mkRat 1 100)⟩

def cgsMass : BaseDimension := ⟨"mass", "g", .exact (mkRat 1 1000)⟩

/-! ## Forms of declarations -/

def declareBase (b : BaseDimension) : Declaration :=
  .base b.name b.referenceUnit b.referenceMagnitude

/-- The coherent unit of a base dimension, named by the symbol of its reference unit. -/
def coherentUnit (b : BaseDimension) (name : String) : MeasureUnit :=
  .coherent b.referenceUnit name (.ofBase b)

/-- The coherent unit of a base dimension, declared under its symbol. -/
def declareCoherent (b : BaseDimension) (name : String) : Declaration :=
  .unit b.referenceUnit (coherentUnit b name)

/-- A power of a declared base dimension. -/
def part (b : BaseDimension) (power : Power) : BaseName × Power :=
  (⟨b.name, some b.referenceUnit⟩, power)

def inverse : Power := .lit (-1)

def inverseSquare : Power := .lit (-2)

/-! ## Metre, kilogram, second, radian -/

/-- Length, mass and time with their units. -/
def siBaseUnits : List Declaration :=
  [declareBase length, declareBase mass, declareBase time,
    declareCoherent length "metre",
    .prefixed .kilo "m", .prefixed .centi "m", .prefixed .milli "m",
    declareCoherent mass "kilogram",
    .scaled "g" "gram" "kg" (.exact (mkRat 1 1000)),
    declareCoherent time "second",
    .alias "metre" "m", .alias "meter" "m", .alias "kilometre" "km", .alias "kilometer" "km",
    .alias "kilogram" "kg", .alias "gram" "g", .alias "second" "s"]

def siTimeUnits : List Declaration :=
  [.scaled "min" "minute" "s" (.integer 60), .scaled "h" "hour" "s" (.integer 3600),
    .alias "minute" "min", .alias "hour" "h"]

/-- Radian, degree and revolution; the latter two are exact multiples of pi. -/
def siAngleUnits : List Declaration :=
  [declareBase angle, declareCoherent angle "radian",
    .scaled "deg" "degree" "rad" ⟨.exact (mkRat 1 180), 1⟩,
    .scaled "rev" "revolution" "rad" ⟨.exact 2, 1⟩,
    .alias "radian" "rad", .alias "degree" "deg", .alias "°" "deg", .alias "turn" "rev"]

def siDerivedUnits : List Declaration :=
  [.composed "speed" [part length 1, part time inverse],
    .deduced "m/s" "metre per second" "speed" ["m", "s"],
    .deduced "km/h" "kilometre per hour" "speed" ["km", "h"],
    .composed "acceleration" [part length 1, part time inverseSquare],
    .deduced "m/s^2" "metre per second squared" "acceleration" ["m", "s"],
    .composed "force" [part mass 1, part length 1, part time inverseSquare],
    .deduced "N" "newton" "force" ["kg", "m", "s"],
    .alias "kph" "km/h", .alias "newton" "N"]

/-- The units of the international system. -/
def si : List Declaration := siBaseUnits ++ siTimeUnits ++ siAngleUnits ++ siDerivedUnits

/-! ## Centimetre, gram, second -/

/-- The metre as a multiple of the centimetre. -/
def cgsMetre : MeasureUnit :=
  .mk "m" "metre" (.ofBase cgsLength) (.integer 100) (.scaled (coherentUnit cgsLength "centimetre"))

/-- The units of the centimetre-gram-second system. Their keys are qualified, since the
plain symbols belong to the international system, whose time they need. -/
def cgs : List Declaration :=
  [declareBase cgsLength, declareBase cgsMass, .needsBase "time" "s",
    .unit "cgs:cm" (coherentUnit cgsLength "centimetre"),
    .unit "cgs:g" (coherentUnit cgsMass "gram"),
    .unit "cgs:m" cgsMetre,
    .composed "cgs:speed" [part cgsLength 1, part time inverse],
    .deduced "cgs:cm/s" "centimetre per second" "cgs:speed" ["cgs:cm", "s"],
    .composed "cgs:force" [part cgsMass 1, part cgsLength 1, part time inverseSquare],
    .deduced "cgs:dyn" "dyne" "cgs:force" ["cgs:g", "cgs:cm", "s"],
    .alias "dyn" "cgs:dyn"]

end Metrology.Systems
