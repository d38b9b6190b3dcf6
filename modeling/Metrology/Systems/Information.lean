/-
  Metrology.Systems.Information

  Units of information: bit and byte with decimal and binary prefixes, and the rates made
  from them.
-/
import Metrology.Systems.Mechanics

namespace Metrology.Systems

def information : BaseDimension := .canonical "information" "b"

/-- The decimal prefixes in use with bits and bytes. -/
def dataDecimals : List UnitPrefix := [.kilo, .mega, .giga, .tera, .peta, .exa]

/-- Symbol and name of the units that take prefixes. -/
def dataReferences : List (String × String) := [("b", "bit"), ("B", "byte")]

def dataPrefixed : List Declaration :=
  dataReferences.flatMap fun (symbol, _) =>
    (dataDecimals ++ UnitPrefix.binaries).map fun scale => .prefixed scale symbol

/-- The rate of a unit of information per second. -/
def declareRate (symbol name : String) : Declaration :=
  .deduced (symbol ++ "/s") (name ++ " per second") "bitrate" [symbol, "s"]

/-- The rates of bit and byte with every prefix but the greatest of each family. -/
def dataRates : List Declaration :=
  dataReferences.flatMap fun (symbol, name) =>
    (dataDecimals.take 5 ++ UnitPrefix.binaries.take 5).map fun scale =>
      declareRate (scale.symbol ++ symbol) (scale.name ++ name)

/-- The units of information. They need the time of the international system. -/
def data : List Declaration :=
  [declareBase information, .needsBase "time" "s", declareCoherent information "bit",
    .scaled "B" "byte" "b" (.integer 8)] ++
  dataPrefixed ++
  [.composed "bitrate" [part information 1, part time inverse],
    declareRate "b" "bit", declareRate "B" "byte"] ++
  dataRates ++
  [.alias "bit" "b", .alias "byte" "B", .alias "bps" "b/s"]

end Metrology.Systems
