/-
  Metrology.Systems.Standard

  The catalog of all built-in systems, and names for its units that are made of letters
  only, for use where a symbol such as `km/h` cannot stand.
-/
import Metrology.Systems.Information

namespace Metrology.Systems

/-! ## The catalog -/

def standardDeclarations : List Declaration := si ++ cgs ++ data

def standard : Catalog := (Catalog.empty.applyAll standardDeclarations).catalog

/-! ## Names of built-in units -/

/-- A built-in unit: the name of its literals, the name of its reference, and its key. -/
structure BuiltinName where
  literal : String
  reference : String
  key : String

/-- The unit whose reference and literals are named by `word` and `q_word`. -/
def builtin (word key : String) : BuiltinName := ⟨"q_" ++ word, word, key⟩

def mechanicsNames : List BuiltinName :=
  [builtin "m" "m", builtin "km" "km", builtin "cm" "cm", builtin "mm" "mm",
    builtin "kg" "kg", builtin "g" "g", builtin "s" "s", builtin "min" "min", builtin "h" "h",
    builtin "rad" "rad", builtin "deg" "deg", builtin "rev" "rev",
    builtin "m_per_s" "m/s", builtin "km_per_h" "km/h", builtin "m_per_s2" "m/s^2",
    builtin "N" "N",
    builtin "cgs_cm" "cgs:cm", builtin "cgs_m" "cgs:m", builtin "cgs_g" "cgs:g",
    builtin "cgs_cm_per_s" "cgs:cm/s", ⟨"q_dyn", "dyne", "cgs:dyn"⟩]

/-- A unit of information, named by its symbol. -/
def dataName (symbol : String) : BuiltinName := builtin symbol symbol

/-- The rate of a unit of information. -/
def rateName (symbol : String) : BuiltinName := builtin (symbol ++ "_per_s") (symbol ++ "/s")

/-- The units of information, then their rates. -/
def dataNames : List BuiltinName :=
  let symbols (scales : List UnitPrefix) :=
    dataReferences.flatMap fun (symbol, _) => symbol :: scales.map (·.symbol ++ symbol)
  (symbols (dataDecimals ++ UnitPrefix.binaries)).map dataName ++
    (symbols (dataDecimals.take 5 ++ UnitPrefix.binaries.take 5)).map rateName

def builtinNames : List BuiltinName := mechanicsNames ++ dataNames

/-- The unit that literals of the given name are in. -/
def literalUnit? (name : String) : Option MeasureUnit :=
  (builtinNames.find? fun b => b.literal == name).bind fun b => standard.unit? b.key

def reference? (name : String) : Option Reference :=
  (builtinNames.find? fun b => b.reference == name).bind fun b =>
    Reference.mk <$> standard.unit? b.key

end Metrology.Systems
