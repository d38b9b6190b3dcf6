/-
  Metrology.MeasureUnit.Prefix

  Prefixes of units. The decimal and the binary prefixes are two families; both give exact
  ratios, and a prefixed unit keeps its prefix instead of a bare factor.
-/
import Metrology.Magnitude.Basic

namespace Metrology

/-- The number whose powers the prefixes of a family are. -/
inductive PrefixFamily where
  /-- Powers of ten. -/
  | decimal
  /-- Powers of two. -/
  | binary
  deriving DecidableEq, Repr

def PrefixFamily.radix : PrefixFamily → Nat
  | decimal => 10
  | binary => 2

structure UnitPrefix where
  symbol : String
  name : String
  family : PrefixFamily
  exponent : Power
  deriving DecidableEq

namespace UnitPrefix

def magnitude (p : UnitPrefix) : Except NumberError Magnitude :=
  Magnitude.exact <$> Ratio.pow (p.family.radix : Ratio) p.exponent.val

/-! ## The prefixes -/

def nano : UnitPrefix := ⟨"n", "nano", .decimal, .lit (-9)⟩
def micro : UnitPrefix := ⟨"µ", "micro", .decimal, .lit (-6)⟩
def milli : UnitPrefix := ⟨"m", "milli", .decimal, .lit (-3)⟩
def centi : UnitPrefix := ⟨"c", "centi", .decimal, .lit (-2)⟩
def deci : UnitPrefix := ⟨"d", "deci", .decimal, .lit (-1)⟩
def deca : UnitPrefix := ⟨"da", "deca", .decimal, .lit 1⟩
def hecto : UnitPrefix := ⟨"h", "hecto", .decimal, .lit 2⟩
def kilo : UnitPrefix := ⟨"k", "kilo", .decimal, .lit 3⟩
def mega : UnitPrefix := ⟨"M", "mega", .decimal, .lit 6⟩
def giga : UnitPrefix := ⟨"G", "giga", .decimal, .lit 9⟩
def tera : UnitPrefix := ⟨"T", "tera", .decimal, .lit 12⟩
def peta : UnitPrefix := ⟨"P", "peta", .decimal, .lit 15⟩
def exa : UnitPrefix := ⟨"E", "exa", .decimal, .lit 18⟩

def kibi : UnitPrefix := ⟨"Ki", "kibi", .binary, .lit 10⟩
def mebi : UnitPrefix := ⟨"Mi", "mebi", .binary, .lit 20⟩
def gibi : UnitPrefix := ⟨"Gi", "gibi", .binary, .lit 30⟩
def tebi : UnitPrefix := ⟨"Ti", "tebi", .binary, .lit 40⟩
def pebi : UnitPrefix := ⟨"Pi", "pebi", .binary, .lit 50⟩
def exbi : UnitPrefix := ⟨"Ei", "exbi", .binary, .lit 60⟩

/-- The decimal prefixes, smallest first. -/
def decimals : List UnitPrefix :=
  [nano, micro, milli, centi, deci, deca, hecto, kilo, mega, giga, tera, peta, exa]

/-- The binary prefixes, smallest first. -/
def binaries : List UnitPrefix := [kibi, mebi, gibi, tebi, pebi, exbi]

/-- The prefix with a symbol; `u` also stands for `µ`. -/
def find? (symbol : String) : Option UnitPrefix :=
  let symbol := if symbol == "u" then "µ" else symbol
  (decimals ++ binaries).find? fun p => p.symbol == symbol

end UnitPrefix

end Metrology
