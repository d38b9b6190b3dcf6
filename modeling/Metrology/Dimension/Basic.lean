/-
  Metrology.Dimension.Basic

  Dimensions as canonical lists of exponents. A dimension has one canonical list however it
  was composed, so dimensions are equal when their lists are. Names of dimensions belong to
  a catalog and take no part here.
-/
import Metrology.Dimension.Exponents

namespace Metrology

/-- A product of integer powers of base dimensions. -/
structure Dimension where
  exponents : List Exponent
  deriving DecidableEq

namespace Dimension

/-! ## Construction -/

def dimensionless : Dimension := ⟨[]⟩

/-- A base dimension to the first power. -/
def ofBase (base : BaseDimension) : Dimension := ⟨[⟨base, 1⟩]⟩

/-- The dimension composed of the exponents, in any order. -/
def ofExponents (es : List Exponent) : Except Error Dimension :=
  Dimension.mk <$> Exponents.normalize es

/-! ## Views -/

/-- The same exponents. -/
def same (a b : Dimension) : Bool := Exponents.same a.exponents b.exponents

def isDimensionless (d : Dimension) : Bool := d.exponents.isEmpty

/-- The base dimension that a dimension is, when it is one to the first power. -/
def asBase? (d : Dimension) : Option BaseDimension :=
  match d.exponents with
  | [e] => if e.power.val = 1 then some e.base else none
  | _ => none

/-- The power of a base dimension, zero if it does not occur. -/
def powerOf (d : Dimension) (base : BaseDimension) : Power :=
  match d.exponents.find? fun e => e.base.same base with
  | some e => e.power
  | none => 0

/-- The exponents separated by blanks; a one for the dimension of pure numbers. -/
def text (d : Dimension) : String :=
  if d.exponents.isEmpty then "1" else " ".intercalate (d.exponents.map Exponent.text)

/-! ## Algebra -/

def multiply (a b : Dimension) : Except Error Dimension :=
  Dimension.mk <$> Exponents.multiply a.exponents b.exponents

def divide (a b : Dimension) : Except Error Dimension :=
  Dimension.mk <$> Exponents.divide a.exponents b.exponents

def power (d : Dimension) (n : Power) : Except Error Dimension :=
  Dimension.mk <$> Exponents.power d.exponents n

def invert (d : Dimension) : Except Error Dimension := dimensionless.divide d

/-- The root of positive index, if every power is a multiple of it. -/
def root (d : Dimension) (n : Power) : Except Error Dimension :=
  Dimension.mk <$> Exponents.root d.exponents n

/-! ## Unit systems -/

/-- Two different dimensions with the same names and powers in the same places: one
physical quantity in two unit systems. -/
def isBridgeable (a b : Dimension) : Bool :=
  !a.same b && a.exponents.length == b.exponents.length &&
    (a.exponents.zip b.exponents).all fun (x, y) =>
      x.base.sharesName y.base && x.power == y.power

/-- The coherent unit of the dimension in the canonical units of the base names. -/
def referenceMagnitude (d : Dimension) : Except Error Magnitude :=
  d.exponents.foldlM (fun product e => do
    let power ← Error.lift (e.base.referenceMagnitude.pow e.power)
    Error.lift (product.mul power)) Magnitude.one

end Dimension

end Metrology
