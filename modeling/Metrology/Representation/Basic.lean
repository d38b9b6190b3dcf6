/-
  Metrology.Representation.Basic

  The number types in which a quantity keeps its value: integers of two widths,
  floating-point numbers of two formats, and exact ratios.
-/
import Metrology.Error
import Metrology.Magnitude.Text

namespace Metrology

/-! ## Representations -/

/-- The number types for values. -/
inductive Representation where
  | integer (width : Width)
  | floating (format : Format)
  | exact
  deriving DecidableEq, Repr

/-- The families of number types, which differ in the conversions that lose nothing. -/
inductive RepresentationKind where
  | integer
  | floating
  | exact
  deriving DecidableEq, Repr

/-- The name of a width as a number type. -/
def Width.name : Width → String
  | w32 => "i32"
  | w64 => "i64"

/-- The name of a format as a number type. -/
def Format.name : Format → String
  | single => "f32"
  | double => "f64"

namespace Representation

def name : Representation → String
  | integer width => width.name
  | floating format => format.name
  | exact => "ratio"

def kind : Representation → RepresentationKind
  | integer _ => .integer
  | floating _ => .floating
  | exact => .exact

def all : List Representation :=
  [integer .w32, integer .w64, floating .single, floating .double, exact]

def find? (name : String) : Option Representation := all.find? fun r => r.name == name

/-! ## Values -/

/-- The values of a number type. -/
abbrev Value : Representation → Type
  | integer width => FixedInt width
  | floating format => Binary format
  | exact => Ratio

def valueText : (r : Representation) → r.Value → String
  | integer _, value => Integer.text value.val
  | floating _, value => Binary.text value
  | exact, value => Ratio.text value

/-- Equality of values; what is no number equals nothing. -/
def valueEq : (r : Representation) → r.Value → r.Value → Bool
  | integer _, a, b => a.val == b.val
  | floating _, a, b => Binary.valueEq a b
  | exact, a, b => decide (a = b)

/-- Order of values, absent next to what is no number. -/
def valueCompare? : (r : Representation) → r.Value → r.Value → Option Ordering
  | integer _, a, b => some (compare a.val b.val)
  | floating _, a, b => Binary.compare? a b
  | exact, a, b => some (Ratio.compare a b)

/-- Whether multiplying by the factor can never lose information. -/
def isLossless (r : Representation) (factor : Magnitude) : Bool :=
  match r.kind with
  | .integer => factor.isInteger
  | .floating => true
  | .exact => factor.isRational

end Representation

end Metrology
