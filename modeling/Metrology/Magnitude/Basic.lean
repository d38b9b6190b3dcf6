/-
  Metrology.Magnitude.Basic

  Magnitudes of units: a coefficient times a power of pi. The coefficient is an exact
  ratio wherever the relation between two units is known exactly, and a floating-point
  number where it is not. A degree is `1/180` times pi, exactly.
-/
import Metrology.Ratio.Basic
import Metrology.Binary.Arithmetic
import Metrology.Binary.Order

namespace Metrology

/-! ## Coefficients -/

/-- The factor in front of the power of pi. -/
inductive Coefficient where
  | exact (value : Ratio)
  | approx (value : Binary .double)
  deriving DecidableEq

namespace Coefficient

def toBinary : Coefficient → Binary .double
  | exact value => value.toBinary
  | approx value => value

/-- Equal values of one kind; an exact and an approximate coefficient are never equal. -/
def sameValue : Coefficient → Coefficient → Bool
  | exact a, exact b => a == b
  | approx a, approx b => a.valueEq b
  | _, _ => false

/-- A zero of either kind. -/
def isZero : Coefficient → Bool
  | exact value => value == 0
  | approx value => value.isZero

/-- The product: exact if both factors are, otherwise rounded. -/
def mul : Coefficient → Coefficient → Coefficient
  | exact a, exact b => exact (a * b)
  | a, b => approx (a.toBinary.mul b.toBinary)

/-- The quotient by a coefficient that is not zero: exact if both are, otherwise rounded. -/
def div : Coefficient → Coefficient → Coefficient
  | exact a, exact b => exact (a / b)
  | a, b => approx (a.toBinary.div b.toBinary)

/-- The integer power. An approximate power must be finite. -/
def pow : Coefficient → Int → Except NumberError Coefficient
  | exact a, n => exact <$> a.pow n
  | approx a, n =>
    let power := a.pow n
    if power.isFinite then .ok (approx power) else .error .overflow

end Coefficient

/-! ## Magnitudes -/

/-- The number `coefficient * pi ^ pi`. -/
structure Magnitude where
  coefficient : Coefficient
  pi : Power
  deriving DecidableEq

namespace Magnitude

def exact (value : Ratio) : Magnitude := ⟨.exact value, 0⟩

def one : Magnitude := exact 1

/-- An exact integer without pi. -/
def integer (n : Int) : Magnitude := exact n

/-- A finite floating-point number without pi. -/
def approx (value : Binary .double) : Except NumberError Magnitude :=
  if value.isFinite then .ok ⟨.approx value, 0⟩ else .error (.notFinite value)

/-- The magnitude whose power of pi is the checked integer. -/
def withPower (coefficient : Coefficient) (pi : Option Power) : Except NumberError Magnitude :=
  match pi with
  | some pi => .ok ⟨coefficient, pi⟩
  | none => .error .overflow

def timesPi (m : Magnitude) (k : Power) : Except NumberError Magnitude :=
  withPower m.coefficient (m.pi.add? k)

/-! ### Predicates -/

/-- The exact ratio that a magnitude without pi is. -/
def asRatio? (m : Magnitude) : Option Ratio :=
  match m.coefficient with
  | .exact value => if m.pi = 0 then some value else none
  | .approx _ => none

def isRational (m : Magnitude) : Bool := m.asRatio?.isSome

/-- An exact integer without pi. -/
def isInteger (m : Magnitude) : Bool := m.asRatio?.any Ratio.isInteger

def isOne (m : Magnitude) : Bool := m.asRatio?.any (· == 1)

def isExact (m : Magnitude) : Bool :=
  match m.coefficient with
  | .exact _ => true
  | .approx _ => false

def isZero (m : Magnitude) : Bool := m.coefficient.isZero

/-- Equal coefficients of one kind and equal powers of pi. -/
def sameValue (a b : Magnitude) : Bool :=
  a.coefficient.sameValue b.coefficient && a.pi == b.pi

/-! ### Arithmetic -/

/-- The product. The powers of pi must have a sum in range. -/
def mul (a b : Magnitude) : Except NumberError Magnitude :=
  withPower (a.coefficient.mul b.coefficient) (a.pi.add? b.pi)

/-- The quotient. A zero divisor is found before a difference of powers out of range. -/
def div (a b : Magnitude) : Except NumberError Magnitude :=
  if b.isZero then .error .divisionByZero
  else withPower (a.coefficient.div b.coefficient) (a.pi.sub? b.pi)

def recip (m : Magnitude) : Except NumberError Magnitude := one.div m

/-- The integer power. A power of pi out of range is found before a power of zero. -/
def pow (m : Magnitude) (n : Power) : Except NumberError Magnitude :=
  match m.pi.mul? n with
  | none => .error .overflow
  | some pi => (⟨·, pi⟩) <$> m.coefficient.pow n.val

/-- The nearest floating-point number, as far as rounding each factor allows. -/
def toBinary (m : Magnitude) : Binary .double :=
  m.coefficient.toBinary.mul (Binary.pi.pow m.pi.val)

/-- Order by value: exact for exact magnitudes with one power of pi, and otherwise that of
the floating-point numbers. -/
def compareValue (a b : Magnitude) : Ordering :=
  match a.coefficient, b.coefficient with
  | .exact x, .exact y =>
    if a.pi = b.pi then x.compare y else a.toBinary.totalCompare b.toBinary
  | _, _ => a.toBinary.totalCompare b.toBinary

/-- The greatest magnitude of which both are integer multiples, for exact magnitudes with
one power of pi that are not both zero. -/
def commonDivisor? (a b : Magnitude) : Option Magnitude :=
  match a.coefficient, b.coefficient with
  | .exact x, .exact y =>
    let divisor := x.gcd y
    if a.pi = b.pi ∧ divisor ≠ 0 then some ⟨.exact divisor, a.pi⟩ else none
  | _, _ => none

end Magnitude

end Metrology
