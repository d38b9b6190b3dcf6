/-
  Metrology.Representation.Operations

  The operations on values, for every number type: arithmetic, conversion by way of ratios,
  and multiplication by a conversion factor.
-/
import Metrology.Representation.Integer
import Metrology.Representation.Floating

namespace Metrology.Representation

/-! ## Arithmetic -/

def add : (r : Representation) → r.Value → r.Value → Except Error r.Value
  | integer _, a, b => FixedInt.add a b
  | floating _, a, b => Binary.checkedAdd a b
  | exact, a, b => .ok (a + b)

def sub : (r : Representation) → r.Value → r.Value → Except Error r.Value
  | integer _, a, b => FixedInt.sub a b
  | floating _, a, b => Binary.checkedSub a b
  | exact, a, b => .ok (a - b)

def mul : (r : Representation) → r.Value → r.Value → Except Error r.Value
  | integer _, a, b => FixedInt.mul a b
  | floating _, a, b => Binary.checkedMul a b
  | exact, a, b => .ok (a * b)

def div : (r : Representation) → r.Value → r.Value → Except Error r.Value
  | integer _, a, b => FixedInt.div a b
  | floating _, a, b => Binary.checkedDiv a b
  | exact, a, b => Error.lift (Ratio.div a b)

def pow : (r : Representation) → r.Value → Power → Except Error r.Value
  | integer _, a, n => FixedInt.pow a n
  | floating _, a, n => Binary.checkedPow a n
  | exact, a, n => Error.lift (Ratio.pow a n.val)

/-! ## Conversion -/

def toRatio : (r : Representation) → r.Value → Except Error Ratio
  | integer _, a => .ok (FixedInt.toRatio a)
  | floating _, a => Binary.toRatio a
  | exact, a => .ok a

/-- The nearest floating-point number of 64 bits. -/
def toBinary : (r : Representation) → r.Value → Binary .double
  | integer _, a => (FixedInt.toRatio a).toBinary
  | floating _, a => Binary.convert .double a
  | exact, a => Ratio.toBinary a

/-- The value of a ratio: rounded for floating point, toward zero for integers. -/
def ofRatio : (r : Representation) → Ratio → Except Error r.Value
  | integer _, q => FixedInt.ofRatio q
  | floating _, q => Binary.ofRatio q
  | exact, q => .ok q

/-- The value of a floating-point number: rounded for floating point, toward zero for
integers. -/
def ofBinary : (r : Representation) → Binary .double → Except Error r.Value
  | integer _, x => FixedInt.ofBinary x
  | floating _, x => Binary.ofDouble x
  | exact, x => Error.lift (Ratio.ofBinary x)

/-- A value times a conversion factor. A rational factor is applied exactly and only the
result is brought into the number type; the factor one leaves the value alone. -/
def rescale (r : Representation) (value : r.Value) (factor : Magnitude) :
    Except Error r.Value :=
  match factor.asRatio? with
  | some q =>
    if q = 1 then .ok value
    else do
      let exactValue ← r.toRatio value
      r.ofRatio (exactValue * q)
  -- With pi or an approximate factor the product is that of floating-point numbers.
  | none => r.ofBinary ((r.toBinary value).mul factor.toBinary)

/-! ## Widening -/

/-- The same value in a number type that holds every value of the first one. -/
def widen? : (r s : Representation) → r.Value → Option s.Value
  | integer .w32, integer .w32, a => some a
  | integer .w32, integer .w64, a => some ⟨a.val, Width.fits_w64_of_w32 a.fits⟩
  | integer .w32, floating .double, a => some (FixedInt.toRatio a).toBinary
  | integer .w64, integer .w64, a => some a
  | integer .w64, exact, a => some (FixedInt.toRatio a)
  | floating .single, floating .single, a => some a
  | floating .single, floating .double, a => some (Binary.convert .double a)
  | floating .double, floating .double, a => some a
  | exact, exact, a => some a
  | _, _, _ => none

end Metrology.Representation
