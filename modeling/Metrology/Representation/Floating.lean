/-
  Metrology.Representation.Floating

  Values kept as floating-point numbers. Every result is rounded and must be finite.
-/
import Metrology.Representation.Basic

namespace Metrology.Binary

variable {f : Format}

def finiteResult (x : Binary f) : Except Error (Binary f) :=
  if x.isFinite then .ok x else fail (.overflow (.notFinite f.name))

/-! ## Arithmetic -/

def checkedAdd (a b : Binary f) : Except Error (Binary f) := finiteResult (a.add b)

def checkedSub (a b : Binary f) : Except Error (Binary f) := finiteResult (a.sub b)

def checkedMul (a b : Binary f) : Except Error (Binary f) := finiteResult (a.mul b)

/-- The quotient by a number other than zero. -/
def checkedDiv (a b : Binary f) : Except Error (Binary f) :=
  if b.isZero then fail .divisionByZero else finiteResult (a.div b)

/-- The integer power; zero has none that is negative. -/
def checkedPow (a : Binary f) (n : Power) : Except Error (Binary f) :=
  if a.isZero ∧ n.val < 0 then fail .divisionByZero else finiteResult (a.pow n.val)

/-! ## Conversion -/

/-- The exact ratio of a finite number. -/
def toRatio (a : Binary f) : Except Error Ratio :=
  Error.lift (Ratio.ofBinary (a.convert .double))

/-- The value of a ratio, rounded to 64 bits and then to the format. -/
def ofRatio (r : Ratio) : Except Error (Binary f) := finiteResult (r.toBinary.convert f)

/-- A floating-point number of 64 bits, rounded to the format. -/
def ofDouble (x : Binary .double) : Except Error (Binary f) := finiteResult (x.convert f)

end Metrology.Binary
