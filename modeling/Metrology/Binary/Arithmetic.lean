/-
  Metrology.Binary.Arithmetic

  Floating-point operations: the exact result of the two values, rounded once. Where the
  exact result is zero or the operands are infinite, the sign follows from the signs of
  the operands; an operation without a result gives no number.
-/
import Metrology.Binary.Rounding
import Metrology.Integer.Squaring

namespace Metrology.Binary

variable {f : Format}

/-- The same number with the other sign. -/
def neg : Binary f → Binary f
  | .nan => .nan
  | .infinite negative => .infinite (!negative)
  | .finite negative rank h => .finite (!negative) rank h

/-- The rounded sum. A zero sum is negative only if both operands are. -/
def add : Binary f → Binary f → Binary f
  | .nan, _ => .nan
  | _, .nan => .nan
  | .infinite s, .infinite t => if s = t then .infinite s else .nan
  | .infinite s, _ => .infinite s
  | _, .infinite t => .infinite t
  | .finite s a _, .finite t b _ =>
    let sum := signedRat s (f.magnitude a) + signedRat t (f.magnitude b)
    if sum = 0 then zero (s && t) else ofRat sum

def sub (x y : Binary f) : Binary f := x.add y.neg

/-- The rounded product. Zero times infinity is no number. -/
def mul : Binary f → Binary f → Binary f
  | .nan, _ => .nan
  | _, .nan => .nan
  | .infinite s, .infinite t => .infinite (s ^^ t)
  | .infinite s, .finite t b _ => if b = 0 then .nan else .infinite (s ^^ t)
  | .finite s a _, .infinite t => if a = 0 then .nan else .infinite (s ^^ t)
  | .finite s a _, .finite t b _ => ofSigned (s ^^ t) (f.magnitude a * f.magnitude b)

/-- The rounded quotient. A number divided by zero is infinite, zero divided by zero no
number. -/
def div : Binary f → Binary f → Binary f
  | .nan, _ => .nan
  | _, .nan => .nan
  | .infinite _, .infinite _ => .nan
  | .infinite s, .finite t _ _ => .infinite (s ^^ t)
  | .finite s _ _, .infinite t => zero (s ^^ t)
  | .finite s a _, .finite t b _ =>
    if b = 0 then if a = 0 then .nan else .infinite (s ^^ t)
    else ofSigned (s ^^ t) (f.magnitude a / f.magnitude b)

def one : Binary f := ofRat 1

/-- The integer power by repeated squaring, each product rounded; for a negative exponent
the reciprocal of the positive power. -/
def pow (x : Binary f) (n : Int) : Binary f :=
  let power := powerBySquaring mul one x n.natAbs
  if n < 0 then one.div power else power

/-- The number of 64 bits nearest to pi. -/
def pi : Binary .double := ofRat (mkRat 884279719003555 281474976710656)

end Metrology.Binary
