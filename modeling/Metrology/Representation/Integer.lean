/-
  Metrology.Representation.Integer

  Values kept as integers of fixed width. A result is the exact one; a result that is no
  integer or does not fit is an error.
-/
import Metrology.Representation.Basic

namespace Metrology.FixedInt

variable {w : Width}

/-! ## Checked results -/

/-- The text of an operation on two integers. -/
def expression {v : Width} (a : FixedInt w) (operator : String) (b : FixedInt v) : String :=
  Integer.text a.val ++ operator ++ Integer.text b.val

/-- A checked result, or the overflow of the expression that it is the result of. -/
def orOverflow (result : Option (FixedInt w)) (expression : String) :
    Except Error (FixedInt w) :=
  match result with
  | some value => .ok value
  | none => fail (.overflow (.operation expression w.name))

/-! ## Conversion -/

def toRatio (a : FixedInt w) : Ratio := (a.val : Ratio)

/-- An integer that must fit, with the text of the value it was made from. -/
def ofInt (n : Int) (value : String) : Except Error (FixedInt w) :=
  match ofInt? w n with
  | some a => .ok a
  | none => fail (.overflow (.outside value w.name))

/-- The integer part of a ratio, toward zero. -/
def ofRatio (r : Ratio) : Except Error (FixedInt w) :=
  ofInt r.trunc (Integer.text r.trunc)

/-- The integer part of a floating-point number, toward zero. -/
def ofBinary (x : Binary .double) : Except Error (FixedInt w) :=
  match x.toRat? with
  | some q => ofInt (Ratio.trunc q) x.text
  | none => fail (.overflow (.outside x.text w.name))

/-! ## Arithmetic -/

def add (a b : FixedInt w) : Except Error (FixedInt w) :=
  orOverflow (a.add? b) (expression a " + " b)

def sub (a b : FixedInt w) : Except Error (FixedInt w) :=
  orOverflow (a.sub? b) (expression a " - " b)

def mul (a b : FixedInt w) : Except Error (FixedInt w) :=
  orOverflow (a.mul? b) (expression a " * " b)

/-- The quotient, which must be an integer. -/
def div (a b : FixedInt w) : Except Error (FixedInt w) :=
  if b.val = 0 then fail .divisionByZero
  else
    match a.rem? b with
    | some r =>
      if r.val = 0 then orOverflow (a.quot? b) (expression a " / " b)
      else fail (.inexact (expression a " / " b) w.name)
    -- Nothing is left over here, but the quotient does not fit.
    | none => fail (.overflow (.operation (expression a " / " b) w.name))

/-- The product of two results that may be absent. -/
def mulResult (a b : Option (FixedInt w)) : Option (FixedInt w) := do
  let x ← a
  let y ← b
  x.mul? y

/-- The power by repeated squaring, every product checked. -/
def pow? (a : FixedInt w) (n : Nat) : Option (FixedInt w) :=
  powerBySquaring mulResult (some 1) (some a) n

/-- The integer power. A negative one is computed as a ratio, which must be an integer. -/
def pow (a : FixedInt w) (n : Power) : Except Error (FixedInt w) :=
  if 0 ≤ n.val then orOverflow (a.pow? n.val.toNat) (expression a "^" n)
  else do
    let power ← Error.lift (a.toRatio.pow n.val)
    if power.isInteger then ofRatio power
    else fail (.inexact (expression a "^" n) w.name)

end Metrology.FixedInt
