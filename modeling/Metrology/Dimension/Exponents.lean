/-
  Metrology.Dimension.Exponents

  Lists of powers of base dimensions. A canonical list is sorted by base dimension, has one
  entry for each, and no zero power; the algebra on canonical lists keeps them canonical.
  Powers are integers of 32 bits and every step checks its result.
-/
import Metrology.Dimension.Base
import Metrology.Error

namespace Metrology

/-- A base dimension raised to an integer power. -/
structure Exponent where
  base : BaseDimension
  power : Power
  deriving DecidableEq

namespace Exponent

/-- The same base dimension and power. -/
def same (a b : Exponent) : Bool := a.base.same b.base && a.power == b.power

/-- The name of the base dimension, with the power unless it is one. -/
def text (e : Exponent) : String :=
  if e.power.val = 1 then e.base.name else e.base.name ++ "^" ++ Integer.text e.power.val

end Exponent

namespace Exponents

/-! ## Checked powers -/

def sum (a b : Power) : Except Error Power :=
  match a.add? b with
  | some c => .ok c
  | none => fail (.overflow (.powerSum a.val b.val))

def scaled (a n : Power) : Except Error Power :=
  match a.mul? n with
  | some c => .ok c
  | none => fail (.overflow (.powerProduct a.val n.val))

/-- An exponent with its power multiplied. -/
def scale (n : Power) (e : Exponent) : Except Error Exponent :=
  (⟨e.base, ·⟩) <$> scaled e.power n

/-! ## Canonical lists -/

/-- Adds up neighbouring powers of one base dimension, starting with `e`. -/
def gather (e : Exponent) : List Exponent → Except Error (List Exponent)
  | [] => .ok [e]
  | x :: xs =>
    if e.base.same x.base then do
      let power ← sum e.power x.power
      gather ⟨e.base, power⟩ xs
    else (e :: ·) <$> gather x xs

/-- Exponents in the order of their base dimensions, equal ones in the order given. -/
def sort (es : List Exponent) : List Exponent :=
  es.mergeSort fun a b => a.base.atMost b.base

/-- The canonical list of any list of exponents: sorted, powers of one base dimension added
up from the left, zero powers dropped. -/
def normalize (es : List Exponent) : Except Error (List Exponent) :=
  match sort es with
  | [] => .ok []
  -- Powers may cancel out only once all of them are added up.
  | e :: rest => (·.filter fun x => x.power.val != 0) <$> gather e rest

/-! ## Algebra of canonical lists -/

/-- Merges two canonical lists, the powers of the second multiplied by `sign`. -/
def merge (sign : Power) : List Exponent → List Exponent → Except Error (List Exponent)
  | [], ys => ys.mapM (scale sign)
  | xs, [] => .ok xs
  | x :: xs, y :: ys =>
    match x.base.compare y.base with
    | .lt => (x :: ·) <$> merge sign xs (y :: ys)
    | .gt => do
      let y ← scale sign y
      (y :: ·) <$> merge sign (x :: xs) ys
    | .eq => do
      -- Both the product and the sum may leave the range.
      let power ← sum x.power (← scaled y.power sign)
      let rest ← merge sign xs ys
      pure (if power.val = 0 then rest else ⟨x.base, power⟩ :: rest)
termination_by xs ys => xs.length + ys.length

/-- Adds the powers of each base dimension. -/
def multiply (a b : List Exponent) : Except Error (List Exponent) := merge 1 a b

/-- Subtracts the powers of each base dimension. -/
def divide (a b : List Exponent) : Except Error (List Exponent) :=
  merge (FixedInt.lit (-1)) a b

/-- Multiplies every power; the zeroth power is the empty list. -/
def power (a : List Exponent) (n : Power) : Except Error (List Exponent) :=
  if n.val = 0 then .ok [] else a.mapM (scale n)

/-- A power divided by a root index that divides it. -/
def rootPower (a n : Power) : Option Power :=
  if a.val.tmod n.val = 0 then FixedInt.ofInt? .w32 (a.val.tdiv n.val) else none

/-- Divides every power by a positive `n`, which must divide all of them. -/
def root (a : List Exponent) (n : Power) : Except Error (List Exponent) :=
  if n.val ≤ 0 then fail (.badExponent (.rootIndex n.val))
  else
    -- The first power without a root is the one that is reported.
    a.mapM fun e =>
      match rootPower e.power n with
      | some power => .ok ⟨e.base, power⟩
      | none => fail (.badExponent (.noRoot e.text n.val))

/-- The same exponents in the same order. -/
def same : List Exponent → List Exponent → Bool
  | [], [] => true
  | x :: xs, y :: ys => x.same y && same xs ys
  | _, _ => false

end Exponents

end Metrology
