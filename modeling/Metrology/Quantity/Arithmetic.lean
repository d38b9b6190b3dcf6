/-
  Metrology.Quantity.Arithmetic

  Arithmetic and comparison of quantities. Dimensions are checked before any value is
  touched; sums and comparisons happen in the common unit of the operands.
-/
import Metrology.Quantity.Basic

namespace Metrology.Quantity

variable {r : Representation}

/-! ## Sums -/

def inCommonUnit (operation : String) (a b : Quantity r) :
    Except Error (Quantity r × Quantity r) := do
  MeasureUnit.checkCompatible operation a.unit b.unit
  let common ← MeasureUnit.common a.unit b.unit
  -- The first failing conversion is the one that is reported.
  let x ← a.convertTo common
  let y ← b.convertTo common
  pure (x, y)

/-- The sum, in the common unit. -/
def add (a b : Quantity r) : Except Error (Quantity r) := do
  let (x, y) ← inCommonUnit "add" a b
  let value ← r.add x.value y.value
  pure ⟨value, x.unit⟩

/-- The difference, in the common unit. -/
def sub (a b : Quantity r) : Except Error (Quantity r) := do
  let (x, y) ← inCommonUnit "subtract" a b
  let value ← r.sub x.value y.value
  pure ⟨value, x.unit⟩

/-! ## Products -/

/-- The product, in the product unit. -/
def mul (a b : Quantity r) : Except Error (Quantity r) := do
  let unit ← a.unit.multiply b.unit
  let value ← r.mul a.value b.value
  pure ⟨value, unit⟩

/-- The quotient, in the quotient unit. -/
def div (a b : Quantity r) : Except Error (Quantity r) := do
  let unit ← a.unit.divide b.unit
  let value ← r.div a.value b.value
  pure ⟨value, unit⟩

def pow (q : Quantity r) (n : Power) : Except Error (Quantity r) := do
  let unit ← q.unit.power n
  let value ← r.pow q.value n
  pure ⟨value, unit⟩

def scale (q : Quantity r) (factor : r.Value) : Except Error (Quantity r) :=
  (⟨·, q.unit⟩) <$> r.mul q.value factor

/-- The quantity divided by a pure number. -/
def divScalar (q : Quantity r) (divisor : r.Value) : Except Error (Quantity r) :=
  (⟨·, q.unit⟩) <$> r.div q.value divisor

/-! ## Comparison -/

/-- Whether the quantities have equal values in their common unit. -/
def tryEq (a b : Quantity r) : Except Error Bool := do
  let (x, y) ← inCommonUnit "compare" a b
  pure (r.valueEq x.value y.value)

/-- How the quantities compare in their common unit. -/
def tryCompare (a b : Quantity r) : Except Error Ordering := do
  let (x, y) ← inCommonUnit "compare" a b
  match r.valueCompare? x.value y.value with
  | some order => pure order
  | none => fail (.notComparable (x.text ++ " and " ++ y.text))

end Metrology.Quantity
