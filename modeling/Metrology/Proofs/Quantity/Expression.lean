/-
  Metrology.Proofs.Quantity.Expression

  Expressions over quantities, and what they mean. An expression is evaluated by the
  operations on quantities; its meaning is a number in exact arithmetic, the same number in
  the reals, and an integer degree for every base dimension.
-/
import Metrology.Quantity.Arithmetic
import Metrology.Proofs.Dimension.Degree
import Metrology.Proofs.Magnitude.PiMultiple
import Metrology.Proofs.MeasureUnit.Composition
import Metrology.Proofs.Representation.Exact

namespace Metrology

namespace Quantity

variable {r : Representation}

/-- The number that a quantity in a unit of exact magnitude is: its value times the magnitude
of its unit. -/
def number? (q : Quantity r) : Option PiMultiple :=
  q.unit.magnitude.number?.map (PiMultiple.ofRatio (r.number q.value)).mul

/-- The real number that a quantity is; zero in a unit of inexact magnitude. -/
noncomputable def toReal (q : Quantity r) : ℝ := q.number?.elim 0 PiMultiple.toReal

theorem toReal_of_number? {q : Quantity r} {n : PiMultiple} (h : q.number? = some n) :
    q.toReal = n.toReal := by
  rw [toReal, h, Option.elim_some]

theorem number?_of_magnitude {q : Quantity r} {c : Ratio} {k : Power}
    (h : q.unit.magnitude = ⟨.exact c, k⟩) :
    q.number? = some ⟨r.number q.value * c, k.val⟩ := by
  simp [number?, h, Magnitude.number?, PiMultiple.mul, PiMultiple.ofRatio]

end Quantity

/-- Expressions made of quantities by arithmetic and conversion. -/
inductive Expression (r : Representation) where
  | leaf (q : Quantity r)
  | add (a b : Expression r)
  | sub (a b : Expression r)
  | mul (a b : Expression r)
  | div (a b : Expression r)
  | pow (a : Expression r) (n : Power)
  | scale (a : Expression r) (factor : r.Value)
  | divScalar (a : Expression r) (divisor : r.Value)
  | convertTo (a : Expression r) (target : MeasureUnit)
  | toCoherent (a : Expression r)

namespace Expression

variable {r : Representation}

/-- The quantity that the operations on quantities give. -/
def eval : Expression r → Except Error (Quantity r)
  | leaf q => .ok q
  | add a b => do
    let x ← a.eval
    let y ← b.eval
    x.add y
  | sub a b => do
    let x ← a.eval
    let y ← b.eval
    x.sub y
  | mul a b => do
    let x ← a.eval
    let y ← b.eval
    x.mul y
  | div a b => do
    let x ← a.eval
    let y ← b.eval
    x.div y
  | pow a n => do
    let x ← a.eval
    x.pow n
  | scale a factor => do
    let x ← a.eval
    x.scale factor
  | divScalar a divisor => do
    let x ← a.eval
    x.divScalar divisor
  | convertTo a target => do
    let x ← a.eval
    x.convertTo target
  | toCoherent a => do
    let x ← a.eval
    x.toCoherent

/-! ## Meaning -/

/-- The number in exact arithmetic, on which conversions have no effect. -/
def number? : Expression r → Option PiMultiple
  | leaf q => q.number?
  | add a b => do (← a.number?).add? (← b.number?)
  | sub a b => do (← a.number?).sub? (← b.number?)
  | mul a b => do pure ((← a.number?).mul (← b.number?))
  | div a b => do (← a.number?).div? (← b.number?)
  | pow a n => do (← a.number?).pow? n.val
  | scale a factor => do pure ((← a.number?).mul (.ofRatio (r.number factor)))
  | divScalar a divisor => do (← a.number?).div? (.ofRatio (r.number divisor))
  | convertTo a _ => a.number?
  | toCoherent a => a.number?

/-- The number in the reals. -/
noncomputable def toReal : Expression r → ℝ
  | leaf q => q.toReal
  | add a b => a.toReal + b.toReal
  | sub a b => a.toReal - b.toReal
  | mul a b => a.toReal * b.toReal
  | div a b => a.toReal / b.toReal
  | pow a n => a.toReal ^ n.val
  | scale a factor => a.toReal * r.number factor
  | divScalar a divisor => a.toReal / r.number divisor
  | convertTo a _ => a.toReal
  | toCoherent a => a.toReal

/-- The power of a base dimension: added in products, subtracted in quotients, multiplied in
powers, and left alone by everything else. -/
def degree : Expression r → BaseDimension → Int
  | leaf q, e => q.dimension.degree e
  | add a _, e => a.degree e
  | sub a _, e => a.degree e
  | mul a b, e => a.degree e + b.degree e
  | div a b, e => a.degree e - b.degree e
  | pow a n, e => a.degree e * n.val
  | scale a _, e => a.degree e
  | divScalar a _, e => a.degree e
  | convertTo a _, e => a.degree e
  | toCoherent a, e => a.degree e

/-- Every unit that occurs has an exact and positive magnitude. -/
def IsPositive : Expression r → Prop
  | leaf q => q.unit.IsPositive
  | add a b => a.IsPositive ∧ b.IsPositive
  | sub a b => a.IsPositive ∧ b.IsPositive
  | mul a b => a.IsPositive ∧ b.IsPositive
  | div a b => a.IsPositive ∧ b.IsPositive
  | pow a _ => a.IsPositive
  | scale a _ => a.IsPositive
  | divScalar a _ => a.IsPositive
  | convertTo a target => a.IsPositive ∧ target.IsPositive
  | toCoherent a => a.IsPositive

/-- Where exact arithmetic gives a number, it is the real one. -/
theorem toReal_eq {e : Expression r} {n : PiMultiple} (h : e.number? = some n) :
    e.toReal = n.toReal := by
  induction e generalizing n with
  | leaf q => exact Quantity.toReal_of_number? h
  | add a b iha ihb =>
    simp only [number?, Option.bind_eq_bind, Option.bind_eq_some_iff] at h
    obtain ⟨m, hm, s, hs, hn⟩ := h
    rw [toReal, iha hm, ihb hs, PiMultiple.toReal_add? hn]
  | sub a b iha ihb =>
    simp only [number?, Option.bind_eq_bind, Option.bind_eq_some_iff] at h
    obtain ⟨m, hm, s, hs, hn⟩ := h
    rw [toReal, iha hm, ihb hs, PiMultiple.toReal_sub? hn]
  | mul a b iha ihb =>
    simp only [number?, Option.bind_eq_bind, Option.bind_eq_some_iff, Option.pure_def,
      Option.some.injEq] at h
    obtain ⟨m, hm, s, hs, rfl⟩ := h
    rw [toReal, iha hm, ihb hs, PiMultiple.toReal_mul]
  | div a b iha ihb =>
    simp only [number?, Option.bind_eq_bind, Option.bind_eq_some_iff] at h
    obtain ⟨m, hm, s, hs, hn⟩ := h
    rw [toReal, iha hm, ihb hs, PiMultiple.toReal_div? hn]
  | pow a k iha =>
    simp only [number?, Option.bind_eq_bind, Option.bind_eq_some_iff] at h
    obtain ⟨m, hm, hn⟩ := h
    rw [toReal, iha hm, PiMultiple.toReal_pow? hn]
  | scale a factor iha =>
    simp only [number?, Option.bind_eq_bind, Option.bind_eq_some_iff, Option.pure_def,
      Option.some.injEq] at h
    obtain ⟨m, hm, rfl⟩ := h
    rw [toReal, iha hm, PiMultiple.toReal_mul, PiMultiple.toReal_ofRatio]
  | divScalar a divisor iha =>
    simp only [number?, Option.bind_eq_bind, Option.bind_eq_some_iff] at h
    obtain ⟨m, hm, hn⟩ := h
    rw [toReal, iha hm, PiMultiple.toReal_div? hn, PiMultiple.toReal_ofRatio]
  | convertTo a target iha => exact iha h
  | toCoherent a iha => exact iha h

end Expression

end Metrology
