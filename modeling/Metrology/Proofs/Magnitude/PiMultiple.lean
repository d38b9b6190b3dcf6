/-
  Metrology.Proofs.Magnitude.PiMultiple

  Exact arithmetic on rational multiples of powers of pi. The coefficient and the power of
  pi are kept apart, so sums need one power of pi. Each operation agrees with the real one.
-/
import Metrology.Magnitude.Basic
import Mathlib.Analysis.SpecialFunctions.Trigonometric.Basic

namespace Metrology

/-- The number `coefficient * pi ^ power`. -/
structure PiMultiple where
  coefficient : Ratio
  power : Int
  deriving DecidableEq

namespace PiMultiple

/-- The real number. -/
noncomputable def toReal (n : PiMultiple) : ℝ := n.coefficient * Real.pi ^ n.power

/-- A rational number. -/
def ofRatio (q : Ratio) : PiMultiple := ⟨q, 0⟩

/-! ## Arithmetic -/

/-- The sum of two multiples of one power. -/
def add? (m n : PiMultiple) : Option PiMultiple :=
  if m.power = n.power then some ⟨m.coefficient + n.coefficient, m.power⟩ else none

/-- The difference of two multiples of one power. -/
def sub? (m n : PiMultiple) : Option PiMultiple :=
  if m.power = n.power then some ⟨m.coefficient - n.coefficient, m.power⟩ else none

/-- The product. -/
def mul (m n : PiMultiple) : PiMultiple :=
  ⟨m.coefficient * n.coefficient, m.power + n.power⟩

/-- The quotient by a number that is not zero. -/
def div? (m n : PiMultiple) : Option PiMultiple :=
  if n.coefficient = 0 then none
  else some ⟨m.coefficient / n.coefficient, m.power - n.power⟩

/-- The integer power, which for zero must not be negative. -/
def pow? (m : PiMultiple) (n : Int) : Option PiMultiple :=
  if m.coefficient = 0 ∧ n < 0 then none else some ⟨m.coefficient ^ n, m.power * n⟩

/-! ## Agreement with the real numbers -/

variable {m n s : PiMultiple}

@[simp] theorem toReal_ofRatio (q : Ratio) : (ofRatio q).toReal = q := by
  simp [toReal, ofRatio]

theorem toReal_add? (h : m.add? n = some s) : s.toReal = m.toReal + n.toReal := by
  rw [add?, Option.ite_none_right_eq_some, Option.some.injEq] at h
  obtain ⟨hpower, rfl⟩ := h
  simp only [toReal, hpower]
  push_cast
  ring

theorem toReal_sub? (h : m.sub? n = some s) : s.toReal = m.toReal - n.toReal := by
  rw [sub?, Option.ite_none_right_eq_some, Option.some.injEq] at h
  obtain ⟨hpower, rfl⟩ := h
  simp only [toReal, hpower]
  push_cast
  ring

@[simp] theorem toReal_mul (m n : PiMultiple) : (m.mul n).toReal = m.toReal * n.toReal := by
  simp only [toReal, mul, zpow_add₀ Real.pi_ne_zero]
  push_cast
  ring

theorem toReal_div? (h : m.div? n = some s) : s.toReal = m.toReal / n.toReal := by
  rw [div?, Option.ite_none_left_eq_some, Option.some.injEq] at h
  obtain ⟨-, rfl⟩ := h
  simp only [toReal, zpow_sub₀ Real.pi_ne_zero]
  push_cast
  rw [mul_div_mul_comm]

theorem toReal_pow? {k : Int} (h : m.pow? k = some s) : s.toReal = m.toReal ^ k := by
  rw [pow?, Option.ite_none_left_eq_some, Option.some.injEq] at h
  obtain ⟨-, rfl⟩ := h
  simp only [toReal, mul_zpow, zpow_mul]
  push_cast
  rfl

/-- Multiples of one power compare like their coefficients. -/
theorem cmp_toReal (h : m.power = n.power) :
    cmp m.toReal n.toReal = cmp m.coefficient n.coefficient := by
  have hpos : 0 < Real.pi ^ n.power := zpow_pos Real.pi_pos _
  rw [toReal, toReal, h, cmp_mul_pos_right hpos, Rat.cast_strictMono.cmp_map_eq]

end PiMultiple

/-- The number that an exact magnitude is. -/
def Magnitude.number? (m : Magnitude) : Option PiMultiple :=
  match m.coefficient with
  | .exact c => some ⟨c, m.pi.val⟩
  | .approx _ => none

end Metrology
