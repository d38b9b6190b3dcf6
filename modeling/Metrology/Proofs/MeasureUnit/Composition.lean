/-
  Metrology.Proofs.MeasureUnit.Composition

  Products, quotients and powers of units: their degrees and their magnitudes are those that
  the operation prescribes. Units of positive magnitude stay among themselves.
-/
import Metrology.Proofs.MeasureUnit.Common
import Mathlib.Algebra.Order.Field.Power

namespace Metrology.MeasureUnit

variable {a b u : MeasureUnit} {x y : Ratio} {k l n : Power}

/-! ## Products, quotients and powers -/

theorem multiply_of_ok (h : a.multiply b = .ok u) :
    a.dimension.multiply b.dimension = .ok u.dimension ∧
      a.magnitude.mul b.magnitude = .ok u.magnitude := by
  simp only [multiply, bind_eq_ok, lift_eq_ok] at h
  obtain ⟨d, hd, m, hm, hu⟩ := h
  cases hu
  exact ⟨hd, hm⟩

theorem divide_of_ok (h : a.divide b = .ok u) :
    a.dimension.divide b.dimension = .ok u.dimension ∧
      a.magnitude.div b.magnitude = .ok u.magnitude := by
  simp only [divide, bind_eq_ok, lift_eq_ok] at h
  obtain ⟨d, hd, m, hm, hu⟩ := h
  cases hu
  exact ⟨hd, hm⟩

theorem inverse_of_ok (h : a.inverse = .ok u) :
    a.dimension.invert = .ok u.dimension ∧ a.magnitude.recip = .ok u.magnitude := by
  simp only [MeasureUnit.inverse, bind_eq_ok, lift_eq_ok] at h
  obtain ⟨d, hd, m, hm, hu⟩ := h
  cases hu
  exact ⟨hd, hm⟩

/-- A power is the unit itself, or has the powers of the dimension and the magnitude. -/
theorem power_of_ok (h : a.power n = .ok u) :
    n.val = 1 ∧ u = a ∨
      a.dimension.power n = .ok u.dimension ∧ a.magnitude.pow n = .ok u.magnitude := by
  rw [power] at h
  split at h
  · rename_i hn
    cases h
    exact .inl ⟨hn, rfl⟩
  · simp only [bind_eq_ok, lift_eq_ok] at h
    obtain ⟨d, hd, m, hm, hu⟩ := h
    cases hu
    exact .inr ⟨hd, hm⟩

/-- The degrees and the magnitude of a power, the first power being the unit itself. -/
theorem power_exact (ha : a.magnitude = ⟨.exact x, k⟩) (h : a.power n = .ok u) :
    (∀ e, u.dimension.degree e = a.dimension.degree e * n.val) ∧
      u.magnitude.coefficient = .exact (x ^ n.val) ∧ u.magnitude.pi.val = k.val * n.val := by
  obtain ⟨hn, rfl⟩ | ⟨hd, hm⟩ := power_of_ok h
  · rw [ha, hn, zpow_one, mul_one]
    exact ⟨fun e => (mul_one _).symm, rfl, rfl⟩
  · rw [ha, Magnitude.pow_exact_eq_ok] at hm
    exact ⟨Dimension.degree_power hd, hm.2⟩

/-! ## Units of positive magnitude -/

/-- The magnitude is exact and positive. -/
def IsPositive (u : MeasureUnit) : Prop := ∃ c k, u.magnitude = ⟨.exact c, k⟩ ∧ 0 < c

/-- Units of positive magnitude meet in a unit of positive magnitude. -/
theorem isPositive_common (ha : a.IsPositive) (hb : b.IsPositive) (h : common a b = .ok u) :
    u.IsPositive := by
  obtain ⟨-, rfl | rfl | ⟨d, hd, rfl⟩⟩ := common_cases h
  · exact ha
  · exact hb
  · obtain ⟨x, k, hx, hxpos⟩ := ha
    obtain ⟨y, l, hy, -⟩ := hb
    rw [hx, hy, Magnitude.commonDivisor?_exact_eq_some] at hd
    obtain ⟨-, -, rfl⟩ := hd
    exact ⟨_, k, rfl, Ratio.gcd_pos_of_ne_zero y hxpos.ne'⟩

end Metrology.MeasureUnit
