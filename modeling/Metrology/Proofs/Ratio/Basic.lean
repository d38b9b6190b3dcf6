/-
  Metrology.Proofs.Ratio.Basic

  Exact ratios against the field of rational numbers: the integers among them, integer multiples,
  and the order.
-/
import Metrology.Ratio.Basic
import Mathlib.Order.Compare
import Mathlib.Algebra.Order.Ring.Unbundled.Rat
import Mathlib.Data.Rat.Lemmas
import Mathlib.Algebra.Order.Field.Power

namespace Metrology

theorem isLE_cmp_iff {α : Type} [LinearOrder α] (x y : α) : (cmp x y).isLE = true ↔ x ≤ y := by
  rw [Ordering.isLE_iff_ne_gt, cmp_eq_gt_iff, not_lt]

namespace Ratio

/-! ## Integers among the ratios -/

theorem isInteger_iff {a : Ratio} : a.isInteger = true ↔ ∃ n : Int, a = n := by
  rw [isInteger, beq_iff_eq, Rat.den_eq_one_iff]
  constructor
  · intro h
    exact ⟨a.num, h.symm⟩
  · rintro ⟨n, rfl⟩
    rw [Rat.num_intCast]

@[simp] theorem isInteger_one : isInteger 1 = true := rfl

/-- The integer part of an integer is the integer. -/
@[simp] theorem trunc_intCast (n : Int) : trunc (n : Ratio) = n := by
  rw [trunc, Rat.num_intCast, Rat.den_intCast, Nat.cast_one, Int.tdiv_one]

/-- The first ratio is an integer times the second one. -/
def IsMultiple (a b : Ratio) : Prop := ∃ n : Int, a = n * b

theorem isMultiple_refl (a : Ratio) : IsMultiple a a := ⟨1, by rw [Int.cast_one, one_mul]⟩

/-- A quotient is an integer exactly for a multiple of the divisor. -/
theorem isInteger_div_iff {a b : Ratio} (hb : b ≠ 0) :
    isInteger (a / b) = true ↔ IsMultiple a b := by
  rw [isInteger_iff]
  exact exists_congr fun n => div_eq_iff hb

/-! ## Order -/

/-- Comparison is that of the linear order. -/
theorem compare_eq_cmp (a b : Ratio) : compare a b = cmp a b := by
  rw [compare]
  rcases lt_trichotomy a b with h | h | h
  · rw [if_pos h, h.cmp_eq_lt]
  · rw [if_neg h.not_lt, if_pos h, h.cmp_eq_eq]
  · rw [if_neg h.not_gt, if_neg h.ne', h.cmp_eq_gt]

end Ratio

end Metrology
