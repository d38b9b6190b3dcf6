/-
  Metrology.Proofs.Binary.Range

  Where products and quotients are finite. A rounded number is finite exactly below the middle
  between the greatest finite magnitude and the power of two that would follow it, so an operation
  on finite numbers overflows according to its exact result alone.
-/
import Metrology.Binary.Arithmetic
import Metrology.Proofs.Binary.Nearest
import Mathlib.Algebra.Order.Group.Unbundled.Abs
import Mathlib.Algebra.Order.Ring.Abs
import Mathlib.Data.Rat.Lemmas

namespace Metrology

namespace Format

/-! ## The bound -/

/-- Numbers from here on are rounded to infinity: half a place below the first power of two that
has no finite magnitude. -/
def overflowBound (f : Format) : Rat :=
  2 ^ f.overflowExponent - 2 ^ (f.overflowExponent - f.precision - 1)

theorem rankCount_pos (f : Format) : 0 < f.rankCount := by
  cases f <;> decide

/-- The bound is the middle above the greatest finite magnitude. -/
theorem midpoint_pred_rankCount (f : Format) : f.midpoint (f.rankCount - 1) = f.overflowBound := by
  obtain ⟨binade, hrank, hexponent⟩ : ∃ binade : Nat,
      f.rankCount - 1 = binade * f.leadingBit + (2 * f.leadingBit - 1) ∧
        f.overflowExponent = f.precision + (f.leastExponent + binade) := by
    cases f with
    | single => exact ⟨253, rfl, rfl⟩
    | double => exact ⟨2045, rfl, rfl⟩
  have hL := f.leadingBit_pos
  have hbeyond : (2 : Rat) ^ f.overflowExponent = 2 ^ f.precision * f.lastPlace binade := by
    rw [hexponent, zpow_add₀ two_ne_zero, zpow_natCast, lastPlace]
  have hhalf : (2 : Rat) ^ (f.overflowExponent - f.precision - 1) = f.lastPlace binade / 2 := by
    rw [hexponent, add_sub_cancel_left, zpow_sub_one₀ two_ne_zero, lastPlace, div_eq_mul_inv]
  rw [hrank, midpoint_of_lt (by omega) (.inr (by omega)), Nat.cast_pred (by omega),
    overflowBound, hbeyond, hhalf, ← two_mul_leadingBit]
  push_cast
  ring

example : Format.double.overflowBound = 2 ^ (1024 : Int) - 2 ^ (970 : Int) := rfl

theorem not_even_pred_rankCount (f : Format) : ¬ Even (f.rankCount - 1) := by
  cases f <;> decide

theorem natAbs_num_div_den (q : Rat) : (q.num.natAbs / q.den : Rat) = |q| := by
  rw [Nat.cast_natAbs, Int.cast_abs, ← abs_of_pos (Nat.cast_pos (α := Rat).2 q.den_pos), ← abs_div,
    Rat.num_div_den]

theorem abs_magnitude (f : Format) (rank : Nat) : |f.magnitude rank| = f.magnitude rank :=
  abs_of_nonneg (f.magnitude_nonneg rank)

theorem nearestRank_lt_rankCount_iff {f : Format} {q : Rat} :
    f.nearestRank q.num.natAbs q.den < f.rankCount ↔ |q| < f.overflowBound := by
  have hlast : f.nearestRank q.num.natAbs q.den < f.rankCount ↔
      ¬ f.rankCount - 1 < f.nearestRank q.num.natAbs q.den := by
    have hpos := f.rankCount_pos
    omega
  rw [hlast, lt_nearestRank_iff q.den_pos, natAbs_num_div_den, midpoint_pred_rankCount,
    and_iff_left f.not_even_pred_rankCount, ← le_iff_lt_or_eq, not_le]

end Format

namespace Binary

variable {f : Format} {x y : Binary f}

/-! ## Rounding -/

theorem isFinite_ofRank {negative : Bool} {rank : Nat} :
    (ofRank negative rank : Binary f).isFinite = true ↔ rank < f.rankCount := by
  rw [ofRank]
  split <;> simp_all [isFinite]

theorem isFinite_ofSigned {negative : Bool} {q : Rat} :
    (ofSigned negative q : Binary f).isFinite = true ↔ |q| < f.overflowBound :=
  isFinite_ofRank.trans Format.nearestRank_lt_rankCount_iff

theorem isFinite_zero (negative : Bool) : (zero negative : Binary f).isFinite = true :=
  isFinite_ofRank.2 f.rankCount_pos

/-! ## Exact values -/

@[simp] theorem abs_signedRat (negative : Bool) (q : Rat) : |signedRat negative q| = |q| := by
  cases negative with
  | false => rfl
  | true => exact abs_neg q

theorem signedRat_eq_zero_iff {negative : Bool} {rank : Nat} :
    signedRat negative (f.magnitude rank) = 0 ↔ rank = 0 := by
  rw [← abs_eq_zero, abs_signedRat, abs_eq_zero, Format.magnitude_eq_zero_iff]

/-! ## Operations -/

/-- A product is finite exactly if both factors are and their exact product is below the bound. -/
theorem isFinite_mul_iff :
    (x.mul y).isFinite = true ↔
      ∃ p q, x.toRat? = some p ∧ y.toRat? = some q ∧ |p * q| < f.overflowBound := by
  rcases x with _ | s | ⟨s, a, ha⟩ <;> rcases y with _ | t | ⟨t, b, hb⟩
  case finite.finite =>
    rw [mul, isFinite_ofSigned]
    simp [toRat?, abs_mul]
  case infinite.finite =>
    rw [mul]
    split <;> simp [isFinite, toRat?]
  case finite.infinite =>
    rw [mul]
    split <;> simp [isFinite, toRat?]
  all_goals simp [mul, isFinite, toRat?]

/-- A quotient is finite exactly if the dividend is, and the divisor is infinite or it is not zero
and the exact quotient is below the bound. -/
theorem isFinite_div_iff :
    (x.div y).isFinite = true ↔ ∃ p, x.toRat? = some p ∧ ((∃ negative, y = .infinite negative) ∨
      ∃ q, y.toRat? = some q ∧ q ≠ 0 ∧ |p / q| < f.overflowBound) := by
  rcases x with _ | s | ⟨s, a, ha⟩ <;> rcases y with _ | t | ⟨t, b, hb⟩
  case finite.finite =>
    simp only [toRat?, Option.some.injEq, reduceCtorEq, exists_false, false_or,
      exists_eq_left', ne_eq, signedRat_eq_zero_iff, abs_div, abs_signedRat]
    by_cases h : b = 0
    · rw [div, if_pos h]
      split <;> simp [isFinite, h]
    · rw [div, if_neg h, isFinite_ofSigned, abs_div]
      simp [h]
  case finite.infinite => simp [div, isFinite_zero, toRat?]
  all_goals simp [div, isFinite, toRat?]

end Binary

end Metrology
