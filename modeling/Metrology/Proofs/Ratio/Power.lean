/-
  Metrology.Proofs.Ratio.Power

  Integer powers of exact ratios. Repeated squaring gives the product of the copies in whatever
  order it multiplies them, and a negative exponent asks for the reciprocal of such a product,
  which zero alone does not have. So every ratio has every power but zero the negative ones.
-/
import Metrology.Ratio.Basic
import Metrology.Proofs.Integer.Squaring
import Mathlib.Algebra.BigOperators.Group.List.Basic
import Mathlib.Algebra.Field.Rat

namespace Metrology.Ratio

variable {a b : Ratio} {n : Int} {e : NumberError}

/-! ## Reciprocals -/

theorem recip_zero : recip 0 = .error .divisionByZero := div_zero 1

theorem recip_of_ne_zero (ha : a ≠ 0) : recip a = .ok a⁻¹ := by
  rw [recip, div_of_ne_zero 1 ha, one_div]

/-! ## Powers in the field -/

theorem pow_natCast (a : Ratio) (k : Nat) : pow a k = .ok (a ^ k) := by
  rw [pow, powerBySquaring_eq, one_mul, Int.natAbs_natCast, if_neg (Int.not_ofNat_neg k)]

theorem pow_negSucc (a : Ratio) (k : Nat) : pow a (.negSucc k) = recip (a ^ (k + 1)) := by
  rw [pow, powerBySquaring_eq, one_mul, Int.natAbs_negSucc, if_pos (Int.negSucc_lt_zero k)]

/-- The integer power is the power in the field; only zero lacks powers, the negative ones. -/
theorem pow_eq (a : Ratio) (n : Int) :
    pow a n = if a = 0 ∧ n < 0 then .error .divisionByZero else .ok (a ^ n) := by
  cases n with
  | ofNat k =>
    rw [Int.ofNat_eq_natCast, pow_natCast, if_neg fun h => Int.not_ofNat_neg k h.2, zpow_natCast]
  | negSucc k =>
    rw [pow_negSucc]
    by_cases ha : a = 0
    · -- The power itself is zero, and has no reciprocal.
      rw [if_pos ⟨ha, Int.negSucc_lt_zero k⟩, ha, zero_pow k.succ_ne_zero, recip_zero]
    · rw [if_neg fun h => ha h.1, recip_of_ne_zero (pow_ne_zero _ ha), zpow_negSucc]

theorem pow_of_nonneg (a : Ratio) (hn : 0 ≤ n) : pow a n = .ok (a ^ n) := by
  rw [pow_eq, if_neg fun h => hn.not_gt h.2]

theorem pow_of_ne_zero (ha : a ≠ 0) (n : Int) : pow a n = .ok (a ^ n) := by
  rw [pow_eq, if_neg fun h => ha h.1]

theorem pow_eq_ok : pow a n = .ok b ↔ (a = 0 → 0 ≤ n) ∧ b = a ^ n := by
  have hdefined : (a = 0 → 0 ≤ n) ↔ ¬ (a = 0 ∧ n < 0) := by rw [not_and, not_lt]
  rw [pow_eq, hdefined]
  split
  · rename_i hzero
    simp [hzero]
  · rename_i hzero
    simp [hzero, eq_comm]

theorem pow_eq_error : pow a n = .error e ↔ e = .divisionByZero ∧ a = 0 ∧ n < 0 := by
  rw [pow_eq]
  split
  · rename_i hzero
    simp [hzero, eq_comm]
  · rename_i hzero
    simp [hzero]

/-! ## Products of copies -/

/-- A power in the field is a product of copies, or the reciprocal of one. -/
theorem zpow_eq_copies (a : Ratio) (n : Int) :
    a ^ n = if n < 0 then (List.replicate n.natAbs a).prod⁻¹
      else (List.replicate n.natAbs a).prod := by
  cases n with
  | ofNat k =>
    rw [Int.ofNat_eq_natCast, Int.natAbs_natCast, if_neg (Int.not_ofNat_neg k),
      List.prod_replicate, zpow_natCast]
  | negSucc k =>
    rw [Int.natAbs_negSucc, if_pos (Int.negSucc_lt_zero k), List.prod_replicate, zpow_negSucc]

/-- The integer power of a ratio fails by division by zero exactly for the negative powers of zero,
and in no other way. Everywhere else it is the power over the rational numbers: as many copies
multiplied as the exponent says, which for the exponent zero is one whatever the ratio, and for a
negative exponent the reciprocal of the product of as many copies as its absolute value says. -/
theorem pow_eq_copies (a : Ratio) (n : Int) :
    (∀ e, pow a n = .error e ↔ e = .divisionByZero ∧ a = 0 ∧ n < 0) ∧
    (∀ b, pow a n = .ok b ↔
      ¬ (a = 0 ∧ n < 0) ∧
        b = if n < 0 then (List.replicate n.natAbs a).prod⁻¹
          else (List.replicate n.natAbs a).prod) ∧
    ∀ b, pow a n = .ok b ↔ ¬ (a = 0 ∧ n < 0) ∧ b = a ^ n := by
  have hok (b : Ratio) : pow a n = .ok b ↔ ¬ (a = 0 ∧ n < 0) ∧ b = a ^ n := by
    rw [pow_eq_ok, not_and, not_lt]
  refine ⟨fun e => pow_eq_error, fun b => ?_, hok⟩
  rw [hok, zpow_eq_copies]

/-- The least exponent of 32 bits has an absolute value that is no such integer. -/
example : pow (-1) Width.w32.least = .ok 1 ∧ pow 0 Width.w32.least = .error .divisionByZero := by
  decide +kernel

end Metrology.Ratio
