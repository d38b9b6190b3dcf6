/-
  Metrology.Proofs.Ratio.CommonMeasure

  The measure in which two magnitudes meet: the finer one where one is an integer multiple of
  the other, and otherwise their greatest common divisor. Either way it is the multiple of
  exactly the common divisors, which makes it the greatest one where both are positive.
-/
import Metrology.Proofs.Ratio.Gcd
import Mathlib.Order.Bounds.Defs

namespace Metrology.Ratio

variable {a b c d : Ratio}

/-- The common measure of two ratios. -/
def commonMeasure (a b : Ratio) : Ratio :=
  if isInteger (a / b) then b else if isInteger (b / a) then a else gcd a b

@[simp] theorem commonMeasure_self (ha : a ≠ 0) : commonMeasure a a = a := by
  rw [commonMeasure, div_self ha, isInteger_one, if_pos rfl]

theorem commonMeasure_ne_zero (ha : a ≠ 0) (hb : b ≠ 0) : commonMeasure a b ≠ 0 := by
  rw [commonMeasure]
  split_ifs
  · exact hb
  · exact ha
  · exact (gcd_pos_of_ne_zero b ha).ne'

theorem isMultiple_commonMeasure_left (hb : b ≠ 0) : IsMultiple a (commonMeasure a b) := by
  rw [commonMeasure]
  split_ifs with hab hba
  · exact (isInteger_div_iff hb).1 hab
  · exact isMultiple_refl a
  · exact isMultiple_gcd_left a b

theorem isMultiple_commonMeasure_right (ha : a ≠ 0) : IsMultiple b (commonMeasure a b) := by
  rw [commonMeasure]
  split_ifs with hab hba
  · exact isMultiple_refl b
  · exact (isInteger_div_iff ha).1 hba
  · exact isMultiple_gcd_right a b

/-- The common measure of positive ratios is positive. -/
theorem commonMeasure_pos (ha : 0 < a) (hb : 0 < b) : 0 < commonMeasure a b := by
  rw [commonMeasure]
  split_ifs
  · exact hb
  · exact ha
  · exact gcd_pos_of_ne_zero b ha.ne'

/-! ## Common divisors -/

/-- On each branch the common measure has the common divisors of both ratios as its divisors. -/
theorem isMultiple_commonMeasure_iff (ha : a ≠ 0) (hb : b ≠ 0) :
    IsMultiple (commonMeasure a b) d ↔ IsMultiple a d ∧ IsMultiple b d := by
  refine ⟨fun h => ?_, fun ⟨had, hbd⟩ => ?_⟩
  · exact ⟨(isMultiple_commonMeasure_left hb).trans h, (isMultiple_commonMeasure_right ha).trans h⟩
  · rw [commonMeasure]
    split_ifs
    · exact hbd
    · exact had
    · exact isMultiple_gcd_iff.2 ⟨had, hbd⟩

/-- The common measure of positive ratios is their greatest common divisor. -/
theorem isGreatest_commonMeasure (ha : 0 < a) (hb : 0 < b) :
    IsGreatest {d | IsMultiple a d ∧ IsMultiple b d} (commonMeasure a b) := by
  refine ⟨(isMultiple_commonMeasure_iff ha.ne' hb.ne').1 (isMultiple_refl _), fun d hd => ?_⟩
  have hmultiple := (isMultiple_commonMeasure_iff ha.ne' hb.ne').2 hd
  exact le_of_isMultiple (commonMeasure_pos ha hb) hmultiple

/-- Three positive ratios have one common measure, whichever two meet first. -/
theorem commonMeasure_assoc (ha : 0 < a) (hb : 0 < b) (hc : 0 < c) :
    commonMeasure (commonMeasure a b) c = commonMeasure a (commonMeasure b c) := by
  have hab := commonMeasure_pos ha hb
  have hbc := commonMeasure_pos hb hc
  refine eq_of_isMultiple_iff (commonMeasure_pos hab hc).le (commonMeasure_pos ha hbc).le
    fun d => ?_
  rw [isMultiple_commonMeasure_iff hab.ne' hc.ne', isMultiple_commonMeasure_iff ha.ne' hb.ne',
    isMultiple_commonMeasure_iff ha.ne' hbc.ne', isMultiple_commonMeasure_iff hb.ne' hc.ne',
    and_assoc]

/-! ## Order of the ratios -/

/-- Ratios that are multiples of each other differ in the sign at most. -/
theorem eq_or_eq_neg_of_isMultiple (hb : b ≠ 0) (hab : IsMultiple a b) (hba : IsMultiple b a) :
    a = b ∨ a = -b := by
  obtain ⟨m, hm⟩ := hab
  obtain ⟨n, hn⟩ := hba
  -- The two factors are integers with the product one.
  have hmn : (m * n : Ratio) = 1 := by
    refine mul_right_cancel₀ hb ?_
    rw [one_mul, mul_right_comm, ← hm, mul_comm a, ← hn]
  rcases Int.eq_one_or_neg_one_of_mul_eq_one (by exact_mod_cast hmn : m * n = 1) with h | h
  · left
    rw [hm, h, Int.cast_one, one_mul]
  · right
    rw [hm, h, Int.cast_neg, Int.cast_one, neg_one_mul]

theorem commonMeasure_neg_right (hb : b ≠ 0) : commonMeasure (-b) b = b := by
  have hmultiple : IsMultiple (-b) b := ⟨-1, by rw [Int.cast_neg, Int.cast_one, neg_one_mul]⟩
  rw [commonMeasure, if_pos ((isInteger_div_iff hb).2 hmultiple)]

/-- The order of two ratios matters only where the choice is between a ratio and its
negative. -/
theorem commonMeasure_comm (ha : a ≠ 0) (hb : b ≠ 0) (h : a ≠ -b) :
    commonMeasure a b = commonMeasure b a := by
  by_cases hab : IsMultiple a b
  · by_cases hba : IsMultiple b a
    · rcases eq_or_eq_neg_of_isMultiple hb hab hba with rfl | rfl
      · rfl
      · exact absurd rfl h
    · rw [commonMeasure, commonMeasure, if_pos ((isInteger_div_iff hb).2 hab),
        if_neg (mt (isInteger_div_iff ha).1 hba), if_pos ((isInteger_div_iff hb).2 hab)]
  · rw [commonMeasure, commonMeasure, if_neg (mt (isInteger_div_iff hb).1 hab), gcd_comm b a,
      if_neg (mt (isInteger_div_iff hb).1 hab)]

theorem commonMeasure_comm_of_pos (ha : 0 < a) (hb : 0 < b) :
    commonMeasure a b = commonMeasure b a :=
  commonMeasure_comm ha.ne' hb.ne' ((neg_neg_of_pos hb).trans ha).ne'

/-! ## Sign -/

/-- The common measure is one of the two ratios, and that ratio is negative. -/
def MeetsNegative (a b : Ratio) : Prop :=
  IsMultiple a b ∧ b < 0 ∨ ¬ IsMultiple a b ∧ IsMultiple b a ∧ a < 0

/-- The common measure is negative only where it is one of the ratios, the greatest common
divisor being positive. -/
theorem commonMeasure_neg_iff (ha : a ≠ 0) (hb : b ≠ 0) :
    commonMeasure a b < 0 ↔ MeetsNegative a b := by
  have hgcd : ¬ gcd a b < 0 := (gcd_pos_of_ne_zero b ha).not_gt
  rw [commonMeasure, MeetsNegative, ← isInteger_div_iff hb, ← isInteger_div_iff ha]
  by_cases hab : isInteger (a / b) = true
  · simp [hab]
  · by_cases hba : isInteger (b / a) = true
    · simp [hab, hba]
    · simp [hab, hba, hgcd]

theorem commonMeasure_pos_iff (ha : a ≠ 0) (hb : b ≠ 0) :
    0 < commonMeasure a b ↔ ¬ MeetsNegative a b := by
  rw [← commonMeasure_neg_iff ha hb, not_lt]
  exact (commonMeasure_ne_zero ha hb).symm.le_iff_lt.symm

/-- The sign depends on the order of the ratios only between a ratio and its negative. -/
theorem commonMeasure_pos_comm_iff (ha : a ≠ 0) (hb : b ≠ 0) :
    (0 < commonMeasure a b ↔ 0 < commonMeasure b a) ↔ a ≠ -b := by
  constructor
  · -- Between b and its negative, the one on the right is taken.
    rintro h rfl
    have hswap : commonMeasure b (-b) = -b := by
      have hself := commonMeasure_neg_right ha
      rwa [neg_neg] at hself
    rw [commonMeasure_neg_right hb, hswap, Left.neg_pos_iff] at h
    exact hb.lt_or_gt.elim (fun hneg => (h.2 hneg).not_gt hneg) fun hpos =>
      (h.1 hpos).not_gt hpos
  · intro h
    rw [commonMeasure_comm ha hb h]

end Metrology.Ratio
