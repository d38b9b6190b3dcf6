/-
  Metrology.Proofs.Ratio.Truncation

  The integer part of a ratio, toward zero. It is the one integer that is less than one nearer to
  zero and not on the other side of it. Of nonnegative ratios it is the floor, and the negative
  ones mirror them.
-/
import Metrology.Proofs.Ratio.Basic
import Mathlib.Data.Rat.Floor
import Mathlib.Data.Sign.Basic

namespace Metrology.Ratio

variable {p q : Ratio} {m n : Int}

/-- The integer is the ratio cut off toward zero: its distance from zero is that of the ratio or
less than one shorter, and it is zero or has the sign of the ratio. -/
structure IsTruncation (p : Ratio) (n : Int) : Prop where
  le : |(n : Ratio)| ≤ |p|
  lt : |p| < |(n : Ratio)| + 1
  sign : n = 0 ∨ SignType.sign (n : Ratio) = SignType.sign p

theorem IsTruncation.neg (h : IsTruncation p n) : IsTruncation (-p) (-n) := by
  obtain ⟨hle, hlt, hsign⟩ := h
  refine ⟨?_, ?_, ?_⟩
  · rwa [Int.cast_neg, abs_neg, abs_neg]
  · rwa [Int.cast_neg, abs_neg, abs_neg]
  · rw [Int.neg_eq_zero, Int.cast_neg, Left.sign_neg, Left.sign_neg, neg_inj]
    exact hsign

theorem isTruncation_neg_iff : IsTruncation (-p) n ↔ IsTruncation p (-n) := by
  constructor
  · intro h
    have hneg := h.neg
    rwa [neg_neg] at hneg
  · intro h
    have hneg := h.neg
    rwa [neg_neg] at hneg

/-- On the nonnegative side this is the floor. -/
theorem isTruncation_iff_floor (hp : 0 ≤ p) : IsTruncation p n ↔ ⌊p⌋ = n := by
  rw [Int.floor_eq_iff]
  constructor
  · rintro ⟨hle, hlt, hsign⟩
    have hn : (0 : Ratio) ≤ n := by
      rcases hsign with rfl | hsign
      · exact le_of_eq Int.cast_zero.symm
      · rw [← sign_nonneg_iff, hsign, sign_nonneg_iff]
        exact hp
    rw [abs_of_nonneg hn, abs_of_nonneg hp] at hle hlt
    exact ⟨hle, hlt⟩
  · rintro ⟨hle, hlt⟩
    -- An integer less than one below a nonnegative ratio is not negative.
    have hn : 0 ≤ n := by
      have hpos : (0 : Ratio) < ((n + 1 : Int) : Ratio) := by
        push_cast
        exact hp.trans_lt hlt
      have hpos := Int.cast_pos.1 hpos
      omega
    have hn' : (0 : Ratio) ≤ n := Int.cast_nonneg hn
    refine ⟨?_, ?_, ?_⟩
    · rwa [abs_of_nonneg hn', abs_of_nonneg hp]
    · rwa [abs_of_nonneg hn', abs_of_nonneg hp]
    · rcases hn.eq_or_lt with hzero | hpos
      · exact .inl hzero.symm
      · have hpos' : (0 : Ratio) < n := Int.cast_pos.2 hpos
        right
        rw [sign_pos hpos', sign_pos (hpos'.trans_le hle)]

/-! ## The integer part -/

theorem trunc_of_nonneg (hp : 0 ≤ p) : trunc p = ⌊p⌋ := by
  rw [trunc, Rat.floor_def', Int.tdiv_eq_ediv_of_nonneg (Rat.num_nonneg.2 hp)]

theorem trunc_neg (p : Ratio) : trunc (-p) = -trunc p := by
  rw [trunc, trunc, Rat.num_neg_eq_neg_num, Rat.den_neg_eq_den, Int.neg_tdiv]

/-- The integer part is the one integer that is the ratio cut off toward zero. -/
theorem isTruncation_iff : IsTruncation p n ↔ trunc p = n := by
  rcases le_total 0 p with hp | hp
  · rw [isTruncation_iff_floor hp, trunc_of_nonneg hp]
  · have hneg : 0 ≤ -p := neg_nonneg.2 hp
    have hmirror := isTruncation_iff_floor hneg (n := -n)
    rw [isTruncation_neg_iff, neg_neg] at hmirror
    rw [hmirror, ← trunc_of_nonneg hneg, trunc_neg, neg_inj]

theorem trunc_nonneg (hp : 0 ≤ p) : 0 ≤ trunc p := by
  rw [trunc_of_nonneg hp]
  exact Int.floor_nonneg.2 hp

theorem trunc_nonpos (hp : p ≤ 0) : trunc p ≤ 0 := by
  have hneg := trunc_nonneg (neg_nonneg.2 hp)
  rw [trunc_neg] at hneg
  omega

/-- Cutting off keeps the order. -/
theorem trunc_mono (h : p ≤ q) : trunc p ≤ trunc q := by
  rcases le_total 0 p with hp | hp
  · rw [trunc_of_nonneg hp, trunc_of_nonneg (hp.trans h)]
    exact Int.floor_mono h
  rcases le_total 0 q with hq | hq
  · exact (trunc_nonpos hp).trans (trunc_nonneg hq)
  · -- Two negative ratios are the mirrored ones in the other order.
    have hmirror := Int.floor_mono (neg_le_neg h)
    rw [← trunc_of_nonneg (neg_nonneg.2 hq), ← trunc_of_nonneg (neg_nonneg.2 hp), trunc_neg,
      trunc_neg] at hmirror
    exact neg_le_neg_iff.1 hmirror

end Metrology.Ratio
