/-
  Metrology.Proofs.Ratio.Gcd

  The greatest common divisor of two ratios: the divisor of the numerators over the multiple
  of the denominators. Each turn of Euclid's algorithm keeps the common divisors of its pair, so
  the divisor of the ratios is a multiple of exactly their common divisors. A ratio that is not
  negative is determined by its divisors, and the laws of the divisor follow from that.
-/
import Metrology.Proofs.Ratio.Basic
import Mathlib.Algebra.Order.Ring.Abs
import Mathlib.Algebra.Order.Ring.Rat
import Mathlib.Tactic.FieldSimp
import Mathlib.Tactic.Ring

namespace Metrology

/-! ## Euclid's algorithm -/

/-- One turn of the algorithm keeps the common divisors. -/
theorem dvd_and_dvd_mod_iff {a b d : Nat} : d ∣ b ∧ d ∣ a % b ↔ d ∣ a ∧ d ∣ b := by
  rw [and_comm]
  exact and_congr_left fun hb => Nat.dvd_mod_iff hb

/-- The algorithm ends in a number that has exactly the common divisors. -/
theorem dvd_euclid_iff {a b d : Nat} : d ∣ euclid a b ↔ d ∣ a ∧ d ∣ b := by
  induction a, b using euclid.induct with
  | case1 a => simp
  | case2 a b hb ih => rw [euclid_of_ne_zero a hb, ih, dvd_and_dvd_mod_iff]

theorem euclid_eq_gcd (a b : Nat) : euclid a b = Nat.gcd a b :=
  Nat.dvd_left_iff_eq.1 fun _ => dvd_euclid_iff.trans Nat.dvd_gcd_iff.symm

namespace Ratio

variable {a b c d : Ratio}

/-! ## Multiples -/

theorem IsMultiple.trans (h : IsMultiple a b) (h' : IsMultiple b c) : IsMultiple a c := by
  obtain ⟨m, hm⟩ := h
  obtain ⟨n, hn⟩ := h'
  refine ⟨m * n, ?_⟩
  rw [hm, hn, Int.cast_mul, mul_assoc]

theorem isMultiple_zero (d : Ratio) : IsMultiple 0 d := ⟨0, by rw [Int.cast_zero, zero_mul]⟩

theorem isMultiple_zero_right_iff : IsMultiple a 0 ↔ a = 0 := by
  constructor
  · rintro ⟨n, hn⟩
    rw [hn, mul_zero]
  · rintro rfl
    exact isMultiple_zero 0

theorem isMultiple_neg_iff : IsMultiple (-a) d ↔ IsMultiple a d := by
  have hneg {x : Ratio} (h : IsMultiple x d) : IsMultiple (-x) d := by
    obtain ⟨n, hn⟩ := h
    exact ⟨-n, by rw [hn, Int.cast_neg, neg_mul]⟩
  exact ⟨fun h => neg_neg a ▸ hneg h, hneg⟩

theorem isMultiple_abs_iff : IsMultiple |a| d ↔ IsMultiple a d := by
  rcases abs_choice a with h | h
  · rw [h]
  · rw [h, isMultiple_neg_iff]

/-- A factor of the ratio is taken out of the divisor. -/
theorem isMultiple_mul_iff (hc : c ≠ 0) : IsMultiple (c * a) d ↔ IsMultiple a (d / c) := by
  refine exists_congr fun n => ?_
  rw [mul_comm, ← eq_div_iff hc, mul_div_assoc]

/-- In lowest terms a multiple has a multiple of the numerator over a divisor of the
denominator. -/
theorem isMultiple_iff : IsMultiple a d ↔ d.num.natAbs ∣ a.num.natAbs ∧ a.den ∣ d.den := by
  constructor
  · rintro ⟨m, hm⟩
    have hden : a.den ∣ d.den := by
      have h := Rat.mul_den_dvd m d
      rwa [← hm, Rat.den_intCast, one_mul] at h
    refine ⟨?_, hden⟩
    -- The numerator of d divides a product of which the other factor divides its denominator.
    have hcross : a.num * d.den = m * d.num * a.den := by
      have h := Rat.mul_num_den' m d
      rw [← hm, Rat.num_intCast, Rat.den_intCast, Nat.cast_one, mul_one] at h
      exact h
    have hdvd : d.num.natAbs ∣ a.num.natAbs * d.den := by
      rw [← Int.natAbs_natCast d.den, ← Int.natAbs_mul, hcross]
      exact Int.natAbs_dvd_natAbs.2 ((Dvd.intro_left m rfl).mul_right _)
    exact d.reduced.dvd_of_dvd_mul_right hdvd
  · rintro ⟨hnum, k, hk⟩
    obtain ⟨m, hm⟩ := Int.natAbs_dvd_natAbs.1 hnum
    have hden : (a.den : Rat) ≠ 0 := Nat.cast_ne_zero.2 a.den_ne_zero
    have hk0 : (k : Rat) ≠ 0 := by
      rintro h
      rw [Nat.cast_eq_zero.1 h, mul_zero] at hk
      exact d.den_ne_zero hk
    refine ⟨m * k, ?_⟩
    rw [← Rat.num_div_den a, ← Rat.num_div_den d, hm, hk]
    push_cast
    field_simp

/-! ## Order of the divisors -/

/-- No divisor of a positive ratio is greater than it. -/
theorem le_of_isMultiple (ha : 0 < a) (h : IsMultiple a d) : d ≤ a := by
  obtain ⟨n, hn⟩ := h
  rcases le_or_gt d 0 with hd | hd
  · exact hd.trans ha.le
  · have hn0 : (0 : Ratio) < n := by
      rw [hn] at ha
      exact pos_of_mul_pos_left ha hd.le
    have hn1 : (1 : Ratio) ≤ n := by exact_mod_cast Int.add_one_le_of_lt (Int.cast_pos.1 hn0)
    calc d = 1 * d := (one_mul d).symm
      _ ≤ n * d := mul_le_mul_of_nonneg_right hn1 hd.le
      _ = a := hn.symm

/-- Ratios that are not negative are equal if they have the same divisors. -/
theorem eq_of_isMultiple_iff (ha : 0 ≤ a) (hb : 0 ≤ b)
    (h : ∀ d, IsMultiple a d ↔ IsMultiple b d) : a = b := by
  have hzero : a = 0 ↔ b = 0 := by
    rw [← isMultiple_zero_right_iff, h, isMultiple_zero_right_iff]
  rcases ha.eq_or_lt with ha | ha
  · rw [← ha, hzero.1 ha.symm]
  · have hb : 0 < b := hb.lt_of_ne' (mt hzero.2 ha.ne')
    have hba : b ≤ a := le_of_isMultiple ha ((h b).2 (isMultiple_refl b))
    have hab : a ≤ b := le_of_isMultiple hb ((h a).1 (isMultiple_refl a))
    exact hab.antisymm hba

/-! ## The greatest common divisor -/

theorem gcd_eq (a b : Ratio) :
    gcd a b = mkRat (Nat.gcd a.num.natAbs b.num.natAbs) (Nat.lcm a.den b.den) := by
  rw [gcd, euclid_eq_gcd, euclid_eq_gcd]
  rfl

theorem gcd_comm (a b : Ratio) : gcd a b = gcd b a := by
  rw [gcd_eq, gcd_eq, Nat.gcd_comm, Nat.lcm_comm]

/-- The quotient that defines the divisor is in lowest terms already. -/
theorem num_den_gcd (a b : Ratio) :
    (gcd a b).num.natAbs = Nat.gcd a.num.natAbs b.num.natAbs ∧
      (gcd a b).den = Nat.lcm a.den b.den := by
  have hcoprime : (Nat.gcd a.num.natAbs b.num.natAbs).Coprime (Nat.lcm a.den b.den) := by
    have ha := a.reduced.coprime_dvd_left (Nat.gcd_dvd_left a.num.natAbs b.num.natAbs)
    have hb := b.reduced.coprime_dvd_left (Nat.gcd_dvd_right a.num.natAbs b.num.natAbs)
    exact (ha.mul_right hb).coprime_dvd_right (Nat.lcm_dvd_mul _ _)
  have hden : Nat.lcm a.den b.den ≠ 0 := Nat.lcm_ne_zero a.den_ne_zero b.den_ne_zero
  rw [gcd_eq, ← Rat.mk_eq_mkRat (Nat.gcd a.num.natAbs b.num.natAbs : ℕ) _ hden hcoprime]
  exact ⟨Int.natAbs_natCast _, rfl⟩

/-- The divisor is a multiple of exactly the common divisors. -/
theorem isMultiple_gcd_iff : IsMultiple (gcd a b) d ↔ IsMultiple a d ∧ IsMultiple b d := by
  obtain ⟨hnum, hden⟩ := num_den_gcd a b
  rw [isMultiple_iff, isMultiple_iff, isMultiple_iff, hnum, hden, Nat.dvd_gcd_iff,
    Nat.lcm_dvd_iff]
  exact and_and_and_comm

theorem isMultiple_gcd_left (a b : Ratio) : IsMultiple a (gcd a b) :=
  (isMultiple_gcd_iff.1 (isMultiple_refl _)).1

theorem isMultiple_gcd_right (a b : Ratio) : IsMultiple b (gcd a b) :=
  (isMultiple_gcd_iff.1 (isMultiple_refl _)).2

theorem gcd_nonneg (a b : Ratio) : 0 ≤ gcd a b := by
  rw [gcd_eq, Rat.mkRat_eq_div, Int.cast_natCast]
  exact div_nonneg (Nat.cast_nonneg _) (Nat.cast_nonneg _)

/-- The divisor is zero only for two zeros. -/
theorem gcd_eq_zero_iff : gcd a b = 0 ↔ a = 0 ∧ b = 0 := by
  rw [← isMultiple_zero_right_iff, isMultiple_gcd_iff, isMultiple_zero_right_iff,
    isMultiple_zero_right_iff]

theorem gcd_pos_of_ne_zero {a : Ratio} (b : Ratio) (ha : a ≠ 0) : 0 < gcd a b :=
  (gcd_nonneg a b).lt_of_ne' fun h => ha (gcd_eq_zero_iff.1 h).1

/-! ## Laws -/

/-- The divisor is the only ratio that is not negative and a multiple of exactly the common
divisors. -/
theorem eq_gcd_of_isMultiple_iff (hc : 0 ≤ c)
    (h : ∀ d, IsMultiple c d ↔ IsMultiple a d ∧ IsMultiple b d) : c = gcd a b :=
  eq_of_isMultiple_iff hc (gcd_nonneg a b) fun d => (h d).trans isMultiple_gcd_iff.symm

theorem abs_eq (a : Ratio) : abs a = |a| := by
  rw [abs]
  split
  · rename_i h
    exact (abs_of_neg h).symm
  · rename_i h
    exact (abs_of_nonneg (not_lt.1 h)).symm

theorem gcd_neg_left (a b : Ratio) : gcd (-a) b = gcd a b := by
  refine eq_gcd_of_isMultiple_iff (gcd_nonneg _ _) fun d => ?_
  rw [isMultiple_gcd_iff, isMultiple_neg_iff]

theorem gcd_zero_left (b : Ratio) : gcd 0 b = |b| := by
  refine (eq_gcd_of_isMultiple_iff (abs_nonneg b) fun d => ?_).symm
  rw [isMultiple_abs_iff, and_iff_right (isMultiple_zero d)]

/-- A common factor comes out of the divisor without its sign. -/
theorem gcd_mul_left (c a b : Ratio) : gcd (c * a) (c * b) = |c| * gcd a b := by
  by_cases hc : c = 0
  · rw [hc, zero_mul, zero_mul, gcd_zero_left, abs_zero, zero_mul]
  · refine (eq_gcd_of_isMultiple_iff ?_ fun d => ?_).symm
    · exact mul_nonneg (abs_nonneg c) (gcd_nonneg a b)
    · rw [← abs_of_nonneg (gcd_nonneg a b), ← abs_mul, isMultiple_abs_iff, isMultiple_mul_iff hc,
        isMultiple_mul_iff hc, isMultiple_mul_iff hc, isMultiple_gcd_iff]

/-- The greatest common divisor of any two ratios is not negative, and zero only for two zeros.
Otherwise both ratios are integer multiples of it, and it is an integer multiple of every ratio
that both are integer multiples of. It depends neither on the order of the ratios nor on their
signs, zero leaves the absolute value of the other ratio, and a common factor comes out with its
absolute value. -/
theorem gcd_universal (a b : Ratio) :
    0 ≤ gcd a b ∧ (gcd a b = 0 ↔ a = 0 ∧ b = 0) ∧
      (¬ (a = 0 ∧ b = 0) → isInteger (a / gcd a b) = true ∧ isInteger (b / gcd a b) = true ∧
        ∀ d, d ≠ 0 → isInteger (a / d) = true → isInteger (b / d) = true →
          isInteger (gcd a b / d) = true) ∧
      gcd a b = gcd b a ∧ gcd (-a) b = gcd a b ∧ gcd a (-b) = gcd a b ∧ gcd 0 b = abs b ∧
      ∀ c, gcd (c * a) (c * b) = abs c * gcd a b := by
  refine ⟨gcd_nonneg a b, gcd_eq_zero_iff, fun h => ?_, gcd_comm a b, gcd_neg_left a b, ?_, ?_,
    fun c => ?_⟩
  · have hgcd : gcd a b ≠ 0 := mt gcd_eq_zero_iff.1 h
    refine ⟨(isInteger_div_iff hgcd).2 (isMultiple_gcd_left a b),
      (isInteger_div_iff hgcd).2 (isMultiple_gcd_right a b), fun d hd had hbd => ?_⟩
    rw [isInteger_div_iff hd] at had hbd ⊢
    exact isMultiple_gcd_iff.2 ⟨had, hbd⟩
  · rw [gcd_comm, gcd_neg_left, gcd_comm]
  · rw [gcd_zero_left, abs_eq]
  · rw [gcd_mul_left, abs_eq]

/-- Three quarters and minus five sixths are both integer multiples of a twenty-fourth, and so is
their divisor. -/
theorem gcd_universal_threeQuarters :
    ¬ ((3 / 4 : Ratio) = 0 ∧ (-5 / 6 : Ratio) = 0) ∧
      isInteger (gcd (3 / 4) (-5 / 6) / (1 / 24)) = true := by
  have hzero : ¬ ((3 / 4 : Ratio) = 0 ∧ (-5 / 6 : Ratio) = 0) := by norm_num
  obtain ⟨-, -, hdivisor, -⟩ := gcd_universal (3 / 4) (-5 / 6)
  exact ⟨hzero, (hdivisor hzero).2.2 (1 / 24) (by norm_num) (by decide +kernel) (by decide +kernel)⟩

end Ratio

end Metrology
