/-
  Metrology.Proofs.Dimension.Division

  Quotients of canonical dimensions. Division adds negated powers, so it fails where a
  difference of powers does not fit, and also wherever the divisor has the least power of all,
  whose negation does not fit: a dimension with that power is not divided by itself.
-/
import Metrology.Proofs.Dimension.Merge

namespace Metrology

/-! ## Negated powers -/

/-- The least power is the only one without a negation. -/
theorem fits_mul_neg_one_iff (p : Power) :
    Width.w32.Fits (p.val * -1) ↔ p.val ≠ Width.w32.least := by
  have hp := p.fits
  simp only [Width.Fits, Width.least, Width.greatest] at *
  omega

namespace Exponents

/-- No entry of an increasing list has the power exactly if no degree is it. -/
theorem forall_power_ne_iff {es : List Exponent} (hes : Increasing es) {n : Int} (hn : n ≠ 0) :
    (∀ e ∈ es, e.power.val ≠ n) ↔ ∀ b, degree es b ≠ n := by
  constructor
  · intro h b
    rcases degree_cases hes b with hzero | ⟨e, he, -, hpower⟩
    · rw [hzero]
      exact hn.symm
    · rw [hpower]
      exact h e he
  · intro h e he
    rw [← degree_of_mem hes he]
    exact h e.base

end Exponents

namespace Dimension

variable {a b c : Dimension}

/-! ## Quotients -/

theorem divide_overflowsUnless (ha : a.IsCanonical) (hb : b.IsCanonical) :
    OverflowsUnless
      ((∀ e, (b.powerOf e).val ≠ Width.w32.least) ∧
        ∀ e, Width.w32.Fits ((a.powerOf e).val - (b.powerOf e).val))
      (a.divide b)
      fun c => c.IsCanonical ∧
        ∀ e, (c.powerOf e).val = (a.powerOf e).val - (b.powerOf e).val := by
  have hleast : (∀ y ∈ b.exponents, Width.w32.Fits (y.power.val * -1)) ↔
      ∀ e, (b.powerOf e).val ≠ Width.w32.least := by
    simp only [fits_mul_neg_one_iff, powerOf_val hb]
    exact Exponents.forall_power_ne_iff hb.increasing (by decide)
  have hdegree (e : BaseDimension) : (a.powerOf e).val - (b.powerOf e).val =
      Exponents.degree a.exponents e + Exponents.degree b.exponents e * -1 := by
    rw [powerOf_val ha, powerOf_val hb, degree, degree]
    ring
  simp only [← hleast, hdegree]
  have hsign : (FixedInt.lit (-1) : Power).val ≠ 0 := by decide
  refine (Exponents.merge_overflowsUnless hsign ha hb).map ?_
  rintro es ⟨hcanonical, hes⟩
  refine ⟨hcanonical, fun e => ?_⟩
  rw [powerOf_val hcanonical]
  exact hes e

/-- A canonical dimension without powers is that of pure numbers. -/
theorem eq_dimensionless (hc : c.IsCanonical) (h : ∀ e, (c.powerOf e).val = 0) :
    c = dimensionless := by
  obtain ⟨es⟩ := c
  cases es with
  | nil => rfl
  | cons e es =>
    have hzero := h e.base
    rw [powerOf_val hc] at hzero
    exact absurd hzero (Exponents.degree_head_ne_zero hc)

@[simp] theorem multiply_dimensionless (d : Dimension) : d.multiply dimensionless = .ok d := by
  rw [multiply, Exponents.multiply, dimensionless, Exponents.merge_nil_right]
  rfl

/-- The quotient of a dimension and itself has no powers, if it exists. -/
theorem divide_self_overflowsUnless (ha : a.IsCanonical) :
    OverflowsUnless (∀ e, (a.powerOf e).val ≠ Width.w32.least) (a.divide a)
      (· = dimensionless) := by
  have hdivide := divide_overflowsUnless ha ha
  have hfits : ∀ e, Width.w32.Fits ((a.powerOf e).val - (a.powerOf e).val) := by
    intro e
    rw [Int.sub_self]
    exact Width.fits_zero .w32
  constructor
  · intro hleast
    obtain ⟨c, hc, hcanonical, hpower⟩ := hdivide.ok ⟨hleast, hfits⟩
    refine ⟨c, hc, eq_dimensionless hcanonical fun e => ?_⟩
    rw [hpower, Int.sub_self]
  · intro hleast
    exact hdivide.overflow fun h => hleast h.1

/-- The quotient of canonical dimensions is the canonical dimension of the differences of the
powers. It exists exactly if every difference fits and the divisor has no power that is the
least one; so the differences alone decide exactly if one of them does not fit or the divisor
has no such power. A dimension is divided by itself, and multiplied by the quotient, exactly if
it has no such power. -/
theorem divide_correct_iff (ha : a.IsCanonical) (hb : b.IsCanonical) :
    OverflowsUnless
      ((∀ e, (b.powerOf e).val ≠ Width.w32.least) ∧
        ∀ e, Width.w32.Fits ((a.powerOf e).val - (b.powerOf e).val))
      (a.divide b)
      (fun c => c.IsCanonical ∧
        ∀ e, (c.powerOf e).val = (a.powerOf e).val - (b.powerOf e).val) ∧
    (((∃ c, a.divide b = .ok c) ↔
        ∀ e, Width.w32.Fits ((a.powerOf e).val - (b.powerOf e).val)) ↔
      (∃ e, ¬ Width.w32.Fits ((a.powerOf e).val - (b.powerOf e).val)) ∨
        ∀ e, (b.powerOf e).val ≠ Width.w32.least) ∧
    OverflowsUnless (∀ e, (a.powerOf e).val ≠ Width.w32.least) (a.divide a)
      (· = dimensionless) ∧
    OverflowsUnless (∀ e, (a.powerOf e).val ≠ Width.w32.least)
      (a.divide a >>= a.multiply) (· = a) := by
  have hdivide := divide_overflowsUnless ha hb
  have hself := divide_self_overflowsUnless ha
  refine ⟨hdivide, ?_, hself, hself.bind_ok ?_⟩
  · rw [hdivide.exists_ok_iff, ← not_forall]
    constructor
    · intro h
      by_cases hfits : ∀ e, Width.w32.Fits ((a.powerOf e).val - (b.powerOf e).val)
      · exact .inr (h.2 hfits).1
      · exact .inl hfits
    · rintro (hfits | hleast)
      · exact ⟨fun h => absurd h.2 hfits, fun h => absurd h hfits⟩
      · exact ⟨fun h => h.2, fun h => ⟨hleast, h⟩⟩
  · rintro c rfl
    exact ⟨a, multiply_dimensionless a, rfl⟩

/-- Time to the least power. -/
def timeToLeast : Dimension := ⟨[⟨Systems.time, .lit (-2147483648)⟩]⟩

theorem isCanonical_timeToLeast : timeToLeast.IsCanonical := by decide

/-- A speed is divided by itself, but not by time to the least power, which would leave time
with the greatest power. -/
theorem divide_correct_iff_speed :
    speed.IsCanonical ∧ timeToLeast.IsCanonical ∧ speed.divide speed = .ok dimensionless ∧
      ∃ e, speed.divide timeToLeast = .error e ∧ e.code = .overflow := by
  refine ⟨isCanonical_speed, isCanonical_timeToLeast, ?_, ?_⟩
  · obtain ⟨-, -, hself, -⟩ := divide_correct_iff isCanonical_speed isCanonical_speed
    have hleast : ∀ e, (speed.powerOf e).val ≠ Width.w32.least := by
      simp only [powerOf_val isCanonical_speed]
      exact (Exponents.forall_power_ne_iff isCanonical_speed.increasing (by decide)).1 (by decide)
    obtain ⟨c, hc, rfl⟩ := hself.ok hleast
    exact hc
  · obtain ⟨hdivide, -⟩ := divide_correct_iff isCanonical_speed isCanonical_timeToLeast
    refine hdivide.overflow fun h => h.1 Systems.time ?_
    decide

/-- Time to the least power is not divided by itself, though every difference of its powers
is zero. -/
theorem divide_timeToLeast :
    timeToLeast.IsCanonical ∧
      (∀ e, Width.w32.Fits ((timeToLeast.powerOf e).val - (timeToLeast.powerOf e).val)) ∧
      ∃ e, timeToLeast.divide timeToLeast = .error e ∧ e.code = .overflow := by
  refine ⟨isCanonical_timeToLeast, ?_, ?_⟩
  · intro e
    rw [Int.sub_self]
    exact Width.fits_zero .w32
  · refine (divide_overflowsUnless isCanonical_timeToLeast isCanonical_timeToLeast).overflow ?_
    intro h
    exact h.1 Systems.time (by decide)

end Dimension

end Metrology
