/-
  Metrology.Proofs.Quantity.Order

  The order of quantities kept as ratios. Values in a common unit of negative magnitude compare
  the other way round than the quantities, so the answer of a comparison is that of the numbers
  only where the common unit is positive.
-/
import Metrology.Proofs.Quantity.Conversion
import Metrology.Proofs.Quantity.Expression
import Metrology.Systems.Mechanics

namespace Metrology

/-! ## Orders of multiples -/

/-- The order of multiples by a number that is not zero, from the order of what they are
multiples of. -/
def orient (c : Ratio) (order : Ordering) : Ordering := if 0 < c then order else order.swap

section Orient

variable {a b c d : Ratio}

theorem cmp_mul_eq_orient (hc : c ≠ 0) (a b : Ratio) :
    cmp (a * c) (b * c) = orient c (cmp a b) := by
  rw [orient]
  rcases hc.lt_or_gt with hneg | hpos
  · rw [if_neg hneg.not_gt, cmp_mul_neg_right hneg, cmp_swap]
  · rw [if_pos hpos, cmp_mul_pos_right hpos]

/-- Turning an order twice leaves it. -/
@[simp] theorem orient_orient (c : Ratio) (order : Ordering) :
    orient c (orient c order) = order := by
  rw [orient, orient]
  split
  · rfl
  · exact Ordering.swap_swap

theorem cmp_div_eq_orient (hc : c ≠ 0) (a b : Ratio) :
    cmp (a / c) (b / c) = orient c (cmp a b) := by
  -- Dividing turns the order like multiplying does, and turning twice is not turning.
  have hmul := cmp_mul_eq_orient hc (a / c) (b / c)
  rw [div_mul_cancel₀ a hc, div_mul_cancel₀ b hc] at hmul
  rw [hmul, orient_orient]

theorem orient_swap (c : Ratio) (order : Ordering) :
    orient c order.swap = (orient c order).swap := by
  rw [orient, orient]
  split <;> rfl

theorem orient_eq_self_iff {order : Ordering} : orient c order = order ↔ order = .eq ∨ 0 < c := by
  rw [orient]
  by_cases hc : 0 < c <;> cases order <;> simp [hc]

theorem orient_eq_swap_iff {order : Ordering} :
    orient c order = order.swap ↔ order = .eq ∨ ¬ 0 < c := by
  rw [orient]
  by_cases hc : 0 < c <;> cases order <;> simp [hc]

/-- Two factors turn an order in the same way if they have one sign, and any two factors leave
equality. -/
theorem orient_eq_orient_iff {order : Ordering} :
    orient c order = orient d order ↔ order = .eq ∨ (0 < c ↔ 0 < d) := by
  rw [orient, orient]
  by_cases hc : 0 < c <;> by_cases hd : 0 < d <;> cases order <;> simp [hc, hd]

end Orient

namespace Quantity

variable {x y : Quantity .exact} {a b c : Ratio} {k : Power} {t : MeasureUnit}

/-! ## Conversion and comparison -/

/-- Quantities in units with one power of pi compare like the products of value and
magnitude. -/
theorem cmp_toReal_of_magnitude (hx : x.unit.magnitude = ⟨.exact a, k⟩)
    (hy : y.unit.magnitude = ⟨.exact b, k⟩) :
    cmp x.toReal y.toReal = cmp ((x.value : Ratio) * a) ((y.value : Ratio) * b) := by
  rw [toReal_of_number? (number?_of_magnitude hx), toReal_of_number? (number?_of_magnitude hy),
    PiMultiple.cmp_toReal (by rfl)]
  rfl

/-- A ratio is brought into every commensurable unit. -/
theorem convertTo_exact (h : MeasureUnit.Commensurable x.unit t a c k) :
    ∃ z, x.convertTo t = .ok z ∧ z.unit = t ∧ z.toReal = x.toReal := by
  obtain ⟨hxt, hx, ht, -, hc⟩ := h
  have hz : x.convertTo t = .ok ⟨(x.value : Ratio) * a / c, t⟩ := by
    rw [convertTo_eq_ok Representation.isExact_exact hx ht]
    exact ⟨hxt, hc, rfl, nofun, rfl, div_mul_cancel₀ _ hc⟩
  refine ⟨_, hz, rfl, ?_⟩
  -- Reals in one power of pi are equal if the products of value and magnitude are.
  rw [← cmp_eq_eq_iff, cmp_toReal_of_magnitude ht hx, cmp_eq_eq_iff]
  exact div_mul_cancel₀ _ hc

/-- The answer of a comparison is the order of the numbers, turned if the common measure of the
magnitudes is negative. -/
theorem tryCompare_eq_orient (h : MeasureUnit.Commensurable x.unit y.unit a b k) :
    x.tryCompare y = .ok (orient (a.commonMeasure b) (cmp x.toReal y.toReal)) := by
  have hr := Representation.isExact_exact
  obtain ⟨u, -, -, hcommon⟩ := inCommonUnit_exact hr h
  have hc := Ratio.commonMeasure_ne_zero h.left_ne_zero h.right_ne_zero
  have hrescale : ∀ v q : Ratio,
      Representation.exact.rescale v (Magnitude.exact q) = .ok (v * q) := fun v q =>
    (Representation.rescale_eq_ok hr nofun).2 rfl
  -- What is compared are the numbers over the common measure, which may turn their order.
  rw [tryCompare, hcommon, hrescale, hrescale, ok_bind, ok_bind, pure_bind]
  dsimp only
  rw [Representation.valueCompare?_eq hr]
  show Except.ok (cmp ((x.value : Ratio) * (a / a.commonMeasure b))
    ((y.value : Ratio) * (b / a.commonMeasure b))) = _
  rw [← mul_div_assoc, ← mul_div_assoc, cmp_div_eq_orient hc,
    cmp_toReal_of_magnitude h.left h.right]

/-- Comparison answers in a given way, turned by a factor, exactly if the quantities are equal
or the common measure has the sign of the factor. -/
theorem tryCompare_eq_ok_orient_iff (h : MeasureUnit.Commensurable x.unit y.unit a b k) :
    x.tryCompare y = .ok (orient c (cmp x.toReal y.toReal)) ↔
      x.toReal = y.toReal ∨ (0 < a.commonMeasure b ↔ 0 < c) := by
  rw [tryCompare_eq_orient h, Except.ok.injEq, orient_eq_orient_iff, cmp_eq_eq_iff]

/-- Comparison of ratios in commensurable units always answers. The answer is the order of the
numbers exactly if these are equal or the common unit is not negative, and the reverse of it
exactly if they are equal or the common unit is negative. So changing sides reverses the answer
unless the magnitudes are negatives of each other, and a conversion beforehand keeps it if it
keeps the sign of the common unit. -/
theorem tryCompare_correct_iff (h : MeasureUnit.Commensurable x.unit y.unit a b k) :
    ∃ order, x.tryCompare y = .ok order ∧
      (order = cmp x.toReal y.toReal ↔ x.toReal = y.toReal ∨ ¬ a.MeetsNegative b) ∧
      (order = (cmp x.toReal y.toReal).swap ↔ x.toReal = y.toReal ∨ a.MeetsNegative b) ∧
      (0 < a → 0 < b → ¬ a.MeetsNegative b) ∧
      (y.tryCompare x = .ok order.swap ↔ x.toReal = y.toReal ∨ a ≠ -b) ∧
      ∀ t c, MeasureUnit.Commensurable x.unit t a c k →
        (∃ z, x.convertTo t = .ok z ∧ (z.tryCompare y = .ok order ↔
          x.toReal = y.toReal ∨ (c.MeetsNegative b ↔ a.MeetsNegative b))) ∧
        ∃ z, y.convertTo t = .ok z ∧ (x.tryCompare z = .ok order ↔
          x.toReal = y.toReal ∨ (a.MeetsNegative c ↔ a.MeetsNegative b)) := by
  have ha := h.left_ne_zero
  have hb := h.right_ne_zero
  have hpos := Ratio.commonMeasure_pos_iff ha hb
  refine ⟨_, tryCompare_eq_orient h, ?_, ?_, ?_, ?_, fun t c ht => ⟨?_, ?_⟩⟩
  · rw [orient_eq_self_iff, cmp_eq_eq_iff, hpos]
  · rw [orient_eq_swap_iff, cmp_eq_eq_iff, hpos, not_not]
  · intro ha' hb'
    exact hpos.1 (Ratio.commonMeasure_pos ha' hb')
  · rw [← orient_swap, cmp_swap, tryCompare_eq_ok_orient_iff h.symm, eq_comm,
      Iff.comm.trans (Ratio.commonMeasure_pos_comm_iff ha hb)]
  · obtain ⟨z, hz, rfl, hreal⟩ := convertTo_exact ht
    refine ⟨z, hz, ?_⟩
    rw [← hreal, tryCompare_eq_ok_orient_iff (ht.symm.trans h), hpos,
      Ratio.commonMeasure_pos_iff ht.right_ne_zero hb, not_iff_not]
  · obtain ⟨z, hz, rfl, hreal⟩ := convertTo_exact (h.symm.trans ht)
    refine ⟨z, hz, ?_⟩
    rw [← hreal, tryCompare_eq_ok_orient_iff ht, hpos,
      Ratio.commonMeasure_pos_iff ha ht.right_ne_zero, not_iff_not]

/-- A metre. -/
def metre : Quantity .exact := ⟨(1 : Ratio), Systems.coherentUnit Systems.length "metre"⟩

/-- A metre in the other direction, in a unit of its own. -/
def reverseMetre : Quantity .exact :=
  ⟨(1 : Ratio), .mk "neg" "reverse metre" (.ofBase Systems.length) (.integer (-1))
    (.scaled metre.unit)⟩

theorem metre_magnitude : metre.unit.magnitude = ⟨.exact 1, 0⟩ := rfl

theorem reverseMetre_magnitude : reverseMetre.unit.magnitude = ⟨.exact (-1), 0⟩ := by cbv

theorem cmp_metre_reverseMetre : cmp metre.toReal reverseMetre.toReal = .gt := by
  rw [cmp_toReal_of_magnitude metre_magnitude reverseMetre_magnitude, cmp_eq_gt_iff]
  show (1 : Ratio) * -1 < 1 * 1
  norm_num

/-- A metre and a reverse metre meet in the reverse metre, which turns the order, and changing
sides, which makes them meet in the metre, does not reverse the answer. -/
theorem tryCompare_correct_iff_reverseMetre :
    ∃ order, metre.tryCompare reverseMetre = .ok order ∧
      order ≠ cmp metre.toReal reverseMetre.toReal ∧
        reverseMetre.tryCompare metre ≠ .ok order.swap := by
  have hne : metre.toReal ≠ reverseMetre.toReal := by
    rw [ne_eq, ← cmp_eq_eq_iff, cmp_metre_reverseMetre]
    decide
  have hmeets : Ratio.MeetsNegative 1 (-1) := .inl ⟨⟨-1, by norm_num⟩, by norm_num⟩
  obtain ⟨order, horder, hcorrect, -, -, hswap, -⟩ :=
    tryCompare_correct_iff
      ⟨by decide, metre_magnitude, reverseMetre_magnitude, one_ne_zero, by norm_num⟩
  refine ⟨order, horder, ?_, ?_⟩
  · rw [ne_eq, hcorrect]
    exact fun h => h.elim hne fun h => h hmeets
  · rw [ne_eq, hswap, neg_neg]
    exact fun h => h.elim hne fun h => h rfl

/-- Each of the two is answered to be less than the other, and the metre is the greater one. -/
theorem tryCompare_metre_reverseMetre :
    metre.tryCompare reverseMetre = .ok .lt ∧ reverseMetre.tryCompare metre = .ok .lt ∧
      cmp metre.toReal reverseMetre.toReal = .gt := by
  refine ⟨?_, ?_, cmp_metre_reverseMetre⟩
  · cbv
  · cbv

end Quantity

end Metrology
