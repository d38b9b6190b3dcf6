/-
  Metrology.Proofs.MeasureUnit.CommonDivisor

  The common unit as a greatest common divisor. Units of positive magnitude meet in the largest
  unit of which both are integer multiples, so neither the order in which units meet nor their
  grouping changes how large that unit is.
-/
import Metrology.Proofs.MeasureUnit.Common

namespace Metrology.MeasureUnit

variable {a b c u : MeasureUnit} {x y z : Ratio} {k : Power}

/-! ## Which unit is taken -/

/-- The left unit is taken if the right one is a multiple of it. -/
theorem common_left (h : Commensurable a b x y k) (hx : 0 < x) (hy : 0 < y)
    (hyx : y.IsMultiple x) : common a b = .ok a := by
  rw [common_eq h]
  by_cases hone : x = y
  · rw [if_pos hone]
  -- Positive magnitudes that are multiples of each other would be equal.
  have hxy : ¬ x.IsMultiple y := by
    intro hxy
    rcases Ratio.eq_or_eq_neg_of_isMultiple hy.ne' hxy hyx with heq | hneg
    · exact hone heq
    · rw [hneg] at hx
      exact hx.not_ge (neg_nonpos.2 hy.le)
  rw [if_neg hone, if_neg (mt (Ratio.isInteger_div_iff hy.ne').1 hxy),
    if_pos ((Ratio.isInteger_div_iff hx.ne').2 hyx)]

/-- The right unit is taken if the left one is a multiple of it and not equal to it. -/
theorem common_right (h : Commensurable a b x y k) (hxy : x.IsMultiple y) (hne : x ≠ y) :
    common a b = .ok b := by
  rw [common_eq h, if_neg hne, if_pos ((Ratio.isInteger_div_iff h.right_ne_zero).2 hxy)]

/-! ## The greatest common divisor -/

/-- Units of one dimension, of positive magnitude and with one power of pi, always have a common
unit, which is of the same dimension and power of pi. Its coefficient is the greatest ratio of
which both coefficients are integer multiples, and itself a multiple of every such ratio. It is
the left unit where the right one is a multiple of it, and the right unit where the left one is
a proper multiple of it. Changing sides keeps its magnitude, and three units meet in the same
magnitude whichever two of them meet first. -/
theorem common_greatest_divisor (h : Commensurable a b x y k) (hx : 0 < x) (hy : 0 < y) :
    ∃ u g, common a b = .ok u ∧ a.isCompatible u = true ∧ u.magnitude = ⟨.exact g, k⟩ ∧
      IsGreatest {d | x.IsMultiple d ∧ y.IsMultiple d} g ∧
      (∀ d, x.IsMultiple d → y.IsMultiple d → g.IsMultiple d) ∧
      (x = y ∨ y.IsMultiple x → u = a) ∧ (x.IsMultiple y → x ≠ y → u = b) ∧
      (∃ v, common b a = .ok v ∧ v.magnitude = u.magnitude) ∧
      ∀ c z, Commensurable b c y z k → 0 < z →
        ∃ v w t, common u c = .ok v ∧ common b c = .ok w ∧ common a w = .ok t ∧
          v.magnitude = t.magnitude := by
  obtain ⟨u, hu, hau⟩ := h.exists_common
  refine ⟨u, x.commonMeasure y, hu, hau.compatible, hau.right,
    Ratio.isGreatest_commonMeasure hx hy, fun d hxd hyd => ?_, fun hyx => ?_, fun hxy hne => ?_,
    ?_, fun c z hbc hz => ?_⟩
  · exact (Ratio.isMultiple_commonMeasure_iff hx.ne' hy.ne').2 ⟨hxd, hyd⟩
  · have hmultiple : y.IsMultiple x := hyx.elim (fun heq => heq ▸ Ratio.isMultiple_refl x) id
    exact Except.ok.inj (hu.symm.trans (common_left h hx hy hmultiple))
  · exact Except.ok.inj (hu.symm.trans (common_right h hxy hne))
  · obtain ⟨v, hv, hbv⟩ := h.symm.exists_common
    have hne : x ≠ -y := ((neg_neg_of_pos hy).trans hx).ne'
    refine ⟨v, hv, ?_⟩
    rw [hbv.right, hau.right, Ratio.commonMeasure_comm h.left_ne_zero h.right_ne_zero hne]
  · -- All of these units are commensurable, so each meeting has a common unit.
    obtain ⟨v, hv, huv⟩ := (hau.symm.trans (h.trans hbc)).exists_common
    obtain ⟨w, hw, hbw⟩ := hbc.exists_common
    obtain ⟨t, ht, hat⟩ := (h.trans hbw).exists_common
    refine ⟨v, w, t, hv, hw, ht, ?_⟩
    rw [huv.right, hat.right, Ratio.commonMeasure_assoc hx hy hz]

/-- A kibibit and a kilobit meet in eight bits, the greatest number of bits that divides both,
and with a megabit they meet in one magnitude either way. -/
theorem common_greatest_divisor_kibibit_kilobit :
    IsGreatest {d : Ratio | Ratio.IsMultiple 1024 d ∧ Ratio.IsMultiple 1000 d} 8 ∧
      ∃ v w t, common (ofCommonDivisor kibibit kilobit (.integer 8)) megabit = .ok v ∧
        common kilobit megabit = .ok w ∧ common kibibit w = .ok t ∧
          v.magnitude = t.magnitude := by
  have hunits : Commensurable kibibit kilobit 1024 1000 0 :=
    ⟨by decide, rfl, rfl, by norm_num, by norm_num⟩
  have hmega : Commensurable kilobit megabit 1000 1000000 0 :=
    ⟨by decide, rfl, rfl, by norm_num, by norm_num⟩
  obtain ⟨u, g, hu, -, hg, hgreatest, -, -, -, -, hgroup⟩ :=
    common_greatest_divisor hunits (by norm_num) (by norm_num)
  cases common_kibibit_kilobit.symm.trans hu
  cases hg
  exact ⟨hgreatest, hgroup _ _ hmega (by norm_num)⟩

end Metrology.MeasureUnit
