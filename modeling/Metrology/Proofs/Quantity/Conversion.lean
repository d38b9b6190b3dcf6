/-
  Metrology.Proofs.Quantity.Conversion

  Conversion of exactly kept quantities between units with exact magnitudes. It succeeds where
  the factor is a ratio, and for integers an integer, and then it keeps the number.
-/
import Metrology.Quantity.Arithmetic
import Metrology.Proofs.Magnitude.Number
import Metrology.Proofs.MeasureUnit.Common
import Metrology.Proofs.Representation.Range

namespace Metrology

namespace MeasureUnit

variable {a b : MeasureUnit}

theorem conversionFactor_eq_ok {f : Magnitude} :
    a.conversionFactor b = .ok f ↔
      a.isCompatible b = true ∧ a.magnitude.div b.magnitude = .ok f := by
  rw [conversionFactor, bind_eq_ok]
  simp only [checkCompatible_eq_ok, lift_eq_ok, exists_const]

/-- Between units of one dimension and magnitude the factor is one. -/
theorem conversionFactor_of_magnitude_eq (hab : a.isCompatible b = true)
    (hmagnitude : a.magnitude = b.magnitude) (ha : a.magnitude.IsProper) :
    a.conversionFactor b = .ok .one := by
  refine conversionFactor_eq_ok.2 ⟨hab, ?_⟩
  rw [← hmagnitude]
  exact ha.div_self

end MeasureUnit

namespace Quantity

variable {r : Representation} {q z : Quantity r} {a b t : MeasureUnit} {x y : Ratio}
  {k l : Power}

/-- A converted quantity is in the unit that it was converted to. -/
theorem unit_of_convertTo (h : q.convertTo t = .ok z) : z.unit = t := by
  rw [convertTo, bind_eq_ok] at h
  obtain ⟨f, -, h⟩ := h
  split at h
  · obtain ⟨v, -, hz⟩ := bind_eq_ok.1 h
    cases hz
    rfl
  · cases h

/-- A conversion by the factor one leaves the value alone, in every number type. -/
theorem convertTo_of_one (h : q.unit.conversionFactor t = .ok .one) :
    q.convertTo t = .ok ⟨q.value, t⟩ := by
  rw [convertTo, h, ok_bind, if_pos r.isLossless_one, r.rescale_one]
  rfl

/-- A conversion by a factor without loss rescales the value. -/
theorem convertTo_of_lossless (hr : r.IsExact) (hqt : q.unit.isCompatible t = true)
    (hq : q.unit.magnitude = ⟨.exact x, k⟩) (ht : t.magnitude = ⟨.exact y, k⟩) (hy : y ≠ 0)
    (hint : r.kind = .integer → x.IsMultiple y) :
    q.convertTo t = (⟨·, t⟩) <$> r.rescale q.value (Magnitude.exact (x / y)) := by
  have hfactor : q.unit.conversionFactor t = .ok (Magnitude.exact (x / y)) := by
    rw [MeasureUnit.conversionFactor_eq_ok, hq, ht]
    exact ⟨hqt, Magnitude.div_exact_same hy⟩
  have hlossless : r.isLossless (Magnitude.exact (x / y)) = true :=
    (Representation.isLossless_iff hr).2
      ⟨_, rfl, fun hk => (Ratio.isInteger_div_iff hy).2 (hint hk)⟩
  rw [convertTo, hfactor, ok_bind, if_pos hlossless]
  rfl

/-- Conversion succeeds between units of one dimension and one power of pi, for integers only
to a unit of which the first one is a multiple, and it keeps the number. -/
theorem convertTo_eq_ok (hr : r.IsExact) (hq : q.unit.magnitude = ⟨.exact x, k⟩)
    (ht : t.magnitude = ⟨.exact y, l⟩) :
    q.convertTo t = .ok z ↔
      q.unit.isCompatible t = true ∧ y ≠ 0 ∧ k = l ∧
        (r.kind = .integer → x.IsMultiple y) ∧ z.unit = t ∧
          r.number z.value * y = r.number q.value * x := by
  constructor
  · intro h
    rw [convertTo, bind_eq_ok] at h
    obtain ⟨f, hf, h⟩ := h
    rw [MeasureUnit.conversionFactor_eq_ok, hq, ht, Magnitude.div_exact_eq_ok] at hf
    obtain ⟨hqt, hy, hcoefficient, hpi⟩ := hf
    split at h
    · rename_i hlossless
      obtain ⟨p, rfl, hint⟩ := (Representation.isLossless_iff hr).1 hlossless
      obtain rfl : p = x / y := Coefficient.exact.inj hcoefficient
      -- A factor without loss has no pi, so the two powers of pi cancelled out.
      have hkl : k = l := FixedInt.ext (by
        rw [Magnitude.exact, FixedInt.val_zero] at hpi
        omega)
      obtain ⟨v, hv, hz⟩ := bind_eq_ok.1 h
      cases hz
      rw [Representation.rescale_eq_ok hr hint] at hv
      refine ⟨hqt, hy, hkl, fun hk => (Ratio.isInteger_div_iff hy).1 (hint hk), rfl, ?_⟩
      rw [hv, mul_assoc, div_mul_cancel₀ _ hy]
    · cases h
  · rintro ⟨hqt, hy, rfl, hint, hunit, hnumber⟩
    rw [convertTo_of_lossless hr hqt hq ht hy hint, map_eq_ok]
    refine ⟨z.value, ?_, by rw [← hunit]⟩
    rw [Representation.rescale_eq_ok hr fun hk => (Ratio.isInteger_div_iff hy).2 (hint hk),
      ← mul_div_assoc, eq_div_iff hy]
    exact hnumber

/-! ## Common units -/

theorem inCommonUnit_eq_ok {operation : String} {a b x y : Quantity r} :
    inCommonUnit operation a b = .ok (x, y) ↔
      ∃ u, MeasureUnit.common a.unit b.unit = .ok u ∧ a.convertTo u = .ok x ∧
        b.convertTo u = .ok y := by
  simp only [inCommonUnit, bind_eq_ok, MeasureUnit.checkCompatible_eq_ok, pure, Except.pure,
    Except.ok.injEq, Prod.mk.injEq]
  constructor
  · rintro ⟨-, -, u, hu, x, hx, y, hy, rfl, rfl⟩
    exact ⟨u, hu, hx, hy⟩
  · rintro ⟨u, hu, hx, hy⟩
    exact ⟨⟨⟩, (MeasureUnit.common_cases hu).1, u, hu, x, hx, y, hy, rfl, rfl⟩

/-- Units of one magnitude meet in the left one, without a change to either value. -/
theorem inCommonUnit_of_magnitude_eq (operation : String) (hab : a.isCompatible b = true)
    (hmagnitude : a.magnitude = b.magnitude) (ha : a.magnitude.IsProper) (v w : r.Value) :
    inCommonUnit operation ⟨v, a⟩ ⟨w, b⟩ = .ok (⟨v, a⟩, ⟨w, a⟩) := by
  obtain ⟨x, k, hx⟩ := Magnitude.isExact_iff.1 ha.exact
  have hne : x ≠ 0 := Magnitude.isProper_mk.1 (hx ▸ ha)
  have hcommon : MeasureUnit.common a b = .ok a :=
    MeasureUnit.common_of_eq ⟨hab, hx, hmagnitude.symm.trans hx, hne, hne⟩
  have hself := MeasureUnit.conversionFactor_of_magnitude_eq (MeasureUnit.isCompatible_refl a)
    rfl ha
  have hother := MeasureUnit.conversionFactor_of_magnitude_eq (MeasureUnit.isCompatible_symm hab)
    hmagnitude.symm (hmagnitude ▸ ha)
  refine inCommonUnit_eq_ok.2 ⟨a, hcommon, ?_, ?_⟩
  · exact convertTo_of_one hself
  · exact convertTo_of_one hother

/-- Quantities in commensurable units are brought into their common unit by factors without
loss. -/
theorem inCommonUnit_exact (hr : r.IsExact) {a b : Quantity r}
    (h : MeasureUnit.Commensurable a.unit b.unit x y k) :
    ∃ u, MeasureUnit.common a.unit b.unit = .ok u ∧
      u.magnitude = ⟨.exact (x.commonMeasure y), k⟩ ∧
      ∀ operation, inCommonUnit operation a b = (do
        let v ← r.rescale a.value (Magnitude.exact (x / x.commonMeasure y))
        let w ← r.rescale b.value (Magnitude.exact (y / x.commonMeasure y))
        pure (⟨v, u⟩, ⟨w, u⟩)) := by
  obtain ⟨u, hu, hmagnitude⟩ := MeasureUnit.common_exact h
  obtain ⟨hab, ha, hb, hx, hy⟩ := h
  obtain ⟨hau, hbu⟩ := MeasureUnit.isCompatible_common hu
  have hc := Ratio.commonMeasure_ne_zero hx hy
  refine ⟨u, hu, hmagnitude, fun operation => ?_⟩
  rw [inCommonUnit, MeasureUnit.checkCompatible_of _ hab, ok_bind, hu, ok_bind,
    convertTo_of_lossless hr hau ha hmagnitude hc fun _ =>
      Ratio.isMultiple_commonMeasure_left hy,
    convertTo_of_lossless hr hbu hb hmagnitude hc fun _ =>
      Ratio.isMultiple_commonMeasure_right hx]
  simp only [bind_map_left]

/-- They meet there exactly if the number type holds both numbers, and otherwise they overflow. -/
theorem inCommonUnit_overflowsUnless (hr : r.IsExact) {a b : Quantity r}
    (h : MeasureUnit.Commensurable a.unit b.unit x y k) (operation : String) :
    OverflowsUnless
      (r.Holds (r.number a.value * (x / x.commonMeasure y)) ∧
        r.Holds (r.number b.value * (y / x.commonMeasure y)))
      (inCommonUnit operation a b)
      fun t => MeasureUnit.common a.unit b.unit = .ok t.1.unit ∧
        r.number t.1.value = r.number a.value * (x / x.commonMeasure y) ∧
        r.number t.2.value = r.number b.value * (y / x.commonMeasure y) := by
  obtain ⟨u, hu, -, hcommon⟩ := inCommonUnit_exact hr h
  obtain ⟨-, -, -, hx, hy⟩ := h
  have hc := Ratio.commonMeasure_ne_zero hx hy
  have hleft : r.kind = .integer → (x / x.commonMeasure y).isInteger = true := fun _ =>
    (Ratio.isInteger_div_iff hc).2 (Ratio.isMultiple_commonMeasure_left hy)
  have hright : r.kind = .integer → (y / x.commonMeasure y).isInteger = true := fun _ =>
    (Ratio.isInteger_div_iff hc).2 (Ratio.isMultiple_commonMeasure_right hx)
  have hrescale := Representation.rescale_lossless_overflowsUnless hr a.value hleft
  have hrescale' := Representation.rescale_lossless_overflowsUnless hr b.value hright
  rw [hcommon]
  refine hrescale.bind fun v hv => ?_
  exact hrescale'.bind_ok fun w hw => ⟨_, rfl, hu, hv, hw⟩

end Quantity

end Metrology
