/-
  Metrology.Proofs.Quantity.OwnUnit

  Two quantities in one unit. Their common unit is that unit, and the factor into it is the
  magnitude over itself: the ratio one for an exact magnitude, and no ratio at all for an
  approximate one, so that exactly kept values are not brought into their own unit.
-/
import Metrology.Proofs.Quantity.Conversion
import Metrology.Systems.Mechanics

namespace Metrology

namespace MeasureUnit

variable {u : MeasureUnit} {q : Ratio} {c : Binary .double} {k : Power}

/-! ## A unit and itself -/

/-- The magnitude is an exact or an approximate coefficient and a power of pi. -/
theorem magnitude_cases (u : MeasureUnit) :
    (∃ q k, u.magnitude = ⟨.exact q, k⟩) ∨ ∃ c k, u.magnitude = ⟨.approx c, k⟩ := by
  rcases u.magnitude with ⟨q | c, k⟩
  · exact .inl ⟨q, k, rfl⟩
  · exact .inr ⟨c, k, rfl⟩

theorem same_self (u : MeasureUnit) : u.same u = true := by
  simp [same, Dimension.same_refl]

@[simp] theorem common_self (u : MeasureUnit) : common u u = .ok u := by
  rw [common, checkCompatible_of _ (isCompatible_refl u), ok_bind, if_pos (same_self u)]
  rfl

/-- The quotient of an approximate magnitude and itself has no pi, and is approximate. -/
theorem conversionFactor_self_approx (hu : u.magnitude = ⟨.approx c, k⟩)
    (hc : c.isZero = false) : u.conversionFactor u = .ok ⟨.approx (c.div c), 0⟩ := by
  have hpi : k.sub? k = some 0 := by
    rw [FixedInt.sub?, FixedInt.ofInt?_eq_some_iff, Int.sub_self]
    rfl
  have hzero : (⟨.approx c, k⟩ : Magnitude).isZero = false := hc
  rw [conversionFactor, checkCompatible_of _ (isCompatible_refl u), ok_bind, hu, Magnitude.div,
    hzero, if_neg Bool.false_ne_true, hpi]
  rfl

end MeasureUnit

namespace Quantity

variable {r : Representation} {u : MeasureUnit} {q : Ratio} {c : Binary .double} {k : Power}

/-! ## Conversion into the own unit -/

theorem convertTo_self_exact (hr : r.IsExact) (hu : u.magnitude = ⟨.exact q, k⟩) (hq : q ≠ 0)
    (v : r.Value) : convertTo ⟨v, u⟩ u = .ok ⟨v, u⟩ := by
  rw [convertTo_eq_ok hr hu hu]
  exact ⟨MeasureUnit.isCompatible_refl u, hq, rfl, fun _ => Ratio.isMultiple_refl q, rfl, rfl⟩

/-- The refusal to convert by the quotient of an approximate magnitude and itself. -/
def ownUnitRefusal (r : Representation) (u : MeasureUnit) (c : Binary .double) : Error :=
  ⟨.narrowing u.symbol u.symbol (⟨.approx (c.div c), 0⟩ : Magnitude).text,
    ["representation " ++ r.name]⟩

theorem convertTo_self_approx (hr : r.IsExact) (hu : u.magnitude = ⟨.approx c, k⟩)
    (hc : c.isZero = false) (v : r.Value) :
    convertTo ⟨v, u⟩ u = .error (ownUnitRefusal r u c) := by
  have hlossless : r.isLossless ⟨.approx (c.div c), 0⟩ = false := by
    -- The factor is approximate, however near to one it may be.
    rw [← Bool.not_eq_true, Representation.isLossless_iff hr]
    rintro ⟨p, hp, -⟩
    cases hp
  rw [convertTo, MeasureUnit.conversionFactor_self_approx hu hc, ok_bind, hlossless,
    if_neg Bool.false_ne_true]
  rfl

/-! ## Both quantities in their common unit -/

theorem inCommonUnit_self (operation : String) (u : MeasureUnit) (v w : r.Value) :
    inCommonUnit operation ⟨v, u⟩ ⟨w, u⟩ = (do
      let x ← convertTo ⟨v, u⟩ u
      let y ← convertTo ⟨w, u⟩ u
      pure (x, y)) := by
  rw [inCommonUnit, MeasureUnit.checkCompatible_of _ (MeasureUnit.isCompatible_refl u), ok_bind,
    MeasureUnit.common_self, ok_bind]

theorem inCommonUnit_self_exact (hr : r.IsExact) (hu : u.magnitude = ⟨.exact q, k⟩)
    (hq : q ≠ 0) (operation : String) (v w : r.Value) :
    inCommonUnit operation ⟨v, u⟩ ⟨w, u⟩ = .ok (⟨v, u⟩, ⟨w, u⟩) := by
  rw [inCommonUnit_self, convertTo_self_exact hr hu hq, convertTo_self_exact hr hu hq]
  rfl

theorem inCommonUnit_self_approx (hr : r.IsExact) (hu : u.magnitude = ⟨.approx c, k⟩)
    (hc : c.isZero = false) (operation : String) (v w : r.Value) :
    inCommonUnit operation ⟨v, u⟩ ⟨w, u⟩ = .error (ownUnitRefusal r u c) := by
  rw [inCommonUnit_self, convertTo_self_approx hr hu hc]
  rfl

/-! ## Operations -/

/-- In a unit with an exact magnitude that is not zero, conversion into the same unit, sums,
differences and comparisons are those of the values. In a unit with an approximate one all of
them are refused as narrowing, in one and the same way. -/
theorem operations_in_own_unit (hr : r.IsExact) (hu : u.magnitude.isZero = false)
    (v w : r.Value) :
    (u.magnitude.isExact = true →
      convertTo ⟨v, u⟩ u = .ok ⟨v, u⟩ ∧
      add ⟨v, u⟩ ⟨w, u⟩ = (⟨·, u⟩) <$> r.add v w ∧
      sub ⟨v, u⟩ ⟨w, u⟩ = (⟨·, u⟩) <$> r.sub v w ∧
      tryEq ⟨v, u⟩ ⟨w, u⟩ = .ok (decide (r.number v = r.number w)) ∧
      tryCompare ⟨v, u⟩ ⟨w, u⟩ = .ok (cmp (r.number v) (r.number w))) ∧
    (u.magnitude.isExact = false →
      ∃ e : Error, e.code = .narrowing ∧ convertTo ⟨v, u⟩ u = .error e ∧
        add ⟨v, u⟩ ⟨w, u⟩ = .error e ∧ sub ⟨v, u⟩ ⟨w, u⟩ = .error e ∧
        tryEq ⟨v, u⟩ ⟨w, u⟩ = .error e ∧ tryCompare ⟨v, u⟩ ⟨w, u⟩ = .error e) := by
  obtain ⟨q, k, hexact⟩ | ⟨c, k, happrox⟩ := u.magnitude_cases
  · have hq : q ≠ 0 := by simpa [hexact, Magnitude.isZero, Coefficient.isZero] using hu
    refine ⟨fun _ => ⟨convertTo_self_exact hr hexact hq v, ?_, ?_, ?_, ?_⟩, fun h => ?_⟩
    · rw [add, inCommonUnit_self_exact hr hexact hq]
      rfl
    · rw [sub, inCommonUnit_self_exact hr hexact hq]
      rfl
    · rw [tryEq, inCommonUnit_self_exact hr hexact hq, ← Representation.valueEq_eq hr]
      rfl
    · rw [tryCompare, inCommonUnit_self_exact hr hexact hq, ok_bind]
      dsimp only
      rw [Representation.valueCompare?_eq hr]
      rfl
    · rw [hexact] at h
      cases h
  · have hc : c.isZero = false := by rwa [happrox] at hu
    refine ⟨fun h => ?_, fun _ => ⟨ownUnitRefusal r u c, rfl,
      convertTo_self_approx hr happrox hc v, ?_, ?_, ?_, ?_⟩⟩
    · rw [happrox] at h
      cases h
    · rw [add, inCommonUnit_self_approx hr happrox hc, error_bind]
    · rw [sub, inCommonUnit_self_approx hr happrox hc, error_bind]
    · rw [tryEq, inCommonUnit_self_approx hr happrox hc, error_bind]
    · rw [tryCompare, inCommonUnit_self_approx hr happrox hc, error_bind]

/-- The kilogram. -/
def kilogram : MeasureUnit := Systems.coherentUnit Systems.mass "kilogram"

/-- The pound, kept as an approximate multiple of the kilogram. -/
def approximatePound : MeasureUnit :=
  .mk "lb" "pound" (.ofBase Systems.mass)
    ⟨.approx (.finite false 4601842813631946321 (by decide)), 0⟩
    (.scaled kilogram)

/-- Kilograms as integers add, and approximate pounds do not. -/
theorem operations_in_own_unit_kilogram_pound :
    (⟨.lit 2, kilogram⟩ : Quantity (.integer .w32)).add ⟨.lit 3, kilogram⟩ =
        .ok ⟨.lit 5, kilogram⟩ ∧
      ∃ e : Error, e.code = .narrowing ∧
        (⟨.lit 2, approximatePound⟩ : Quantity (.integer .w32)).add ⟨.lit 3, approximatePound⟩ =
          .error e := by
  constructor
  · obtain ⟨-, hadd, -⟩ := (operations_in_own_unit (r := .integer .w32) (u := kilogram)
      (by decide) rfl (.lit 2) (.lit 3)).1 rfl
    rw [hadd]
    rfl
  · obtain ⟨e, hcode, -, hadd, -⟩ := (operations_in_own_unit (r := .integer .w32)
      (u := approximatePound) (by decide) rfl (.lit 2) (.lit 3)).2 rfl
    exact ⟨e, hcode, hadd⟩

/-- One approximate pound is not converted into approximate pounds. -/
theorem convertTo_self_approximatePound :
    approximatePound.magnitude.isZero = false ∧
      (⟨.lit 1, approximatePound⟩ : Quantity (.integer .w32)).convertTo approximatePound ≠
        .ok ⟨.lit 1, approximatePound⟩ := by
  refine ⟨rfl, ?_⟩
  rw [convertTo_self_approx (by decide) rfl rfl]
  exact nofun

end Quantity

end Metrology
