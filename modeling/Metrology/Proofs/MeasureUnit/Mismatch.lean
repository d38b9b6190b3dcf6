/-
  Metrology.Proofs.MeasureUnit.Mismatch

  Units that do not go together. A mismatch is found by the check of two dimensions and nowhere
  else: past the check, and in products and powers, which need none, units fail for other
  reasons only.
-/
import Metrology.MeasureUnit.Composition
import Metrology.Proofs.Dimension.Merge
import Metrology.Proofs.MeasureUnit.Common

namespace Metrology

namespace Dimension

/-! ## Dimensions -/

/-- The coherent unit is worked out by arithmetic on magnitudes alone. -/
theorem mismatchFree_referenceMagnitude (d : Dimension) : MismatchFree d.referenceMagnitude := by
  refine .foldlM (fun product e => ?_) d.exponents Magnitude.one
  have hpower := mismatchFree_lift (e.base.referenceMagnitude.pow e.power)
  exact hpower.bind fun power _ => mismatchFree_lift _

end Dimension

namespace MeasureUnit

variable {a b : MeasureUnit}

/-! ## Different dimensions -/

/-- Which of the two mismatches it is depends on the dimensions only. -/
theorem code_mismatch (operation : String) (a b : MeasureUnit) :
    (mismatch operation a b).code =
      if a.dimension.isBridgeable b.dimension then .referenceMismatch else .dimensionMismatch := by
  rw [mismatch]
  split <;> rfl

theorem checkCompatible_of_not (operation : String) (h : a.isCompatible b = false) :
    checkCompatible operation a b = .error (mismatch operation a b) := by
  rw [checkCompatible, h, if_neg Bool.false_ne_true]

theorem conversionFactor_of_not_compatible (h : a.isCompatible b = false) :
    a.conversionFactor b = .error (mismatch "convert" a b) := by
  rw [conversionFactor, checkCompatible_of_not _ h, error_bind]

/-- Dimensions that cannot be bridged. -/
theorem bridgeFactor_of_not_bridgeable (h : a.isCompatible b = false)
    (hbridge : a.dimension.isBridgeable b.dimension = false) :
    a.bridgeFactor b = .error (mismatch "cast" a b) := by
  rw [bridgeFactor, h, hbridge, if_neg Bool.false_ne_true, if_neg Bool.false_ne_true]

/-! ## Past the check -/

theorem mismatchFree_checkCompatible (operation : String) (h : a.isCompatible b = true) :
    MismatchFree (checkCompatible operation a b) := by
  rw [checkCompatible_of operation h]
  exact .ok _

theorem mismatchFree_conversionFactor (h : a.isCompatible b = true) :
    MismatchFree (a.conversionFactor b) :=
  (mismatchFree_checkCompatible _ h).bind fun _ _ => mismatchFree_lift _

theorem mismatchFree_canonicalMagnitude (u : MeasureUnit) : MismatchFree u.canonicalMagnitude :=
  u.dimension.mismatchFree_referenceMagnitude.bind fun _ _ => mismatchFree_lift _

/-- Units of one dimension and units that can be bridged. -/
theorem mismatchFree_bridgeFactor
    (h : a.isCompatible b = true ∨ a.dimension.isBridgeable b.dimension = true) :
    MismatchFree (a.bridgeFactor b) := by
  rw [bridgeFactor]
  by_cases hab : a.isCompatible b = true
  · rw [if_pos hab]
    exact mismatchFree_conversionFactor hab
  · have hbridge := h.resolve_left hab
    rw [if_neg hab, if_pos hbridge]
    have hsource := a.mismatchFree_canonicalMagnitude
    have htarget := b.mismatchFree_canonicalMagnitude
    exact hsource.bind fun _ _ => htarget.bind fun _ _ => mismatchFree_lift _

theorem mismatchFree_common (h : a.isCompatible b = true) : MismatchFree (common a b) := by
  have hcheck := mismatchFree_checkCompatible "common unit" h
  refine hcheck.bind fun _ _ => .ite (.ok a) ?_
  -- Past the check nothing but the two quotients can fail.
  refine (mismatchFree_lift _).bind fun ratio _ => .ite (.ok a) (.ite (.ok b) ?_)
  refine (mismatchFree_lift _).bind fun inverse _ => .ite (.ok a) ?_
  split
  · exact .ok _
  · exact .ok _

/-! ## Products and powers -/

theorem mismatchFree_multiply (a b : MeasureUnit) : MismatchFree (a.multiply b) := by
  have hdimension := (a.dimension.overflowsOnly_multiply b.dimension).mismatchFree
  have hmagnitude := mismatchFree_lift (a.magnitude.mul b.magnitude)
  exact hdimension.bind fun _ _ => hmagnitude.bind fun _ _ => .ok _

theorem mismatchFree_divide (a b : MeasureUnit) : MismatchFree (a.divide b) := by
  have hdimension := (a.dimension.overflowsOnly_divide b.dimension).mismatchFree
  have hmagnitude := mismatchFree_lift (a.magnitude.div b.magnitude)
  exact hdimension.bind fun _ _ => hmagnitude.bind fun _ _ => .ok _

theorem mismatchFree_power (u : MeasureUnit) (n : Power) : MismatchFree (u.power n) := by
  have hdimension := (u.dimension.overflowsOnly_power n).mismatchFree
  have hmagnitude := mismatchFree_lift (u.magnitude.pow n)
  -- The first power is the unit itself.
  refine .ite (.ok u) ?_
  exact hdimension.bind fun _ _ => hmagnitude.bind fun _ _ => .ok _

end MeasureUnit

end Metrology
