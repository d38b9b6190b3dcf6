/-
  Metrology.Proofs.Quantity.Mismatch

  Mismatches of quantities. Whether an operation refuses its operands as incompatible, and with
  which of the two codes, is settled by their units before any value is looked at, in every
  number type.
-/
import Metrology.Quantity.Arithmetic
import Metrology.Proofs.MeasureUnit.Bridge
import Metrology.Proofs.MeasureUnit.Mismatch
import Metrology.Proofs.Representation.Mismatch

namespace Metrology.Quantity

open MeasureUnit (mismatch)

variable {r : Representation} {a b q : Quantity r} {t : MeasureUnit}

/-! ## Units of different dimensions -/

theorem convertTo_of_not_compatible (h : q.unit.isCompatible t = false) :
    q.convertTo t = .error (mismatch "convert" q.unit t) := by
  rw [convertTo, MeasureUnit.conversionFactor_of_not_compatible h, error_bind]

theorem inCommonUnit_of_not_compatible (operation : String)
    (h : a.unit.isCompatible b.unit = false) :
    inCommonUnit operation a b = .error (mismatch operation a.unit b.unit) := by
  rw [inCommonUnit, MeasureUnit.checkCompatible_of_not operation h, error_bind]

/-! ## Units of one dimension -/

theorem mismatchFree_convertTo (h : q.unit.isCompatible t = true) :
    MismatchFree (q.convertTo t) := by
  refine (MeasureUnit.mismatchFree_conversionFactor h).bind fun factor _ => .ite ?_ ?_
  · exact (r.mismatchFree_rescale _ _).bind fun _ _ => .ok _
  · exact .error ⟨nofun, nofun⟩

theorem mismatchFree_inCommonUnit (operation : String) (h : a.unit.isCompatible b.unit = true) :
    MismatchFree (inCommonUnit operation a b) := by
  refine (MeasureUnit.mismatchFree_checkCompatible operation h).bind fun _ _ => ?_
  refine (MeasureUnit.mismatchFree_common h).bind fun u hu => ?_
  -- The common unit has the dimension of both, so neither conversion can find a mismatch.
  obtain ⟨hau, hbu⟩ := MeasureUnit.isCompatible_common hu
  refine (mismatchFree_convertTo hau).bind fun x _ => ?_
  exact (mismatchFree_convertTo hbu).bind fun y _ => .ok (x, y)

theorem mismatchFree_tryCompare (h : a.unit.isCompatible b.unit = true) :
    MismatchFree (a.tryCompare b) := by
  refine (mismatchFree_inCommonUnit _ h).bind fun (x, y) _ => ?_
  -- Values without an order are a failure of its own kind.
  dsimp only
  split
  · exact .ok _
  · exact .error ⟨nofun, nofun⟩

/-! ## Casts, products and powers -/

theorem castTo_of_not_bridgeable (h : q.unit.isCompatible t = false)
    (hbridge : q.unit.dimension.isBridgeable t.dimension = false) :
    q.castTo t = .error (mismatch "cast" q.unit t) := by
  rw [castTo, MeasureUnit.bridgeFactor_of_not_bridgeable h hbridge, error_bind]

theorem mismatchFree_castTo
    (h : q.unit.isCompatible t = true ∨ q.unit.dimension.isBridgeable t.dimension = true) :
    MismatchFree (q.castTo t) := by
  refine (MeasureUnit.mismatchFree_bridgeFactor h).bind fun factor _ => ?_
  exact (r.mismatchFree_rescale q.value factor).bind fun _ _ => .ok _

/-- A cast fails with a mismatch of dimensions exactly if there is no bridge, and never with one
of reference units. -/
theorem castTo_mismatch_iff (q : Quantity r) (t : MeasureUnit) :
    ((∃ e, q.castTo t = .error e ∧ e.code = .dimensionMismatch) ↔
      q.unit.isCompatible t = false ∧ q.unit.dimension.isBridgeable t.dimension = false) ∧
    ∀ e, q.castTo t = .error e → e.code ≠ .referenceMismatch := by
  by_cases hunrelated :
      q.unit.isCompatible t = false ∧ q.unit.dimension.isBridgeable t.dimension = false
  · have hcast := castTo_of_not_bridgeable hunrelated.1 hunrelated.2
    have hcode : (mismatch "cast" q.unit t).code = .dimensionMismatch := by
      rw [MeasureUnit.code_mismatch, hunrelated.2, if_neg Bool.false_ne_true]
    refine ⟨iff_of_true ⟨_, hcast, hcode⟩ hunrelated, fun e he => ?_⟩
    obtain rfl := Except.error.inj (hcast.symm.trans he)
    rw [hcode]
    nofun
  · have hrelated : q.unit.isCompatible t = true ∨
        q.unit.dimension.isBridgeable t.dimension = true := by
      rwa [not_and_or, Bool.not_eq_false, Bool.not_eq_false] at hunrelated
    have hfree := mismatchFree_castTo hrelated
    refine ⟨iff_of_false ?_ hunrelated, fun e he => (hfree e he).2⟩
    rintro ⟨e, he, hcode⟩
    exact (hfree e he).1 hcode

theorem mismatchFree_mul (a b : Quantity r) : MismatchFree (a.mul b) := by
  have hunit := a.unit.mismatchFree_multiply b.unit
  have hvalue := r.mismatchFree_mul a.value b.value
  exact hunit.bind fun _ _ => hvalue.bind fun _ _ => .ok _

theorem mismatchFree_div (a b : Quantity r) : MismatchFree (a.div b) := by
  have hunit := a.unit.mismatchFree_divide b.unit
  have hvalue := r.mismatchFree_div a.value b.value
  exact hunit.bind fun _ _ => hvalue.bind fun _ _ => .ok _

theorem mismatchFree_pow (q : Quantity r) (n : Power) : MismatchFree (q.pow n) := by
  have hunit := q.unit.mismatchFree_power n
  have hvalue := r.mismatchFree_pow q.value n
  exact hunit.bind fun _ _ => hvalue.bind fun _ _ => .ok _

/-! ## Mismatches depend on units alone -/

/-- In every number type, values in units of different dimensions are neither converted nor added,
subtracted or compared: each of these fails with the mismatch of the two units, which is one of
reference units if the dimensions are bridgeable and one of dimensions otherwise, whatever the
values are. In units of one dimension none of them fails with a mismatch. A cast fails with a
mismatch of dimensions exactly where these are neither equal nor bridgeable, and never with one of
reference units. Products, quotients and powers never fail with a mismatch. -/
theorem mismatch_determined_by_units (r : Representation) (a b : MeasureUnit) :
    (∀ operation, (mismatch operation a b).code =
      if a.dimension.isBridgeable b.dimension then .referenceMismatch else .dimensionMismatch) ∧
    (a.isCompatible b = false → ∀ v w : r.Value,
      convertTo ⟨v, a⟩ b = .error (mismatch "convert" a b) ∧
      add ⟨v, a⟩ ⟨w, b⟩ = .error (mismatch "add" a b) ∧
      sub ⟨v, a⟩ ⟨w, b⟩ = .error (mismatch "subtract" a b) ∧
      tryEq ⟨v, a⟩ ⟨w, b⟩ = .error (mismatch "compare" a b) ∧
      tryCompare ⟨v, a⟩ ⟨w, b⟩ = .error (mismatch "compare" a b)) ∧
    (a.isCompatible b = true → ∀ v w : r.Value,
      MismatchFree (convertTo ⟨v, a⟩ b) ∧ MismatchFree (add ⟨v, a⟩ ⟨w, b⟩) ∧
      MismatchFree (sub ⟨v, a⟩ ⟨w, b⟩) ∧ MismatchFree (tryEq ⟨v, a⟩ ⟨w, b⟩) ∧
      MismatchFree (tryCompare ⟨v, a⟩ ⟨w, b⟩)) ∧
    ∀ v w : r.Value,
      ((∃ e, castTo ⟨v, a⟩ b = .error e ∧ e.code = .dimensionMismatch) ↔
        a.isCompatible b = false ∧ a.dimension.isBridgeable b.dimension = false) ∧
      (∀ e, castTo ⟨v, a⟩ b = .error e → e.code ≠ .referenceMismatch) ∧
      MismatchFree (mul ⟨v, a⟩ ⟨w, b⟩) ∧ MismatchFree (div ⟨v, a⟩ ⟨w, b⟩) ∧
      ∀ n, MismatchFree (pow ⟨v, a⟩ n) := by
  refine ⟨fun operation => MeasureUnit.code_mismatch operation a b, fun h v w => ?_,
    fun h v w => ?_, fun v w => ?_⟩
  · have hcommon (operation : String) :=
      inCommonUnit_of_not_compatible (a := ⟨v, a⟩) (b := ⟨w, b⟩) operation h
    refine ⟨convertTo_of_not_compatible h, ?_, ?_, ?_, ?_⟩
    · rw [add, hcommon, error_bind]
    · rw [sub, hcommon, error_bind]
    · rw [tryEq, hcommon, error_bind]
    · rw [tryCompare, hcommon, error_bind]
  · have hcommon (operation : String) :=
      mismatchFree_inCommonUnit (a := ⟨v, a⟩) (b := ⟨w, b⟩) operation h
    refine ⟨mismatchFree_convertTo h, ?_, ?_, ?_, mismatchFree_tryCompare h⟩
    · exact (hcommon _).bind fun _ _ => (r.mismatchFree_add _ _).bind fun _ _ => .ok _
    · exact (hcommon _).bind fun _ _ => (r.mismatchFree_sub _ _).bind fun _ _ => .ok _
    · exact (hcommon _).bind fun _ _ => .ok _
  · obtain ⟨hdimension, hreference⟩ := castTo_mismatch_iff ⟨v, a⟩ b
    exact ⟨hdimension, hreference, mismatchFree_mul _ _, mismatchFree_div _ _,
      fun n => mismatchFree_pow _ n⟩

/-- A metre and the centimetre of another unit system can only be cast: added, even as zeros,
they fail with a mismatch of reference units. -/
theorem mismatch_determined_by_units_metre_centimetre :
    ∃ e, add (⟨0, .siMetre⟩ : Quantity .exact) ⟨0, .cgsCentimetre⟩ = .error e ∧
      e.code = .referenceMismatch ∧
      ∀ e, castTo (⟨0, .siMetre⟩ : Quantity .exact) .cgsCentimetre = .error e →
        e.code ≠ .dimensionMismatch ∧ e.code ≠ .referenceMismatch := by
  obtain ⟨hcode, hdifferent, -, hcast⟩ :=
    mismatch_determined_by_units .exact MeasureUnit.siMetre MeasureUnit.cgsCentimetre
  obtain ⟨-, hadd, -⟩ := hdifferent (by decide) 0 0
  obtain ⟨hdimension, hreference, -⟩ := hcast 0 0
  refine ⟨_, hadd, (hcode "add").trans (if_pos (by decide)), fun e he => ?_⟩
  refine ⟨fun h => ?_, hreference e he⟩
  obtain ⟨-, hbridge⟩ := hdimension.1 ⟨e, he, h⟩
  exact Bool.eq_false_iff.1 hbridge (by decide)

end Metrology.Quantity
