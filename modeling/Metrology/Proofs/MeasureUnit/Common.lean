/-
  Metrology.Proofs.MeasureUnit.Common

  The unit in which two values meet. Of units with exact magnitudes and one power of pi the
  magnitude of the common unit is the common measure of theirs.
-/
import Metrology.MeasureUnit.Composition
import Metrology.Proofs.Dimension.Degree
import Metrology.Proofs.Magnitude.Exact
import Metrology.Proofs.Ratio.CommonMeasure
import Metrology.Systems.Information

namespace Metrology.MeasureUnit

variable {a b c u : MeasureUnit} {x y : Ratio} {k : Power}

/-! ## Compatible units -/

theorem isCompatible_refl (a : MeasureUnit) : a.isCompatible a = true :=
  Dimension.same_refl _

theorem isCompatible_symm (h : a.isCompatible b = true) : b.isCompatible a = true :=
  Dimension.same_symm h

theorem isCompatible_trans (h : a.isCompatible b = true) (h' : b.isCompatible c = true) :
    a.isCompatible c = true :=
  Dimension.same_trans h h'

theorem checkCompatible_of (operation : String) (h : a.isCompatible b = true) :
    checkCompatible operation a b = .ok ⟨⟩ := by
  rw [checkCompatible, if_pos h]

theorem checkCompatible_eq_ok {operation : String} {done : PUnit} :
    checkCompatible operation a b = .ok done ↔ a.isCompatible b = true := by
  rw [checkCompatible]
  split <;> simp_all

/-- The units measure one dimension, with exact magnitudes that are not zero and have one
power of pi. -/
structure Commensurable (a b : MeasureUnit) (x y : Ratio) (k : Power) : Prop where
  compatible : a.isCompatible b = true
  left : a.magnitude = ⟨.exact x, k⟩
  right : b.magnitude = ⟨.exact y, k⟩
  left_ne_zero : x ≠ 0
  right_ne_zero : y ≠ 0

theorem Commensurable.symm (h : Commensurable a b x y k) : Commensurable b a y x k :=
  ⟨isCompatible_symm h.compatible, h.right, h.left, h.right_ne_zero, h.left_ne_zero⟩

theorem Commensurable.trans {z : Ratio} (h : Commensurable a b x y k)
    (h' : Commensurable b c y z k) : Commensurable a c x z k :=
  ⟨isCompatible_trans h.compatible h'.compatible, h.left, h'.right, h.left_ne_zero,
    h'.right_ne_zero⟩

/-! ## The common unit -/

/-- The common unit is one of the two or the unit of their common divisor. -/
theorem common_cases (h : common a b = .ok u) :
    a.isCompatible b = true ∧ (u = a ∨ u = b ∨
      ∃ d, a.magnitude.commonDivisor? b.magnitude = some d ∧ u = ofCommonDivisor a b d) := by
  rw [common, bind_eq_ok] at h
  obtain ⟨_, hcheck, h⟩ := h
  refine ⟨checkCompatible_eq_ok.1 hcheck, ?_⟩
  split at h
  · cases h
    exact .inl rfl
  obtain ⟨ratio, -, h⟩ := bind_eq_ok.1 h
  split at h
  · cases h
    exact .inl rfl
  split at h
  · cases h
    exact .inr (.inl rfl)
  obtain ⟨inverse, -, h⟩ := bind_eq_ok.1 h
  split at h
  · cases h
    exact .inl rfl
  split at h
  · rename_i d hd
    cases h
    exact .inr (.inr ⟨d, hd, rfl⟩)
  · cases h
    split
    · exact .inr (.inl rfl)
    · exact .inl rfl

/-- Both units are compatible with their common unit. -/
theorem isCompatible_common (h : common a b = .ok u) :
    a.isCompatible u = true ∧ b.isCompatible u = true := by
  obtain ⟨hab, rfl | rfl | ⟨d, -, rfl⟩⟩ := common_cases h
  · exact ⟨isCompatible_refl u, isCompatible_symm hab⟩
  · exact ⟨hab, isCompatible_refl u⟩
  · exact ⟨isCompatible_refl a, isCompatible_symm hab⟩

/-- Units with exact magnitudes that are the same have equal magnitudes. -/
theorem magnitude_eq_of_same (ha : a.magnitude = ⟨.exact x, k⟩)
    (hb : b.magnitude = ⟨.exact y, k⟩) (h : a.same b = true) : x = y := by
  simp only [same, ha, hb, Magnitude.sameValue, Coefficient.sameValue, Bool.and_eq_true,
    Bool.or_eq_true, beq_iff_eq, decide_eq_true_eq, Magnitude.mk.injEq,
    Coefficient.exact.injEq] at h
  obtain ⟨-, ⟨h, -⟩ | ⟨-, h, -⟩⟩ := h
  · exact h
  · exact h

/-- The unit that is taken: the left one of equals, the finer one of multiples, and otherwise that
of the common divisor. -/
theorem common_eq (h : Commensurable a b x y k) :
    common a b = .ok (if x = y then a else if Ratio.isInteger (x / y) then b
      else if Ratio.isInteger (y / x) then a else ofCommonDivisor a b ⟨.exact (x.gcd y), k⟩) := by
  obtain ⟨hab, ha, hb, hx, hy⟩ := h
  rw [common, checkCompatible_of _ hab, ok_bind]
  by_cases hsame : a.same b = true
  · rw [if_pos hsame, if_pos (magnitude_eq_of_same ha hb hsame)]
    rfl
  have hgcd : x.gcd y ≠ 0 := (Ratio.gcd_pos_of_ne_zero y hx).ne'
  rw [if_neg hsame, ha, hb, Magnitude.div_exact_same hy, Magnitude.div_exact_same hx,
    Magnitude.commonDivisor?_exact_eq_some.2 ⟨rfl, hgcd, rfl⟩]
  simp only [lift_ok, ok_bind, Magnitude.isOne_exact, Magnitude.isInteger_exact, beq_iff_eq,
    div_eq_one_iff_eq hy]
  -- Units that are not the same may still have one magnitude.
  split_ifs <;> rfl

/-- Of units with one magnitude the left one is taken. -/
theorem common_of_eq (h : Commensurable a b x x k) : common a b = .ok a := by
  rw [common_eq h, if_pos rfl]

/-- The magnitude of the common unit is the common measure. -/
theorem common_exact (h : Commensurable a b x y k) :
    ∃ u, common a b = .ok u ∧ u.magnitude = ⟨.exact (x.commonMeasure y), k⟩ := by
  refine ⟨_, common_eq h, ?_⟩
  by_cases hone : x = y
  · rw [if_pos hone, h.left, ← hone, Ratio.commonMeasure_self h.left_ne_zero]
  rw [if_neg hone, Ratio.commonMeasure]
  split_ifs
  · exact h.right
  · exact h.left
  · rfl

/-- Two units meet in a unit of their dimension and power of pi, which can meet others again. -/
theorem Commensurable.exists_common (h : Commensurable a b x y k) :
    ∃ u, common a b = .ok u ∧ Commensurable a u x (x.commonMeasure y) k := by
  obtain ⟨u, hu, hmagnitude⟩ := common_exact h
  have hne := Ratio.commonMeasure_ne_zero h.left_ne_zero h.right_ne_zero
  exact ⟨u, hu, (isCompatible_common hu).1, h.left, hmagnitude, h.left_ne_zero, hne⟩

theorem Commensurable.to_common (h : Commensurable a b x y k) (hu : common a b = .ok u) :
    Commensurable a u x (x.commonMeasure y) k := by
  obtain ⟨v, hv, hav⟩ := h.exists_common
  cases hu.symm.trans hv
  exact hav

/-- A unit of `bits` bits made with a prefix. -/
def prefixedBit (scale : UnitPrefix) (bits : Int) : MeasureUnit :=
  mk (scale.symbol ++ "b") (scale.name ++ "bit") (.ofBase Systems.information) (.integer bits)
    (.prefixed scale (Systems.coherentUnit Systems.information "bit"))

/-- The bit, the reference unit of information. -/
def bit : MeasureUnit := Systems.coherentUnit Systems.information "bit"

/-- The kibibit, which is no multiple of a kilobit. -/
def kibibit : MeasureUnit := prefixedBit .kibi 1024

/-- The kilobit, which is no multiple of a kibibit. -/
def kilobit : MeasureUnit := prefixedBit .kilo 1000

/-- The megabit, a multiple of a kilobit. -/
def megabit : MeasureUnit := prefixedBit .mega 1000000

/-- They meet in eight bits. -/
theorem common_kibibit_kilobit :
    common kibibit kilobit = .ok (ofCommonDivisor kibibit kilobit (.integer 8)) := by
  with_unfolding_all rfl

end Metrology.MeasureUnit
