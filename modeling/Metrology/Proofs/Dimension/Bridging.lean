/-
  Metrology.Proofs.Dimension.Bridging

  Dimensions of one physical quantity in different unit systems. They have the same names and
  powers in the same places, and the coherent unit of each is worth a product of powers of
  what the reference units of its base dimensions are worth.
-/
import Metrology.Proofs.Dimension.Degree
import Metrology.Proofs.Magnitude.Number

namespace Metrology

namespace Exponents

variable {as bs : List Exponent}

theorem same_iff_forall₂ :
    same as bs = true ↔
      List.Forall₂ (fun x y => x.base.same y.base = true ∧ x.power = y.power) as bs := by
  induction as generalizing bs with
  | nil => cases bs <;> simp [same]
  | cons a as ih =>
    cases bs with
    | nil => simp [same]
    | cons b bs =>
      rw [same, Bool.and_eq_true, ih, List.forall₂_cons, Exponent.same, Bool.and_eq_true,
        beq_iff_eq]

/-- Lists of the same exponents are equal if a base dimension has one reference magnitude in
both. -/
theorem eq_of_same (h : same as bs = true)
    (hbase : ∀ x ∈ as, ∀ y ∈ bs, x.base.same y.base = true → x.base = y.base) : as = bs := by
  rw [same_iff_forall₂] at h
  induction h with
  | nil => rfl
  | @cons x y as bs hxy _ ih =>
    obtain ⟨base, power⟩ := x
    obtain ⟨hsame, rfl⟩ := hxy
    obtain rfl : base = y.base := hbase _ List.mem_cons_self _ List.mem_cons_self hsame
    rw [ih fun x hx y hy => hbase x (List.mem_cons_of_mem _ hx) y (List.mem_cons_of_mem _ hy)]

end Exponents

namespace Dimension

variable {a b d : Dimension} {m : Magnitude}

/-! ## One physical quantity -/

/-- The same dimension, or one of the same quantity in another unit system. -/
def IsRelated (a b : Dimension) : Prop := a.same b = true ∨ a.isBridgeable b = true

/-- The names of the base dimensions with their powers, whatever the unit system. -/
def namedPowers (d : Dimension) : List (String × Power) :=
  d.exponents.map fun e => (e.base.name, e.power)

theorem namedPowers_of_same (h : a.same b = true) : a.namedPowers = b.namedPowers := by
  rw [same, Exponents.same_iff_forall₂] at h
  rw [namedPowers, namedPowers, ← List.forall₂_eq_eq_eq, List.forall₂_map_left_iff,
    List.forall₂_map_right_iff]
  refine h.imp fun x y hxy => ?_
  obtain ⟨hsame, hpower⟩ := hxy
  rw [(BaseDimension.same_iff.1 hsame).1, hpower]

theorem isBridgeable_iff :
    a.isBridgeable b = true ↔ a.same b = false ∧ a.namedPowers = b.namedPowers := by
  rw [namedPowers, namedPowers, ← List.forall₂_eq_eq_eq, List.forall₂_map_left_iff,
    List.forall₂_map_right_iff, List.forall₂_iff_zip, isBridgeable]
  simp only [Bool.and_eq_true, Bool.not_eq_true', beq_iff_eq, List.all_eq_true, Prod.forall,
    BaseDimension.sharesName, Prod.mk.injEq, and_assoc]

theorem isRelated_iff : a.IsRelated b ↔ a.namedPowers = b.namedPowers := by
  rw [IsRelated, isBridgeable_iff]
  constructor
  · rintro (h | ⟨-, h⟩)
    · exact namedPowers_of_same h
    · exact h
  · intro h
    cases hsame : a.same b with
    | true => exact .inl rfl
    | false => exact .inr ⟨rfl, h⟩

/-- To be of one physical quantity is to have one list of names and powers. -/
theorem isRelated_equivalence : Equivalence IsRelated where
  refl _ := isRelated_iff.2 rfl
  symm h := isRelated_iff.2 (isRelated_iff.1 h).symm
  trans h h' := isRelated_iff.2 ((isRelated_iff.1 h).trans (isRelated_iff.1 h'))

/-! ## Reference magnitudes -/

/-- The product of the powers of the numbers that the reference magnitudes are. -/
def referenceNumber (d : Dimension) : PiMultiple :=
  (d.exponents.map fun e => e.base.referenceMagnitude.number.zpow e.power.val).prod

/-- All reference magnitudes that occur are exact. -/
def HasExactReferences (d : Dimension) : Prop :=
  ∀ e ∈ d.exponents, e.base.referenceMagnitude.isExact = true

/-- The coherent unit is worth the product of the powers of what the reference units are worth. -/
theorem referenceMagnitude_eq (d : Dimension) :
    d.referenceMagnitude = Error.lift (Magnitude.powerProduct .one
      (d.exponents.map fun e => (e.base.referenceMagnitude, e.power))) := by
  rw [referenceMagnitude]
  generalize Magnitude.one = product
  induction d.exponents generalizing product with
  | nil => rfl
  | cons e es ih =>
    simp only [List.foldlM_cons, ih, List.map_cons, Magnitude.powerProduct, lift_bind, bind_assoc]

theorem number_referenceMagnitude (hd : d.HasExactReferences)
    (h : d.referenceMagnitude = .ok m) : m.isExact = true ∧ m.number = d.referenceNumber := by
  rw [referenceMagnitude_eq, lift_eq_ok] at h
  have hpowers : ∀ f ∈ d.exponents.map fun e => (e.base.referenceMagnitude, e.power),
      f.1.isExact = true := List.forall_mem_map.2 hd
  obtain ⟨hexact, hnumber⟩ := Magnitude.number_powerProduct rfl hpowers h
  rw [List.map_map] at hnumber
  exact ⟨hexact, hnumber.trans (one_mul _)⟩

/-- Products of powers of numbers other than zero are not zero. -/
theorem referenceNumber_ne_zero (hd : ∀ e ∈ d.exponents, e.base.referenceMagnitude.IsProper) :
    d.referenceNumber.coefficient ≠ 0 := by
  obtain ⟨es⟩ := d
  rw [referenceNumber]
  induction es with
  | nil => exact one_ne_zero
  | cons e es ih =>
    obtain ⟨he, hes⟩ := List.forall_mem_cons.1 hd
    rw [List.map_cons, List.prod_cons, PiMultiple.coefficient_mul]
    exact mul_ne_zero (zpow_ne_zero _ he.number_ne_zero) (ih hes)

end Dimension

end Metrology
