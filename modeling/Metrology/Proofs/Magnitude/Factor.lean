/-
  Metrology.Proofs.Magnitude.Factor

  The numbers that proper magnitudes are, as a commutative group: a rational number other than
  zero next to a power of pi. Its operation is the product, written as a sum, so that a product of
  powers is a sum of integer multiples and can be taken in any order.
-/
import Metrology.Proofs.Magnitude.Number
import Mathlib.Algebra.Group.TypeTags.Basic
import Mathlib.Algebra.Group.Prod
import Mathlib.Algebra.GroupWithZero.Units.Basic

namespace Metrology

/-- A rational number that is not zero, and a power of pi. -/
abbrev Factor : Type := Additive Ratioˣ × Int

namespace Factor

/-- The number that the factor is. -/
def number (x : Factor) : PiMultiple := ⟨x.1.toMul, x.2⟩

theorem number_ne_zero (x : Factor) : x.number.coefficient ≠ 0 := x.1.toMul.ne_zero

theorem number_injective : Function.Injective number := by
  rintro ⟨c, k⟩ ⟨d, l⟩ h
  obtain ⟨hcoefficient, hpower⟩ := PiMultiple.eq_iff.1 h
  exact Prod.ext (Units.ext hcoefficient) hpower

theorem number_add (x y : Factor) : (x + y).number = x.number * y.number := rfl

/-- The quotient times the divisor is the dividend. -/
theorem number_sub_mul (x y : Factor) : (x - y).number * y.number = x.number := by
  rw [← number_add, sub_add_cancel]

theorem number_zsmul (n : Int) (x : Factor) : (n • x).number = x.number.zpow n := by
  refine PiMultiple.eq_iff.2 ⟨?_, mul_comm n x.2⟩
  exact Units.val_zpow_eq_zpow_val x.1.toMul n

/-- A sum of factors is the product of their numbers. -/
theorem number_sum (xs : List Factor) : xs.sum.number = (xs.map number).prod := by
  induction xs with
  | nil => rfl
  | cons x xs ih => rw [List.sum_cons, List.map_cons, List.prod_cons, number_add, ih]

end Factor

/-! ## Proper magnitudes -/

namespace Magnitude

variable {a b m : Magnitude} {n : Power}

/-- The factor that a proper magnitude is; the neutral one for the others. -/
def factor (m : Magnitude) : Factor :=
  if h : m.number.coefficient = 0 then 0
  else (.ofMul (Units.mk0 m.number.coefficient h), m.number.power)

theorem IsProper.number_factor (hm : m.IsProper) : m.factor.number = m.number := by
  rw [factor, dif_neg hm.number_ne_zero]
  rfl

/-- An exact magnitude with the number of a factor is proper and that factor. -/
theorem factor_of_number {x : Factor} (hm : m.isExact = true) (h : m.number = x.number) :
    m.IsProper ∧ m.factor = x := by
  have hproper : m.IsProper := by
    refine ⟨hm, (isZero_eq_false_iff hm).2 ?_⟩
    rw [h]
    exact x.number_ne_zero
  exact ⟨hproper, Factor.number_injective (hproper.number_factor.trans h)⟩

/-- Proper magnitudes are equal if they are one factor. -/
theorem IsProper.eq_of_factor (ha : a.IsProper) (hb : b.IsProper) (h : a.factor = b.factor) :
    a = b := by
  apply eq_of_number ha.exact hb.exact
  rw [← ha.number_factor, h, hb.number_factor]

theorem isProper_one : one.IsProper := ⟨rfl, rfl⟩

theorem factor_one : one.factor = 0 := (factor_of_number (x := 0) rfl rfl).2

theorem IsProper.mul (ha : a.IsProper) (hb : b.IsProper) (h : a.mul b = .ok m) :
    m.IsProper ∧ m.factor = a.factor + b.factor := by
  obtain ⟨hm, hnumber⟩ := (mul_eq_ok_iff ha.exact hb.exact).1 h
  refine factor_of_number hm ?_
  rw [hnumber, Factor.number_add, ha.number_factor, hb.number_factor]

theorem IsProper.div (ha : a.IsProper) (hb : b.IsProper) (h : a.div b = .ok m) :
    m.IsProper ∧ m.factor = a.factor - b.factor := by
  obtain ⟨-, hm, hnumber⟩ := (div_eq_ok_iff ha.exact hb.exact).1 h
  refine factor_of_number hm (PiMultiple.mul_right_cancel hb.number_ne_zero ?_)
  rw [hnumber, ← hb.number_factor, Factor.number_sub_mul, ha.number_factor]

theorem IsProper.pow (ha : a.IsProper) (h : a.pow n = .ok m) :
    m.IsProper ∧ m.factor = n.val • a.factor := by
  refine factor_of_number (isExact_pow ha.exact h) ?_
  rw [number_pow ha.exact h, Factor.number_zsmul, ha.number_factor]

theorem IsProper.recip (ha : a.IsProper) (h : a.recip = .ok m) :
    m.IsProper ∧ m.factor = -a.factor := by
  obtain ⟨hm, hfactor⟩ := isProper_one.div ha h
  rw [factor_one, zero_sub] at hfactor
  exact ⟨hm, hfactor⟩

/-- A product of powers of proper magnitudes is the sum of their factors, each as often as its
power says. -/
theorem factor_powerProduct {fs : List (Magnitude × Power)} (hfs : ∀ f ∈ fs, f.1.IsProper)
    (h : powerProduct one fs = .ok m) :
    m.IsProper ∧ m.factor = (fs.map fun f => f.2.val • f.1.factor).sum := by
  obtain ⟨hexact, hnumber⟩ := number_powerProduct rfl (fun f hf => (hfs f hf).exact) h
  refine factor_of_number hexact ?_
  have hfactors : (fs.map fun f => f.1.number.zpow f.2.val) =
      (fs.map fun f => f.2.val • f.1.factor).map Factor.number := by
    rw [List.map_map]
    refine List.map_congr_left fun f hf => ?_
    rw [Function.comp_apply, Factor.number_zsmul, (hfs f hf).number_factor]
  rw [hnumber, Factor.number_sum, hfactors]
  exact one_mul _

end Magnitude

end Metrology
