/-
  Metrology.Proofs.Magnitude.Order

  The order of magnitudes. Two exact magnitudes with one power of pi are compared by their ratios,
  all others by their floating-point numbers. These keep the order of the ratios but may be one
  number for different ratios. So the comparison is transitive except between two ratios that
  share a floating-point number, by way of a magnitude that is compared to both by that number.
-/
import Metrology.Proofs.Binary.Order
import Metrology.Proofs.Magnitude.Exact

namespace Metrology.Magnitude

variable {a b c : Magnitude} {x y : Ratio} {k : Power}

/-! ## Two ways of comparison -/

/-- The first magnitude is less than the second one or compares equal to it. -/
def AtMost (a b : Magnitude) : Prop := (a.compareValue b).isLE = true

/-- Both magnitudes are exact with one power of pi, so that their ratios are compared. -/
def IsComparedExactly (a b : Magnitude) : Prop := ∃ x y k, a = ⟨.exact x, k⟩ ∧ b = ⟨.exact y, k⟩

theorem IsComparedExactly.symm (h : IsComparedExactly a b) : IsComparedExactly b a := by
  obtain ⟨x, y, k, ha, hb⟩ := h
  exact ⟨y, x, k, hb, ha⟩

/-- The place of the floating-point number of a magnitude. -/
def roundedPlace (m : Magnitude) : Int := m.toBinary.totalPlace

theorem compareValue_rounded (h : ¬ IsComparedExactly a b) :
    a.compareValue b = cmp a.roundedPlace b.roundedPlace := by
  rw [cmp_eq_compare]
  obtain ⟨x | x, k⟩ := a <;> obtain ⟨y | y, l⟩ := b
  · have hk : k ≠ l := by
      rintro rfl
      exact h ⟨x, y, k, rfl, rfl⟩
    simp only [compareValue, hk, if_false]
    rfl
  all_goals rfl

theorem atMost_exact_iff : AtMost ⟨.exact x, k⟩ ⟨.exact y, k⟩ ↔ x ≤ y := by
  rw [AtMost, compareValue_exact, isLE_cmp_iff]

theorem atMost_rounded_iff (h : ¬ IsComparedExactly a b) :
    AtMost a b ↔ a.roundedPlace ≤ b.roundedPlace := by
  rw [AtMost, compareValue_rounded h, isLE_cmp_iff]

/-- Comparison the other way gives the reverse. -/
theorem compareValue_swap (a b : Magnitude) : b.compareValue a = (a.compareValue b).swap := by
  by_cases h : IsComparedExactly a b
  · obtain ⟨x, y, k, rfl, rfl⟩ := h
    rw [compareValue_exact, compareValue_exact, cmp_swap]
  · rw [compareValue_rounded h, compareValue_rounded (mt IsComparedExactly.symm h), cmp_swap]

theorem compareValue_eq_iff : a.compareValue b = .eq ↔ AtMost a b ∧ AtMost b a := by
  rw [AtMost, AtMost, compareValue_swap a b]
  cases a.compareValue b <;> decide

theorem compareValue_eq_comm : a.compareValue b = .eq ↔ b.compareValue a = .eq := by
  rw [compareValue_eq_iff, compareValue_eq_iff, and_comm]

/-! ## Floating-point numbers -/

theorem isNegative_pi : Binary.pi.isNegative = false := by
  rw [Binary.pi, Binary.ofRat, Binary.isNegative_ofSigned]
  decide

/-- The floating-point numbers of exact magnitudes keep their order, as far as there are any. -/
theorem roundedPlace_mono (hx : (⟨.exact x, k⟩ : Magnitude).toBinary ≠ .nan)
    (hy : (⟨.exact y, k⟩ : Magnitude).toBinary ≠ .nan) (h : x ≤ y) :
    (⟨.exact x, k⟩ : Magnitude).roundedPlace ≤ (⟨.exact y, k⟩ : Magnitude).roundedPlace :=
  Binary.totalPlace_mul_mono (Binary.isNegative_pow isNegative_pi _) hx hy
    (Binary.totalPlace_ofRat_mono h)

theorem roundedPlace_of_atMost (ha : a.toBinary ≠ .nan) (hb : b.toBinary ≠ .nan)
    (h : AtMost a b) : a.roundedPlace ≤ b.roundedPlace := by
  by_cases hexact : IsComparedExactly a b
  · obtain ⟨x, y, k, rfl, rfl⟩ := hexact
    exact roundedPlace_mono ha hb (atMost_exact_iff.1 h)
  · exact (atMost_rounded_iff hexact).1 h

/-! ## Collisions -/

/-- The first and the third magnitude are compared by their ratios and are not in order, but the
second one is compared to both by one floating-point number. -/
def Collide (a b c : Magnitude) : Prop :=
  ∃ x y k, a = ⟨.exact x, k⟩ ∧ c = ⟨.exact y, k⟩ ∧ y < x ∧ (∀ z, b ≠ ⟨.exact z, k⟩) ∧
    a.toBinary = b.toBinary ∧ b.toBinary = c.toBinary

theorem Collide.compareValue (h : Collide a b c) :
    a.compareValue b = .eq ∧ b.compareValue c = .eq ∧ a.compareValue c = .gt := by
  obtain ⟨x, y, k, rfl, rfl, hlt, hb, hab, hbc⟩ := h
  have hfirst : ¬ IsComparedExactly ⟨.exact x, k⟩ b := by
    rintro ⟨_, z, l, ha, rfl⟩
    cases ha
    exact hb z rfl
  have hsecond : ¬ IsComparedExactly b ⟨.exact y, k⟩ := by
    rintro ⟨z, _, l, rfl, hc⟩
    cases hc
    exact hb z rfl
  refine ⟨?_, ?_, ?_⟩
  · rw [compareValue_rounded hfirst, roundedPlace, roundedPlace, hab, cmp_self_eq_eq]
  · rw [compareValue_rounded hsecond, roundedPlace, roundedPlace, hbc, cmp_self_eq_eq]
  · rw [compareValue_exact, hlt.cmp_eq_gt]

/-- Without a collision the comparison goes on from the first magnitude to the third one. -/
theorem AtMost.trans_of_not_collide (ha : a.toBinary ≠ .nan) (hb : b.toBinary ≠ .nan)
    (hc : c.toBinary ≠ .nan) (h : ¬ Collide a b c) (hab : AtMost a b) (hbc : AtMost b c) :
    AtMost a c := by
  have hplaceab := roundedPlace_of_atMost ha hb hab
  have hplacebc := roundedPlace_of_atMost hb hc hbc
  by_contra hac
  by_cases hexact : IsComparedExactly a c
  · obtain ⟨x, y, k, rfl, rfl⟩ := hexact
    rw [atMost_exact_iff, not_le] at hac
    have hplaceca := roundedPlace_mono hc ha hac.le
    refine h ⟨x, y, k, rfl, rfl, hac, ?_, ?_, ?_⟩
    · -- Three exact magnitudes are in the order of their ratios.
      rintro z rfl
      exact hac.not_ge ((atMost_exact_iff.1 hab).trans (atMost_exact_iff.1 hbc))
    · exact Binary.totalPlace_injective (le_antisymm hplaceab (hplacebc.trans hplaceca))
    · exact Binary.totalPlace_injective (le_antisymm hplacebc (hplaceca.trans hplaceab))
  · exact hac ((atMost_rounded_iff hexact).2 (hplaceab.trans hplacebc))

/-! ## Transitivity -/

/-- Comparison the other way gives the reverse. From a magnitude over a second one to a third one
the order is transitive exactly if they do not collide, and so is the comparison as equal, exactly
if they do not collide in either direction. -/
theorem compareValue_correct_iff (ha : a.toBinary ≠ .nan) (hb : b.toBinary ≠ .nan)
    (hc : c.toBinary ≠ .nan) :
    b.compareValue a = (a.compareValue b).swap ∧
    ((AtMost a b → AtMost b c → AtMost a c) ↔ ¬ Collide a b c) ∧
    ((a.compareValue b = .eq → b.compareValue c = .eq → a.compareValue c = .eq) ↔
      ¬ Collide a b c ∧ ¬ Collide c b a) := by
  refine ⟨compareValue_swap a b, ⟨?_, fun h hab hbc => ?_⟩, ⟨fun htrans => ⟨?_, ?_⟩,
    fun h hab hbc => ?_⟩⟩
  · intro htrans hcollide
    obtain ⟨hab, hbc, hac⟩ := hcollide.compareValue
    have hle := htrans (compareValue_eq_iff.1 hab).1 (compareValue_eq_iff.1 hbc).1
    rw [AtMost, hac] at hle
    cases hle
  · exact hab.trans_of_not_collide ha hb hc h hbc
  · intro hcollide
    obtain ⟨hab, hbc, hac⟩ := hcollide.compareValue
    rw [htrans hab hbc] at hac
    cases hac
  · intro hcollide
    obtain ⟨hcb, hba, hca⟩ := hcollide.compareValue
    have hac := htrans (compareValue_eq_comm.1 hba) (compareValue_eq_comm.1 hcb)
    rw [compareValue_eq_comm.1 hac] at hca
    cases hca
  · rw [compareValue_eq_iff] at hab hbc ⊢
    exact ⟨hab.1.trans_of_not_collide ha hb hc h.1 hbc.1,
      hbc.2.trans_of_not_collide hc hb ha h.2 hab.2⟩

/-- One and a half, with an approximate coefficient. -/
def aboutThreeHalves : Magnitude := ⟨.approx (.finite false 4609434218613702656 (by decide)), 0⟩

/-- From one and a half over one half times pi to two, without a collision. -/
theorem compareValue_correct_iff_threeHalves :
    ¬ Collide aboutThreeHalves ⟨.exact (1 / 2), 1⟩ (.exact 2) ∧
      AtMost aboutThreeHalves (.exact 2) := by
  have hcollide : ¬ Collide aboutThreeHalves ⟨.exact (1 / 2), 1⟩ (.exact 2) := by
    rintro ⟨x, y, k, h, -⟩
    cases h
  have h := compareValue_correct_iff (a := aboutThreeHalves) (b := ⟨.exact (1 / 2), 1⟩)
    (c := .exact 2) (by decide +kernel) (by decide +kernel) (by decide +kernel)
  refine ⟨hcollide, h.2.1.2 hcollide ?_ ?_⟩
  · rw [AtMost]
    decide +kernel
  · rw [AtMost]
    decide +kernel

/-- The greatest power of two up to which each integer is a floating-point number. -/
def precisePower : Magnitude := .exact 9007199254740992

/-- The integer after it, which is none. -/
def afterPrecisePower : Magnitude := .exact 9007199254740993

/-- The power of two as an approximate coefficient. -/
def aboutPrecisePower : Magnitude :=
  ⟨.approx (.finite false 4845873199050653696 (by decide)), 0⟩

/-- The integer compares equal to the approximate power of two and this one to the exact power,
which is less than the integer. -/
theorem not_transitive_afterPrecisePower :
    afterPrecisePower.toBinary.isFinite = true ∧ aboutPrecisePower.toBinary.isFinite = true ∧
      precisePower.toBinary.isFinite = true ∧
      afterPrecisePower.compareValue aboutPrecisePower = .eq ∧
      aboutPrecisePower.compareValue precisePower = .eq ∧
      afterPrecisePower.compareValue precisePower = .gt := by
  decide +kernel

end Metrology.Magnitude
