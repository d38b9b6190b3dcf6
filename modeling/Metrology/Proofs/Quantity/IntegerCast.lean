/-
  Metrology.Proofs.Quantity.IntegerCast

  Casts of integer quantities by rational factors, within a dimension or across unit systems.
  The one thing lost is the fraction, which is cut off toward zero, and the one failure is an
  integer that does not fit.
-/
import Metrology.Proofs.MeasureUnit.Bridge
import Metrology.Proofs.Ratio.Truncation

namespace Metrology

open MeasureUnit (siMetre cgsCentimetre)

namespace Quantity

variable {w : Width} {a b : MeasureUnit} {f : Ratio} {v v' : FixedInt w}
  {z z' : Quantity (.integer w)}

/-- The cast gives the integer part of the product, unless that does not fit. -/
theorem castTo_integer_overflowsUnless (hf : a.bridgeFactor b = .ok (.exact f)) (v : FixedInt w) :
    OverflowsUnless (w.Fits (Ratio.trunc (v.val * f)))
      (castTo (⟨v, a⟩ : Quantity (.integer w)) b)
      fun z => z.unit = b ∧ z.value.val = Ratio.trunc (v.val * f) := by
  rw [castTo, hf, ok_bind]
  exact (Representation.rescale_trunc_overflowsUnless v f).bind_ok fun c hc =>
    ⟨⟨c, b⟩, rfl, rfl, hc⟩

theorem value_of_castTo (hf : a.bridgeFactor b = .ok (.exact f))
    (hz : castTo (⟨v, a⟩ : Quantity (.integer w)) b = .ok z) :
    z.value.val = Ratio.trunc (v.val * f) :=
  ((castTo_integer_overflowsUnless hf v).of_ok hz).2

/-- A positive factor keeps the order of values. -/
theorem castTo_mono (hf : a.bridgeFactor b = .ok (.exact f)) (hpos : 0 < f) (hv : v.val ≤ v'.val)
    (hz : castTo (⟨v, a⟩ : Quantity (.integer w)) b = .ok z)
    (hz' : castTo (⟨v', a⟩ : Quantity (.integer w)) b = .ok z') : z.value.val ≤ z'.value.val := by
  rw [value_of_castTo hf hz, value_of_castTo hf hz']
  exact Ratio.trunc_mono (mul_le_mul_of_nonneg_right (Int.cast_le.2 hv) hpos.le)

/-- The negated value gives the negated result. -/
theorem castTo_neg (hf : a.bridgeFactor b = .ok (.exact f)) (hv : v'.val = -v.val)
    (hz : castTo (⟨v, a⟩ : Quantity (.integer w)) b = .ok z)
    (hz' : castTo (⟨v', a⟩ : Quantity (.integer w)) b = .ok z') :
    z'.value.val = -z.value.val := by
  rw [value_of_castTo hf hz, value_of_castTo hf hz', hv, Int.cast_neg, neg_mul, Ratio.trunc_neg]

/-- Casts of integers by a rational factor, between units of one dimension or across unit
systems, cut off the fraction toward zero and do nothing else. The result is the one integer
that is the product of value and factor cut off so, and overflow is what happens exactly
if that integer does not fit. So a positive factor keeps the order of values, and the negated
value has the negated result where both exist. -/
theorem castTo_truncates (hf : a.bridgeFactor b = .ok (.exact f)) :
    (∀ v : FixedInt w, ∃ n, (∀ m, Ratio.IsTruncation (v.val * f) m ↔ m = n) ∧
      OverflowsUnless (w.Fits n) (castTo (⟨v, a⟩ : Quantity (.integer w)) b)
        fun z => z.unit = b ∧ z.value.val = n) ∧
    (0 < f → ∀ (v v' : FixedInt w) (z z' : Quantity (.integer w)), v.val ≤ v'.val →
      castTo ⟨v, a⟩ b = .ok z → castTo ⟨v', a⟩ b = .ok z' → z.value.val ≤ z'.value.val) ∧
    ∀ (v v' : FixedInt w) (z z' : Quantity (.integer w)), v'.val = -v.val →
      castTo ⟨v, a⟩ b = .ok z → castTo ⟨v', a⟩ b = .ok z' → z'.value.val = -z.value.val := by
  refine ⟨fun v => ⟨Ratio.trunc (v.val * f), fun m => ?_, castTo_integer_overflowsUnless hf v⟩,
    fun hpos v v' z z' hv hz hz' => castTo_mono hf hpos hv hz hz',
    fun v v' z z' hv hz hz' => castTo_neg hf hv hz hz'⟩
  rw [Ratio.isTruncation_iff, eq_comm]

/-- From the centimetres of the older system 199 below zero are cast to one metre below zero,
and the greatest number of metres that 32 bits hold is too many centimetres. -/
theorem castTo_truncates_centimetres :
    (∃ z, castTo (⟨FixedInt.lit (-199), cgsCentimetre⟩ : Quantity (.integer .w32)) siMetre =
      .ok z ∧ z.value.val = -1) ∧
    ∃ e, castTo (⟨FixedInt.lit 2147483647, siMetre⟩ : Quantity (.integer .w32)) cgsCentimetre =
      .error e ∧ e.code = .overflow := by
  have hthere : cgsCentimetre.bridgeFactor siMetre = .ok (.exact (mkRat 1 100)) := by
    with_unfolding_all rfl
  have hback : siMetre.bridgeFactor cgsCentimetre = .ok (.exact 100) := by
    with_unfolding_all rfl
  constructor
  · obtain ⟨n, hn, hcast⟩ := (castTo_truncates (w := .w32) hthere).1 (.lit (-199))
    obtain rfl : -1 = n := (hn (-1)).1 (Ratio.isTruncation_iff.2 (by decide +kernel))
    obtain ⟨z, hz, -, hvalue⟩ := hcast.ok (by decide)
    exact ⟨z, hz, hvalue⟩
  · obtain ⟨n, hn, hcast⟩ := (castTo_truncates (w := .w32) hback).1 (.lit 2147483647)
    obtain rfl : 214748364700 = n :=
      (hn 214748364700).1 (Ratio.isTruncation_iff.2 (by decide +kernel))
    exact hcast.overflow (by decide)

end Quantity

end Metrology
