/-
  Metrology.Proofs.Quantity.Lossless

  When a conversion succeeds, and that it can be undone. Between units with exact magnitudes the
  factor decides first: it may leave the range of powers of pi, or lose something, and only then
  the product of the value and the factor has to be held by the number type.
-/
import Metrology.Proofs.Quantity.Conversion
import Metrology.Proofs.MeasureUnit.Bridge

namespace Metrology

/-! ## Factors -/

namespace Representation

variable {r : Representation} {factor : Magnitude} {f : Ratio} {k l : Power}

/-- The factor between powers `k` and `l` of pi with the coefficient `f` loses nothing: no pi is
left of it, and for integers it is an integer. -/
def LosesNothing (r : Representation) (k l : Power) (f : Ratio) : Prop :=
  k = l ∧ (r.kind = .integer → f.isInteger = true)

theorem isLossless_iff_losesNothing (hr : r.IsExact) (hcoefficient : factor.coefficient = .exact f)
    (hpi : factor.pi.val = k.val - l.val) :
    r.isLossless factor = true ↔ r.LosesNothing k l f := by
  rw [isLossless_iff hr]
  constructor
  · rintro ⟨q, rfl, hq⟩
    obtain rfl : q = f := Coefficient.exact.inj hcoefficient
    have hkl : k.val = l.val := sub_eq_zero.1 hpi.symm
    exact ⟨FixedInt.ext hkl, hq⟩
  · rintro ⟨rfl, hf⟩
    obtain ⟨c, pi⟩ := factor
    obtain rfl : c = .exact f := hcoefficient
    obtain rfl : pi = 0 := FixedInt.ext (hpi.trans (Int.sub_self k.val))
    exact ⟨f, rfl, hf⟩

end Representation

namespace MeasureUnit

variable {a b : MeasureUnit} {x y : Ratio} {k l : Power}

/-- Between units of one dimension the factor is the quotient of the magnitudes, unless the
difference of the powers of pi is out of range. -/
theorem conversionFactor_overflowsUnless (hab : a.isCompatible b = true)
    (ha : a.magnitude = ⟨.exact x, k⟩) (hb : b.magnitude = ⟨.exact y, l⟩) (hy : y ≠ 0) :
    OverflowsUnless (Width.w32.Fits (k.val - l.val)) (a.conversionFactor b)
      fun f => f.coefficient = .exact (x / y) ∧ f.pi.val = k.val - l.val := by
  rw [conversionFactor, checkCompatible_of _ hab, ok_bind, ha, hb]
  exact Magnitude.div_exact_overflowsUnless hy

end MeasureUnit

namespace Quantity

variable {r : Representation} {q z : Quantity r} {t c : MeasureUnit} {x y m : Ratio}
  {k l j : Power}

/-! ## When a conversion succeeds -/

section Exact

variable (hr : r.IsExact) (hqt : q.unit.isCompatible t = true)
  (hq : q.unit.magnitude = ⟨.exact x, k⟩) (ht : t.magnitude = ⟨.exact y, l⟩) (hy : y ≠ 0)
include hqt hq ht hy

/-- No factor, no conversion. -/
theorem convertTo_overflow_of_pi (hkl : ¬ Width.w32.Fits (k.val - l.val)) :
    ∃ e, q.convertTo t = .error e ∧ e.code = .overflow := by
  obtain ⟨e, he, hcode⟩ := (MeasureUnit.conversionFactor_overflowsUnless hqt hq ht hy).overflow hkl
  refine ⟨e, ?_, hcode⟩
  rw [convertTo, he, error_bind]

include hr

/-- A factor that loses something is refused, whatever the value. -/
theorem convertTo_narrowing (hkl : Width.w32.Fits (k.val - l.val))
    (hloss : ¬ r.LosesNothing k l (x / y)) :
    ∃ e, q.convertTo t = .error e ∧ e.code = .narrowing := by
  obtain ⟨f, hf, hcoefficient, hpi⟩ :=
    (MeasureUnit.conversionFactor_overflowsUnless hqt hq ht hy).ok hkl
  rw [← Representation.isLossless_iff_losesNothing hr hcoefficient hpi] at hloss
  rw [convertTo, hf, ok_bind, if_neg hloss]
  exact ⟨_, rfl, rfl⟩

/-- By a factor that loses nothing the value is multiplied, and only the range of the number
type is in the way. -/
theorem convertTo_overflowsUnless (hlossless : r.LosesNothing k l (x / y)) :
    OverflowsUnless (r.Holds (r.number q.value * (x / y))) (q.convertTo t)
      fun z => z.unit = t ∧ r.number z.value = r.number q.value * (x / y) := by
  obtain ⟨rfl, hint⟩ := hlossless
  rw [convertTo_of_lossless hr hqt hq ht hy fun hk => (Ratio.isInteger_div_iff hy).1 (hint hk)]
  exact (Representation.rescale_lossless_overflowsUnless hr q.value hint).map fun v hv =>
    ⟨rfl, hv⟩

theorem exists_convertTo_iff :
    (∃ z, q.convertTo t = .ok z) ↔
      r.LosesNothing k l (x / y) ∧ r.Holds (r.number q.value * (x / y)) := by
  by_cases hlossless : r.LosesNothing k l (x / y)
  · rw [(convertTo_overflowsUnless hr hqt hq ht hy hlossless).exists_ok_iff]
    exact (and_iff_right hlossless).symm
  -- Without a lossless factor there is an error, of the one kind or the other.
  have herror : ∃ e, q.convertTo t = .error e := by
    by_cases hkl : Width.w32.Fits (k.val - l.val)
    · obtain ⟨e, he, -⟩ := convertTo_narrowing hr hqt hq ht hy hkl hlossless
      exact ⟨e, he⟩
    · obtain ⟨e, he, -⟩ := convertTo_overflow_of_pi hqt hq ht hy hkl
      exact ⟨e, he⟩
  obtain ⟨e, he⟩ := herror
  simp [he, hlossless]

end Exact

/-! ## Back and onward -/

section Converted

variable (hr : r.IsExact) (hq : q.unit.magnitude = ⟨.exact x, k⟩)
  (ht : t.magnitude = ⟨.exact y, l⟩) (h : q.convertTo t = .ok z)
include hr hq ht h

/-- A cast back to the first unit restores the quantity: the product with the reciprocal of the
factor is the number that was there before, so nothing is truncated and everything fits. -/
theorem castTo_of_convertTo (hx : x ≠ 0) : z.castTo q.unit = .ok q := by
  obtain ⟨hqt, hy, rfl, -, rfl, hnumber⟩ := (convertTo_eq_ok hr hq ht).1 h
  have hfactor : z.unit.bridgeFactor q.unit = .ok (Magnitude.exact (y / x)) := by
    rw [MeasureUnit.bridgeFactor_of_compatible (MeasureUnit.isCompatible_symm hqt), ht, hq]
    exact Magnitude.div_exact_same hx
  have hback : r.number z.value * (y / x) = r.number q.value := by
    rw [← mul_div_assoc, hnumber, mul_div_assoc, div_self hx, mul_one]
  rw [castTo, hfactor, ok_bind, Representation.rescale_of_number hr hback]
  rfl

/-- Ratios are converted back as well. -/
theorem convertTo_back (hkind : r.kind = .exact) (hx : x ≠ 0) : z.convertTo q.unit = .ok q := by
  obtain ⟨hqt, -, rfl, -, rfl, hnumber⟩ := (convertTo_eq_ok hr hq ht).1 h
  refine (convertTo_eq_ok hr ht hq).2
    ⟨MeasureUnit.isCompatible_symm hqt, hx, rfl, fun hk => ?_, rfl, hnumber.symm⟩
  rw [hkind] at hk
  cases hk

/-- A conversion that goes on to a third unit could have gone there at once. -/
theorem convertTo_trans {w : Quantity r} (hc : c.magnitude = ⟨.exact m, j⟩)
    (h' : z.convertTo c = .ok w) : q.convertTo c = .ok w := by
  obtain ⟨hqt, -, rfl, hint, rfl, hnumber⟩ := (convertTo_eq_ok hr hq ht).1 h
  obtain ⟨htc, hm, rfl, hint', hunit, hnumber'⟩ := (convertTo_eq_ok hr ht hc).1 h'
  refine (convertTo_eq_ok hr hq hc).2
    ⟨MeasureUnit.isCompatible_trans hqt htc, hm, rfl, fun hk => ?_, hunit, ?_⟩
  · exact (hint hk).trans (hint' hk)
  · rw [hnumber', hnumber]

end Converted

/-- Implicit conversion is exactly that which loses nothing, and can be undone. Between units of
one dimension whose exact magnitudes are not zero it succeeds exactly if the powers of pi agree,
for integers the quotient of the coefficients is an integer, and the number type holds the
product of the value and the quotient. A difference of the powers of pi that is out of range is
an overflow; otherwise the failure is a narrowing if the powers of pi or the quotient are
in the way, and an overflow if only the range is. On success the value is exactly the product,
the cast back restores the quantity, as does the conversion back for ratios, and a further
conversion gives what the direct one gives. -/
theorem convertTo_exactly_lossless (hr : r.IsExact) (hqt : q.unit.isCompatible t = true)
    (hq : q.unit.magnitude = ⟨.exact x, k⟩) (ht : t.magnitude = ⟨.exact y, l⟩) (hx : x ≠ 0)
    (hy : y ≠ 0) :
    ((∃ z, q.convertTo t = .ok z) ↔
      r.LosesNothing k l (x / y) ∧ r.Holds (r.number q.value * (x / y))) ∧
    (Width.w32.Fits (k.val - l.val) → ¬ r.LosesNothing k l (x / y) →
      ∃ e, q.convertTo t = .error e ∧ e.code = .narrowing) ∧
    (¬ Width.w32.Fits (k.val - l.val) ∨
        r.LosesNothing k l (x / y) ∧ ¬ r.Holds (r.number q.value * (x / y)) →
      ∃ e, q.convertTo t = .error e ∧ e.code = .overflow) ∧
    ∀ z, q.convertTo t = .ok z →
      z.unit = t ∧ r.number z.value = r.number q.value * (x / y) ∧ z.castTo q.unit = .ok q ∧
      (r = .exact → z.convertTo q.unit = .ok q) ∧
      ∀ c w, c.magnitude.isExact = true → z.convertTo c = .ok w → q.convertTo c = .ok w := by
  refine ⟨exists_convertTo_iff hr hqt hq ht hy, convertTo_narrowing hr hqt hq ht hy, ?_,
    fun z h => ?_⟩
  · rintro (hkl | ⟨hlossless, hrange⟩)
    · exact convertTo_overflow_of_pi hqt hq ht hy hkl
    · exact (convertTo_overflowsUnless hr hqt hq ht hy hlossless).overflow hrange
  · obtain ⟨hlossless, -⟩ := (exists_convertTo_iff hr hqt hq ht hy).1 ⟨z, h⟩
    obtain ⟨hunit, hvalue⟩ := (convertTo_overflowsUnless hr hqt hq ht hy hlossless).of_ok h
    refine ⟨hunit, hvalue, castTo_of_convertTo hr hq ht h hx, fun hexact => ?_,
      fun c w hc h' => ?_⟩
    · exact convertTo_back hr hq ht h (hexact ▸ rfl) hx
    · obtain ⟨m, j, hm⟩ := Magnitude.isExact_iff.1 hc
      exact convertTo_trans hr hq ht h hm h'

/-- Three kibibits are 3072 bits and come back from there. A kibibit is no integer number of
kilobits, and the greatest number of kibibits that 32 bits hold is too many bits. -/
theorem convertTo_exactly_lossless_kibibits :
    (∃ z, convertTo (⟨FixedInt.lit 3, .kibibit⟩ : Quantity (.integer .w32)) .bit = .ok z ∧
      z.value.val = 3072 ∧ z.castTo .kibibit = .ok ⟨FixedInt.lit 3, .kibibit⟩) ∧
    (∃ e, convertTo (⟨FixedInt.lit 3, .kibibit⟩ : Quantity (.integer .w32)) .kilobit = .error e ∧
      e.code = .narrowing) ∧
    ∃ e, convertTo (⟨FixedInt.lit 2147483647, .kibibit⟩ : Quantity (.integer .w32)) .bit =
      .error e ∧ e.code = .overflow := by
  have hbits (v : FixedInt .w32) :
      (v.val : Ratio) * (1024 / 1) = ((v.val * 1024 : Int) : Ratio) := by
    push_cast
    ring
  have hlossless : (Representation.integer .w32).LosesNothing 0 0 (1024 / 1) :=
    ⟨rfl, fun _ => Ratio.isInteger_iff.2 ⟨1024, by norm_num⟩⟩
  have hloss : ¬ (Representation.integer .w32).LosesNothing 0 0 (1024 / 1000) := by
    rintro ⟨-, h⟩
    exact absurd (h rfl) (by decide +kernel)
  have htoBit (v : FixedInt .w32) :=
    convertTo_exactly_lossless (q := (⟨v, .kibibit⟩ : Quantity (.integer .w32)))
      (t := .bit) (x := 1024) (y := 1) (k := 0) (l := 0) (Representation.isExact_integer .w32)
      (by rfl) rfl rfl (by norm_num) (by norm_num)
  have htoKilobit :=
    convertTo_exactly_lossless (q := (⟨FixedInt.lit 3, .kibibit⟩ : Quantity (.integer .w32)))
      (t := .kilobit) (x := 1024) (y := 1000) (k := 0) (l := 0)
      (Representation.isExact_integer .w32) (by rfl) rfl rfl (by norm_num) (by norm_num)
  refine ⟨?_, ?_, ?_⟩
  · obtain ⟨hsucceeds, -, -, hresult⟩ := htoBit (.lit 3)
    simp only [Representation.number, hbits, Representation.holds_intCast_iff] at hsucceeds hresult
    obtain ⟨z, hz⟩ := hsucceeds.2 ⟨hlossless, by decide⟩
    obtain ⟨-, hvalue, hback, -⟩ := hresult z hz
    exact ⟨z, hz, Int.cast_injective hvalue, hback⟩
  · exact htoKilobit.2.1 (by decide) hloss
  · obtain ⟨-, -, hoverflow, -⟩ := htoBit (.lit 2147483647)
    simp only [Representation.number, hbits, Representation.holds_intCast_iff] at hoverflow
    exact hoverflow (.inr ⟨hlossless, by decide⟩)

end Quantity

end Metrology
