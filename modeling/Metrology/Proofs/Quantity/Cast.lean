/-
  Metrology.Proofs.Quantity.Cast

  Casts of exactly kept quantities across unit systems. A rational factor neither rounds nor
  truncates, so a cast keeps what the quantity is worth in canonical units, and whatever units
  it passes through, only the last one matters.
-/
import Metrology.Proofs.MeasureUnit.Bridge

namespace Metrology

open MeasureUnit (siMetre siKilometre cgsCentimetre)

namespace Quantity

variable {q : Quantity .exact} {b c : MeasureUnit} {x y : Ratio}
  {reference : String → String → Magnitude}

/-- The number of canonical units that the quantity is. -/
def canonicalNumber (q : Quantity .exact) : PiMultiple :=
  .ofRatio q.value * q.unit.canonicalNumber

/-- A cast by a rational factor multiplies the value by it. -/
theorem castTo_exact (hf : q.unit.bridgeFactor b = .ok (.exact x)) :
    q.castTo b = .ok ⟨q.value * x, b⟩ := by
  have hvalue : Representation.exact.rescale q.value (.exact x) = .ok (q.value * x) :=
    (Representation.rescale_eq_ok Representation.isExact_exact fun h => nomatch h).2 rfl
  rw [castTo, hf, ok_bind, hvalue]
  rfl

/-- A cast by a rational factor keeps what the quantity is worth, whichever unit system the
target belongs to. -/
theorem canonicalNumber_castTo (hq : q.unit.Follows reference) (hb : b.Follows reference)
    (hf : q.unit.bridgeFactor b = .ok (.exact x)) :
    (⟨q.value * x, b⟩ : Quantity .exact).canonicalNumber = q.canonicalNumber := by
  obtain ⟨-, hnumber⟩ := hq.number_bridgeFactor hb hf
  rw [canonicalNumber, canonicalNumber, ← hnumber, PiMultiple.ofRatio_mul, mul_assoc]
  rfl

/-- The factor back undoes a rational factor. -/
theorem castTo_back (hq : q.unit.Follows reference) (hb : b.Follows reference)
    (hf : q.unit.bridgeFactor b = .ok (.exact x)) :
    (⟨q.value * x, b⟩ : Quantity .exact).castTo q.unit = .ok q := by
  have hback : b.bridgeFactor q.unit = .ok (.exact x⁻¹) := MeasureUnit.bridgeFactor_back hq hb hf
  have hx : x ≠ 0 := hq.factor_ne_zero hb hf
  rw [castTo_exact (q := ⟨q.value * x, b⟩) hback, mul_assoc, mul_inv_cancel₀ hx, mul_one]

/-- A cast over a unit in between gives what the direct cast gives. -/
theorem castTo_trans (hq : q.unit.Follows reference) (hb : b.Follows reference)
    (hc : c.Follows reference) (hf : q.unit.bridgeFactor b = .ok (.exact x))
    (hg : b.bridgeFactor c = .ok (.exact y)) :
    (⟨q.value * x, b⟩ : Quantity .exact).castTo c = q.castTo c := by
  rw [castTo_exact (q := ⟨q.value * x, b⟩) hg,
    castTo_exact (MeasureUnit.bridgeFactor_trans hq hb hc hf hg), mul_assoc]

/-! ## Coherence -/

/-- Casting is coherent wherever a name and a reference unit determine one reference magnitude.
Being of one physical quantity is an equivalence. Between units of one physical quantity, in
whichever systems, the factor of a unit to itself is one, factors along a chain multiply, and
the factor back is the reciprocal, as far as they are in range. A cast of an exact quantity by a
rational factor gives the value times the factor in the target unit and keeps what the quantity
is worth, the cast back restores the quantity, and a cast over a unit in between gives what the
direct cast gives. -/
theorem bridge_cast_coherent (reference : String → String → Magnitude) :
    Equivalence Dimension.IsRelated ∧
    (∀ u : MeasureUnit, u.Follows reference →
      u.bridgeFactor u = .ok .one ∧
      ∀ m, u.canonicalMagnitude = .ok m → m.number? = some u.canonicalNumber) ∧
    ∀ a b c : MeasureUnit, a.Follows reference → b.Follows reference → c.Follows reference →
      (∀ f g h, a.bridgeFactor b = .ok f → b.bridgeFactor c = .ok g → a.bridgeFactor c = .ok h →
        f.mul g = .ok h) ∧
      (∀ f g, a.bridgeFactor b = .ok f → b.bridgeFactor a = .ok g → f.recip = .ok g) ∧
      ∀ (q : Quantity .exact) (x : Ratio), q.unit = a → a.bridgeFactor b = .ok (.exact x) →
        ∃ p : Quantity .exact, q.castTo b = .ok p ∧ p.unit = b ∧ p.value = q.value * x ∧
          p.canonicalNumber = q.canonicalNumber ∧ p.castTo a = .ok q ∧
          ∀ y, b.bridgeFactor c = .ok (.exact y) →
            ∃ z : Quantity .exact, p.castTo c = .ok z ∧ q.castTo c = .ok z ∧ z.unit = c ∧
              z.value = p.value * y := by
  refine ⟨Dimension.isRelated_equivalence, fun u hu =>
    ⟨MeasureUnit.bridgeFactor_self hu.magnitude, fun m hm => ?_⟩, fun a b c ha hb hc =>
    ⟨fun f g h hf hg hh => ha.bridgeFactor_mul hb hc hf hg hh, fun f g hf hg =>
      ha.bridgeFactor_recip hb hf hg, ?_⟩⟩
  · obtain ⟨hexact, hnumber⟩ := MeasureUnit.number_canonicalMagnitude hu.hasExactScale hm
    rw [Magnitude.number?_eq hexact, hnumber]
  · rintro q x rfl hf
    refine ⟨⟨q.value * x, b⟩, castTo_exact hf, rfl, rfl, canonicalNumber_castTo ha hb hf,
      castTo_back ha hb hf, fun y hg => ⟨_, castTo_exact hg, ?_, rfl, rfl⟩⟩
    rw [← castTo_trans ha hb hc hf hg, castTo_exact hg]

/-- What the reference units of both mechanical systems are worth. -/
def mechanicalReference (_ referenceUnit : String) : Magnitude :=
  if referenceUnit = "cm" then .exact (mkRat 1 100)
  else if referenceUnit = "g" then .exact (mkRat 1 1000)
  else .one

/-- Seven metres over the centimetre of the other system to the kilometre. -/
theorem bridge_cast_coherent_metres :
    ∃ p : Quantity .exact, (⟨7, siMetre⟩ : Quantity .exact).castTo cgsCentimetre = .ok p ∧
      p.unit = cgsCentimetre ∧ p.value = 7 * 100 ∧ p.castTo siMetre = .ok ⟨7, siMetre⟩ ∧
      ∃ z : Quantity .exact, p.castTo siKilometre = .ok z ∧
        (⟨7, siMetre⟩ : Quantity .exact).castTo siKilometre = .ok z ∧ z.unit = siKilometre ∧
        z.value = p.value * mkRat 1 100000 := by
  have hmetre : siMetre.Follows mechanicalReference :=
    ⟨⟨rfl, rfl⟩, List.forall_mem_singleton.2 ⟨⟨rfl, rfl⟩, rfl⟩⟩
  have hkilometre : siKilometre.Follows mechanicalReference :=
    ⟨⟨rfl, rfl⟩, List.forall_mem_singleton.2 ⟨⟨rfl, rfl⟩, rfl⟩⟩
  have hcentimetre : cgsCentimetre.Follows mechanicalReference :=
    ⟨⟨rfl, rfl⟩, List.forall_mem_singleton.2 ⟨⟨rfl, rfl⟩, rfl⟩⟩
  have hthere : siMetre.bridgeFactor cgsCentimetre = .ok (.exact 100) := by
    with_unfolding_all rfl
  have hon : cgsCentimetre.bridgeFactor siKilometre = .ok (.exact (mkRat 1 100000)) := by
    with_unfolding_all rfl
  obtain ⟨-, -, hcast⟩ := (bridge_cast_coherent mechanicalReference).2.2 siMetre cgsCentimetre
    siKilometre hmetre hcentimetre hkilometre
  obtain ⟨p, hp, hunit, hvalue, -, hback, hdirect⟩ := hcast ⟨7, siMetre⟩ 100 rfl hthere
  exact ⟨p, hp, hunit, hvalue, hback, hdirect _ hon⟩

end Quantity

end Metrology
