/-
  Metrology.Proofs.MeasureUnit.Bridge

  Factors between units across unit systems. With exact reference magnitudes a factor is the
  quotient of what the two units are worth in canonical units, on either branch of its
  definition, so factors along a chain of units multiply.
-/
import Metrology.MeasureUnit.Conversion
import Metrology.Proofs.Dimension.Bridging
import Metrology.Proofs.Quantity.Conversion
import Metrology.Systems.Mechanics

namespace Metrology

namespace MeasureUnit

variable {a b c t u : MeasureUnit} {f g h m : Magnitude} {p q : Ratio}

/-! ## Canonical units -/

/-- The magnitude of the unit and all reference magnitudes in its dimension are exact. -/
structure HasExactScale (u : MeasureUnit) : Prop where
  magnitude : u.magnitude.isExact = true
  references : u.dimension.HasExactReferences

/-- The number of canonical units that the unit is. -/
def canonicalNumber (u : MeasureUnit) : PiMultiple :=
  u.magnitude.number * u.dimension.referenceNumber

theorem canonicalMagnitude_eq_ok :
    u.canonicalMagnitude = .ok m ↔
      ∃ r, u.dimension.referenceMagnitude = .ok r ∧ u.magnitude.mul r = .ok m := by
  simp only [canonicalMagnitude, bind_eq_ok, lift_eq_ok]

theorem number_canonicalMagnitude (hu : u.HasExactScale) (h : u.canonicalMagnitude = .ok m) :
    m.isExact = true ∧ m.number = u.canonicalNumber := by
  obtain ⟨r, hr, hm⟩ := canonicalMagnitude_eq_ok.1 h
  obtain ⟨hexact, hnumber⟩ := Dimension.number_referenceMagnitude hu.references hr
  rw [Magnitude.mul_eq_ok_iff hu.magnitude hexact, hnumber] at hm
  exact hm

/-! ## Factors -/

theorem bridgeFactor_of_compatible (hab : a.isCompatible b = true) :
    a.bridgeFactor b = .ok f ↔ a.magnitude.div b.magnitude = .ok f := by
  rw [bridgeFactor, if_pos hab, conversionFactor_eq_ok]
  exact and_iff_right hab

theorem bridgeFactor_of_not_compatible (hab : a.isCompatible b = false) :
    a.bridgeFactor b = .ok f ↔ a.dimension.isBridgeable b.dimension = true ∧
      ∃ x y, a.canonicalMagnitude = .ok x ∧ b.canonicalMagnitude = .ok y ∧ x.div y = .ok f := by
  rw [bridgeFactor, hab, if_neg Bool.false_ne_true]
  cases a.dimension.isBridgeable b.dimension with
  | true => simp only [if_true, bind_eq_ok, lift_eq_ok, exists_and_left, true_and]
  | false => simp

/-- The factor times what the target is worth is what the source is worth. -/
theorem number_bridgeFactor (ha : a.HasExactScale) (hb : b.HasExactScale)
    (hdimension : a.isCompatible b = true → a.dimension = b.dimension)
    (hf : a.bridgeFactor b = .ok f) :
    f.isExact = true ∧ f.number * b.canonicalNumber = a.canonicalNumber := by
  cases hab : a.isCompatible b with
  | true =>
    rw [bridgeFactor_of_compatible hab, Magnitude.div_eq_ok_iff ha.magnitude hb.magnitude] at hf
    obtain ⟨-, hexact, hnumber⟩ := hf
    refine ⟨hexact, ?_⟩
    rw [canonicalNumber, canonicalNumber, ← mul_assoc, hnumber, hdimension hab]
  | false =>
    obtain ⟨-, x, y, hx, hy, hf⟩ := (bridgeFactor_of_not_compatible hab).1 hf
    obtain ⟨hxexact, hxnumber⟩ := number_canonicalMagnitude ha hx
    obtain ⟨hyexact, hynumber⟩ := number_canonicalMagnitude hb hy
    rw [Magnitude.div_eq_ok_iff hxexact hyexact, hxnumber, hynumber] at hf
    exact hf.2

/-- Between units of one dimension the way over the second unit gives the factor of the first
one, whatever the dimension of the target is. -/
theorem conversionFactor_mul_bridgeFactor (ha : a.HasExactScale) (hb : b.HasExactScale)
    (ht : t.HasExactScale) (hdimension : a.dimension = b.dimension)
    (hf : a.bridgeFactor t = .ok f) (hg : a.conversionFactor b = .ok g)
    (hh : b.bridgeFactor t = .ok h) : g.mul h = .ok f := by
  obtain ⟨-, hg⟩ := conversionFactor_eq_ok.1 hg
  obtain ⟨-, hgexact, hgnumber⟩ := (Magnitude.div_eq_ok_iff ha.magnitude hb.magnitude).1 hg
  -- Both factors to the target are on one branch, since the dimension is one.
  cases hat : a.isCompatible t with
  | true =>
    have hbt : b.isCompatible t = true := by rwa [isCompatible, ← hdimension]
    rw [bridgeFactor_of_compatible hat] at hf
    rw [bridgeFactor_of_compatible hbt] at hh
    exact Magnitude.mul_of_div ha.magnitude hb.magnitude ht.magnitude hgexact hgnumber hf hh
  | false =>
    have hbt : b.isCompatible t = false := by rwa [isCompatible, ← hdimension]
    obtain ⟨-, x, z, hx, hz, hf⟩ := (bridgeFactor_of_not_compatible hat).1 hf
    obtain ⟨-, y, z', hy, hz', hh⟩ := (bridgeFactor_of_not_compatible hbt).1 hh
    obtain rfl : z = z' := Except.ok.inj (hz.symm.trans hz')
    obtain ⟨hxexact, hxnumber⟩ := number_canonicalMagnitude ha hx
    obtain ⟨hyexact, hynumber⟩ := number_canonicalMagnitude hb hy
    -- The coherent unit of the dimension is worth the same in both.
    have hgcanonical : g.number * y.number = x.number := by
      rw [hynumber, hxnumber, canonicalNumber, canonicalNumber, ← mul_assoc, hgnumber, hdimension]
    exact Magnitude.mul_of_div hxexact hyexact (number_canonicalMagnitude ht hz).1 hgexact
      hgcanonical hf hh

/-! ## Units that follow one system of references -/

/-- The magnitude of the unit is exact and not zero, and so are the reference magnitudes in its
dimension, which the name and the reference unit of a base dimension determine. -/
structure Follows (reference : String → String → Magnitude) (u : MeasureUnit) : Prop where
  magnitude : u.magnitude.IsProper
  references : ∀ e ∈ u.dimension.exponents, e.base.referenceMagnitude.IsProper ∧
    e.base.referenceMagnitude = reference e.base.name e.base.referenceUnit

variable {reference : String → String → Magnitude}

theorem Follows.hasExactScale (hu : u.Follows reference) : u.HasExactScale :=
  ⟨hu.magnitude.exact, fun e he => (hu.references e he).1.exact⟩

theorem Follows.canonicalNumber_ne_zero (hu : u.Follows reference) :
    u.canonicalNumber.coefficient ≠ 0 := by
  rw [canonicalNumber, PiMultiple.coefficient_mul]
  exact mul_ne_zero hu.magnitude.number_ne_zero
    (Dimension.referenceNumber_ne_zero fun e he => (hu.references e he).1)

/-- Following one system of references, compatible units have equal dimensions, reference
magnitudes included. -/
theorem Follows.dimension_eq (ha : a.Follows reference) (hb : b.Follows reference)
    (hab : a.isCompatible b = true) : a.dimension = b.dimension := by
  refine congrArg Dimension.mk (Exponents.eq_of_same hab fun x hx y hy hsame => ?_)
  obtain ⟨hname, hunit⟩ := BaseDimension.same_iff.1 hsame
  have hmagnitude : x.base.referenceMagnitude = y.base.referenceMagnitude := by
    rw [(ha.references x hx).2, (hb.references y hy).2, hname, hunit]
  exact BaseDimension.mk.injEq _ _ _ _ _ _ ▸ ⟨hname, hunit, hmagnitude⟩

theorem Follows.number_bridgeFactor (ha : a.Follows reference) (hb : b.Follows reference)
    (hf : a.bridgeFactor b = .ok f) :
    f.isExact = true ∧ f.number * b.canonicalNumber = a.canonicalNumber :=
  MeasureUnit.number_bridgeFactor ha.hasExactScale hb.hasExactScale (ha.dimension_eq hb) hf

theorem Follows.factor_ne_zero (ha : a.Follows reference) (hb : b.Follows reference)
    (hf : a.bridgeFactor b = .ok f) : f.number.coefficient ≠ 0 := by
  have hne := ha.canonicalNumber_ne_zero
  rw [← (ha.number_bridgeFactor hb hf).2, PiMultiple.coefficient_mul] at hne
  exact left_ne_zero_of_mul hne

theorem bridgeFactor_self (ha : a.magnitude.IsProper) : a.bridgeFactor a = .ok .one := by
  rw [bridgeFactor_of_compatible (isCompatible_refl a), ha.div_self]

/-- Factors along a chain of units multiply, in whichever systems the units are. -/
theorem Follows.bridgeFactor_mul (ha : a.Follows reference) (hb : b.Follows reference)
    (hc : c.Follows reference) (hf : a.bridgeFactor b = .ok f) (hg : b.bridgeFactor c = .ok g)
    (hh : a.bridgeFactor c = .ok h) : f.mul g = .ok h := by
  obtain ⟨hfexact, hfnumber⟩ := ha.number_bridgeFactor hb hf
  obtain ⟨hgexact, hgnumber⟩ := hb.number_bridgeFactor hc hg
  obtain ⟨hhexact, hhnumber⟩ := ha.number_bridgeFactor hc hh
  exact (Magnitude.mul_eq_ok_iff hfexact hgexact).2 ⟨hhexact,
    (PiMultiple.mul_eq_of_chain hc.canonicalNumber_ne_zero hfnumber hgnumber hhnumber).symm⟩

/-- The factor back is the reciprocal. -/
theorem Follows.bridgeFactor_recip (ha : a.Follows reference) (hb : b.Follows reference)
    (hf : a.bridgeFactor b = .ok f) (hg : b.bridgeFactor a = .ok g) : f.recip = .ok g := by
  obtain ⟨hfexact, hfnumber⟩ := ha.number_bridgeFactor hb hf
  obtain ⟨hgexact, hgnumber⟩ := hb.number_bridgeFactor ha hg
  rw [Magnitude.recip, Magnitude.div_eq_ok_iff rfl hfexact, Magnitude.isZero_eq_false_iff hfexact]
  exact ⟨ha.factor_ne_zero hb hf, hgexact,
    PiMultiple.mul_eq_of_chain hb.canonicalNumber_ne_zero hgnumber hfnumber (one_mul _)⟩

/-! ## Rational factors -/

/-- A factor is the ratio `q` exactly if the units measure one physical quantity and `q` times
what the target is worth is what the source is worth. Only the canonical magnitudes, which
bridging needs, may be out of range. -/
theorem bridgeFactor_exact_iff (ha : a.Follows reference) (hb : b.Follows reference) :
    a.bridgeFactor b = .ok (.exact q) ↔
      a.dimension.IsRelated b.dimension ∧
      (a.isCompatible b = false →
        (∃ x, a.canonicalMagnitude = .ok x) ∧ ∃ y, b.canonicalMagnitude = .ok y) ∧
      PiMultiple.ofRatio q * b.canonicalNumber = a.canonicalNumber := by
  constructor
  · intro hf
    refine ⟨?_, fun hab => ?_, (ha.number_bridgeFactor hb hf).2⟩
    · cases hab : a.isCompatible b with
      | true => exact .inl hab
      | false => exact .inr ((bridgeFactor_of_not_compatible hab).1 hf).1
    · obtain ⟨-, x, y, hx, hy, -⟩ := (bridgeFactor_of_not_compatible hab).1 hf
      exact ⟨⟨x, hx⟩, y, hy⟩
  · rintro ⟨hrelated, hcanonical, hnumber⟩
    cases hab : a.isCompatible b with
    | true =>
      rw [bridgeFactor_of_compatible hab,
        Magnitude.div_eq_ok_iff ha.magnitude.exact hb.magnitude.exact]
      refine ⟨hb.magnitude.not_zero, rfl, ?_⟩
      -- What the coherent unit is worth cancels.
      have hne := Dimension.referenceNumber_ne_zero fun e he => (hb.references e he).1
      apply PiMultiple.mul_right_cancel hne
      rw [canonicalNumber, canonicalNumber, ha.dimension_eq hb hab, ← mul_assoc] at hnumber
      exact hnumber
    | false =>
      obtain ⟨⟨x, hx⟩, y, hy⟩ := hcanonical hab
      obtain ⟨hxexact, hxnumber⟩ := number_canonicalMagnitude ha.hasExactScale hx
      obtain ⟨hyexact, hynumber⟩ := number_canonicalMagnitude hb.hasExactScale hy
      refine (bridgeFactor_of_not_compatible hab).2
        ⟨hrelated.resolve_left (Bool.eq_false_iff.1 hab), x, y, hx, hy, ?_⟩
      rw [Magnitude.div_eq_ok_iff hxexact hyexact, Magnitude.isZero_eq_false_iff hyexact, hxnumber,
        hynumber]
      exact ⟨hb.canonicalNumber_ne_zero, rfl, hnumber⟩

/-- Back from a rational factor there is always one, the reciprocal. -/
theorem bridgeFactor_back (ha : a.Follows reference) (hb : b.Follows reference)
    (hf : a.bridgeFactor b = .ok (.exact q)) : b.bridgeFactor a = .ok (.exact q⁻¹) := by
  obtain ⟨hrelated, hcanonical, hnumber⟩ := (bridgeFactor_exact_iff ha hb).1 hf
  refine (bridgeFactor_exact_iff hb ha).2
    ⟨Dimension.isRelated_equivalence.symm hrelated, fun hba => ?_,
      PiMultiple.ofRatio_inv_mul ha.canonicalNumber_ne_zero hnumber⟩
  have hab : a.isCompatible b = false := Bool.eq_false_iff.2 fun hab =>
    Bool.eq_false_iff.1 hba (isCompatible_symm hab)
  exact (hcanonical hab).symm

/-- Units with a rational factor have one power of pi, so if the canonical magnitude of the
target is in range, so is that of the source. -/
theorem exists_canonicalMagnitude (ha : a.Follows reference) (hb : b.Follows reference)
    (hf : a.bridgeFactor b = .ok (.exact q)) (h : ∃ y, b.canonicalMagnitude = .ok y) :
    ∃ x, a.canonicalMagnitude = .ok x := by
  obtain ⟨-, hcanonical, -⟩ := (bridgeFactor_exact_iff ha hb).1 hf
  cases hab : a.isCompatible b with
  | false => exact (hcanonical hab).1
  | true =>
    obtain ⟨y, hy⟩ := h
    obtain ⟨r, hr, hy⟩ := canonicalMagnitude_eq_ok.1 hy
    rw [← ha.dimension_eq hb hab] at hr
    obtain ⟨hrexact, -⟩ := Dimension.number_referenceMagnitude ha.hasExactScale.references hr
    rw [bridgeFactor_of_compatible hab,
      Magnitude.div_eq_ok_iff ha.magnitude.exact hb.magnitude.exact] at hf
    obtain ⟨-, -, hnumber⟩ := hf
    rw [Magnitude.mul_eq_ok_iff hb.magnitude.exact hrexact] at hy
    obtain ⟨hyexact, hynumber⟩ := hy
    -- The rational factor times the product for the target is the one for the source.
    obtain ⟨c, k, rfl⟩ := Magnitude.isExact_iff.1 hyexact
    refine ⟨⟨.exact (q * c), k⟩, canonicalMagnitude_eq_ok.2 ⟨r, hr, ?_⟩⟩
    rw [Magnitude.mul_eq_ok_iff ha.magnitude.exact hrexact, ← hnumber, mul_assoc, ← hynumber]
    exact ⟨rfl, PiMultiple.eq_iff.2 ⟨rfl, (zero_add _).symm⟩⟩

/-- Over two rational factors there is always one from the first unit to the last, their
product. -/
theorem bridgeFactor_trans (ha : a.Follows reference) (hb : b.Follows reference)
    (hc : c.Follows reference) (hf : a.bridgeFactor b = .ok (.exact p))
    (hg : b.bridgeFactor c = .ok (.exact q)) : a.bridgeFactor c = .ok (.exact (p * q)) := by
  obtain ⟨hab, hcanonical, hnumber⟩ := (bridgeFactor_exact_iff ha hb).1 hf
  obtain ⟨hbc, hcanonical', hnumber'⟩ := (bridgeFactor_exact_iff hb hc).1 hg
  refine (bridgeFactor_exact_iff ha hc).2
    ⟨Dimension.isRelated_equivalence.trans hab hbc, fun hac => ?_, ?_⟩
  · -- One of the two steps bridges, and each step carries the canonical magnitudes along.
    have hmiddle : ∃ y, b.canonicalMagnitude = .ok y := by
      cases habc : a.isCompatible b with
      | false => exact (hcanonical habc).2
      | true =>
        refine (hcanonical' (Bool.eq_false_iff.2 fun hbcc => ?_)).1
        exact Bool.eq_false_iff.1 hac (isCompatible_trans habc hbcc)
    exact ⟨exists_canonicalMagnitude ha hb hf hmiddle,
      exists_canonicalMagnitude hc hb (bridgeFactor_back hb hc hg) hmiddle⟩
  · rw [PiMultiple.ofRatio_mul, mul_assoc, hnumber', hnumber]

/-! ## Units of two systems -/

/-- The metre of the international system. -/
def siMetre : MeasureUnit := Systems.coherentUnit Systems.length "metre"

def siKilometre : MeasureUnit :=
  mk "km" "kilometre" (.ofBase Systems.length) (.integer 1000) (.prefixed .kilo siMetre)

/-- The centimetre of the older system, which is the reference unit there. -/
def cgsCentimetre : MeasureUnit := Systems.coherentUnit Systems.cgsLength "centimetre"

end MeasureUnit

end Metrology
