/-
  Metrology.Proofs.MeasureUnit.Made

  The units that the constructors and operations of units make from exact factors. Their
  magnitudes are exact, and each has the magnitude that its own declaration gives when it is
  worked out again from the units that it was made from.
-/
import Metrology.Catalog.Verify
import Metrology.Proofs.MeasureUnit.Composition

namespace Metrology

namespace MeasureUnit

variable {a b r u : MeasureUnit} {us : List MeasureUnit} {symbol name : String}
  {factor m : Magnitude} {scale : UnitPrefix} {d : Dimension} {n : Power}

/-! ## Constructors -/

theorem scaled_eq_ok :
    scaled symbol name r factor = .ok u ↔ ∃ m, r.magnitude.mul factor = .ok m ∧
      u = mk symbol name r.dimension m (.scaled r) := by
  simp only [scaled, bind_eq_ok, lift_eq_ok, pure, Except.pure, Except.ok.injEq,
    eq_comm (b := u)]

theorem prefixed_eq_ok :
    prefixed scale r = .ok u ↔ r.scale? = none ∧ ∃ f m, scale.magnitude = .ok f ∧
      r.magnitude.mul f = .ok m ∧
        u = mk (scale.symbol ++ r.symbol) (scale.name ++ r.name) r.dimension m
          (.prefixed scale r) := by
  rw [prefixed]
  cases r.scale? with
  | some other => simp [fail]
  | none =>
    simp only [bind_eq_ok, lift_eq_ok, pure, Except.pure, Except.ok.injEq, true_and]
    constructor
    · rintro ⟨f, hf, m, hm, rfl⟩
      exact ⟨f, m, hf, hm, rfl⟩
    · rintro ⟨f, m, hf, hm, rfl⟩
      exact ⟨f, hf, m, hm, rfl⟩

theorem deduced_eq_ok :
    deduced symbol name d us = .ok u ↔ us.length = d.exponents.length ∧
      ∃ m, deducedMagnitude symbol us .one d.exponents = .ok m ∧
        u = mk symbol name d m (.deduced us) := by
  simp only [deduced, check_eq_ok, ne_eq, not_not, bind_eq_ok, pure, Except.pure,
    Except.ok.injEq, eq_comm (b := u)]

/-! ## Made units -/

/-- Made from exact factors, by any number of constructors and operations. -/
inductive IsMade : MeasureUnit → Prop where
  | coherent (symbol name : String) (d : Dimension) : IsMade (.coherent symbol name d)
  | scaled {symbol name : String} {r u : MeasureUnit} {factor : Magnitude} (hr : IsMade r)
      (hfactor : factor.isExact = true) (h : MeasureUnit.scaled symbol name r factor = .ok u) :
      IsMade u
  | prefixed {scale : UnitPrefix} {r u : MeasureUnit} (hr : IsMade r)
      (h : MeasureUnit.prefixed scale r = .ok u) : IsMade u
  | deduced {symbol name : String} {d : Dimension} {us : List MeasureUnit} {u : MeasureUnit}
      (hus : ∀ v ∈ us, IsMade v) (h : MeasureUnit.deduced symbol name d us = .ok u) : IsMade u
  | multiply {a b u : MeasureUnit} (ha : IsMade a) (hb : IsMade b)
      (h : a.multiply b = .ok u) : IsMade u
  | divide {a b u : MeasureUnit} (ha : IsMade a) (hb : IsMade b) (h : a.divide b = .ok u) :
      IsMade u
  | power {a u : MeasureUnit} {n : Power} (ha : IsMade a) (h : a.power n = .ok u) : IsMade u
  | inverse {a u : MeasureUnit} (ha : IsMade a) (h : a.inverse = .ok u) : IsMade u
  | common {a b u : MeasureUnit} (ha : IsMade a) (hb : IsMade b)
      (h : MeasureUnit.common a b = .ok u) : IsMade u
  /-- A copy that has been given a serial number. -/
  | numbered {u : MeasureUnit} (hu : IsMade u) (serial : Nat) : IsMade (u.numbered serial)

@[simp] theorem magnitude_numbered (u : MeasureUnit) (serial : Nat) :
    (u.numbered serial).magnitude = u.magnitude := by
  obtain ⟨symbol, name, d, m, kind, _ | k⟩ := u <;> rfl

@[simp] theorem dimension_numbered (u : MeasureUnit) (serial : Nat) :
    (u.numbered serial).dimension = u.dimension := by
  obtain ⟨symbol, name, d, m, kind, _ | k⟩ := u <;> rfl

/-! ## Exact magnitudes -/

theorem isExact_scale (h : scale.magnitude = .ok m) : m.isExact = true := by
  rw [UnitPrefix.magnitude, map_eq_ok] at h
  obtain ⟨q, -, rfl⟩ := h
  rfl

/-- The product of exact powers is exact, whatever it starts with. -/
theorem isExact_deducedMagnitude {product : Magnitude} {es : List Exponent}
    (hus : ∀ v ∈ us, v.magnitude.isExact = true) (hproduct : product.isExact = true)
    (h : deducedMagnitude symbol us product es = .ok m) : m.isExact = true := by
  induction es generalizing product with
  | nil =>
    cases h
    exact hproduct
  | cons e es ih =>
    rw [deducedMagnitude] at h
    split at h
    · rename_i v hv
      have hmem : v ∈ us := by
        have : v ∈ measuring e.base us := by rw [hv]; exact List.mem_singleton_self v
        exact (List.mem_filter.1 this).1
      simp only [bind_eq_ok, lift_eq_ok] at h
      obtain ⟨power, hpower, next, hnext, h⟩ := h
      exact ih (Magnitude.isExact_mul hproduct (Magnitude.isExact_pow (hus v hmem) hpower) hnext) h
    · cases h

theorem IsMade.isExact (h : u.IsMade) : u.magnitude.isExact = true := by
  induction h with
  | coherent symbol name d => rfl
  | scaled _ hfactor h ihr =>
    obtain ⟨m, hm, rfl⟩ := scaled_eq_ok.1 h
    exact Magnitude.isExact_mul ihr hfactor hm
  | prefixed _ h ihr =>
    obtain ⟨-, f, m, hf, hm, rfl⟩ := prefixed_eq_ok.1 h
    exact Magnitude.isExact_mul ihr (isExact_scale hf) hm
  | deduced _ h ihus =>
    obtain ⟨-, m, hm, rfl⟩ := deduced_eq_ok.1 h
    exact isExact_deducedMagnitude ihus rfl hm
  | multiply _ _ h iha ihb => exact Magnitude.isExact_mul iha ihb (multiply_of_ok h).2
  | divide _ _ h iha ihb => exact Magnitude.isExact_div iha ihb (divide_of_ok h).2
  | power _ h iha =>
    obtain ⟨x, k, hx⟩ := Magnitude.isExact_iff.1 iha
    exact Magnitude.isExact_of_coefficient (power_exact hx h).2.1
  | inverse _ h iha => exact Magnitude.isExact_div rfl iha (inverse_of_ok h).2
  | common _ _ h iha ihb =>
    obtain ⟨-, rfl | rfl | ⟨d, hd, rfl⟩⟩ := common_cases h
    · exact iha
    · exact ihb
    · obtain ⟨x, k, hx⟩ := Magnitude.isExact_iff.1 iha
      obtain ⟨y, l, hy⟩ := Magnitude.isExact_iff.1 ihb
      rw [hx, hy, Magnitude.commonDivisor?_exact_eq_some] at hd
      obtain ⟨-, -, rfl⟩ := hd
      rfl
  | numbered _ serial ih => rwa [magnitude_numbered]

/-! ## Magnitudes worked out again -/

theorem expectedMagnitude_of_composed (h : u.kind = .composed) :
    Catalog.expectedMagnitude u = .ok none := by
  rw [Catalog.expectedMagnitude, h]

/-- The declaration of a made unit gives its magnitude again, where it gives one. -/
theorem IsMade.expectedMagnitude (h : u.IsMade) :
    ∃ expected, Catalog.expectedMagnitude u = .ok expected ∧
      (expected = none ∨ expected = some u.magnitude) := by
  induction h with
  | coherent symbol name d => exact ⟨some .one, rfl, .inr rfl⟩
  | scaled _ _ h _ =>
    obtain ⟨m, -, rfl⟩ := scaled_eq_ok.1 h
    exact ⟨none, if_pos (Dimension.same_refl _), .inl rfl⟩
  | prefixed _ h _ =>
    obtain ⟨-, f, m, hf, hm, rfl⟩ := prefixed_eq_ok.1 h
    refine ⟨some m, ?_, .inr rfl⟩
    simp only [Catalog.expectedMagnitude, kind, hf, hm, lift_ok, ok_bind]
    rfl
  | deduced _ h _ =>
    -- The same constructor is called with what the unit has kept.
    have hagain := h
    obtain ⟨-, m, -, rfl⟩ := deduced_eq_ok.1 h
    refine ⟨some m, ?_, .inr rfl⟩
    simp only [Catalog.expectedMagnitude, kind, MeasureUnit.symbol, MeasureUnit.name, dimension,
      hagain, ok_bind]
    rfl
  | multiply _ _ h _ _ =>
    simp only [MeasureUnit.multiply, bind_eq_ok] at h
    obtain ⟨d, -, m, -, hu⟩ := h
    cases hu
    exact ⟨none, expectedMagnitude_of_composed rfl, .inl rfl⟩
  | divide _ _ h _ _ =>
    simp only [MeasureUnit.divide, bind_eq_ok] at h
    obtain ⟨d, -, m, -, hu⟩ := h
    cases hu
    exact ⟨none, expectedMagnitude_of_composed rfl, .inl rfl⟩
  | @power a u n _ h iha =>
    rw [MeasureUnit.power] at h
    split at h
    · -- The first power is the unit itself.
      cases h
      exact iha
    · simp only [bind_eq_ok] at h
      obtain ⟨d, -, m, -, hu⟩ := h
      cases hu
      exact ⟨none, expectedMagnitude_of_composed rfl, .inl rfl⟩
  | inverse _ h _ =>
    simp only [MeasureUnit.inverse, bind_eq_ok] at h
    obtain ⟨d, -, m, -, hu⟩ := h
    cases hu
    exact ⟨none, expectedMagnitude_of_composed rfl, .inl rfl⟩
  | common _ _ h iha ihb =>
    obtain ⟨-, rfl | rfl | ⟨d, -, rfl⟩⟩ := common_cases h
    · exact iha
    · exact ihb
    · exact ⟨none, rfl, .inl rfl⟩
  | @numbered u _ serial ih =>
    obtain ⟨symbol, name, d, m, kind, _ | k⟩ := u
    · exact ih
    · exact ih

/-- A made unit of a magnitude that is not zero passes the check. -/
theorem IsMade.checkMagnitude (h : u.IsMade) (hzero : u.magnitude.isZero = false) :
    Catalog.checkMagnitude u = .ok ⟨⟩ := by
  obtain ⟨expected, hexpected, hmagnitude⟩ := h.expectedMagnitude
  rw [Catalog.checkMagnitude, hzero, if_neg Bool.false_ne_true, hexpected, ok_bind]
  rcases hmagnitude with rfl | rfl
  · rfl
  · exact if_pos (Magnitude.sameValue_self h.isExact)

end MeasureUnit

end Metrology
