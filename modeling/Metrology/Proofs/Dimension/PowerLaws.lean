/-
  Metrology.Proofs.Dimension.PowerLaws

  The laws of powers, roots and inverses of dimensions. A power with an exponent other than zero
  is the scaled list of exponents, and a root is what is scaled to this one, so that the laws are
  those of the multiplication of integers. Each law is an equation of dimensions, in which one
  side exists if the other does.
-/
import Metrology.Proofs.Dimension.Formula
import Metrology.Proofs.Dimension.Multiplication

namespace Metrology

/-! ## Lists of exponents -/

namespace Exponents

variable {es fs ps qs : List Exponent} {k m n : Power}

/-- A power overflows exactly if some power in the list leaves the range when it is multiplied. -/
theorem power_overflowsUnless (hes : IsCanonical es) (n : Power) :
    OverflowsUnless (∀ e ∈ es, Width.w32.Fits (e.power.val * n.val)) (power es n)
      fun fs => IsCanonical fs ∧ ∀ b, degree fs b = degree es b * n.val := by
  by_cases hn : n.val = 0
  · have hfits : ∀ e ∈ es, Width.w32.Fits (e.power.val * n.val) := by
      intro e _
      rw [hn, mul_zero]
      exact Width.fits_zero .w32
    refine .of_eq_ok (power_of_eq_zero es hn) hfits ⟨isCanonical_nil, fun b => ?_⟩
    rw [hn, mul_zero, degree_nil]
  · have hscale := OverflowsUnless.mapM (scale_overflowsUnless n) es
    rw [power, if_neg hn]
    refine hscale.imp fun fs hfs => ⟨IsScaled.isCanonical hfs hes hn, fun b => ?_⟩
    exact degree_mapM_scale (mapM_scale_eq_ok.2 hfs) b

/-- Raising to a positive power is undone by the root, and taking a root by the power. -/
theorem root_eq_ok_iff_power (hn : 0 < n.val) : root fs n = .ok es ↔ power es n = .ok fs := by
  rw [root_eq_ok, and_iff_right hn, power_eq_ok hn.ne']

/-- A power of a power is the power with the product of the exponents. -/
theorem power_of_power (hp : power es m = .ok ps) (hk : k.val = m.val * n.val) :
    power ps n = .ok fs ↔ power es k = .ok fs := by
  by_cases hn : n.val = 0
  · have hk0 : k.val = 0 := by rw [hk, hn, mul_zero]
    rw [power_of_eq_zero ps hn, power_of_eq_zero es hk0]
  by_cases hm : m.val = 0
  · -- The zeroth power is empty and stays so.
    have hk0 : k.val = 0 := by rw [hk, hm, zero_mul]
    rw [power_of_eq_zero es hm, Except.ok.injEq] at hp
    rw [power_of_eq_zero es hk0, ← hp, power_eq_ok hn, IsScaled, List.forall₂_nil_left_iff,
      Except.ok.injEq, eq_comm]
  · have hk0 : k.val ≠ 0 := by
      rw [hk]
      exact mul_ne_zero hm hn
    rw [power_eq_ok hn, power_eq_ok hk0, hk]
    exact ((power_eq_ok hm).1 hp).mul_iff

/-- A product of powers is the power with the sum of the exponents. -/
theorem multiply_powers (hes : ∀ e ∈ es, e.power.val ≠ 0) (hp : power es m = .ok ps)
    (hq : power es n = .ok qs) (hk : k.val = m.val + n.val) :
    multiply ps qs = .ok fs ↔ power es k = .ok fs := by
  by_cases hm : m.val = 0
  · obtain rfl : k = n := FixedInt.ext (by rw [hk, hm, zero_add])
    rw [power_of_eq_zero es hm, Except.ok.injEq] at hp
    rw [← hp, nil_multiply, hq]
  by_cases hn : n.val = 0
  · obtain rfl : k = m := FixedInt.ext (by rw [hk, hn, add_zero])
    rw [power_of_eq_zero es hn, Except.ok.injEq] at hq
    rw [← hq, multiply_nil, hp]
  · rw [multiply, merge_scaled_eq_ok hes ((power_eq_ok hm).1 hp) ((power_eq_ok hn).1 hq), ← hk]
    by_cases hk0 : k.val = 0
    · rw [if_pos hk0, power_of_eq_zero es hk0, Except.ok.injEq, eq_comm]
    · rw [if_neg hk0, power_eq_ok hk0]

/-- Dividing the empty list multiplies all powers by minus one. -/
theorem nil_divide (es : List Exponent) : divide [] es = power es (.lit (-1)) := by
  have hn : (FixedInt.lit (-1) : Power).val ≠ 0 := by decide
  rw [divide, merge, power, if_neg hn]

end Exponents

/-! ## Dimensions -/

namespace Dimension

variable {c d p q : Dimension} {k m n : Power}

/-- The power exists exactly if all multiplied powers fit. -/
theorem power_overflowsUnless_fits (hd : d.IsCanonical) (n : Power) :
    OverflowsUnless (∀ e ∈ d.exponents, Width.w32.Fits (e.power.val * n.val)) (d.power n)
      fun c => c.IsCanonical ∧ ∀ b, (c.powerOf b).val = (d.powerOf b).val * n.val := by
  refine (Exponents.power_overflowsUnless hd n).map ?_
  rintro fs ⟨hcanonical, hdegree⟩
  refine ⟨hcanonical, fun b => ?_⟩
  rw [powerOf_val hcanonical, powerOf_val hd]
  exact hdegree b

/-- The root exists exactly if the index is positive and divides all powers. -/
theorem exists_root_iff :
    (∃ c, d.root n = .ok c) ↔ 0 < n.val ∧ ∀ e ∈ d.exponents, n.val ∣ e.power.val := by
  rw [← Exponents.exists_root_iff]
  simp only [root, mk_eq_ok]
  constructor
  · rintro ⟨c, hc⟩
    exact ⟨c.exponents, hc⟩
  · rintro ⟨es, hes⟩
    exact ⟨⟨es⟩, hes⟩

theorem root_eq_ok_iff_power (hn : 0 < n.val) : c.root n = .ok d ↔ d.power n = .ok c := by
  rw [root, mk_eq_ok, power, mk_eq_ok, Exponents.root_eq_ok_iff_power hn]

theorem power_of_root (h : d.root n = .ok c) : c.power n = .ok d :=
  (root_eq_ok_iff_power (index_pos_of_root h)).1 h

/-- The power of a power overflows exactly where the power with the product of the exponents
does, and is equal to it. -/
theorem power_of_power (hp : d.power m = .ok p) (hk : k.val = m.val * n.val) :
    OverflowsUnless (∃ c, d.power k = .ok c) (p.power n) fun c => d.power k = .ok c := by
  refine (overflowsOnly_power p n).overflowsUnless_exists fun c => ?_
  rw [power, mk_eq_ok] at hp
  rw [power, mk_eq_ok, power, mk_eq_ok, Exponents.power_of_power hp hk]

/-- The product of powers overflows exactly where the power with the sum of the exponents does,
and is equal to it. -/
theorem multiply_powers (hd : d.IsCanonical) (hp : d.power m = .ok p) (hq : d.power n = .ok q)
    (hk : k.val = m.val + n.val) :
    OverflowsUnless (∃ c, d.power k = .ok c) (p.multiply q) fun c => d.power k = .ok c := by
  refine (overflowsOnly_multiply p q).overflowsUnless_exists fun c => ?_
  rw [power, mk_eq_ok] at hp hq
  rw [multiply, mk_eq_ok, power, mk_eq_ok, Exponents.multiply_powers hd.nonzero hp hq hk]

/-- Inversion is the power minus one, failures included. -/
theorem power_neg_one (d : Dimension) : d.power (.lit (-1)) = d.invert := by
  rw [power, ← Exponents.nil_divide]
  rfl

theorem power_one (d : Dimension) : d.power 1 = .ok d := by
  rw [power, mk_eq_ok, Exponents.power_eq_ok one_ne_zero]
  exact Exponents.isScaled_one d.exponents

/-- Minus one times minus one is one. -/
theorem invert_of_invert (h : d.invert = .ok c) : c.invert = .ok d := by
  rw [← power_neg_one] at h ⊢
  have hproduct : (1 : Power).val =
      (FixedInt.lit (-1) : Power).val * (FixedInt.lit (-1) : Power).val := rfl
  obtain ⟨b, hb, hpower⟩ := (power_of_power h hproduct).ok ⟨d, power_one d⟩
  rw [hb, ← hpower, power_one]

/-- The power with exponent `n` exists exactly if every power in the dimension times `n` fits,
and the root of index `n` exactly if `n` is positive and divides every power. A positive power
and the root of the same index undo each other. Products of powers add the exponents, and powers
of powers multiply them. The inverse is the power minus one, and is its own inverse. -/
theorem power_root_laws (hd : d.IsCanonical) (m n : Power) :
    OverflowsUnless (∀ e ∈ d.exponents, Width.w32.Fits (e.power.val * n.val)) (d.power n)
      (fun c => c.IsCanonical ∧ ∀ b, (c.powerOf b).val = (d.powerOf b).val * n.val) ∧
    ((∃ c, d.root n = .ok c) ↔ 0 < n.val ∧ ∀ e ∈ d.exponents, n.val ∣ e.power.val) ∧
    (∀ c, 0 < n.val → d.power n = .ok c → c.root n = .ok d) ∧
    (∀ c, d.root n = .ok c → c.power n = .ok d) ∧
    (∀ p q k, d.power m = .ok p → d.power n = .ok q → k.val = m.val + n.val →
      OverflowsUnless (∃ c, d.power k = .ok c) (p.multiply q) fun c => d.power k = .ok c) ∧
    (∀ p k, d.power m = .ok p → k.val = m.val * n.val →
      OverflowsUnless (∃ c, d.power k = .ok c) (p.power n) fun c => d.power k = .ok c) ∧
    d.power (.lit (-1)) = d.invert ∧ ∀ c, d.invert = .ok c → c.invert = .ok d := by
  have hroot (c : Dimension) (hn : 0 < n.val) : d.power n = .ok c → c.root n = .ok d :=
    (root_eq_ok_iff_power hn).2
  exact ⟨power_overflowsUnless_fits hd n, exists_root_iff, hroot, fun c => power_of_root,
    fun p q k => multiply_powers hd, fun p k => power_of_power, power_neg_one d,
    fun c => invert_of_invert⟩

/-- The square of length over time. -/
def speedSquared : Dimension := ⟨[⟨Systems.length, .lit 2⟩, ⟨Systems.time, .lit (-2)⟩]⟩

/-- The square of time over length. -/
def overSpeedSquared : Dimension := ⟨[⟨Systems.length, .lit (-2)⟩, ⟨Systems.time, .lit 2⟩]⟩

/-- The square of a speed has the speed as its root, and times the power minus two it is a pure
number; the inverse of a speed has the speed as its inverse. -/
theorem power_root_laws_speed :
    speed.IsCanonical ∧ speedSquared.root (.lit 2) = .ok speed ∧
      overSpeedSquared.multiply speedSquared = .ok dimensionless ∧
      speed.power (.lit (-4)) = overSpeedSquared.power (.lit 2) ∧
      ∃ c, speed.invert = .ok c ∧ c.invert = .ok speed := by
  obtain ⟨-, -, hroot, -, hproduct, hpower, -, hinvert⟩ :=
    power_root_laws isCanonical_speed (.lit (-2)) (.lit 2)
  have hsquare : speed.power (.lit 2) = .ok speedSquared := by cbv
  have hover : speed.power (.lit (-2)) = .ok overSpeedSquared := by cbv
  have hzeroth : speed.power 0 = .ok dimensionless := by cbv
  have hfourth : ∃ c, speed.power (.lit (-4)) = .ok c := ⟨_, by cbv⟩
  have hinverse : ∃ c, speed.invert = .ok c := ⟨_, by cbv⟩
  refine ⟨isCanonical_speed, hroot _ (by decide) hsquare, ?_, ?_, ?_⟩
  · obtain ⟨c, hc, hc0⟩ := (hproduct _ _ 0 hover hsquare rfl).ok ⟨_, hzeroth⟩
    rw [hc, ← hc0, hzeroth]
  · obtain ⟨c, hc, hc4⟩ := (hpower _ (.lit (-4)) hover rfl).ok hfourth
    rw [hc, hc4]
  · obtain ⟨c, hc⟩ := hinverse
    exact ⟨c, hc, hinvert c hc⟩

end Dimension

end Metrology
