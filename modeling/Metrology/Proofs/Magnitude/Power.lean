/-
  Metrology.Proofs.Magnitude.Power

  Powers of exact magnitudes, zero among them. A power times the magnitude is the next power, and
  only the power of pi can be out of range. The smaller powers exist wherever a greater one does.
-/
import Metrology.Proofs.Magnitude.Number

namespace Metrology

theorem PiMultiple.zpow_mul_self (x : PiMultiple) (n : Nat) :
    x.zpow n * x = x.zpow (n + 1 : Nat) := by
  refine PiMultiple.eq_iff.2 ⟨?_, ?_⟩
  · show x.coefficient ^ (n : Int) * x.coefficient = x.coefficient ^ ((n + 1 : Nat) : Int)
    rw [zpow_natCast, zpow_natCast, pow_succ]
  · show x.power * (n : Int) + x.power = x.power * ((n + 1 : Nat) : Int)
    push_cast
    ring

namespace Magnitude

variable {a b p : Magnitude} {m n : Nat} {k : Power}

/-- The magnitude `p` is exact and is the power of `a` with the exponent `n`. -/
structure IsPower (a : Magnitude) (n : Nat) (p : Magnitude) : Prop where
  exact : p.isExact = true
  number : p.number = a.number.zpow n

theorem isPower_one (ha : a.isExact = true) : a.IsPower 1 a := by
  refine ⟨ha, PiMultiple.eq_iff.2 ⟨?_, ?_⟩⟩
  · exact (zpow_one _).symm
  · exact (mul_one _).symm

theorem IsPower.unique (ha : a.IsPower n p) (hb : a.IsPower n b) : p = b :=
  eq_of_number ha.exact hb.exact (ha.number.trans hb.number.symm)

/-- With a power of a magnitude the smaller powers exist. -/
theorem IsPower.exists_of_le (ha : a.isExact = true) (h : a.IsPower n p) (hmn : m ≤ n) :
    ∃ q, a.IsPower m q := by
  obtain ⟨x, k, rfl⟩ := isExact_iff.1 ha
  obtain ⟨y, l, rfl⟩ := isExact_iff.1 h.exact
  have hpi : l.val = k.val * (n : Int) := (PiMultiple.eq_iff.1 h.number).2
  have hfits := l.fits
  rw [hpi] at hfits
  exact ⟨⟨.exact (x ^ (m : Int)), ⟨_, Width.fits_mul_of_le hfits hmn⟩⟩, rfl, rfl⟩

theorem overflowsOnly_pow (ha : a.isExact = true) (hk : 0 ≤ k.val) :
    OverflowsOnly (Error.lift (a.pow k)) := by
  obtain ⟨x, l, rfl⟩ := isExact_iff.1 ha
  rw [pow]
  intro e he
  cases hpi : l.mul? k with
  | none =>
    rw [hpi] at he
    cases he
    rfl
  | some pi =>
    -- A power that is no negative one exists for every ratio.
    simp only [hpi, Coefficient.pow, Ratio.pow_of_nonneg x hk] at he
    cases he

/-- The power with an exponent that is not negative. -/
theorem pow_overflowsUnless (ha : a.isExact = true) (hk : k.val = n) :
    OverflowsUnless (∃ p, a.IsPower n p) (Error.lift (a.pow k)) (a.IsPower n) := by
  have hnonneg : 0 ≤ k.val := by omega
  refine (overflowsOnly_pow ha hnonneg).overflowsUnless_exists fun p => ?_
  rw [lift_eq_ok]
  constructor
  · intro h
    refine ⟨isExact_pow ha h, ?_⟩
    rw [number_pow ha h, hk]
  · rintro ⟨hp, hnumber⟩
    obtain ⟨x, l, rfl⟩ := isExact_iff.1 ha
    obtain ⟨y, pi, rfl⟩ := isExact_iff.1 hp
    obtain ⟨hcoefficient, hpi⟩ := PiMultiple.eq_iff.1 hnumber
    rw [← hk] at hcoefficient hpi
    exact pow_exact_eq_ok.2 ⟨fun _ => hnonneg, congrArg _ hcoefficient, hpi⟩

theorem overflowsOnly_mul (ha : a.isExact = true) (hb : b.isExact = true) :
    OverflowsOnly (Error.lift (a.mul b)) := by
  obtain ⟨x, k, rfl⟩ := isExact_iff.1 ha
  obtain ⟨y, l, rfl⟩ := isExact_iff.1 hb
  exact (withPower_overflowsUnless _ _).overflowsOnly

/-- One more factor gives the next power. -/
theorem IsPower.mul_overflowsUnless (ha : a.isExact = true) (hp : a.IsPower n p) :
    OverflowsUnless (∃ q, a.IsPower (n + 1) q) (Error.lift (p.mul a)) (a.IsPower (n + 1)) := by
  refine (overflowsOnly_mul hp.exact ha).overflowsUnless_exists fun q => ?_
  rw [lift_eq_ok, mul_eq_ok_iff hp.exact ha, hp.number, PiMultiple.zpow_mul_self]
  constructor
  · rintro ⟨hq, hnumber⟩
    exact ⟨hq, hnumber⟩
  · rintro ⟨hq, hnumber⟩
    exact ⟨hq, hnumber⟩

end Magnitude

end Metrology
