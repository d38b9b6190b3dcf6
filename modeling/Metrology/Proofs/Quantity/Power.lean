/-
  Metrology.Proofs.Quantity.Power

  Powers of quantities against repeated multiplication. The value, the dimension and the magnitude
  of a power are powers themselves, which is kept by one more factor. With a power the smaller
  ones exist, so no product on the way overflows unless the last one does.
-/
import Metrology.Proofs.Dimension.Power
import Metrology.Proofs.Magnitude.Power
import Metrology.Proofs.MeasureUnit.Common
import Metrology.Proofs.Representation.Range
import Metrology.Quantity.Arithmetic

namespace Metrology

namespace MeasureUnit

variable {p u : MeasureUnit} {n : Nat} {k : Power}

/-! ## Powers of units -/

/-- The dimension and the magnitude of `p` are the powers of those of `u`. -/
structure IsPower (u : MeasureUnit) (n : Nat) (p : MeasureUnit) : Prop where
  dimension : u.dimension.IsPower n p.dimension
  magnitude : u.magnitude.IsPower n p.magnitude

/-- There are a dimension and a magnitude that are these powers. -/
def HasPower (u : MeasureUnit) (n : Nat) : Prop :=
  (∃ d, u.dimension.IsPower n d) ∧ ∃ m, u.magnitude.IsPower n m

theorem isPower_one (hu : u.magnitude.isExact = true) : u.IsPower 1 u :=
  ⟨Dimension.isPower_one _, Magnitude.isPower_one hu⟩

theorem IsPower.hasPower (h : u.IsPower n p) : u.HasPower n := ⟨⟨_, h.dimension⟩, _, h.magnitude⟩

/-- The first power is the unit itself, so it is no exception that it is not worked out. -/
theorem power_overflowsUnless (hu : u.magnitude.isExact = true) (hk : k.val = n) (hn : n ≠ 0) :
    OverflowsUnless (u.HasPower n) (u.power k) (u.IsPower n) := by
  rw [power]
  by_cases hone : k.val = 1
  · obtain rfl : n = 1 := by omega
    rw [if_pos hone]
    exact .of_eq_ok rfl (isPower_one hu).hasPower (isPower_one hu)
  · rw [if_neg hone]
    refine (Dimension.power_overflowsUnless u.dimension hk hn).bind fun d hd => ?_
    exact (Magnitude.pow_overflowsUnless hu hk).bind_ok fun m hm => ⟨_, rfl, hd, hm⟩

/-- One more factor gives the next power. -/
theorem IsPower.multiply_overflowsUnless (hu : u.magnitude.isExact = true)
    (hcanonical : u.dimension.IsCanonical) (hp : u.IsPower n p) :
    OverflowsUnless (u.HasPower (n + 1)) (p.multiply u) (u.IsPower (n + 1)) := by
  refine (hp.dimension.multiply_overflowsUnless hcanonical).bind fun d hd => ?_
  exact (hp.magnitude.mul_overflowsUnless hu).bind_ok fun m hm => ⟨_, rfl, hd, hm⟩

end MeasureUnit

namespace Quantity

variable {r : Representation} {x p q : Quantity r} {m n : Nat} {k : Power}

/-! ## Powers of quantities -/

/-- The unit and the value of `p` are the powers of those of `x`. -/
structure IsPower (x : Quantity r) (n : Nat) (p : Quantity r) : Prop where
  unit : x.unit.IsPower n p.unit
  value : r.number p.value = r.number x.value ^ n

/-- There are a dimension, a magnitude and a value that are these powers. -/
def HasPower (x : Quantity r) (n : Nat) : Prop :=
  x.unit.HasPower n ∧ r.Holds (r.number x.value ^ n)

theorem isPower_one (hx : x.unit.magnitude.isExact = true) : x.IsPower 1 x :=
  ⟨MeasureUnit.isPower_one hx, (pow_one _).symm⟩

theorem IsPower.hasPower (h : x.IsPower n p) : x.HasPower n := ⟨h.unit.hasPower, _, h.value⟩

/-- A power is determined up to the names of its unit. -/
theorem IsPower.unique (hr : r.IsExact) (hp : x.IsPower n p) (hq : x.IsPower n q) :
    p.value = q.value ∧ p.unit.dimension = q.unit.dimension ∧
      p.unit.magnitude = q.unit.magnitude :=
  ⟨Representation.number_injective hr (hp.value.trans hq.value.symm),
    hp.unit.dimension.unique hq.unit.dimension, hp.unit.magnitude.unique hq.unit.magnitude⟩

/-- With a power of a quantity the smaller powers exist. -/
theorem HasPower.of_le (hr : r.IsExact) (hx : x.unit.magnitude.isExact = true)
    (h : x.HasPower n) (hmn : m ≤ n) : x.HasPower m := by
  obtain ⟨⟨⟨d, hd⟩, g, hg⟩, hvalue⟩ := h
  exact ⟨⟨hd.exists_of_le hmn, hg.exists_of_le hx hmn⟩,
    Representation.holds_pow_of_le hr x.value hvalue hmn⟩

theorem pow_overflowsUnless (hr : r.IsExact) (hx : x.unit.magnitude.isExact = true)
    (hk : k.val = n) (hn : n ≠ 0) :
    OverflowsUnless (x.HasPower n) (x.pow k) (x.IsPower n) := by
  refine (MeasureUnit.power_overflowsUnless hx hk hn).bind fun u hu => ?_
  exact (Representation.pow_overflowsUnless hr x.value hk).bind_ok fun v hv => ⟨_, rfl, hu, hv⟩

/-- One more factor gives the next power. -/
theorem IsPower.mul_overflowsUnless (hr : r.IsExact) (hx : x.unit.magnitude.isExact = true)
    (hcanonical : x.unit.dimension.IsCanonical) (hp : x.IsPower n p) :
    OverflowsUnless (x.HasPower (n + 1)) (p.mul x) (x.IsPower (n + 1)) := by
  refine (hp.unit.multiply_overflowsUnless hx hcanonical).bind fun u hu => ?_
  rw [pow_succ, ← hp.value]
  refine (Representation.mul_overflowsUnless hr p.value x.value).bind_ok fun v hv =>
    ⟨_, rfl, hu, ?_⟩
  rw [hv, hp.value, pow_succ]

/-! ## Repeated multiplication -/

/-- The product of `n + 1` factors that are all the same quantity, taken from the left. -/
def selfProduct (x : Quantity r) : Nat → Except Error (Quantity r)
  | 0 => .ok x
  | n + 1 => do
    let product ← x.selfProduct n
    product.mul x

/-- Multiplying step by step gives the power. That a product on the way exists is no condition of
its own, since it is a smaller power. -/
theorem selfProduct_overflowsUnless (hr : r.IsExact) (hx : x.unit.magnitude.isExact = true)
    (hcanonical : x.unit.dimension.IsCanonical) (n : Nat) :
    OverflowsUnless (x.HasPower (n + 1)) (x.selfProduct n) (x.IsPower (n + 1)) := by
  induction n with
  | zero => exact .of_eq_ok rfl (isPower_one hx).hasPower (isPower_one hx)
  | succ n ih =>
    have hstep := ih.bind fun p hp => hp.mul_overflowsUnless hr hx hcanonical
    exact hstep.congr (and_iff_right_of_imp fun h => h.of_le hr hx (Nat.le_succ _))

/-- The power of an exactly kept quantity in a unit of exact magnitude is the repeated product,
for every exponent from one on. The dimension of the unit is canonical, as it is however it was
made. The power exists exactly if the product of that many factors does, and otherwise either
fails by overflow; where they exist the values, the dimensions and the magnitudes of the units
are equal. -/
theorem pow_eq_selfProduct (hr : r.IsExact) (hx : x.unit.magnitude.isExact = true)
    (hcanonical : x.unit.dimension.IsCanonical) (hk : k.val = n + 1) :
    ((∃ p, x.pow k = .ok p) ↔ ∃ q, x.selfProduct n = .ok q) ∧
    (∀ p q, x.pow k = .ok p → x.selfProduct n = .ok q →
      p.value = q.value ∧ p.unit.dimension = q.unit.dimension ∧
        p.unit.magnitude = q.unit.magnitude) ∧
    OverflowsOnly (x.pow k) ∧ OverflowsOnly (x.selfProduct n) := by
  have hpow : OverflowsUnless (x.HasPower (n + 1)) (x.pow k) (x.IsPower (n + 1)) :=
    pow_overflowsUnless hr hx hk n.succ_ne_zero
  have hproduct := selfProduct_overflowsUnless hr hx hcanonical n
  refine ⟨?_, fun p q hp hq => (hpow.of_ok hp).unique hr (hproduct.of_ok hq), hpow.overflowsOnly,
    hproduct.overflowsOnly⟩
  rw [hpow.exists_ok_iff, hproduct.exists_ok_iff]

/-- Two kibibits below zero. -/
def negativeKibibits : Quantity (.integer .w32) := ⟨FixedInt.lit (-2), .kibibit⟩

/-- Their 31st power is the least integer of 32 bits, which 31 factors reach one by one. The next
power is out of range, and so is the product of one more factor. -/
theorem pow_eq_selfProduct_kibibits :
    (∃ p q, negativeKibibits.pow (.lit 31) = .ok p ∧ negativeKibibits.selfProduct 30 = .ok q ∧
      p.value = q.value ∧ p.unit.dimension = q.unit.dimension ∧
      p.unit.magnitude = q.unit.magnitude ∧ p.value.val = -2147483648) ∧
    (∃ d, negativeKibibits.pow (.lit 32) = .error d ∧ d.code = .overflow) ∧
    ∃ e, negativeKibibits.selfProduct 31 = .error e ∧ e.code = .overflow := by
  have hcanonical : negativeKibibits.unit.dimension.IsCanonical := by decide
  obtain ⟨hexists, hequal, -, -⟩ := pow_eq_selfProduct (x := negativeKibibits) (n := 30)
    (k := .lit 31) (Representation.isExact_integer .w32) rfl hcanonical rfl
  obtain ⟨hexists', -, hpow', hproduct'⟩ := pow_eq_selfProduct (x := negativeKibibits) (n := 31)
    (k := .lit 32) (Representation.isExact_integer .w32) rfl hcanonical rfl
  refine ⟨?_, ?_⟩
  · obtain ⟨p, hp, hvalue⟩ : ∃ p, negativeKibibits.pow (.lit 31) = .ok p ∧
        p.value.val = -2147483648 := ⟨_, by cbv, rfl⟩
    obtain ⟨q, hq⟩ := hexists.1 ⟨p, hp⟩
    obtain ⟨hvalues, hdimensions, hmagnitudes⟩ := hequal p q hp hq
    exact ⟨p, q, hp, hq, hvalues, hdimensions, hmagnitudes, hvalue⟩
  · obtain ⟨d, hd⟩ : ∃ d, negativeKibibits.pow (.lit 32) = .error d := ⟨_, by cbv⟩
    refine ⟨⟨d, hd, hpow' d hd⟩, ?_⟩
    cases hproduct : negativeKibibits.selfProduct 31 with
    | error e => exact ⟨e, rfl, hproduct' e hproduct⟩
    | ok q =>
      obtain ⟨p, hp⟩ := hexists'.2 ⟨q, hproduct⟩
      cases hd.symm.trans hp

end Quantity

end Metrology
