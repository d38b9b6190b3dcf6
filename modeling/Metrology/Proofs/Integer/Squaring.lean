/-
  Metrology.Proofs.Integer.Squaring

  What repeated squaring computes. The multiplication may be any operation that stands for
  the product of a monoid: an exact one gives the power itself, and a checked one gives the
  power exactly where that fits.
-/
import Metrology.Integer.Squaring
import Metrology.Integer.Width
import Metrology.Representation.Integer
import Mathlib.Algebra.Group.Action.Defs
import Mathlib.Algebra.Group.Basic
import Mathlib.Algebra.Group.Nat.TypeTags
import Mathlib.Algebra.Ring.Int.Defs

namespace Metrology

/-! ## Repeated squaring in a monoid -/

section Related

variable {α M : Type} [Monoid M] {mul : α → α → α} {R : α → M → Prop} {acc base : α} {x y : M}

/-- Splitting off the last binary digit of an exponent. -/
theorem pow_eq_pow_mod_two_mul (y : M) (n : Nat) :
    y ^ n = y ^ (n % 2) * (y * y) ^ (n / 2) := by
  rw [← pow_two, ← pow_mul, ← pow_add, Nat.mod_add_div]

/-- One turn multiplies the factor of the last digit into the accumulator, whichever digit it
is. -/
theorem turn_related (hmul : ∀ {a b x y}, R a x → R b y → R (mul a b) (x * y)) (n : Nat)
    (hacc : R acc x) (hbase : R base y) :
    R (if n % 2 = 1 then mul acc base else acc) (x * y ^ (n % 2)) := by
  rcases Nat.mod_two_eq_zero_or_one n with h | h
  · simpa [h] using hacc
  · simpa [h] using hmul hacc hbase

/-- If multiplication keeps a relation to the elements of a monoid, so does the power. -/
theorem powerBySquaring_related (hmul : ∀ {a b x y}, R a x → R b y → R (mul a b) (x * y))
    (n : Nat) (hacc : R acc x) (hbase : R base y) :
    R (powerBySquaring mul acc base n) (x * y ^ n) := by
  -- Every turn keeps the product of the accumulator and the rest of the power.
  fun_induction powerBySquaring mul acc base n generalizing x y with
  | case1 acc base =>
    rw [pow_zero, mul_one]
    exact hacc
  | case2 acc base n hn turn =>
    rename_i hhalf
    rw [pow_eq_pow_mod_two_mul y n, hhalf, pow_zero, mul_one]
    exact turn_related hmul n hacc hbase
  | case3 acc base n hn turn hhalf =>
    rename_i ih
    rw [pow_eq_pow_mod_two_mul y n, ← mul_assoc]
    exact ih (turn_related hmul n hacc hbase) (hmul hbase hbase)

end Related

/-- In a monoid repeated squaring is the power. -/
theorem powerBySquaring_eq {M : Type} [Monoid M] (acc base : M) (n : Nat) :
    powerBySquaring (· * ·) acc base n = acc * base ^ n :=
  powerBySquaring_related (R := Eq) (fun h₁ h₂ => by rw [h₁, h₂]) n rfl rfl

/-! ## Powers and multiples of integers of fixed width -/

/-- An integer nearer to zero than one that fits also fits. -/
theorem Width.fits_of_natAbs_lt {w : Width} {m n : Int} (hm : w.Fits m)
    (h : n.natAbs < m.natAbs) : w.Fits n := by
  cases w <;> simp only [Fits, least, greatest] at * <;> omega

/-- The powers of zero, one and minus one are these three again. -/
theorem Width.fits_pow_of_natAbs_le_one (w : Width) {a : Int} (ha : a.natAbs ≤ 1) (k : Nat) :
    w.Fits (a ^ k) := by
  have hone : (a ^ k).natAbs ≤ 1 := by
    rw [Int.natAbs_pow, ← Nat.one_pow k]
    exact Nat.pow_le_pow_left ha k
  cases w <;> simp only [Fits, least, greatest] <;> omega

/-- With a power of an integer the smaller powers fit. -/
theorem Width.fits_pow_of_le {w : Width} {a : Int} {k n : Nat} (hn : w.Fits (a ^ n))
    (hk : k ≤ n) : w.Fits (a ^ k) := by
  rcases Nat.eq_or_lt_of_le hk with rfl | hlt
  · exact hn
  by_cases ha : 1 < a.natAbs
  · refine fits_of_natAbs_lt hn ?_
    rw [Int.natAbs_pow, Int.natAbs_pow]
    exact Nat.pow_lt_pow_right ha hlt
  · exact w.fits_pow_of_natAbs_le_one (Nat.not_lt.1 ha) k

/-- With a multiple of an integer the smaller multiples fit. -/
theorem Width.fits_mul_of_le {w : Width} {a : Int} {k n : Nat} (hn : w.Fits (a * n))
    (hk : k ≤ n) : w.Fits (a * k) := by
  rcases Nat.eq_or_lt_of_le hk with rfl | hlt
  · exact hn
  by_cases ha : a = 0
  · rw [ha, zero_mul]
    exact w.fits_zero
  · refine fits_of_natAbs_lt hn ?_
    rw [Int.natAbs_mul, Int.natAbs_mul, Int.natAbs_natCast, Int.natAbs_natCast]
    exact Nat.mul_lt_mul_of_pos_left hlt (Int.natAbs_pos.2 ha)

namespace FixedInt

variable {w : Width} {a c : FixedInt w} {o p : Option (FixedInt w)} {k l : Multiplicative Nat}

theorem mulResult_eq_some_iff :
    mulResult o p = some c ↔
      ∃ a, o = some a ∧ ∃ b, p = some b ∧ c.val = a.val * b.val := by
  simp only [mulResult, mul?, Option.bind_eq_bind, Option.bind_eq_some_iff, ofInt?_eq_some_iff]

/-- The result is the power of `a` with the exponent `k`, present exactly if that fits. -/
def IsPower (a : FixedInt w) (o : Option (FixedInt w)) (k : Multiplicative Nat) : Prop :=
  ∀ c, o = some c ↔ c.val = a.val ^ k.toAdd

theorem isPower_zero (a : FixedInt w) : IsPower a (some 1) (.ofAdd 0) := by
  intro c
  rw [Option.some.injEq, eq_comm, FixedInt.ext_iff, toAdd_ofAdd, pow_zero, val_one]

theorem isPower_one (a : FixedInt w) : IsPower a (some a) (.ofAdd 1) := by
  intro c
  rw [Option.some.injEq, eq_comm, FixedInt.ext_iff, toAdd_ofAdd, pow_one]

/-- Checked products add exponents: if the product fits, then both of its factors do. -/
theorem IsPower.mul (ho : IsPower a o k) (hp : IsPower a p l) :
    IsPower a (mulResult o p) (k * l) := by
  intro c
  rw [mulResult_eq_some_iff, toAdd_mul, pow_add]
  constructor
  · rintro ⟨x, hx, y, hy, hc⟩
    rw [hc, (ho x).1 hx, (hp y).1 hy]
  · intro hc
    -- The product fits, and with it the smaller powers that are its factors.
    have hfits : w.Fits (a.val ^ (k.toAdd + l.toAdd)) := by
      rw [pow_add, ← hc]
      exact c.fits
    exact ⟨⟨_, Width.fits_pow_of_le hfits (Nat.le_add_right _ _)⟩, (ho _).2 rfl,
      ⟨_, Width.fits_pow_of_le hfits (Nat.le_add_left _ _)⟩, (hp _).2 rfl, hc⟩

/-- Repeated squaring, every product checked, gives exactly the powers that fit. -/
theorem pow?_eq_some_iff {n : Nat} : a.pow? n = some c ↔ c.val = a.val ^ n := by
  have hpower := powerBySquaring_related (R := IsPower a) IsPower.mul n (isPower_zero a)
    (isPower_one a) c
  rwa [toAdd_mul, toAdd_pow, toAdd_ofAdd, toAdd_ofAdd, smul_eq_mul, mul_one, zero_add] at hpower

end FixedInt

end Metrology
