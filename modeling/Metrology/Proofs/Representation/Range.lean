/-
  Metrology.Proofs.Representation.Range

  The numbers that an exact number type has values for: for integers those between the bounds
  of the width, for ratios all of them. An operation succeeds exactly if its result over the
  rational numbers is such a number, and otherwise it overflows.
-/
import Metrology.Proofs.Representation.Exact

namespace Metrology.Representation

variable {r : Representation} {w : Width} {q : Ratio} {m n : Nat}

/-- The number type has a value that stands for the number. -/
def Holds (r : Representation) (q : Ratio) : Prop := ∃ v : r.Value, r.number v = q

@[simp] theorem holds_exact (q : Ratio) : exact.Holds q := ⟨q, rfl⟩

/-- For integers these are the integers that fit. -/
@[simp] theorem holds_intCast_iff {n : Int} : (integer w).Holds n ↔ w.Fits n := by
  constructor
  · rintro ⟨v, hv⟩
    obtain rfl : v.val = n := Int.cast_injective hv
    exact v.fits
  · intro hn
    exact ⟨⟨n, hn⟩, rfl⟩

/-- With a power of a number that is held the smaller powers are held. -/
theorem holds_pow_of_le (hr : r.IsExact) (v : r.Value) (hn : r.Holds (r.number v ^ n))
    (hmn : m ≤ n) : r.Holds (r.number v ^ m) := by
  cases r with
  | integer w =>
    simp only [number, ← Int.cast_pow, holds_intCast_iff] at hn ⊢
    exact Width.fits_pow_of_le hn hmn
  | floating f => exact absurd rfl hr
  | exact => exact holds_exact _

/-! ## Operations -/

theorem add_overflowsUnless (hr : r.IsExact) (a b : r.Value) :
    OverflowsUnless (r.Holds (r.number a + r.number b)) (r.add a b)
      (r.number · = r.number a + r.number b) := by
  refine OverflowsOnly.overflowsUnless_exists ?_ fun c => add_eq_ok hr
  cases r with
  | integer w => exact FixedInt.overflowsOnly_orOverflow _ _
  | floating f => exact absurd rfl hr
  | exact => exact .ok _

theorem mul_overflowsUnless (hr : r.IsExact) (a b : r.Value) :
    OverflowsUnless (r.Holds (r.number a * r.number b)) (r.mul a b)
      (r.number · = r.number a * r.number b) := by
  refine OverflowsOnly.overflowsUnless_exists ?_ fun c => mul_eq_ok hr
  cases r with
  | integer w => exact FixedInt.overflowsOnly_orOverflow _ _
  | floating f => exact absurd rfl hr
  | exact => exact .ok _

/-- A power that is no negative one. -/
theorem pow_overflowsUnless (hr : r.IsExact) (a : r.Value) {e : Power} (he : e.val = n) :
    OverflowsUnless (r.Holds (r.number a ^ n)) (r.pow a e) (r.number · = r.number a ^ n) := by
  have hnonneg : 0 ≤ e.val := by omega
  refine OverflowsOnly.overflowsUnless_exists ?_ fun c => ?_
  · cases r with
    | integer w =>
      rw [pow, FixedInt.pow, if_pos hnonneg]
      exact FixedInt.overflowsOnly_orOverflow _ _
    | floating f => exact absurd rfl hr
    | exact =>
      rw [pow, Ratio.pow_of_nonneg a hnonneg]
      exact .ok _
  · rw [pow_eq_ok hr, he, zpow_natCast]
    exact and_iff_right fun _ => Int.natCast_nonneg n

/-- Multiplication by a factor without loss. -/
theorem rescale_lossless_overflowsUnless (hr : r.IsExact) (a : r.Value)
    (hq : r.kind = .integer → q.isInteger = true) :
    OverflowsUnless (r.Holds (r.number a * q)) (r.rescale a (Magnitude.exact q))
      (r.number · = r.number a * q) := by
  refine OverflowsOnly.overflowsUnless_exists ?_ fun c => rescale_eq_ok hr hq
  cases r with
  | integer w =>
    obtain ⟨n, rfl⟩ := Ratio.isInteger_iff.1 (hq rfl)
    have hproduct : (a.val : Ratio) * (n : Ratio) = ((a.val * n : Int) : Ratio) :=
      (Int.cast_mul a.val n).symm
    exact (rescale_overflowsUnless a hproduct).overflowsOnly
  | floating f => exact absurd rfl hr
  | exact =>
    rw [rescale, Magnitude.asRatio?_exact]
    dsimp only
    split
    · exact .ok _
    · exact .ok _

/-- A factor, whatever it loses elsewhere, that takes one value to the number of another one
gives that value. -/
theorem rescale_of_number (hr : r.IsExact) {a c : r.Value} (h : r.number a * q = r.number c) :
    r.rescale a (Magnitude.exact q) = .ok c := by
  cases r with
  | integer w =>
    obtain ⟨d, hd, hval⟩ := (rescale_overflowsUnless a h).ok c.fits
    rw [hd, FixedInt.ext hval]
  | floating f => exact absurd rfl hr
  | exact => exact (rescale_eq_ok hr fun hk => nomatch hk).2 h.symm

end Metrology.Representation
