/-
  Metrology.Proofs.Binary.Rank

  The magnitudes of a format in the order of their ranks. A rank is a number of full binades and a
  significand in the next one, where the significand may also be the carry into the binade after
  that. So neighbouring ranks differ by one in the last place, magnitudes increase with their
  ranks, and the middle between neighbours is half a place above the lower one.
-/
import Metrology.Binary.Format
import Mathlib.Algebra.Order.Field.Power
import Mathlib.Data.Rat.Cast.Order
import Mathlib.Order.Monotone.Basic
import Mathlib.Tactic.Linarith
import Mathlib.Tactic.Ring

namespace Metrology.Format

variable {f : Format} {binade s r : Nat}

/-! ## Constants -/

theorem leadingBit_eq (f : Format) : f.leadingBit = 2 ^ (f.precision - 1) := by
  cases f <;> rfl

theorem two_mul_leadingBit (f : Format) : (2 : Rat) * f.leadingBit = 2 ^ f.precision := by
  cases f <;> norm_num [leadingBit, precision]

theorem precision_pos (f : Format) : 0 < f.precision := by
  cases f <;> decide

theorem leadingBit_pos (f : Format) : 0 < f.leadingBit := by
  cases f <;> decide

theorem even_leadingBit (f : Format) : Even f.leadingBit := by
  cases f <;> decide

/-! ## Ranks and significands -/

/-- The significands that are counted in one binade. The first binade starts at zero, the others
at the leading bit; the last significand belongs to the next binade too. -/
def HasSignificand (f : Format) (binade s : Nat) : Prop :=
  s ≤ 2 * f.leadingBit ∧ (binade = 0 ∨ f.leadingBit ≤ s)

/-- The place value of the last bit in a binade. -/
def lastPlace (f : Format) (binade : Nat) : Rat := 2 ^ (f.leastExponent + binade)

theorem lastPlace_pos (f : Format) (binade : Nat) : 0 < f.lastPlace binade :=
  zpow_pos two_pos _

theorem lastPlace_succ (f : Format) (binade : Nat) :
    f.lastPlace (binade + 1) = 2 * f.lastPlace binade := by
  rw [lastPlace, lastPlace, Nat.cast_succ, ← add_assoc, zpow_add_one₀ two_ne_zero, mul_comm]

theorem magnitude_of_significand (h : f.HasSignificand binade s) :
    f.magnitude (binade * f.leadingBit + s) = s * f.lastPlace binade := by
  have hL := f.leadingBit_pos
  obtain ⟨hs, hfirst⟩ := h
  rcases Nat.lt_or_ge s f.leadingBit with hlow | hlow
  · -- Below the leading bit, in the first binade.
    obtain rfl : binade = 0 := hfirst.resolve_right (Nat.not_le.2 hlow)
    rw [Nat.zero_mul, Nat.zero_add, magnitude, significand, exponent, if_pos hlow,
      Nat.div_eq_of_lt hlow, lastPlace]
  rcases Nat.lt_or_ge s (2 * f.leadingBit) with hhigh | hhigh
  · -- A full significand.
    obtain ⟨t, rfl⟩ := Nat.exists_eq_add_of_le hlow
    have ht : t < f.leadingBit := by omega
    have hrank : binade * f.leadingBit + (f.leadingBit + t) = t + f.leadingBit * (binade + 1) := by
      ring
    rw [hrank, magnitude, significand, exponent, if_neg (by nlinarith), Nat.add_mul_mod_self_left,
      Nat.mod_eq_of_lt ht, Nat.add_mul_div_left _ _ hL, Nat.div_eq_of_lt ht, lastPlace]
    simp
  · -- The carry: the leading bit of the next binade.
    obtain rfl : s = 2 * f.leadingBit := le_antisymm hs hhigh
    have hrank : binade * f.leadingBit + 2 * f.leadingBit = f.leadingBit * (binade + 2) := by ring
    rw [hrank, magnitude, significand, exponent, if_neg (by nlinarith), Nat.mul_mod_right,
      Nat.mul_div_cancel_left _ hL, Nat.add_zero, show binade + 2 - 1 = binade + 1 from rfl,
      ← lastPlace, lastPlace_succ]
    push_cast
    ring

/-- Every rank is a significand in a binade, where it is not the last one. -/
theorem exists_significand (f : Format) (rank : Nat) :
    ∃ binade s, rank = binade * f.leadingBit + s ∧ s < 2 * f.leadingBit ∧
      (binade = 0 ∨ f.leadingBit ≤ s) := by
  have hL := f.leadingBit_pos
  have hdigits := Nat.div_add_mod rank f.leadingBit
  have hmod := Nat.mod_lt rank hL
  rw [mul_comm] at hdigits
  cases hquotient : rank / f.leadingBit with
  | zero =>
    rw [hquotient] at hdigits
    exact ⟨0, rank, by omega, by omega, .inl rfl⟩
  | succ binade =>
    rw [hquotient, Nat.succ_mul] at hdigits
    exact ⟨binade, f.leadingBit + rank % f.leadingBit, by omega, by omega, .inr (by omega)⟩

/-! ## Neighbours -/

theorem magnitude_zero (f : Format) : f.magnitude 0 = 0 := by
  have h : f.magnitude (0 * f.leadingBit + 0) = (0 : Nat) * f.lastPlace 0 :=
    magnitude_of_significand ⟨Nat.zero_le _, .inl rfl⟩
  simpa using h

theorem magnitude_lt_succ (f : Format) (rank : Nat) :
    f.magnitude rank < f.magnitude (rank + 1) := by
  obtain ⟨binade, s, rfl, hs, hfirst⟩ := f.exists_significand rank
  rw [add_assoc, magnitude_of_significand ⟨hs.le, hfirst⟩,
    magnitude_of_significand ⟨hs, hfirst.imp_right Nat.le_succ_of_le⟩, Nat.cast_succ]
  have hplace := f.lastPlace_pos binade
  linarith

theorem strictMono_magnitude (f : Format) : StrictMono f.magnitude :=
  strictMono_nat_of_lt_succ f.magnitude_lt_succ

theorem magnitude_nonneg (f : Format) (rank : Nat) : 0 ≤ f.magnitude rank := by
  rw [← f.magnitude_zero]
  exact f.strictMono_magnitude.monotone (Nat.zero_le rank)

theorem magnitude_eq_zero_iff {rank : Nat} : f.magnitude rank = 0 ↔ rank = 0 := by
  rw [← f.magnitude_zero, f.strictMono_magnitude.injective.eq_iff]

theorem magnitude_pos {rank : Nat} (h : rank ≠ 0) : 0 < f.magnitude rank :=
  (f.magnitude_nonneg rank).lt_of_ne' (mt magnitude_eq_zero_iff.1 h)

/-! ## Midpoints -/

/-- The middle between the magnitude of a rank and the next one. -/
def midpoint (f : Format) (rank : Nat) : Rat := (f.magnitude rank + f.magnitude (rank + 1)) / 2

theorem magnitude_lt_midpoint (f : Format) (rank : Nat) : f.magnitude rank < f.midpoint rank := by
  have hlt := f.magnitude_lt_succ rank
  rw [midpoint]
  linarith

theorem midpoint_lt_magnitude_succ (f : Format) (rank : Nat) :
    f.midpoint rank < f.magnitude (rank + 1) := by
  have hlt := f.magnitude_lt_succ rank
  rw [midpoint]
  linarith

theorem strictMono_midpoint (f : Format) : StrictMono f.midpoint :=
  strictMono_nat_of_lt_succ fun rank =>
    (f.midpoint_lt_magnitude_succ rank).trans (f.magnitude_lt_midpoint (rank + 1))

theorem midpoint_pos (f : Format) (rank : Nat) : 0 < f.midpoint rank :=
  (f.magnitude_nonneg rank).trans_lt (f.magnitude_lt_midpoint rank)

/-- The middle is half a place above the lower magnitude. -/
theorem midpoint_of_lt (hs : s < 2 * f.leadingBit) (hfirst : binade = 0 ∨ f.leadingBit ≤ s) :
    f.midpoint (binade * f.leadingBit + s) = (s + 1 / 2) * f.lastPlace binade := by
  rw [midpoint, add_assoc, magnitude_of_significand ⟨hs.le, hfirst⟩,
    magnitude_of_significand ⟨hs, hfirst.imp_right Nat.le_succ_of_le⟩]
  push_cast
  ring

/-- Above the last significand the places are twice as large. -/
theorem midpoint_of_significand (h : f.HasSignificand binade s) :
    f.midpoint (binade * f.leadingBit + s) = (s + 1 / 2) * f.lastPlace binade ∨
      s = 2 * f.leadingBit ∧
        f.midpoint (binade * f.leadingBit + s) = (s + 1) * f.lastPlace binade := by
  have hL := f.leadingBit_pos
  rcases h.1.lt_or_eq with hlt | rfl
  · exact .inl (midpoint_of_lt hlt h.2)
  · have hcarry : binade * f.leadingBit + 2 * f.leadingBit =
        (binade + 1) * f.leadingBit + f.leadingBit := by ring
    refine .inr ⟨rfl, ?_⟩
    rw [hcarry, midpoint_of_lt (by omega) (.inr le_rfl), lastPlace_succ]
    push_cast
    ring

/-- Below the leading bit of a later binade the places are half as large. -/
theorem midpoint_pred (h : f.HasSignificand binade s) (hr : binade * f.leadingBit + s = r + 1) :
    f.midpoint r = (s - 1 / 2) * f.lastPlace binade ∨
      binade ≠ 0 ∧ s = f.leadingBit ∧ f.midpoint r = (s - 1 / 4) * f.lastPlace binade := by
  have hL := f.leadingBit_pos
  obtain ⟨hs, hfirst⟩ := h
  by_cases hbefore : 0 < s ∧ (binade = 0 ∨ f.leadingBit < s)
  · obtain ⟨t, rfl⟩ := Nat.exists_eq_add_one_of_ne_zero hbefore.1.ne'
    obtain rfl : r = binade * f.leadingBit + t := by omega
    refine .inl ?_
    rw [midpoint_of_lt hs (hbefore.2.imp_right Nat.le_of_lt_succ)]
    push_cast
    ring
  · -- The rank ends the binade before.
    have hbinade : binade ≠ 0 := by
      rintro rfl
      rw [Nat.zero_mul] at hr
      omega
    obtain ⟨b, rfl⟩ := Nat.exists_eq_add_one_of_ne_zero hbinade
    obtain rfl : s = f.leadingBit := by omega
    have hblock := add_one_mul b f.leadingBit
    obtain rfl : r = b * f.leadingBit + (2 * f.leadingBit - 1) := by omega
    refine .inr ⟨hbinade, rfl, ?_⟩
    rw [midpoint_of_lt (by omega) (.inr (by omega)), lastPlace_succ, Nat.cast_pred (by omega)]
    push_cast
    ring

end Metrology.Format
