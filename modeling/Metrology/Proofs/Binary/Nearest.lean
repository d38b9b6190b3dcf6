/-
  Metrology.Proofs.Binary.Nearest

  Rounding to the nearest rank. A fraction is shifted so that its quotient counts last places and
  then rounded to an integer, and both steps have a tie only where the result is even. So the rank
  of a fraction lies above another rank exactly if the fraction lies above the middle between that
  rank and the next one, or in the middle and the other rank is odd.
-/
import Metrology.Binary.Rounding
import Metrology.Proofs.Binary.Rank
import Mathlib.Algebra.Order.Field.Basic
import Mathlib.Tactic.FieldSimp
import Mathlib.Tactic.GCongr

namespace Metrology

variable {n d : Nat}

/-! ## Nearest integer -/

/-- The integer is nearest to the number, and even if another one is as near. -/
structure IsNearestInteger (x : Rat) (s : Nat) : Prop where
  lower : (s : Rat) - 1 / 2 < x ∨ (s : Rat) - 1 / 2 = x ∧ Even s
  upper : x < s + 1 / 2 ∨ x = s + 1 / 2 ∧ Even s

theorem isNearestInteger_roundHalfEven (hd : 0 < d) (n : Nat) :
    IsNearestInteger (n / d) (roundHalfEven n d) := by
  have hd' : (0 : Rat) < d := Nat.cast_pos.2 hd
  have hx : (n : Rat) / d = (n / d : Nat) + (n % d : Nat) / (d : Rat) := by
    rw [eq_comm, add_div_eq_mul_add_div _ _ hd'.ne', mul_comm]
    exact_mod_cast congrArg (fun k : Nat => (k : Rat) / d) (Nat.div_add_mod n d)
  have hnonneg : 0 ≤ (n % d : Nat) / (d : Rat) := by positivity
  have hlt : (n % d : Nat) / (d : Rat) < 1 := by
    rw [div_lt_one hd']
    exact_mod_cast Nat.mod_lt n hd
  have hbelow : 2 * (n % d) < d ↔ (n % d : Nat) / (d : Rat) < 1 / 2 := by
    rw [div_lt_div_iff₀ hd' two_pos]
    norm_cast
    omega
  have habove : d < 2 * (n % d) ↔ 1 / 2 < (n % d : Nat) / (d : Rat) := by
    rw [div_lt_div_iff₀ two_pos hd']
    norm_cast
    omega
  simp only [roundHalfEven, hbelow, habove, hx]
  generalize (n % d : Nat) / (d : Rat) = t at *
  generalize n / d = quotient at *
  have hnext : ((quotient + 1 : Nat) : Rat) = quotient + 1 := Nat.cast_succ quotient
  split
  · -- Nearer to the quotient.
    exact ⟨.inl (by linarith), .inl (by linarith)⟩
  split
  · -- Nearer to the next integer.
    exact ⟨.inl (by linarith), .inl (by linarith)⟩
  · -- In the middle.
    have ht : t = 1 / 2 := by linarith
    rcases Nat.mod_two_eq_zero_or_one quotient with h | h
    · rw [h, Nat.add_zero]
      exact ⟨.inl (by linarith), .inr ⟨by linarith, Nat.even_iff.2 h⟩⟩
    · rw [h]
      exact ⟨.inr ⟨by linarith, (Nat.odd_iff.2 h).add_one⟩, .inl (by linarith)⟩

/-! ## Fractions and powers of two -/

theorem div_shiftLeft_toNat {e : Int} (he : 0 ≤ e) (n d : Nat) :
    (n : Rat) / (d <<< e.toNat : Nat) = n / d / 2 ^ e := by
  obtain ⟨k, rfl⟩ := Int.eq_ofNat_of_zero_le he
  rw [Int.toNat_natCast, Nat.shiftLeft_eq, zpow_natCast]
  push_cast
  rw [div_div]

theorem shiftLeft_toNat_div {e : Int} (he : e < 0) (n d : Nat) :
    ((n <<< (-e).toNat : Nat) : Rat) / d = n / d / 2 ^ e := by
  obtain ⟨k, hk⟩ := Int.eq_ofNat_of_zero_le (Int.neg_nonneg.2 he.le)
  obtain rfl : e = -(k : Int) := by omega
  rw [neg_neg, Int.toNat_natCast, Nat.shiftLeft_eq, zpow_neg, zpow_natCast]
  push_cast
  field_simp

theorem reachesPowerOfTwo_iff (hd : 0 < d) (k : Int) :
    reachesPowerOfTwo n d k = true ↔ (2 : Rat) ^ k ≤ n / d := by
  rw [← one_le_div (zpow_pos two_pos k), reachesPowerOfTwo]
  split
  · rename_i hk
    have hshift : 0 < d <<< k.toNat := Nat.pos_of_ne_zero (by simp [Nat.shiftLeft_eq, hd.ne'])
    rw [← div_shiftLeft_toNat hk, one_le_div (Nat.cast_pos.2 hshift), Nat.cast_le,
      decide_eq_true_iff]
  · rename_i hk
    rw [← shiftLeft_toNat_div (Int.not_le.1 hk), one_le_div (Nat.cast_pos.2 hd), Nat.cast_le,
      decide_eq_true_iff]

/-- The lengths of the two numbers give the logarithm of their quotient up to one. -/
theorem div_between_log2 (hn : 0 < n) (hd : 0 < d) :
    (2 : Rat) ^ ((n.log2 : Int) - d.log2 - 1) < n / d ∧
      (n / d : Rat) < 2 ^ ((n.log2 : Int) - d.log2 + 1) := by
  have hd' : (0 : Rat) < d := Nat.cast_pos.2 hd
  have hnlower : (2 : Rat) ^ n.log2 ≤ n := by exact_mod_cast Nat.log2_self_le hn.ne'
  have hnupper : (n : Rat) < 2 ^ (n.log2 + 1) := by exact_mod_cast Nat.lt_log2_self
  have hdlower : (2 : Rat) ^ d.log2 ≤ d := by exact_mod_cast Nat.log2_self_le hd.ne'
  have hdupper : (d : Rat) < 2 ^ (d.log2 + 1) := by exact_mod_cast Nat.lt_log2_self
  constructor
  · have hpower : (2 : Rat) ^ ((n.log2 : Int) - d.log2 - 1) * 2 ^ (d.log2 + 1) = 2 ^ n.log2 := by
      rw [← zpow_natCast, ← zpow_add₀ two_ne_zero, ← zpow_natCast]
      congr 1
      omega
    rw [lt_div_iff₀ hd']
    calc (2 : Rat) ^ ((n.log2 : Int) - d.log2 - 1) * d
        < 2 ^ ((n.log2 : Int) - d.log2 - 1) * 2 ^ (d.log2 + 1) := by gcongr
      _ = 2 ^ n.log2 := hpower
      _ ≤ n := hnlower
  · have hpower : (2 : Rat) ^ ((n.log2 : Int) - d.log2 + 1) * 2 ^ d.log2 = 2 ^ (n.log2 + 1) := by
      rw [← zpow_natCast, ← zpow_add₀ two_ne_zero, ← zpow_natCast]
      congr 1
      omega
    rw [div_lt_iff₀ hd']
    calc (n : Rat) < 2 ^ (n.log2 + 1) := hnupper
      _ = 2 ^ ((n.log2 : Int) - d.log2 + 1) * 2 ^ d.log2 := hpower.symm
      _ ≤ 2 ^ ((n.log2 : Int) - d.log2 + 1) * d := by gcongr

theorem floorLog2_spec (hn : 0 < n) (hd : 0 < d) :
    (2 : Rat) ^ floorLog2 n d ≤ n / d ∧ (n / d : Rat) < 2 ^ (floorLog2 n d + 1) := by
  obtain ⟨hlower, hupper⟩ := div_between_log2 hn hd
  simp only [floorLog2, reachesPowerOfTwo_iff hd]
  split
  · rename_i h
    exact ⟨h, hupper⟩
  · rename_i h
    rw [sub_add_cancel]
    exact ⟨hlower.le, not_le.1 h⟩

/-! ## Nearest rank -/

namespace Format

variable {f : Format} {q : Rat} {r R : Nat}

/-- The rank is nearest to the number, and even if another one is as near. -/
structure IsNearestRank (f : Format) (q : Rat) (R : Nat) : Prop where
  lower : ∀ r, R = r + 1 → f.midpoint r < q ∨ f.midpoint r = q ∧ Even R
  upper : q < f.midpoint R ∨ q = f.midpoint R ∧ Even R

/-- The ranks below the nearest one are those whose middle to the next rank is passed. -/
theorem IsNearestRank.lt_iff (h : f.IsNearestRank q R) :
    r < R ↔ f.midpoint r < q ∨ f.midpoint r = q ∧ ¬ Even r := by
  constructor
  · intro hr
    obtain ⟨p, rfl⟩ := Nat.exists_eq_add_one_of_ne_zero (Nat.ne_zero_of_lt hr)
    rcases (Nat.lt_succ_iff.1 hr).lt_or_eq with hlt | rfl
    · have hmono := f.strictMono_midpoint hlt
      rcases h.lower p rfl with hlower | ⟨hlower, -⟩
      · exact .inl (hmono.trans hlower)
      · exact .inl (hlower ▸ hmono)
    · exact (h.lower r rfl).imp_right fun ⟨heq, heven⟩ => ⟨heq, Nat.even_add_one.1 heven⟩
  · intro hr
    by_contra hge
    have hmono := f.strictMono_midpoint.monotone (Nat.not_lt.1 hge)
    rcases hr with hr | ⟨hr, hodd⟩
    · rcases h.upper with hupper | ⟨hupper, -⟩ <;> linarith
    · -- The number is the middle above both ranks, so they are one.
      rcases h.upper with hupper | ⟨hupper, heven⟩
      · linarith
      · rw [← f.strictMono_midpoint.injective (hr.trans hupper)] at heven
        exact hodd heven

theorem IsNearestRank.pos (h : f.IsNearestRank q R) (hR : R ≠ 0) : 0 < q := by
  obtain ⟨r, rfl⟩ := Nat.exists_eq_add_one_of_ne_zero hR
  have hmiddle := f.midpoint_pos r
  rcases h.lower r rfl with hlower | ⟨hlower, -⟩ <;> linarith

theorem IsNearestRank.unique (hR : f.IsNearestRank q R) (hr : f.IsNearestRank q r) : R = r :=
  eq_of_forall_lt_iff fun _ => hR.lt_iff.trans hr.lt_iff.symm

theorem even_rank_iff (binade s : Nat) : Even (binade * f.leadingBit + s) ↔ Even s := by
  simp [Nat.even_add, f.even_leadingBit.mul_left binade]

/-- The integer that is nearest to the number of last places gives the nearest rank. -/
theorem isNearestRank_of_significand {binade s : Nat}
    (hs : IsNearestInteger (q / f.lastPlace binade) s)
    (hhigh : q / f.lastPlace binade < 2 * f.leadingBit)
    (hlow : binade = 0 ∨ f.leadingBit ≤ q / f.lastPlace binade) :
    f.IsNearestRank q (binade * f.leadingBit + s) := by
  have hp := f.lastPlace_pos binade
  obtain ⟨x, rfl⟩ : ∃ x, q = x * f.lastPlace binade := ⟨_, (div_mul_cancel₀ q hp.ne').symm⟩
  rw [mul_div_cancel_right₀ _ hp.ne'] at hs hhigh hlow
  obtain ⟨hlower, hupper⟩ := hs
  have hsignificand : f.HasSignificand binade s := by
    have hs : (s : Rat) < 2 * f.leadingBit + 1 := by
      rcases hlower with h | ⟨h, -⟩ <;> linarith
    refine ⟨Nat.lt_succ_iff.1 (by exact_mod_cast hs), hlow.imp_right fun hlow => ?_⟩
    have hs : (f.leadingBit : Rat) < s + 1 := by
      rcases hupper with h | ⟨h, -⟩ <;> linarith
    exact Nat.lt_succ_iff.1 (by exact_mod_cast hs)
  constructor
  case upper =>
    rcases midpoint_of_significand hsignificand with h | ⟨rfl, h⟩
    · rw [h, even_rank_iff, mul_lt_mul_iff_left₀ hp, mul_left_inj' hp.ne']
      exact hupper
    · rw [h, mul_lt_mul_iff_left₀ hp]
      push_cast
      exact .inl (by linarith)
  case lower =>
    intro r hr
    rcases midpoint_pred hsignificand hr with h | ⟨hbinade, rfl, h⟩
    · rw [h, even_rank_iff, mul_lt_mul_iff_left₀ hp, mul_left_inj' hp.ne']
      exact hlower
    · have hlow := hlow.resolve_left hbinade
      rw [h, mul_lt_mul_iff_left₀ hp]
      exact .inl (by linarith)

/-! ### Exponents -/

theorem div_roundingExponent_lt (f : Format) (hn : 0 < n) (hd : 0 < d) :
    (n / d / 2 ^ f.roundingExponent n d : Rat) < 2 * f.leadingBit := by
  have hexponent : floorLog2 n d + 1 ≤ f.precision + f.roundingExponent n d := by
    have hle : floorLog2 n d - (f.precision - 1 : Nat) ≤ f.roundingExponent n d :=
      le_max_right _ _
    have hprecision := f.precision_pos
    omega
  rw [div_lt_iff₀ (zpow_pos two_pos _), two_mul_leadingBit]
  calc (n / d : Rat) < 2 ^ (floorLog2 n d + 1) := (floorLog2_spec hn hd).2
    _ ≤ 2 ^ (f.precision + f.roundingExponent n d) := zpow_le_zpow_right₀ one_le_two hexponent
    _ = 2 ^ f.precision * 2 ^ f.roundingExponent n d := by
      rw [zpow_add₀ two_ne_zero, zpow_natCast]

/-- The significand is full unless the exponent is the least one. -/
theorem roundingExponent_cases (f : Format) (hn : 0 < n) (hd : 0 < d) :
    f.roundingExponent n d = f.leastExponent ∨
      (f.leadingBit : Rat) ≤ n / d / 2 ^ f.roundingExponent n d := by
  refine (max_choice _ _).imp_right fun h => ?_
  rw [← roundingExponent] at h
  rw [le_div_iff₀ (zpow_pos two_pos _), h, f.leadingBit_eq]
  push_cast
  rw [← zpow_natCast, ← zpow_add₀ two_ne_zero, add_sub_cancel]
  exact (floorLog2_spec hn hd).1

/-- Rounding is to the multiples of a power of two. -/
theorem isNearestInteger_shifted (hd : 0 < d) (n : Nat) (e : Int) :
    IsNearestInteger (n / d / 2 ^ e)
      (if 0 ≤ e then roundHalfEven n (d <<< e.toNat) else roundHalfEven (n <<< (-e).toNat) d) := by
  split
  · rename_i he
    have hshift : 0 < d <<< e.toNat := Nat.pos_of_ne_zero (by simp [Nat.shiftLeft_eq, hd.ne'])
    rw [← div_shiftLeft_toNat he]
    exact isNearestInteger_roundHalfEven hshift n
  · rename_i he
    rw [← shiftLeft_toNat_div (Int.not_le.1 he)]
    exact isNearestInteger_roundHalfEven hd _

/-! ### Fractions -/

theorem isNearestRank_nearestRank (hd : 0 < d) (n : Nat) :
    f.IsNearestRank (n / d) (f.nearestRank n d) := by
  rcases Nat.eq_zero_or_pos n with rfl | hn
  · rw [nearestRank, if_pos rfl, Nat.cast_zero, zero_div]
    exact ⟨fun r hr => (nomatch hr), .inl (f.midpoint_pos 0)⟩
  obtain ⟨binade, he⟩ : ∃ binade : Nat, f.roundingExponent n d = f.leastExponent + binade :=
    Int.exists_add_of_le (le_max_left _ _)
  have hbinade : (f.roundingExponent n d - f.leastExponent).toNat = binade := by omega
  have hplace : f.lastPlace binade = 2 ^ f.roundingExponent n d := by rw [lastPlace, he]
  simp only [nearestRank, hn.ne', if_false, hbinade]
  refine isNearestRank_of_significand ?_ ?_ ?_
  · rw [hplace]
    exact isNearestInteger_shifted hd n _
  · rw [hplace]
    exact f.div_roundingExponent_lt hn hd
  · rw [hplace]
    exact (f.roundingExponent_cases hn hd).imp_left fun h => by omega

/-- A fraction is rounded beyond a rank if it is above the middle between the rank and the next
one, or in the middle while the rank is odd. -/
theorem lt_nearestRank_iff (hd : 0 < d) :
    r < f.nearestRank n d ↔ f.midpoint r < n / d ∨ f.midpoint r = n / d ∧ ¬ Even r :=
  (isNearestRank_nearestRank hd n).lt_iff

theorem nearestRank_mono {n' d' : Nat} (hd : 0 < d) (hd' : 0 < d')
    (h : (n / d : Rat) ≤ n' / d') : f.nearestRank n d ≤ f.nearestRank n' d' := by
  by_contra hlt
  rw [not_le, lt_nearestRank_iff hd] at hlt
  refine lt_irrefl (f.nearestRank n' d') ((lt_nearestRank_iff hd').2 ?_)
  rcases hlt with hlt | ⟨heq, hodd⟩
  · exact .inl (hlt.trans_le h)
  · exact (heq.trans_le h).lt_or_eq.imp_right fun heq => ⟨heq, hodd⟩

end Format

end Metrology
