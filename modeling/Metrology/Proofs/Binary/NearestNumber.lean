/-
  Metrology.Proofs.Binary.NearestNumber

  Rounding gives the number at the least distance. A finite number is the nearest one to a
  rational if no other finite number is nearer, and none is as near unless the rank of the first
  one is even. By the middles between neighbours this says that its rank is the nearest one and
  that it has the sign of the rational, so that there is one such number, up to the sign of zero.
-/
import Metrology.Proofs.Binary.Order

namespace Metrology

/-! ## Distances -/

theorem abs_sub_lt_abs_sub_iff {a b q : Rat} (h : a < b) :
    |q - b| < |q - a| ↔ (a + b) / 2 < q := by
  have hfactor : (q - a) ^ 2 - (q - b) ^ 2 = (b - a) * (2 * q - (a + b)) := by ring
  rw [← sq_lt_sq, ← sub_pos, hfactor, mul_pos_iff_of_pos_left (sub_pos.2 h)]
  constructor <;> intro h <;> linarith

theorem abs_sub_eq_abs_sub_iff {a b q : Rat} (h : a < b) :
    |q - b| = |q - a| ↔ (a + b) / 2 = q := by
  have hfactor : (q - b) ^ 2 - (q - a) ^ 2 = (b - a) * ((a + b) - 2 * q) := by ring
  rw [← sq_eq_sq_iff_abs_eq_abs, ← sub_eq_zero, hfactor, mul_eq_zero_iff_left (sub_pos.2 h).ne']
  constructor <;> intro h <;> linarith

namespace Format

variable {f : Format} {q : Rat} {R S : Nat}

/-- The magnitude of the first rank is nearer to the number than that of the second one, or it is
as near and the first rank is even. -/
def Nearer (f : Format) (q : Rat) (R S : Nat) : Prop :=
  |q - f.magnitude R| < |q - f.magnitude S| ∨ |q - f.magnitude R| = |q - f.magnitude S| ∧ Even R

theorem nearer_iff_of_lt (h : S < R) :
    f.Nearer q R S ↔ (f.magnitude S + f.magnitude R) / 2 < q ∨
      (f.magnitude S + f.magnitude R) / 2 = q ∧ Even R := by
  have hlt := f.strictMono_magnitude h
  rw [Nearer, abs_sub_lt_abs_sub_iff hlt, abs_sub_eq_abs_sub_iff hlt]

theorem nearer_iff_of_gt (h : R < S) :
    f.Nearer q R S ↔ q < (f.magnitude R + f.magnitude S) / 2 ∨
      q = (f.magnitude R + f.magnitude S) / 2 ∧ Even R := by
  have hlt := f.strictMono_magnitude h
  have hless : |q - f.magnitude R| < |q - f.magnitude S| ↔
      q < (f.magnitude R + f.magnitude S) / 2 := by
    rw [← not_le, le_iff_lt_or_eq, abs_sub_lt_abs_sub_iff hlt, abs_sub_eq_abs_sub_iff hlt,
      ← le_iff_lt_or_eq, not_le]
  rw [Nearer, hless, eq_comm, abs_sub_eq_abs_sub_iff hlt, eq_comm]

/-- The nearest rank is the one that is nearer than each other rank. -/
theorem IsNearestRank.nearer (h : f.IsNearestRank q R) (hS : S ≠ R) : f.Nearer q R S := by
  have hmono := f.strictMono_magnitude.monotone
  rcases hS.lt_or_gt with hlt | hlt
  · obtain ⟨p, rfl⟩ := Nat.exists_eq_add_one_of_ne_zero (Nat.ne_zero_of_lt hlt)
    have hmiddle : (f.magnitude S + f.magnitude (p + 1)) / 2 ≤ f.midpoint p := by
      rw [midpoint]
      linarith [hmono (Nat.lt_succ_iff.1 hlt)]
    rw [nearer_iff_of_lt hlt]
    rcases h.lower p rfl with hlower | ⟨hlower, heven⟩
    · exact .inl (hmiddle.trans_lt hlower)
    · exact (hmiddle.trans_eq hlower).lt_or_eq.imp_right fun h => ⟨h, heven⟩
  · have hmiddle : f.midpoint R ≤ (f.magnitude R + f.magnitude S) / 2 := by
      rw [midpoint]
      linarith [hmono (Nat.succ_le_iff.2 hlt)]
    rw [nearer_iff_of_gt hlt]
    rcases h.upper with hupper | ⟨hupper, heven⟩
    · exact .inl (hupper.trans_le hmiddle)
    · exact (hupper.trans_le hmiddle).lt_or_eq.imp_right fun h => ⟨h, heven⟩

/-- A rank is the nearest one if it is nearer than its neighbours. -/
theorem isNearestRank_of_nearer (hlower : ∀ r, R = r + 1 → f.Nearer q R r)
    (hupper : f.Nearer q R (R + 1)) : f.IsNearestRank q R where
  lower := by
    rintro r rfl
    exact (nearer_iff_of_lt r.lt_succ_self).1 (hlower r rfl)
  upper := (nearer_iff_of_gt R.lt_succ_self).1 hupper

/-- The rank to which a rational is rounded is the one nearest to its absolute value. -/
theorem isNearestRank_abs_iff :
    f.IsNearestRank |q| R ↔ f.nearestRank q.num.natAbs q.den = R := by
  have hnearest := isNearestRank_nearestRank (f := f) q.den_pos q.num.natAbs
  rw [natAbs_num_div_den] at hnearest
  exact ⟨hnearest.unique, fun h => h ▸ hnearest⟩

end Format

namespace Binary

variable {f : Format} {q v : Rat} {s t : Bool} {R S : Nat}

/-! ## Signs -/

@[simp] theorem signedRat_zero (s : Bool) : signedRat s 0 = 0 := by
  cases s <;> rfl

theorem signedRat_not (s : Bool) (v : Rat) : signedRat (!s) v = signedRat s (-v) := by
  cases s <;> simp [signedRat]

theorem signedRat_sub (s : Bool) (v w : Rat) :
    signedRat s v - signedRat s w = signedRat s (v - w) := by
  cases s with
  | false => rfl
  | true => exact (neg_sub_neg v w).trans (neg_sub v w).symm

theorem signedRat_abs (q : Rat) : signedRat (decide (q < 0)) |q| = q := by
  rcases lt_or_ge q 0 with h | h
  · rw [decide_eq_true h, signedRat, if_pos rfl, abs_of_neg h, neg_neg]
  · rw [decide_eq_false h.not_gt, signedRat, if_neg Bool.false_ne_true, abs_of_nonneg h]

theorem signedRat_magnitude_ne (h : S ≠ R) :
    signedRat t (f.magnitude S) ≠ signedRat s (f.magnitude R) := by
  intro heq
  have hmagnitude := congrArg abs heq
  rw [abs_signedRat, abs_signedRat, f.abs_magnitude, f.abs_magnitude] at hmagnitude
  exact h (f.strictMono_magnitude.injective hmagnitude)

/-- With the sign of the rational the distance is that of the magnitudes. -/
theorem abs_sub_signedRat (q v : Rat) : |q - signedRat (decide (q < 0)) v| = |(|q| - v)| := by
  rw [← abs_signedRat (decide (q < 0)) (|q| - v), ← signedRat_sub, signedRat_abs]

/-- With the other sign it is the sum of the magnitudes. -/
theorem abs_sub_signedRat_of_ne (hv : 0 ≤ v) (hs : s ≠ decide (q < 0)) :
    |q - signedRat s v| = |q| + v := by
  rw [Bool.eq_not.2 hs, signedRat_not, abs_sub_signedRat, sub_neg_eq_add]
  exact abs_of_nonneg (add_nonneg (abs_nonneg q) hv)

theorem le_abs_sub_signedRat (hv : 0 ≤ v) (s : Bool) (q : Rat) :
    |(|q| - v)| ≤ |q - signedRat s v| := by
  simpa [abs_of_nonneg hv] using abs_abs_sub_abs_le q (signedRat s v)

/-! ## The nearest number -/

/-- The number is finite, and each finite number of another value is farther from the rational, or
it is as far and the rank of the first number is even. -/
def IsNearest (x : Binary f) (q : Rat) : Prop :=
  ∃ v, x.toRat? = some v ∧ ∀ y : Binary f, ∀ w, y.toRat? = some w → w ≠ v →
    |q - v| < |q - w| ∨ |q - v| = |q - w| ∧ Even x.rank

/-- The sign of a finite number is that of the rational, unless the number is zero. -/
def HasSign (s : Bool) (R : Nat) (q : Rat) : Prop := R = 0 ∨ s = decide (q < 0)

theorem abs_sub_of_hasSign (hs : HasSign s R q) :
    |q - signedRat s (f.magnitude R)| = |(|q| - f.magnitude R)| := by
  rcases hs with rfl | rfl
  · rw [f.magnitude_zero, signedRat_zero, sub_zero, sub_zero, abs_abs]
  · exact abs_sub_signedRat q _

/-- The number of the nearest rank with the sign of the rational is the nearest one. -/
theorem isNearest_of_rank {hR : R < f.rankCount} (h : f.IsNearestRank |q| R)
    (hs : HasSign s R q) : (finite s R hR).IsNearest q := by
  refine ⟨_, rfl, ?_⟩
  rintro (_ | _ | ⟨t, S, hS⟩) w hw hne
  · cases hw
  · cases hw
  obtain rfl : signedRat t (f.magnitude S) = w := Option.some.inj hw
  rw [abs_sub_of_hasSign hs]
  by_cases hRS : S = R
  · -- The same magnitude with the other sign.
    subst hRS
    have hS : S ≠ 0 := by
      rintro rfl
      simp [f.magnitude_zero] at hne
    have ht : t ≠ decide (q < 0) := by
      rintro rfl
      exact hne (by rw [hs.resolve_left hS])
    have hq := h.pos hS
    have hmagnitude : 0 < f.magnitude S := Format.magnitude_pos hS
    rw [abs_sub_signedRat_of_ne hmagnitude.le ht]
    exact .inl (abs_lt.2 ⟨by linarith, by linarith⟩)
  · have hother := le_abs_sub_signedRat (f.magnitude_nonneg S) t q
    rcases h.nearer hRS with hlt | ⟨heq, heven⟩
    · exact .inl (hlt.trans_le hother)
    · exact (heq.trans_le hother).lt_or_eq.imp_right fun h => ⟨h, heven⟩

theorem IsNearest.hasSign {hR : R < f.rankCount} (h : (finite s R hR).IsNearest q) :
    HasSign s R q := by
  by_contra hs
  obtain ⟨hrank, hsign⟩ := not_or.1 hs
  obtain ⟨v, hv, h⟩ := h
  obtain rfl : signedRat s (f.magnitude R) = v := Option.some.inj hv
  have hmagnitude : 0 < f.magnitude R := Format.magnitude_pos hrank
  -- Zero is nearer.
  have hzero := h (finite s 0 f.rankCount_pos) _ rfl (signedRat_magnitude_ne (Ne.symm hrank))
  rw [abs_sub_signedRat_of_ne hmagnitude.le hsign, f.magnitude_zero, signedRat_zero,
    sub_zero] at hzero
  rcases hzero with hlt | ⟨heq, -⟩ <;> linarith

/-- The rank of the nearest number to a rational below the bound is the nearest rank. -/
theorem IsNearest.isNearestRank {hR : R < f.rankCount} (hq : |q| < f.overflowBound)
    (h : (finite s R hR).IsNearest q) : f.IsNearestRank |q| R := by
  have hs := h.hasSign
  obtain ⟨v, hv, h⟩ := h
  obtain rfl : signedRat s (f.magnitude R) = v := Option.some.inj hv
  have hnearer {S : Nat} (hS : S < f.rankCount) (hne : S ≠ R) : f.Nearer |q| R S := by
    have hS := h (finite (decide (q < 0)) S hS) _ rfl (signedRat_magnitude_ne hne)
    rwa [abs_sub_of_hasSign hs, abs_sub_signedRat] at hS
  refine Format.isNearestRank_of_nearer ?_ ?_
  · rintro r rfl
    exact hnearer (Nat.lt_of_succ_lt hR) (Nat.ne_of_lt r.lt_succ_self)
  · rcases (Nat.succ_le_of_lt hR).lt_or_eq with hlt | heq
    · exact hnearer hlt (Nat.succ_ne_self R)
    · -- Above the last rank is the bound.
      obtain rfl : R = f.rankCount - 1 := by omega
      rw [Format.nearer_iff_of_gt (Nat.lt_succ_self _), ← Format.midpoint,
        Format.midpoint_pred_rankCount]
      exact .inl hq

theorem isNearest_iff {hR : R < f.rankCount} (hq : |q| < f.overflowBound) :
    (finite s R hR).IsNearest q ↔ f.IsNearestRank |q| R ∧ HasSign s R q :=
  ⟨fun h => ⟨h.isNearestRank hq, h.hasSign⟩, fun h => isNearest_of_rank h.1 h.2⟩

/-! ## Rounding -/

theorem ofSigned_eq_finite (h : f.IsNearestRank |q| R) (hR : R < f.rankCount) :
    (ofSigned s q : Binary f) = .finite s R hR := by
  rw [ofSigned, Format.isNearestRank_abs_iff.1 h, ofRank, dif_pos hR]

/-- A rational below the bound has a nearest rank, and this one is finite. -/
theorem exists_nearestRank (hq : |q| < f.overflowBound) :
    ∃ R, f.IsNearestRank |q| R ∧ R < f.rankCount :=
  ⟨_, Format.isNearestRank_abs_iff.2 rfl, Format.nearestRank_lt_rankCount_iff.2 hq⟩

/-- Rounding gives the nearest number. -/
theorem isNearest_ofSigned (hq : |q| < f.overflowBound) :
    (ofSigned s q : Binary f).IsNearest (signedRat s |q|) := by
  obtain ⟨R, hnearest, hR⟩ := exists_nearestRank hq
  rw [ofSigned_eq_finite hnearest hR]
  refine isNearest_of_rank (by rwa [abs_signedRat, abs_abs]) ?_
  rcases (abs_nonneg q).lt_or_eq with hpos | hzero
  · right
    cases s <;> simp_all [signedRat]
  · rw [← hzero] at hnearest
    exact .inl (not_not.1 fun h => lt_irrefl 0 (hnearest.pos h))

theorem isNearest_ofRat (hq : |q| < f.overflowBound) : (ofRat q : Binary f).IsNearest q := by
  have h := isNearest_ofSigned (s := decide (q < 0)) hq
  rwa [signedRat_abs] at h

end Binary

end Metrology
