/-
  Metrology.Proofs.Binary.DoubleRounding

  Rounding in two steps. A ratio becomes a number of 32 bits by way of 64 bits. The middle between
  neighbours of 32 bits is itself a number of 64 bits, so the first step moves no ratio across a
  middle, but it may move one into a middle, where the second step goes to the even neighbour on
  whichever side the ratio was. So the result is the nearest number except for a ratio that is
  rounded into a middle and lies on the other side of it than the even neighbour.
-/
import Metrology.Proofs.Binary.NearestNumber
import Metrology.Representation.Floating

namespace Metrology

namespace Format

variable {f : Format} {q : Rat} {k m D R S : Nat}

/-! ## Magnitudes and rounding -/

/-- A magnitude is rounded to itself. -/
theorem isNearestRank_magnitude (f : Format) (R : Nat) : f.IsNearestRank (f.magnitude R) R where
  lower := by
    rintro r rfl
    exact .inl (f.midpoint_lt_magnitude_succ r)
  upper := .inl (f.magnitude_lt_midpoint R)

/-- Rounding moves no number across a magnitude from below ... -/
theorem IsNearestRank.magnitude_le (h : f.IsNearestRank q R) (hq : q ≤ f.magnitude S) :
    f.magnitude R ≤ f.magnitude S := by
  refine f.strictMono_magnitude.monotone (Nat.not_lt.1 fun hlt => ?_)
  have hmiddle := f.magnitude_lt_midpoint S
  rcases h.lt_iff.1 hlt with hpast | ⟨hpast, -⟩ <;> linarith

/-- ... nor from above. -/
theorem IsNearestRank.le_magnitude (h : f.IsNearestRank q R) (hq : f.magnitude S ≤ q) :
    f.magnitude S ≤ f.magnitude R := by
  refine f.strictMono_magnitude.monotone (Nat.not_lt.1 fun hlt => ?_)
  have hmiddle := f.midpoint_lt_magnitude_succ R
  have hmono := f.strictMono_magnitude.monotone (Nat.succ_le_of_lt hlt)
  rcases h.upper with hbelow | ⟨hbelow, -⟩ <;> linarith

/-! ## Middles of 32 bits in 64 bits -/

/-- A multiple of a last place that is no longer than a significand is a magnitude. -/
theorem exists_magnitude_eq (f : Format) (binade : Nat) (hm : m ≤ 2 * f.leadingBit) :
    ∃ R, f.magnitude R = m * f.lastPlace binade := by
  induction binade generalizing m with
  | zero => exact ⟨_, magnitude_of_significand ⟨hm, .inl rfl⟩⟩
  | succ binade ih =>
    rcases Nat.lt_or_ge m f.leadingBit with hshort | hfull
    · -- A short multiple is counted in the places of the binade before.
      obtain ⟨R, hR⟩ := ih (m := 2 * m) (by omega)
      refine ⟨R, hR.trans ?_⟩
      rw [lastPlace_succ]
      push_cast
      ring
    · exact ⟨_, magnitude_of_significand ⟨hm, .inr hfull⟩⟩

/-- Half a last place of 32 bits is a place of 64 bits. -/
theorem lastPlace_double (binade : Nat) :
    2 * double.lastPlace (binade + 924) = single.lastPlace binade := by
  have hexponent : double.leastExponent + (binade + 924 + 1 : Nat) =
      single.leastExponent + binade := by
    simp only [leastExponent]
    omega
  rw [← lastPlace_succ, lastPlace, lastPlace, hexponent]

theorem exists_magnitude_midpoint (k : Nat) : ∃ R, double.magnitude R = single.midpoint k := by
  obtain ⟨binade, s, rfl, hs, hfirst⟩ := single.exists_significand k
  have hlength : 2 * s + 1 ≤ 2 * double.leadingBit := by
    simp only [leadingBit] at hs ⊢
    omega
  obtain ⟨R, hR⟩ := double.exists_magnitude_eq (binade + 924) hlength
  refine ⟨R, ?_⟩
  rw [hR, midpoint_of_lt hs hfirst, ← lastPlace_double]
  push_cast
  ring

/-! ## Two roundings and one -/

/-- The number is rounded to 64 bits into the middle above a rank of 32 bits, and the tie there
goes to the side where the number is not. -/
def CrossesMiddle (q m : Rat) : Prop :=
  ∃ k, m = single.midpoint k ∧ (q < m ∧ ¬ Even k ∨ m < q ∧ Even k)

/-- The rank of 32 bits is the one nearest to the number exactly if the number does not cross a
middle on the way. -/
theorem rank_eq_iff_not_crossesMiddle (hD : double.IsNearestRank q D)
    (hR : single.IsNearestRank q R) (hS : single.IsNearestRank (double.magnitude D) S) :
    S = R ↔ ¬ CrossesMiddle q (double.magnitude D) := by
  constructor
  · rintro rfl ⟨k, hk, hside⟩
    -- The tie decides the rank of the middle, and the side that of the number.
    have hrank := hR.lt_iff.symm.trans (hS.lt_iff (r := k))
    rw [hk] at hrank hside
    rcases hside with ⟨hq, hodd⟩ | ⟨hq, heven⟩
    · exact absurd (hrank.2 (.inr ⟨rfl, hodd⟩)) (by simp [hq.le, hq.ne'])
    · exact absurd (hrank.1 (.inl hq)) (by simp [heven])
  · intro hcross
    refine eq_of_forall_lt_iff fun k => ?_
    obtain ⟨K, hK⟩ := exists_magnitude_midpoint k
    rw [hS.lt_iff, hR.lt_iff]
    rcases lt_trichotomy q (single.midpoint k) with hq | hq | hq
    · have hle := hD.magnitude_le (hq.le.trans_eq hK.symm)
      have htie (h : double.magnitude D = single.midpoint k) : Even k :=
        not_not.1 fun hodd => hcross ⟨k, h, .inl ⟨hq.trans_eq h.symm, hodd⟩⟩
      grind
    · have hle := hD.magnitude_le (hq.le.trans_eq hK.symm)
      have hge := hD.le_magnitude (hK.trans_le hq.ge)
      grind
    · have hge := hD.le_magnitude (hK.trans_le hq.le)
      have htie (h : double.magnitude D = single.midpoint k) : ¬ Even k :=
        fun heven => hcross ⟨k, h, .inr ⟨h.trans_lt hq, heven⟩⟩
      grind

/-- A middle is rounded to its even neighbour. -/
theorem isNearestRank_midpoint (f : Format) (k : Nat) :
    f.IsNearestRank (f.midpoint k) (if Even k then k else k + 1) := by
  split
  · rename_i heven
    refine ⟨?_, .inr ⟨rfl, heven⟩⟩
    rintro r rfl
    exact .inl (f.strictMono_midpoint r.lt_succ_self)
  · rename_i hodd
    refine ⟨?_, .inl (f.strictMono_midpoint k.lt_succ_self)⟩
    rintro r hr
    obtain rfl := Nat.succ.inj hr
    exact .inr ⟨rfl, Nat.even_add_one.2 hodd⟩

end Format

/-! ## Ratios and numbers -/

/-- The number of 64 bits is a middle between neighbours of 32 bits, of which the even one is not
on the side of the ratio. -/
def Ratio.CrossesMiddle (r : Ratio) : Prop :=
  ∃ v, r.toBinary.toRat? = some v ∧ Format.CrossesMiddle |r| |v|

namespace Binary

open Format

variable {f : Format} {r : Ratio} {s : Bool} {q v : Rat} {D R k : Nat}

theorem finiteResult_ofSigned (h : f.IsNearestRank |q| R) (hR : R < f.rankCount) :
    finiteResult (ofSigned s q : Binary f) = .ok (.finite s R hR) := by
  rw [ofSigned_eq_finite h hR]
  rfl

/-- The result is kept only if it is finite. -/
theorem eq_of_finiteResult_ofSigned {x : Binary f} (h : f.IsNearestRank |q| R)
    (hx : finiteResult (ofSigned s q) = .ok x) : ∃ hR, x = .finite s R hR := by
  rw [ofSigned, isNearestRank_abs_iff.1 h, finiteResult] at hx
  split at hx
  · rename_i hfinite
    have hR := isFinite_ofRank.1 hfinite
    rw [ofRank, dif_pos hR] at hx
    exact ⟨hR, (Except.ok.inj hx).symm⟩
  · cases hx

/-! ### One rounding -/

/-- A number of 64 bits becomes the nearest number of the format. -/
theorem isNearest_ofDouble {x : Binary .double} (hx : x.toRat? = some v)
    (hv : |v| < f.overflowBound) : ∃ y : Binary f, ofDouble x = .ok y ∧ y.IsNearest v := by
  obtain _ | _ | ⟨s, D, hD⟩ := x
  · cases hx
  · cases hx
  obtain rfl : signedRat s (double.magnitude D) = v := Option.some.inj hx
  rw [abs_signedRat] at hv
  obtain ⟨R, hR, hRcount⟩ := exists_nearestRank hv
  refine ⟨_, finiteResult_ofSigned hR hRcount, ?_⟩
  have hnearest := isNearest_ofSigned (s := s) hv
  rwa [abs_magnitude, ofSigned_eq_finite hR hRcount] at hnearest

theorem toBinary_eq (h : double.IsNearestRank |r| D) (hD : D < double.rankCount) :
    r.toBinary = .finite (decide (r < 0)) D hD := ofSigned_eq_finite h hD

theorem ofRatio_eq (h : double.IsNearestRank |r| D) (hD : D < double.rankCount) :
    (ofRatio r : Except Error (Binary f)) =
      finiteResult (ofSigned (decide (r < 0)) (double.magnitude D)) := by
  rw [ofRatio, toBinary_eq h hD]
  rfl

/-- A ratio becomes the nearest number of 64 bits. -/
theorem isNearest_ofRatio_double (hr : |r| < double.overflowBound) :
    ∃ x : Binary .double, ofRatio r = .ok x ∧ x.IsNearest r := by
  obtain ⟨D, hD, hDcount⟩ := exists_nearestRank hr
  have hsame : double.IsNearestRank |double.magnitude D| D := by
    rw [abs_magnitude]
    exact double.isNearestRank_magnitude D
  exact ⟨_, (ofRatio_eq hD hDcount).trans (finiteResult_ofSigned hsame hDcount),
    (isNearest_iff hr).2 ⟨hD, .inr rfl⟩⟩

/-! ### Two roundings -/

theorem overflowBound_single_le : single.overflowBound ≤ double.overflowBound := by
  decide +kernel

theorem crossesMiddle_iff (h : double.IsNearestRank |r| D) (hD : D < double.rankCount) :
    r.CrossesMiddle ↔ Format.CrossesMiddle |r| (double.magnitude D) := by
  rw [Ratio.CrossesMiddle, toBinary_eq h hD]
  simp only [toRat?, Option.some.injEq, exists_eq_left', abs_signedRat, abs_magnitude]

/-- A ratio that is rounded into a middle becomes the even neighbour, if that is finite. -/
theorem ofRatio_of_middle (hv : r.toBinary.toRat? = some v) (hk : |v| = single.midpoint k) :
    (ofRatio r : Except Error (Binary .single)) =
      finiteResult (ofRank (decide (r < 0)) (if Even k then k else k + 1)) := by
  obtain ⟨s, D, hD, hx⟩ : ∃ s D hD, r.toBinary = .finite s D hD := by
    cases hx : r.toBinary <;> simp_all [toRat?]
  have hs : s = decide (r < 0) := by
    rw [← isNegative_finite s D hD, ← hx]
    exact isNegative_ofSigned _ _
  rw [hx] at hv
  obtain rfl : signedRat s (double.magnitude D) = v := Option.some.inj hv
  have hmiddle : single.IsNearestRank |double.magnitude D| (if Even k then k else k + 1) := by
    rw [← abs_signedRat s, hk]
    exact single.isNearestRank_midpoint k
  rw [ofRatio, hx, convert, ofSigned, isNearestRank_abs_iff.1 hmiddle, hs]

/-- A ratio below the bound becomes the nearest number of 32 bits exactly if it does not cross a
middle on its way through 64 bits. -/
theorem ofRatio_correct_iff (hr : |r| < single.overflowBound) :
    (∃ x : Binary .single, ofRatio r = .ok x ∧ x.IsNearest r) ↔ ¬ r.CrossesMiddle := by
  obtain ⟨D, hD, hDcount⟩ := exists_nearestRank (hr.trans_le overflowBound_single_le)
  obtain ⟨R, hR, hRcount⟩ := exists_nearestRank hr
  obtain ⟨S, hS⟩ : ∃ S, single.IsNearestRank |double.magnitude D| S :=
    ⟨_, isNearestRank_abs_iff.2 rfl⟩
  have hvalue := hS
  rw [abs_magnitude] at hvalue
  rw [ofRatio_eq hD hDcount, crossesMiddle_iff hD hDcount,
    ← rank_eq_iff_not_crossesMiddle hD hR hvalue]
  constructor
  · rintro ⟨x, hx, hnearest⟩
    obtain ⟨hScount, rfl⟩ := eq_of_finiteResult_ofSigned hS hx
    exact ((isNearest_iff hr).1 hnearest).1.unique hR
  · rintro rfl
    exact ⟨_, finiteResult_ofSigned hS hRcount, (isNearest_iff hr).2 ⟨hR, .inr rfl⟩⟩

/-- The number of 64 bits for a third lies between two middles. -/
theorem ofRatio_correct_iff_third : ¬ Ratio.CrossesMiddle (1 / 3) ∧
    ∃ x : Binary .single, ofRatio (1 / 3) = .ok x ∧ x.IsNearest (1 / 3) := by
  have hcross : ¬ Ratio.CrossesMiddle (1 / 3) := by
    rintro ⟨v, hv, k, hk, -⟩
    have hvalue : Ratio.toBinary (1 / 3) = .finite false 4599676419421066581 (by decide) := by
      decide +kernel
    rw [hvalue] at hv
    obtain rfl : double.magnitude 4599676419421066581 = v := Option.some.inj hv
    have hlower : single.midpoint 1051372202 < single.midpoint k := by
      rw [← hk]
      decide +kernel
    have hupper : single.midpoint k < single.midpoint 1051372203 := by
      rw [← hk]
      decide +kernel
    rw [single.strictMono_midpoint.lt_iff_lt] at hlower hupper
    omega
  exact ⟨hcross, (ofRatio_correct_iff (by decide +kernel)).2 hcross⟩

/-- One, half a place of 32 bits and a part of it that is lost in 64 bits. -/
def besideMiddle : Ratio := 1 + 1 / 2 ^ 24 + 1 / 2 ^ 60

/-- It becomes one, although the next number of 32 bits is nearer. -/
theorem not_isNearest_besideMiddle : |besideMiddle| < single.overflowBound ∧
    ∃ x : Binary .single, ofRatio besideMiddle = .ok x ∧ ¬ x.IsNearest besideMiddle := by
  refine ⟨by decide +kernel, .finite false 1065353216 (by decide), ?_, ?_⟩
  · have hone : besideMiddle.toBinary.convert .single = .finite false 1065353216 (by decide) := by
      decide +kernel
    rw [ofRatio, hone]
    rfl
  · rintro ⟨v, hv, h⟩
    obtain rfl : single.magnitude 1065353216 = v := Option.some.inj hv
    have hnext := h (.finite false 1065353217 (by decide)) _ rfl (by decide +kernel)
    revert hnext
    decide +kernel

end Binary

end Metrology
