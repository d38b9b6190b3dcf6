/-
  Metrology.Proofs.Integer.Checked

  The checked operations on integers of fixed width. Each answers its exact result, which is that
  over the rational numbers: with the integer that it is, by overflow if that does not fit, as
  inexact if it is no integer, and by division by zero where there is none.
-/
import Metrology.Proofs.Integer.Squaring
import Metrology.Proofs.Outcome
import Metrology.Proofs.Ratio.Basic
import Metrology.Proofs.Ratio.Power
import Mathlib.Algebra.Group.Int.Units
import Mathlib.Data.Int.Cast.Lemmas

namespace Metrology.FixedInt

variable {w : Width}

/-! ## Checked results -/

theorem orOverflow_eq_ok {o : Option (FixedInt w)} {s : String} {c : FixedInt w} :
    orOverflow o s = .ok c ↔ o = some c := by
  cases o <;> simp [orOverflow, fail]

/-- An integer is made from exactly the integers that fit. -/
theorem ofInt_eq_ok {n : Int} {s : String} {c : FixedInt w} :
    ofInt n s = .ok c ↔ c.val = n := by
  rw [ofInt, ← ofInt?_eq_some_iff]
  cases ofInt? w n <;> simp [fail]

theorem overflowsOnly_orOverflow (o : Option (FixedInt w)) (s : String) :
    OverflowsOnly (orOverflow o s) := by
  intro e he
  cases o with
  | none =>
    cases he
    rfl
  | some c => cases he

theorem orOverflow_overflowsUnless (n : Int) (s : String) :
    OverflowsUnless (w.Fits n) (orOverflow (ofInt? w n) s) fun c => c.val = n := by
  constructor
  · intro h
    exact ⟨⟨n, h⟩, orOverflow_eq_ok.2 (ofInt?_eq_some_iff.2 rfl), rfl⟩
  · intro h
    rw [ofInt?_eq_none_iff.2 h]
    exact ⟨_, rfl, rfl⟩

/-- What does not fit is an overflow. -/
theorem ofInt_overflowsUnless (n : Int) (s : String) :
    OverflowsUnless (w.Fits n) (ofInt n s) fun c : FixedInt w => c.val = n := by
  constructor
  · intro h
    exact ⟨⟨n, h⟩, ofInt_eq_ok.2 rfl, rfl⟩
  · intro h
    rw [ofInt, ofInt?_eq_none_iff.2 h]
    exact ⟨_, rfl, rfl⟩

theorem ofRatio_intCast (n : Int) :
    (ofRatio (n : Ratio) : Except Error (FixedInt w)) = ofInt n (Integer.text n) := by
  rw [ofRatio, Ratio.trunc_intCast]

/-! ## Answers -/

/-- How a checked operation answers its exact result, if it has one. -/
inductive Answers : Option Ratio → Except Error (FixedInt w) → Prop where
  | divisionByZero : Answers none (fail .divisionByZero)
  | inexact {q : Ratio} {s t : String} (hq : ∀ m : Int, q ≠ m) :
      Answers (some q) (fail (.inexact s t))
  | integer {m : Int} {x : Except Error (FixedInt w)}
      (hx : OverflowsUnless (w.Fits m) x fun c => c.val = m) : Answers (some (m : Ratio)) x

/-- What answers an exact result succeeds exactly with that. -/
theorem Answers.eq_ok_iff {q? : Option Ratio} {x : Except Error (FixedInt w)} {c : FixedInt w}
    (h : Answers q? x) : x = .ok c ↔ q? = some (c.val : Ratio) := by
  cases h with
  | divisionByZero => simp [fail]
  | inexact hq =>
    constructor
    · intro h
      cases h
    · intro h
      exact absurd (Option.some.inj h) (hq c.val)
  | integer hx =>
    rw [Option.some.injEq, Int.cast_inj]
    constructor
    · intro h
      exact (hx.of_ok h).symm
    · rintro rfl
      obtain ⟨d, hd, hval⟩ := hx.ok c.fits
      rw [hd, FixedInt.ext hval]

/-! ## Arithmetic -/

theorem add_eq_ok {a b c : FixedInt w} : add a b = .ok c ↔ c.val = a.val + b.val := by
  rw [add, orOverflow_eq_ok, add?, ofInt?_eq_some_iff]

theorem sub_eq_ok {a b c : FixedInt w} : sub a b = .ok c ↔ c.val = a.val - b.val := by
  rw [sub, orOverflow_eq_ok, sub?, ofInt?_eq_some_iff]

theorem mul_eq_ok {a b c : FixedInt w} : mul a b = .ok c ↔ c.val = a.val * b.val := by
  rw [mul, orOverflow_eq_ok, mul?, ofInt?_eq_some_iff]

theorem add_overflowsUnless (a b : FixedInt w) :
    OverflowsUnless (w.Fits (a.val + b.val)) (add a b) fun c => c.val = a.val + b.val :=
  orOverflow_overflowsUnless _ _

theorem sub_overflowsUnless (a b : FixedInt w) :
    OverflowsUnless (w.Fits (a.val - b.val)) (sub a b) fun c => c.val = a.val - b.val :=
  orOverflow_overflowsUnless _ _

theorem add_answers (a b : FixedInt w) :
    Answers (some ((a.val : Ratio) + (b.val : Ratio))) (add a b) := by
  rw [← Int.cast_add]
  exact .integer (add_overflowsUnless a b)

theorem sub_answers (a b : FixedInt w) :
    Answers (some ((a.val : Ratio) - (b.val : Ratio))) (sub a b) := by
  rw [← Int.cast_sub]
  exact .integer (sub_overflowsUnless a b)

theorem mul_answers (a b : FixedInt w) :
    Answers (some ((a.val : Ratio) * (b.val : Ratio))) (mul a b) := by
  rw [← Int.cast_mul]
  exact .integer (orOverflow_overflowsUnless _ _)

/-! ## Quotients -/

/-- Without a remainder the quotient is the integer that the division gives. -/
theorem intCast_div_eq {a b : Int} (hb : b ≠ 0) (hmod : a.tmod b = 0) :
    (a : Ratio) / (b : Ratio) = (a.tdiv b : Int) := by
  rw [div_eq_iff (Int.cast_ne_zero.2 hb)]
  exact_mod_cast (Int.tdiv_mul_cancel (Int.dvd_of_tmod_eq_zero hmod)).symm

/-- A remainder is left exactly where the quotient is no integer. -/
theorem intCast_div_ne {a b : Int} (hb : b ≠ 0) (hmod : a.tmod b ≠ 0) (m : Int) :
    (a : Ratio) / (b : Ratio) ≠ m := by
  rw [ne_eq, div_eq_iff (Int.cast_ne_zero.2 hb)]
  intro h
  have ha : a = m * b := by exact_mod_cast h
  rw [ha, Int.mul_tmod_left] at hmod
  exact hmod rfl

/-- The least integer over minus one is the only quotient that does not fit. -/
theorem fits_tdiv_iff {a b : FixedInt w} (hb : b.val ≠ 0) :
    w.Fits (a.val.tdiv b.val) ↔ ¬ (a.val = w.least ∧ b.val = -1) := by
  constructor
  · rintro hfits ⟨ha, hone⟩
    rw [ha, hone, Int.tdiv_neg, Int.tdiv_one] at hfits
    cases w <;> exact absurd hfits (by decide)
  intro hne
  by_cases hone : b.val = -1
  · have ha : a.val ≠ w.least := fun ha => hne ⟨ha, hone⟩
    have hfits := a.fits
    rw [hone, Int.tdiv_neg, Int.tdiv_one]
    cases w <;> simp only [Width.Fits, Width.least, Width.greatest] at * <;> omega
  by_cases hself : b.val = 1
  · rw [hself, Int.tdiv_one]
    exact a.fits
  by_cases ha : a.val = 0
  · rw [ha, Int.zero_tdiv]
    exact w.fits_zero
  · -- Any other divisor brings the quotient nearer to zero.
    refine Width.fits_of_natAbs_lt a.fits ?_
    rw [Int.natAbs_tdiv]
    exact Nat.div_lt_self (Int.natAbs_pos.2 ha) (by omega)

theorem quot?_eq_none_iff {a b : FixedInt w} (hb : b.val ≠ 0) :
    a.quot? b = none ↔ a.val = w.least ∧ b.val = -1 := by
  rw [quot?, if_neg hb, ofInt?_eq_none_iff, fits_tdiv_iff hb, not_not]

/-- A remainder is nearer to zero than the divisor, so wherever there is one it fits. -/
theorem rem?_eq_none_iff {a b : FixedInt w} (hb : b.val ≠ 0) :
    a.rem? b = none ↔ a.val = w.least ∧ b.val = -1 := by
  have hfits : w.Fits (a.val.tmod b.val) := by
    refine Width.fits_of_natAbs_lt b.fits ?_
    rw [Int.natAbs_tmod]
    exact Nat.mod_lt _ (Int.natAbs_pos.2 hb)
  rw [rem?, ite_eq_left_iff, ofInt?_eq_none_iff, not_imp_not, imp_iff_right hfits,
    or_iff_right hb]

theorem val_of_rem?_eq_some {a b r : FixedInt w} (h : a.rem? b = some r) :
    r.val = a.val.tmod b.val := by
  rw [rem?, Option.ite_none_left_eq_some] at h
  exact ofInt?_eq_some_iff.1 h.2

/-- Where the remainder is absent the quotient is absent as well, so the division overflows. -/
theorem div_of_rem?_eq_none {a b : FixedInt w} (hb : b.val ≠ 0) (h : a.rem? b = none) :
    div a b = orOverflow (a.quot? b) (expression a " / " b) := by
  have hquot : a.quot? b = none := (quot?_eq_none_iff hb).2 ((rem?_eq_none_iff hb).1 h)
  rw [div, if_neg hb, h, hquot]
  rfl

theorem orOverflow_quot?_overflowsUnless {a b : FixedInt w} (hb : b.val ≠ 0) (s : String) :
    OverflowsUnless (w.Fits (a.val.tdiv b.val)) (orOverflow (a.quot? b) s)
      fun c => c.val = a.val.tdiv b.val := by
  rw [quot?, if_neg hb]
  exact orOverflow_overflowsUnless _ _

theorem div_answers (a b : FixedInt w) :
    Answers (if (b.val : Ratio) = 0 then none else some ((a.val : Ratio) / (b.val : Ratio)))
      (div a b) := by
  by_cases hb : b.val = 0
  · rw [div, if_pos hb, if_pos (Int.cast_eq_zero.2 hb)]
    exact .divisionByZero
  rw [if_neg (Int.cast_ne_zero.2 hb)]
  cases hrem : a.rem? b with
  | none =>
    have hmod : a.val.tmod b.val = 0 := by
      rw [((rem?_eq_none_iff hb).1 hrem).2, Int.tmod_neg, Int.tmod_one]
    rw [div_of_rem?_eq_none hb hrem, intCast_div_eq hb hmod]
    exact .integer (orOverflow_quot?_overflowsUnless hb _)
  | some r =>
    rw [div, if_neg hb, hrem]
    have hval := val_of_rem?_eq_some hrem
    by_cases hr : r.val = 0
    · simp only [if_pos hr]
      rw [intCast_div_eq hb (hval.symm.trans hr)]
      exact .integer (orOverflow_quot?_overflowsUnless hb _)
    · simp only [if_neg hr]
      exact .inexact (intCast_div_ne hb (hval ▸ hr))

/-- The quotient is that over the rational numbers. -/
theorem div_eq_ok {a b c : FixedInt w} :
    div a b = .ok c ↔
      (b.val : Ratio) ≠ 0 ∧ (c.val : Ratio) = (a.val : Ratio) / (b.val : Ratio) := by
  rw [(div_answers a b).eq_ok_iff, Option.ite_none_left_eq_some, Option.some.injEq,
    @eq_comm _ (c.val : Ratio)]

/-! ## Powers -/

/-- A power that is no negative one is an integer. -/
theorem zpow_eq_intCast {n : Int} (a : Int) (hn : 0 ≤ n) :
    (a : Ratio) ^ n = (a ^ n.toNat : Int) := by
  rw [Int.cast_pow, ← zpow_natCast, Int.toNat_of_nonneg hn]

/-- A negative power is the integer, if any, that multiplies the positive power to one. -/
theorem intCast_eq_zpow_iff {a c n : Int} (ha : a ≠ 0) (hn : n < 0) :
    (c : Ratio) = (a : Ratio) ^ n ↔ c * a ^ n.natAbs = 1 := by
  have hneg : n = -(n.natAbs : Int) := by omega
  have hpos : (a : Ratio) ^ n.natAbs ≠ 0 := pow_ne_zero _ (Int.cast_ne_zero.2 ha)
  rw [hneg, zpow_neg, zpow_natCast, Int.natAbs_neg, Int.natAbs_natCast,
    ← mul_eq_one_iff_eq_inv₀ hpos]
  norm_cast

/-- One and minus one are their own reciprocals. -/
theorem eq_pow_iff_mul_pow_eq_one {a : Int} (ha : a.natAbs = 1) (c : Int) (k : Nat) :
    c = a ^ k ↔ c * a ^ k = 1 := by
  have hself : a ^ k * a ^ k = 1 := by
    rw [← mul_pow, ← Int.natAbs_mul_self, ha]
    simp
  constructor
  · intro h
    rw [h, hself]
  · intro h
    rw [← mul_one c, ← hself, ← mul_assoc, h, one_mul]

/-- Of a product that is one both factors are units, so that only one and minus one have a power
with an inverse. -/
theorem natAbs_eq_one_of_mul_pow_eq_one {a c : Int} {k : Nat} (hk : k ≠ 0)
    (h : c * a ^ k = 1) : a.natAbs = 1 := by
  have hunit : IsUnit (a ^ k) := .of_mul_eq_one_right _ h
  exact Int.isUnit_iff_natAbs_eq.1 ((isUnit_pow_iff hk).1 hunit)

/-- A power by repeated squaring is absent exactly where it does not fit. -/
theorem orOverflow_pow?_overflowsUnless (a : FixedInt w) (k : Nat) (s : String) :
    OverflowsUnless (w.Fits (a.val ^ k)) (orOverflow (a.pow? k) s) fun c => c.val = a.val ^ k := by
  refine (overflowsOnly_orOverflow _ _).overflowsUnless (fun h => ?_) fun c hc => ?_
  · exact ⟨⟨_, h⟩, orOverflow_eq_ok.2 (pow?_eq_some_iff.2 rfl)⟩
  · have hval := pow?_eq_some_iff.1 (orOverflow_eq_ok.1 hc)
    exact ⟨hval ▸ c.fits, hval⟩

/-- A negative power is by zero for zero, and an integer only for one and minus one. -/
theorem pow_of_neg (a : FixedInt w) {n : Power} (hn : n.val < 0) :
    pow a n =
      if a.val = 0 then fail .divisionByZero
      else if a.val.natAbs = 1 then orOverflow (a.pow? n.val.natAbs) (expression a "^" n)
      else fail (.inexact (expression a "^" n) w.name) := by
  rw [pow, if_neg hn.not_ge, toRatio, Ratio.pow_eq]
  by_cases ha : a.val = 0
  · rw [if_pos ⟨Int.cast_eq_zero.2 ha, hn⟩, if_pos ha]
    rfl
  rw [if_neg fun h => ha (Int.cast_eq_zero.1 h.1), if_neg ha, lift_ok, ok_bind]
  by_cases hone : a.val.natAbs = 1
  · -- One and minus one are their own reciprocals, and their powers always fit.
    have hpower : (a.val : Ratio) ^ n.val = (a.val ^ n.val.natAbs : Int) := by
      rw [eq_comm, intCast_eq_zpow_iff ha hn, ← eq_pow_iff_mul_pow_eq_one hone]
    have hfits : w.Fits (a.val ^ n.val.natAbs) := w.fits_pow_of_natAbs_le_one hone.le _
    rw [hpower, if_pos (Ratio.isInteger_iff.2 ⟨_, rfl⟩), ofRatio_intCast, if_pos hone,
      (ofInt_eq_ok (c := ⟨_, hfits⟩)).2 rfl,
      orOverflow_eq_ok.2 ((pow?_eq_some_iff (c := ⟨_, hfits⟩)).2 rfl)]
  · rw [if_neg hone, if_neg]
    intro hinteger
    obtain ⟨m, hm⟩ := Ratio.isInteger_iff.1 hinteger
    have hk : n.val.natAbs ≠ 0 := Int.natAbs_ne_zero.2 hn.ne
    exact hone (natAbs_eq_one_of_mul_pow_eq_one hk ((intCast_eq_zpow_iff ha hn).1 hm.symm))

theorem pow_answers (a : FixedInt w) (n : Power) :
    Answers (if (a.val : Ratio) = 0 ∧ n.val < 0 then none else some ((a.val : Ratio) ^ n.val))
      (pow a n) := by
  by_cases hn : 0 ≤ n.val
  · rw [pow, if_pos hn, if_neg fun hzero => hn.not_gt hzero.2, zpow_eq_intCast a.val hn]
    exact .integer (orOverflow_pow?_overflowsUnless a _ _)
  rw [pow, if_neg hn, toRatio, Ratio.pow_eq]
  by_cases hzero : (a.val : Ratio) = 0 ∧ n.val < 0
  · rw [if_pos hzero, if_pos hzero]
    exact .divisionByZero
  rw [if_neg hzero, if_neg hzero, lift_ok, ok_bind]
  by_cases hinteger : Ratio.isInteger ((a.val : Ratio) ^ n.val) = true
  · obtain ⟨m, hm⟩ := Ratio.isInteger_iff.1 hinteger
    rw [if_pos hinteger, hm, ofRatio_intCast]
    exact .integer (ofInt_overflowsUnless _ _)
  · rw [if_neg hinteger]
    exact .inexact fun m hm => hinteger (Ratio.isInteger_iff.2 ⟨m, hm⟩)

/-- The integer power is the power over the rational numbers, which for a negative exponent
is an integer only for one and minus one. -/
theorem pow_eq_ok {a c : FixedInt w} {n : Power} :
    pow a n = .ok c ↔
      ((a.val : Ratio) = 0 → 0 ≤ n.val) ∧ (c.val : Ratio) = (a.val : Ratio) ^ n.val := by
  rw [(pow_answers a n).eq_ok_iff, Option.ite_none_left_eq_some, Option.some.injEq, not_and,
    not_lt, @eq_comm _ (c.val : Ratio)]

end Metrology.FixedInt
