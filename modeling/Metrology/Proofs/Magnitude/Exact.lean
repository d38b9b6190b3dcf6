/-
  Metrology.Proofs.Magnitude.Exact

  Magnitudes with exact coefficients: which magnitudes are ratios, and what the product, the
  quotient and the power of exact magnitudes are when they exist.
-/
import Metrology.Magnitude.Basic
import Metrology.Proofs.Outcome
import Metrology.Proofs.Ratio.Gcd
import Metrology.Proofs.Ratio.Power

namespace Metrology.Magnitude

variable {m : Magnitude} {x y : Ratio} {k l : Power}

/-! ## Ratios among the magnitudes -/

theorem asRatio?_eq_some_iff {q : Ratio} : m.asRatio? = some q ↔ m = exact q := by
  obtain ⟨c, k⟩ := m
  cases c with
  | exact c =>
    by_cases hk : k = 0
    · simp [asRatio?, exact, hk]
    · simp [asRatio?, exact, hk]
  | approx c => simp [asRatio?, exact]

@[simp] theorem asRatio?_exact (q : Ratio) : (exact q).asRatio? = some q :=
  asRatio?_eq_some_iff.2 rfl

@[simp] theorem isInteger_exact (q : Ratio) : (exact q).isInteger = q.isInteger := by
  rw [isInteger, asRatio?_exact, Option.any_some]

@[simp] theorem isOne_exact (q : Ratio) : (exact q).isOne = (q == 1) := by
  rw [isOne, asRatio?_exact, Option.any_some]

theorem isRational_iff : m.isRational = true ↔ ∃ q, m = exact q := by
  rw [isRational, Option.isSome_iff_exists]
  exact exists_congr fun q => asRatio?_eq_some_iff

theorem isInteger_iff : m.isInteger = true ↔ ∃ q : Ratio, m = exact q ∧ q.isInteger = true := by
  rw [isInteger, Option.any_eq_true]
  exact exists_congr fun q => and_congr_left' asRatio?_eq_some_iff

theorem isExact_iff : m.isExact = true ↔ ∃ q k, m = ⟨.exact q, k⟩ := by
  rcases m with ⟨q | c, k⟩
  · exact ⟨fun _ => ⟨q, k, rfl⟩, fun _ => rfl⟩
  · constructor
    · intro h
      cases h
    · rintro ⟨q, k, h⟩
      cases h

/-- An exact magnitude has the value of itself alone. -/
theorem sameValue_iff {a b : Magnitude} (ha : a.isExact = true) :
    a.sameValue b = true ↔ a = b := by
  obtain ⟨q, k, rfl⟩ := isExact_iff.1 ha
  rcases b with ⟨p | c, l⟩
  · simp [sameValue, Coefficient.sameValue]
  · simp [sameValue, Coefficient.sameValue]

/-- Exact magnitudes are equal to themselves, unlike what is no number. -/
theorem sameValue_self (h : m.isExact = true) : m.sameValue m = true := (sameValue_iff h).2 rfl

/-- Exact magnitudes with one power of pi are compared by their ratios. -/
theorem compareValue_exact (x y : Ratio) (k : Power) :
    compareValue ⟨.exact x, k⟩ ⟨.exact y, k⟩ = cmp x y := by
  rw [compareValue]
  exact (if_pos rfl).trans (Ratio.compare_eq_cmp x y)

/-! ## Algebra -/

theorem withPower_eq_ok {c : Coefficient} {pi : Option Power} :
    withPower c pi = .ok m ↔ m.coefficient = c ∧ pi = some m.pi := by
  obtain ⟨d, k⟩ := m
  cases pi with
  | none => simp [withPower]
  | some pi => simp [withPower, eq_comm]

theorem withPower_overflowsUnless (c : Coefficient) (n : Int) :
    OverflowsUnless (Width.w32.Fits n) (Error.lift (withPower c (FixedInt.ofInt? .w32 n)))
      fun m => m.coefficient = c ∧ m.pi.val = n := by
  constructor
  · intro h
    rw [FixedInt.ofInt?_eq_some_iff.2 (rfl : (⟨n, h⟩ : Power).val = n)]
    exact ⟨⟨c, ⟨n, h⟩⟩, rfl, rfl, rfl⟩
  · intro h
    rw [FixedInt.ofInt?_eq_none_iff.2 h]
    exact ⟨_, rfl, rfl⟩

/-- The quotient by a magnitude that is not zero is that of the two components. -/
theorem div_exact (hy : y ≠ 0) (x : Ratio) (k l : Power) :
    div ⟨.exact x, k⟩ ⟨.exact y, l⟩ = withPower (.exact (x / y)) (k.sub? l) := by
  have hzero : (⟨.exact y, l⟩ : Magnitude).isZero = false := beq_eq_false_iff_ne.2 hy
  rw [div, hzero, if_neg Bool.false_ne_true]
  rfl

theorem mul_exact_eq_ok :
    mul ⟨.exact x, k⟩ ⟨.exact y, l⟩ = .ok m ↔
      m.coefficient = .exact (x * y) ∧ m.pi.val = k.val + l.val := by
  rw [mul, withPower_eq_ok, FixedInt.add?, FixedInt.ofInt?_eq_some_iff]
  rfl

theorem div_exact_eq_ok :
    div ⟨.exact x, k⟩ ⟨.exact y, l⟩ = .ok m ↔
      y ≠ 0 ∧ m.coefficient = .exact (x / y) ∧ m.pi.val = k.val - l.val := by
  by_cases hy : y = 0
  · simp [div, isZero, Coefficient.isZero, hy]
  · rw [div_exact hy, withPower_eq_ok, FixedInt.sub?, FixedInt.ofInt?_eq_some_iff]
    exact (and_iff_right hy).symm

/-- The quotient by a magnitude that is not zero fails only where the difference of the powers
of pi does not fit. -/
theorem div_exact_overflowsUnless (hy : y ≠ 0) :
    OverflowsUnless (Width.w32.Fits (k.val - l.val))
      (Error.lift (div ⟨.exact x, k⟩ ⟨.exact y, l⟩))
      fun m => m.coefficient = .exact (x / y) ∧ m.pi.val = k.val - l.val := by
  rw [div_exact hy]
  exact withPower_overflowsUnless _ _

theorem pow_exact_eq_ok {n : Power} :
    pow ⟨.exact x, k⟩ n = .ok m ↔
      (x = 0 → 0 ≤ n.val) ∧ m.coefficient = .exact (x ^ n.val) ∧
        m.pi.val = k.val * n.val := by
  obtain ⟨c, pi⟩ := m
  rw [pow]
  cases hpi : k.mul? n with
  | none =>
    -- No magnitude could have this power of pi, which does not fit.
    rw [FixedInt.mul?, FixedInt.ofInt?_eq_none_iff] at hpi
    constructor
    · intro h
      cases h
    · rintro ⟨-, -, h⟩
      exact absurd (h ▸ pi.fits) hpi
  | some p =>
    rw [FixedInt.mul?, FixedInt.ofInt?_eq_some_iff] at hpi
    simp only [Coefficient.pow, map_eq_ok, Ratio.pow_eq_ok, Magnitude.mk.injEq]
    constructor
    · rintro ⟨_, ⟨_, ⟨h0, rfl⟩, rfl⟩, rfl, rfl⟩
      exact ⟨h0, rfl, hpi⟩
    · rintro ⟨h0, rfl, h⟩
      exact ⟨_, ⟨_, ⟨h0, rfl⟩, rfl⟩, rfl, FixedInt.ext (hpi.trans h.symm)⟩

theorem isExact_of_coefficient {q : Ratio} (h : m.coefficient = .exact q) : m.isExact = true := by
  rw [isExact, h]

/-- A product is exact if both of its factors are. -/
theorem isExact_mul_iff {a b : Magnitude} (h : a.mul b = .ok m) :
    m.isExact = true ↔ a.isExact = true ∧ b.isExact = true := by
  rw [mul, withPower_eq_ok] at h
  rcases a with ⟨x | x, k⟩ <;> rcases b with ⟨y | y, l⟩ <;> simp [isExact, h.1, Coefficient.mul]

/-- A quotient is exact if both of its parts are. -/
theorem isExact_div_iff {a b : Magnitude} (h : a.div b = .ok m) :
    m.isExact = true ↔ a.isExact = true ∧ b.isExact = true := by
  rw [div] at h
  split at h
  · cases h
  · rw [withPower_eq_ok] at h
    rcases a with ⟨x | x, k⟩ <;> rcases b with ⟨y | y, l⟩ <;> simp [isExact, h.1, Coefficient.div]

/-- A power of pi changes nothing in the coefficient. -/
theorem isExact_timesPi {a : Magnitude} (h : a.timesPi k = .ok m) : m.isExact = a.isExact := by
  rw [isExact, isExact, (withPower_eq_ok.1 h).1]

theorem isExact_mul {a b : Magnitude} (ha : a.isExact = true) (hb : b.isExact = true)
    (h : a.mul b = .ok m) : m.isExact = true :=
  (isExact_mul_iff h).2 ⟨ha, hb⟩

theorem isExact_div {a b : Magnitude} (ha : a.isExact = true) (hb : b.isExact = true)
    (h : a.div b = .ok m) : m.isExact = true :=
  (isExact_div_iff h).2 ⟨ha, hb⟩

theorem isExact_pow {a : Magnitude} {n : Power} (ha : a.isExact = true) (h : a.pow n = .ok m) :
    m.isExact = true := by
  obtain ⟨x, k, rfl⟩ := isExact_iff.1 ha
  exact isExact_of_coefficient (pow_exact_eq_ok.1 h).2.1

/-- The quotient of magnitudes with one power of pi is a ratio. -/
theorem div_exact_same (hy : y ≠ 0) :
    div ⟨.exact x, k⟩ ⟨.exact y, k⟩ = .ok (exact (x / y)) :=
  div_exact_eq_ok.2 ⟨hy, rfl, (Int.sub_self k.val).symm⟩

/-- The common divisor of exact magnitudes needs one power of pi. -/
theorem commonDivisor?_exact_eq_some {d : Magnitude} :
    commonDivisor? ⟨.exact x, k⟩ ⟨.exact y, l⟩ = some d ↔
      k = l ∧ x.gcd y ≠ 0 ∧ d = ⟨.exact (x.gcd y), k⟩ := by
  simp only [commonDivisor?]
  split
  · rename_i h
    simp [h, eq_comm]
  · rename_i h
    simp only [reduceCtorEq, false_iff]
    rintro ⟨hk, hg, -⟩
    exact h ⟨hk, hg⟩

end Metrology.Magnitude
