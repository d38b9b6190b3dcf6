/-
  Metrology.Proofs.Magnitude.Algebra

  The algebra of exact magnitudes, failures included. Each operation computes its coefficient over
  the rational numbers and its power of pi over the integers, and asks whether that power fits.
  What fails besides is division by zero, which is found before the power of pi in a quotient and
  after it in a power. Away from zero the operations are thus pairs of exact ones, and the laws of
  products, powers and reciprocals are those of the two components.
-/
import Metrology.Proofs.Magnitude.Exact

namespace Metrology

namespace Magnitude

variable {m p q z : Magnitude} {x y : Ratio} {k l n a b c : Power} {e : NumberError}

/-! ## Operations away from zero -/

theorem mul_exact (x y : Ratio) (k l : Power) :
    mul ⟨.exact x, k⟩ ⟨.exact y, l⟩ = withPower (.exact (x * y)) (k.add? l) := rfl

/-- The power of a magnitude that is not zero is that of the two components. -/
theorem pow_exact (hx : x ≠ 0) (k n : Power) :
    pow ⟨.exact x, k⟩ n = withPower (.exact (x ^ n.val)) (k.mul? n) := by
  rw [pow]
  cases k.mul? n with
  | none => rfl
  | some pi =>
    -- The coefficient has every power, so the power of pi was the only obstacle.
    simp only [Coefficient.pow, Ratio.pow_of_ne_zero hx]
    rfl

/-- The reciprocal of a magnitude that is not zero is that of the two components. -/
theorem recip_exact (hx : x ≠ 0) (k : Power) :
    recip ⟨.exact x, k⟩ = withPower (.exact x⁻¹) (FixedInt.ofInt? .w32 (-k.val)) := by
  have hdiv : recip ⟨.exact x, k⟩ = withPower (.exact (1 / x)) ((0 : Power).sub? k) :=
    div_exact hx 1 0 k
  rw [hdiv, one_div, FixedInt.sub?, FixedInt.val_zero, Int.zero_sub]

/-! ## Failures -/

theorem withPower_eq_error {d : Coefficient} {pi : Option Power} :
    withPower d pi = .error e ↔ e = .overflow ∧ pi = none := by
  cases pi with
  | none => simp [withPower, eq_comm]
  | some pi => simp [withPower]

theorem mul_exact_eq_error :
    mul ⟨.exact x, k⟩ ⟨.exact y, l⟩ = .error e ↔
      e = .overflow ∧ ¬ Width.w32.Fits (k.val + l.val) := by
  rw [mul, withPower_eq_error, FixedInt.add?, FixedInt.ofInt?_eq_none_iff]

/-- A zero divisor is found whether or not the difference of the powers of pi fits. -/
theorem div_exact_eq_error :
    div ⟨.exact x, k⟩ ⟨.exact y, l⟩ = .error e ↔
      (e = .divisionByZero ∧ y = 0) ∨
        (e = .overflow ∧ y ≠ 0 ∧ ¬ Width.w32.Fits (k.val - l.val)) := by
  by_cases hy : y = 0
  · have hdiv : div ⟨.exact x, k⟩ ⟨.exact 0, l⟩ = .error .divisionByZero := rfl
    simp [hy, hdiv, eq_comm]
  · rw [div_exact hy, withPower_eq_error, FixedInt.sub?, FixedInt.ofInt?_eq_none_iff]
    simp [hy]

/-- A power of pi that does not fit is found whether or not the coefficient has the power. -/
theorem pow_exact_eq_error :
    pow ⟨.exact x, k⟩ n = .error e ↔
      (e = .overflow ∧ ¬ Width.w32.Fits (k.val * n.val)) ∨
        (e = .divisionByZero ∧ Width.w32.Fits (k.val * n.val) ∧ x = 0 ∧ n.val < 0) := by
  rw [pow]
  cases hpi : k.mul? n with
  | none =>
    have hfits : ¬ Width.w32.Fits (k.val * n.val) := FixedInt.ofInt?_eq_none_iff.1 hpi
    simp [hfits, eq_comm]
  | some pi =>
    have hfits : Width.w32.Fits (k.val * n.val) :=
      FixedInt.ofInt?_eq_some_iff.1 hpi ▸ pi.fits
    rw [Coefficient.pow, map_eq_error, map_eq_error, Ratio.pow_eq_error]
    constructor
    · rintro ⟨he, hzero⟩
      exact .inr ⟨he, hfits, hzero⟩
    · rintro (⟨-, hout⟩ | ⟨he, -, hzero⟩)
      · exact absurd hfits hout
      · exact ⟨he, hzero⟩

/-! ## Laws -/

/-- The product of two powers is the power for the sum of the exponents, or both are out of
range. -/
theorem mul_of_pow (hx : x ≠ 0) (hc : c.val = a.val + b.val)
    (hp : pow ⟨.exact x, k⟩ a = .ok p) (hq : pow ⟨.exact x, k⟩ b = .ok q) :
    mul p q = pow ⟨.exact x, k⟩ c := by
  obtain ⟨_, i⟩ := p
  obtain ⟨_, j⟩ := q
  obtain ⟨-, rfl, hi : i.val = k.val * a.val⟩ := pow_exact_eq_ok.1 hp
  obtain ⟨-, rfl, hj : j.val = k.val * b.val⟩ := pow_exact_eq_ok.1 hq
  -- Both sides ask whether the same integer fits, and have the same coefficient if it does.
  have hpi : i.add? j = k.mul? c := by
    rw [FixedInt.add?, FixedInt.mul?, hi, hj, hc, Int.mul_add]
  have hcoefficient : x ^ a.val * x ^ b.val = x ^ c.val := by
    rw [hc, zpow_add₀ hx]
  rw [mul_exact, pow_exact hx, hpi, hcoefficient]

/-- The power for minus one is the reciprocal, or both are out of range. Of zero they fail
differently where the power of pi does not fit: the power looks at that first. -/
theorem pow_minusOne (hx : x ≠ 0) (k : Power) :
    pow ⟨.exact x, k⟩ (.lit (-1)) = recip ⟨.exact x, k⟩ := by
  have hval : (FixedInt.lit (-1) : Power).val = -1 := rfl
  rw [pow_exact hx, recip_exact hx, FixedInt.mul?, hval, zpow_neg_one, Int.mul_neg_one]

/-- Division undoes a product that exists. -/
theorem div_of_mul (hy : y ≠ 0) (h : mul ⟨.exact x, k⟩ ⟨.exact y, l⟩ = .ok z) :
    div z ⟨.exact y, l⟩ = .ok ⟨.exact x, k⟩ := by
  obtain ⟨d, i⟩ := z
  obtain ⟨rfl, hi : i.val = k.val + l.val⟩ := mul_exact_eq_ok.1 h
  refine div_exact_eq_ok.2 ⟨hy, ?_, ?_⟩
  · rw [mul_div_cancel_right₀ x hy]
  · rw [hi, Int.add_sub_cancel]

/-- Each operation on exact magnitudes has the exact result of both components or the one failure
that its operands call for, and away from zero products, powers and reciprocals obey the laws of
numbers. -/
theorem exact_algebra (x y : Ratio) (k l n : Power) :
    ((∀ e, mul ⟨.exact x, k⟩ ⟨.exact y, l⟩ = .error e ↔
        e = .overflow ∧ ¬ Width.w32.Fits (k.val + l.val)) ∧
      ∀ m, mul ⟨.exact x, k⟩ ⟨.exact y, l⟩ = .ok m ↔
        m.coefficient = .exact (x * y) ∧ m.pi.val = k.val + l.val) ∧
    ((∀ e, div ⟨.exact x, k⟩ ⟨.exact y, l⟩ = .error e ↔
        (e = .divisionByZero ∧ y = 0) ∨
          (e = .overflow ∧ y ≠ 0 ∧ ¬ Width.w32.Fits (k.val - l.val))) ∧
      ∀ m, div ⟨.exact x, k⟩ ⟨.exact y, l⟩ = .ok m ↔
        y ≠ 0 ∧ m.coefficient = .exact (x / y) ∧ m.pi.val = k.val - l.val) ∧
    ((∀ e, pow ⟨.exact x, k⟩ n = .error e ↔
        (e = .overflow ∧ ¬ Width.w32.Fits (k.val * n.val)) ∨
          (e = .divisionByZero ∧ Width.w32.Fits (k.val * n.val) ∧ x = 0 ∧ n.val < 0)) ∧
      ∀ m, pow ⟨.exact x, k⟩ n = .ok m ↔
        (x = 0 → 0 ≤ n.val) ∧ m.coefficient = .exact (x ^ n.val) ∧
          m.pi.val = k.val * n.val) ∧
    (x ≠ 0 →
      (∀ (a b c : Power) (p q : Magnitude), c.val = a.val + b.val →
        pow ⟨.exact x, k⟩ a = .ok p → pow ⟨.exact x, k⟩ b = .ok q →
          mul p q = pow ⟨.exact x, k⟩ c) ∧
      pow ⟨.exact x, k⟩ (.lit (-1)) = recip ⟨.exact x, k⟩) ∧
    (y ≠ 0 → ∀ z, mul ⟨.exact x, k⟩ ⟨.exact y, l⟩ = .ok z →
      div z ⟨.exact y, l⟩ = .ok ⟨.exact x, k⟩) := by
  refine ⟨⟨fun _ => mul_exact_eq_error, fun _ => mul_exact_eq_ok⟩,
    ⟨fun _ => div_exact_eq_error, fun _ => div_exact_eq_ok⟩,
    ⟨fun _ => pow_exact_eq_error, fun _ => pow_exact_eq_ok⟩, ?laws, ?cancel⟩
  case laws =>
    intro hx
    exact ⟨fun a b c p q hc hp hq => mul_of_pow hx hc hp hq, pow_minusOne hx k⟩
  case cancel =>
    intro hy z hz
    exact div_of_mul hy hz

/-- Two thirds of a power of pi so high that its square is the last power in range. -/
def widePower : Magnitude := ⟨.exact (2 / 3), .lit 1073741823⟩

/-- The square of `widePower` times its reciprocal is its first power, its third power is out of
range, and a division undoes its product with five times pi. -/
theorem exact_algebra_widePower :
    ((2 : Ratio) / 3 ≠ 0 ∧
      pow widePower (.lit 2) = .ok ⟨.exact (4 / 9), .lit 2147483646⟩ ∧
      pow widePower (.lit (-1)) = .ok ⟨.exact (3 / 2), .lit (-1073741823)⟩ ∧
      mul ⟨.exact (4 / 9), .lit 2147483646⟩ ⟨.exact (3 / 2), .lit (-1073741823)⟩ =
        pow widePower 1) ∧
    pow widePower (.lit 3) = .error .overflow ∧
    ((5 : Ratio) ≠ 0 ∧ mul widePower ⟨.exact 5, 1⟩ = .ok ⟨.exact (10 / 3), .lit 1073741824⟩ ∧
      div ⟨.exact (10 / 3), .lit 1073741824⟩ ⟨.exact 5, 1⟩ = .ok widePower) := by
  obtain ⟨-, -, ⟨hpowError, -⟩, hlaws, hcancel⟩ :=
    exact_algebra (2 / 3) 5 (.lit 1073741823) 1 (.lit 3)
  have hx : (2 : Ratio) / 3 ≠ 0 := by norm_num
  have hy : (5 : Ratio) ≠ 0 := by decide
  have hsquare : pow widePower (.lit 2) = .ok ⟨.exact (4 / 9), .lit 2147483646⟩ := by decide +kernel
  have hrecip : pow widePower (.lit (-1)) = .ok ⟨.exact (3 / 2), .lit (-1073741823)⟩ := by
    decide +kernel
  have hproduct : mul widePower ⟨.exact 5, 1⟩ = .ok ⟨.exact (10 / 3), .lit 1073741824⟩ := by
    decide +kernel
  refine ⟨⟨hx, hsquare, hrecip, ?power⟩, ?error, hy, hproduct, hcancel hy _ hproduct⟩
  case power => exact (hlaws hx).1 (.lit 2) (.lit (-1)) 1 _ _ (by decide) hsquare hrecip
  case error => exact (hpowError .overflow).2 (.inl ⟨rfl, by decide⟩)

end Magnitude

end Metrology
