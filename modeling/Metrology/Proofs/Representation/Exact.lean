/-
  Metrology.Proofs.Representation.Exact

  The number types that keep exact values, integers of both widths and ratios. A value stands
  for a rational number, and an operation that succeeds gives the value that stands for the
  result over the rational numbers.
-/
import Metrology.Representation.Operations
import Metrology.Proofs.Integer.Checked
import Metrology.Proofs.Magnitude.Exact

namespace Metrology.Representation

/-- Values are kept exactly: the number type is one of the integers or the ratios. -/
def IsExact (r : Representation) : Prop := r.kind ≠ .floating

instance (r : Representation) : Decidable r.IsExact := inferInstanceAs (Decidable (_ ≠ _))

theorem isExact_integer (w : Width) : (integer w).IsExact := nofun

theorem isExact_exact : exact.IsExact := nofun

/-- The rational number that a value stands for; zero where there is none. -/
def number : (r : Representation) → r.Value → Ratio
  | integer _, a => (a.val : Ratio)
  | floating _, a => (Binary.toRat? a).getD 0
  | exact, a => a

variable {r : Representation}

/-- Exact values are determined by their numbers. -/
theorem number_injective (hr : r.IsExact) {a b : r.Value} (h : r.number a = r.number b) :
    a = b := by
  cases r with
  | integer w => exact FixedInt.ext (Int.cast_injective h)
  | floating f => exact absurd rfl hr
  | exact => exact h

/-! ## Arithmetic -/

theorem add_eq_ok (hr : r.IsExact) {a b c : r.Value} :
    r.add a b = .ok c ↔ r.number c = r.number a + r.number b := by
  cases r with
  | integer w =>
    rw [add, FixedInt.add_eq_ok]
    simp only [number]
    norm_cast
  | floating f => exact absurd rfl hr
  | exact => simp [add, number, eq_comm]

theorem sub_eq_ok (hr : r.IsExact) {a b c : r.Value} :
    r.sub a b = .ok c ↔ r.number c = r.number a - r.number b := by
  cases r with
  | integer w =>
    rw [sub, FixedInt.sub_eq_ok]
    simp only [number]
    norm_cast
  | floating f => exact absurd rfl hr
  | exact => simp [sub, number, eq_comm]

theorem mul_eq_ok (hr : r.IsExact) {a b c : r.Value} :
    r.mul a b = .ok c ↔ r.number c = r.number a * r.number b := by
  cases r with
  | integer w =>
    rw [mul, FixedInt.mul_eq_ok]
    simp only [number]
    norm_cast
  | floating f => exact absurd rfl hr
  | exact => simp [mul, number, eq_comm]

theorem div_eq_ok (hr : r.IsExact) {a b c : r.Value} :
    r.div a b = .ok c ↔ r.number b ≠ 0 ∧ r.number c = r.number a / r.number b := by
  cases r with
  | integer w => exact FixedInt.div_eq_ok
  | floating f => exact absurd rfl hr
  | exact =>
    simp only [div, number, lift_eq_ok, Ratio.div]
    by_cases hb : (b : Ratio) = 0
    · simp [hb]
    · simp [hb, eq_comm]

theorem pow_eq_ok (hr : r.IsExact) {a c : r.Value} {n : Power} :
    r.pow a n = .ok c ↔
      (r.number a = 0 → 0 ≤ n.val) ∧ r.number c = r.number a ^ n.val := by
  cases r with
  | integer w => exact FixedInt.pow_eq_ok
  | floating f => exact absurd rfl hr
  | exact => rw [pow, lift_eq_ok, Ratio.pow_eq_ok, number, number]

/-! ## Comparison -/

theorem valueEq_eq (hr : r.IsExact) (a b : r.Value) :
    r.valueEq a b = decide (r.number a = r.number b) := by
  cases r with
  | integer w =>
    simp only [valueEq, number, Int.cast_inj]
    rfl
  | floating f => exact absurd rfl hr
  | exact => rfl

theorem valueCompare?_eq (hr : r.IsExact) (a b : r.Value) :
    r.valueCompare? a b = some (cmp (r.number a) (r.number b)) := by
  cases r with
  | integer w =>
    show some (compare a.val b.val) = some (cmp (a.val : Ratio) (b.val : Ratio))
    rw [Int.cast_strictMono.cmp_map_eq, cmp_eq_compare]
  | floating f => exact absurd rfl hr
  | exact =>
    rw [valueCompare?, Ratio.compare_eq_cmp]
    rfl

/-! ## Conversion factors -/

/-- The factor one loses nothing in any number type. -/
theorem isLossless_one (r : Representation) : r.isLossless .one = true := by
  rcases r with w | f | _ <;> rfl

theorem rescale_one (r : Representation) (v : r.Value) : r.rescale v .one = .ok v := by
  rw [rescale, Magnitude.one, Magnitude.asRatio?_exact]
  exact if_pos rfl

/-- The factors without loss are ratios, and integers for integers. -/
theorem isLossless_iff (hr : r.IsExact) {factor : Magnitude} :
    r.isLossless factor = true ↔
      ∃ q : Ratio, factor = Magnitude.exact q ∧ (r.kind = .integer → q.isInteger = true) := by
  cases r with
  | integer w =>
    have hkind : (integer w).kind = .integer := rfl
    simp only [isLossless, hkind, Magnitude.isInteger_iff, forall_const]
  | floating f => exact absurd rfl hr
  | exact =>
    have hkind : exact.kind = .exact := rfl
    simp [isLossless, hkind, Magnitude.isRational_iff]

/-- Multiplication by a factor without loss is exact: an integral factor leaves nothing to be
truncated. -/
theorem rescale_eq_ok (hr : r.IsExact) {a c : r.Value} {q : Ratio}
    (hq : r.kind = .integer → q.isInteger = true) :
    r.rescale a (Magnitude.exact q) = .ok c ↔ r.number c = r.number a * q := by
  rw [rescale, Magnitude.asRatio?_exact]
  -- The factor one is a case of its own in the definition, and changes nothing here.
  by_cases hone : q = 1
  · simp only [hone, if_true, Except.ok.injEq, mul_one]
    exact ⟨fun h => by rw [h], fun h => (number_injective hr h).symm⟩
  simp only [hone, if_false]
  cases r with
  | integer w =>
    obtain ⟨n, rfl⟩ := Ratio.isInteger_iff.1 (hq rfl)
    have hcast : (a.val : Ratio) * (n : Ratio) = ((a.val * n : Int) : Ratio) := by push_cast; rfl
    simp only [toRatio, ofRatio, FixedInt.toRatio, ok_bind, number, hcast,
      FixedInt.ofRatio_intCast, FixedInt.ofInt_eq_ok, Int.cast_inj]
  | floating f => exact absurd rfl hr
  | exact => simp [toRatio, ofRatio, number, eq_comm]

/-- For integers it is the integer part of the exact product, toward zero, which overflows if it
does not fit. -/
theorem rescale_trunc_overflowsUnless {w : Width} (a : FixedInt w) (q : Ratio) :
    OverflowsUnless (w.Fits (Ratio.trunc (a.val * q)))
      ((integer w).rescale a (Magnitude.exact q))
      fun c => c.val = Ratio.trunc (a.val * q) := by
  rw [rescale, Magnitude.asRatio?_exact]
  by_cases hone : q = 1
  · simp only [hone, if_true, mul_one, Ratio.trunc_intCast]
    -- A value that is left alone fits, so here the condition always holds.
    exact ⟨fun _ => ⟨a, rfl, rfl⟩, fun h => absurd a.fits h⟩
  · simp only [hone, if_false, toRatio, FixedInt.toRatio, ok_bind, ofRatio, FixedInt.ofRatio]
    exact FixedInt.ofInt_overflowsUnless _ _

/-- Of a product that is an integer nothing is cut off. -/
theorem rescale_overflowsUnless {w : Width} (a : FixedInt w) {q : Ratio} {n : Int}
    (hn : (a.val : Ratio) * q = n) :
    OverflowsUnless (w.Fits n) ((integer w).rescale a (Magnitude.exact q))
      fun c => c.val = n := by
  have hrescale := rescale_trunc_overflowsUnless a q
  rwa [hn, Ratio.trunc_intCast] at hrescale

end Metrology.Representation
