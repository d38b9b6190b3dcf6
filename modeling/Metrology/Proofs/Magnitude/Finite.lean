/-
  Metrology.Proofs.Magnitude.Finite

  Finite coefficients. The constructor of approximate magnitudes and the power check that their
  result is finite; the product, the quotient and the reciprocal do not. So in a construction by
  any of these operations all results are finite exactly if each product and quotient in it is in
  range, which the exact values of its operands decide.
-/
import Metrology.Proofs.Binary.Range
import Metrology.Proofs.Magnitude.Exact

namespace Metrology

/-! ## Coefficients -/

namespace Coefficient

variable {c d : Coefficient}

/-- Exact, or a finite number. -/
def IsFinite : Coefficient → Prop
  | exact _ => True
  | approx x => x.isFinite = true

/-- The product is exact, or the product of the two values is below the bound. -/
def MulInRange (c d : Coefficient) : Prop :=
  (∃ x y, c = exact x ∧ d = exact y) ∨
    ∃ p q, c.toBinary.toRat? = some p ∧ d.toBinary.toRat? = some q ∧
      |p * q| < Format.double.overflowBound

/-- The quotient is exact, or the dividend has a value and the divisor is so great that its
floating-point number is infinite, or not so small that it is zero, and the quotient of the two
values is below the bound. -/
def DivInRange (c d : Coefficient) : Prop :=
  (∃ x y, c = exact x ∧ d = exact y) ∨
    ∃ p, c.toBinary.toRat? = some p ∧ ((∃ negative, d.toBinary = .infinite negative) ∨
      ∃ q, d.toBinary.toRat? = some q ∧ q ≠ 0 ∧ |p / q| < Format.double.overflowBound)

theorem isFinite_mul_iff : (c.mul d).IsFinite ↔ c.MulInRange d := by
  rcases c with x | x <;> rcases d with y | y
  · exact iff_of_true trivial (.inl ⟨x, y, rfl, rfl⟩)
  all_goals
    rw [MulInRange, or_iff_right (by rintro ⟨_, _, h, h'⟩; cases h <;> cases h')]
    exact Binary.isFinite_mul_iff

theorem isFinite_div_iff : (c.div d).IsFinite ↔ c.DivInRange d := by
  rcases c with x | x <;> rcases d with y | y
  · exact iff_of_true trivial (.inl ⟨x, y, rfl, rfl⟩)
  all_goals
    rw [DivInRange, or_iff_right (by rintro ⟨_, _, h, h'⟩; cases h <;> cases h')]
    exact Binary.isFinite_div_iff

/-- A product in range has finite factors. -/
theorem MulInRange.isFinite (h : c.MulInRange d) : c.IsFinite ∧ d.IsFinite := by
  obtain ⟨x, y, rfl, rfl⟩ | ⟨p, q, hp, hq, -⟩ := h
  · exact ⟨trivial, trivial⟩
  · have hfinite {e : Coefficient} {p : Rat} (h : e.toBinary.toRat? = some p) : e.IsFinite := by
      cases e with
      | exact x => trivial
      | approx x => exact Binary.isFinite_iff_toRat?.2 ⟨p, h⟩
    exact ⟨hfinite hp, hfinite hq⟩

theorem isFinite_pow {n : Int} (h : c.pow n = .ok d) : d.IsFinite := by
  cases c with
  | exact x =>
    obtain ⟨q, -, rfl⟩ := map_eq_ok.1 h
    trivial
  | approx x =>
    simp only [pow] at h
    split at h
    · rename_i hfinite
      cases h
      exact hfinite
    · cases h

end Coefficient

/-! ## Operations -/

namespace Magnitude

variable {a b m : Magnitude} {k n : Power}

/-- The coefficient is exact or a finite number. -/
def IsFinite (m : Magnitude) : Prop := m.coefficient.IsFinite

theorem isFinite_approx {x : Binary .double} (h : approx x = .ok m) : m.IsFinite := by
  rw [approx] at h
  split at h
  · rename_i hfinite
    cases h
    exact hfinite
  · cases h

theorem isFinite_exact (q : Ratio) : (exact q).IsFinite := trivial

theorem isFinite_mul_iff (h : a.mul b = .ok m) :
    m.IsFinite ↔ a.coefficient.MulInRange b.coefficient := by
  rw [IsFinite, (withPower_eq_ok.1 h).1]
  exact Coefficient.isFinite_mul_iff

theorem isFinite_div_iff (h : a.div b = .ok m) :
    m.IsFinite ↔ a.coefficient.DivInRange b.coefficient := by
  rw [div] at h
  split at h
  · cases h
  · rw [IsFinite, (withPower_eq_ok.1 h).1]
    exact Coefficient.isFinite_div_iff

theorem isFinite_pow (h : a.pow n = .ok m) : m.IsFinite := by
  rw [pow] at h
  split at h
  · cases h
  · obtain ⟨c, hc, rfl⟩ := map_eq_ok.1 h
    exact Coefficient.isFinite_pow hc

theorem isFinite_timesPi_iff (h : a.timesPi k = .ok m) : m.IsFinite ↔ a.IsFinite := by
  rw [IsFinite, (withPower_eq_ok.1 h).1, IsFinite]

end Magnitude

/-! ## Constructions -/

/-- How a magnitude is constructed and worked out. -/
inductive Construction where
  /-- A magnitude that is there already. -/
  | given (m : Magnitude)
  | approx (x : Binary .double)
  | exact (q : Ratio)
  | integer (n : Int)
  | ratio (num den : Int)
  | powerOf (base : Int) (n : Power)
  | mul (a b : Construction)
  | div (a b : Construction)
  | recip (a : Construction)
  | pow (a : Construction) (n : Power)
  | timesPi (a : Construction) (k : Power)

namespace Construction

variable {t : Construction} {m : Magnitude}

def eval : Construction → Except NumberError Magnitude
  | given m => .ok m
  | approx x => Magnitude.approx x
  | exact q => .ok (.exact q)
  | integer n => .ok (.integer n)
  | ratio num den => Magnitude.exact <$> Ratio.ofFraction num den
  | powerOf base n => Magnitude.exact <$> Ratio.pow (base : Ratio) n.val
  | mul a b => do (← a.eval).mul (← b.eval)
  | div a b => do (← a.eval).div (← b.eval)
  | recip a => do (← a.eval).recip
  | pow a n => do (← a.eval).pow n
  | timesPi a k => do (← a.eval).timesPi k

/-- The construction itself and all constructions whose results go into its result. -/
def parts : Construction → List Construction
  | mul a b => mul a b :: (a.parts ++ b.parts)
  | div a b => div a b :: (a.parts ++ b.parts)
  | recip a => recip a :: a.parts
  | pow a n => pow a n :: a.parts
  | timesPi a k => timesPi a k :: a.parts
  | t => [t]

/-- The result is finite, if there is one. -/
def HasFiniteResult (t : Construction) : Prop := ∀ m, t.eval = .ok m → m.IsFinite

/-- The last step is in range, if it has a result. Only products and quotients may be out of it,
and what is there already. -/
def IsStepInRange : Construction → Prop
  | given m => m.IsFinite
  | mul a b => ∀ x y m, a.eval = .ok x → b.eval = .ok y → x.mul y = .ok m →
      x.coefficient.MulInRange y.coefficient
  | div a b => ∀ x y m, a.eval = .ok x → b.eval = .ok y → x.div y = .ok m →
      x.coefficient.DivInRange y.coefficient
  | recip a => ∀ x m, a.eval = .ok x → x.recip = .ok m →
      Magnitude.one.coefficient.DivInRange x.coefficient
  | _ => True

/-- All results on the way are finite. -/
def IsFinite (t : Construction) : Prop := ∀ p ∈ t.parts, p.HasFiniteResult

/-- All steps on the way are in range. -/
def IsInRange (t : Construction) : Prop := ∀ p ∈ t.parts, p.IsStepInRange

theorem mem_parts_self (t : Construction) : t ∈ t.parts := by
  cases t <;> simp [parts]

theorem IsFinite.result (h : t.IsFinite) : t.HasFiniteResult := h t t.mem_parts_self

/-! ### Steps -/

variable {a b : Construction} {k n : Power}

theorem eval_mul_eq_ok :
    (mul a b).eval = .ok m ↔ ∃ x, a.eval = .ok x ∧ ∃ y, b.eval = .ok y ∧ x.mul y = .ok m := by
  simp only [eval, bind_eq_ok]

theorem eval_div_eq_ok :
    (div a b).eval = .ok m ↔ ∃ x, a.eval = .ok x ∧ ∃ y, b.eval = .ok y ∧ x.div y = .ok m := by
  simp only [eval, bind_eq_ok]

theorem eval_timesPi_eq_ok :
    (timesPi a k).eval = .ok m ↔ ∃ x, a.eval = .ok x ∧ x.timesPi k = .ok m := bind_eq_ok

theorem hasFiniteResult_mul_iff : (mul a b).HasFiniteResult ↔ (mul a b).IsStepInRange := by
  constructor
  · intro h x y m hx hy hm
    exact (Magnitude.isFinite_mul_iff hm).1 (h m (eval_mul_eq_ok.2 ⟨x, hx, y, hy, hm⟩))
  · intro h m hm
    obtain ⟨x, hx, y, hy, hm⟩ := eval_mul_eq_ok.1 hm
    exact (Magnitude.isFinite_mul_iff hm).2 (h x y m hx hy hm)

theorem hasFiniteResult_div_iff : (div a b).HasFiniteResult ↔ (div a b).IsStepInRange := by
  constructor
  · intro h x y m hx hy hm
    exact (Magnitude.isFinite_div_iff hm).1 (h m (eval_div_eq_ok.2 ⟨x, hx, y, hy, hm⟩))
  · intro h m hm
    obtain ⟨x, hx, y, hy, hm⟩ := eval_div_eq_ok.1 hm
    exact (Magnitude.isFinite_div_iff hm).2 (h x y m hx hy hm)

theorem hasFiniteResult_recip_iff : (recip a).HasFiniteResult ↔ (recip a).IsStepInRange := by
  constructor
  · intro h x m hx hm
    exact (Magnitude.isFinite_div_iff hm).1 (h m (bind_eq_ok.2 ⟨x, hx, hm⟩))
  · intro h m hm
    obtain ⟨x, hx, hm⟩ := bind_eq_ok.1 hm
    exact (Magnitude.isFinite_div_iff hm).2 (h x m hx hm)

/-- A power that is not finite is refused. -/
theorem hasFiniteResult_pow (a : Construction) (n : Power) : (pow a n).HasFiniteResult := by
  intro m hm
  obtain ⟨x, -, hm⟩ := bind_eq_ok.1 hm
  exact Magnitude.isFinite_pow hm

theorem HasFiniteResult.timesPi (h : a.HasFiniteResult) (k : Power) :
    (timesPi a k).HasFiniteResult := by
  intro m hm
  obtain ⟨x, hx, hm⟩ := eval_timesPi_eq_ok.1 hm
  exact (Magnitude.isFinite_timesPi_iff hm).2 (h x hx)

/-- What is kept as a ratio is finite. -/
theorem hasFiniteResult_exact {q : Except NumberError Ratio}
    (h : t.eval = Magnitude.exact <$> q) : t.HasFiniteResult := by
  intro m hm
  rw [h] at hm
  obtain ⟨q, -, rfl⟩ := map_eq_ok.1 hm
  exact Magnitude.isFinite_exact q

theorem hasFiniteResult_given_iff : (given m).HasFiniteResult ↔ m.IsFinite := by
  constructor
  · exact fun h => h m rfl
  · intro h m' hm
    cases hm
    exact h

/-! ### All steps -/

/-- All results of a construction are finite exactly if all of its steps are in range. -/
theorem isFinite_iff (t : Construction) : t.IsFinite ↔ t.IsInRange := by
  unfold IsFinite IsInRange
  induction t with
  | given m =>
    simp only [parts, List.forall_mem_singleton]
    exact hasFiniteResult_given_iff
  | approx x =>
    simp only [parts, List.forall_mem_singleton]
    exact iff_of_true (fun _ hm => Magnitude.isFinite_approx hm) trivial
  | exact q =>
    simp only [parts, List.forall_mem_singleton]
    exact iff_of_true (hasFiniteResult_exact (q := .ok q) rfl) trivial
  | integer n =>
    simp only [parts, List.forall_mem_singleton]
    exact iff_of_true (hasFiniteResult_exact (q := .ok n) rfl) trivial
  | ratio num den =>
    simp only [parts, List.forall_mem_singleton]
    exact iff_of_true (hasFiniteResult_exact rfl) trivial
  | powerOf base n =>
    simp only [parts, List.forall_mem_singleton]
    exact iff_of_true (hasFiniteResult_exact rfl) trivial
  | mul a b iha ihb =>
    simp only [parts, List.forall_mem_cons, List.forall_mem_append, iha, ihb,
      hasFiniteResult_mul_iff]
  | div a b iha ihb =>
    simp only [parts, List.forall_mem_cons, List.forall_mem_append, iha, ihb,
      hasFiniteResult_div_iff]
  | recip a ih => simp only [parts, List.forall_mem_cons, ih, hasFiniteResult_recip_iff]
  | pow a n ih =>
    simp only [parts, List.forall_mem_cons, ih]
    exact and_congr_left' (iff_of_true (hasFiniteResult_pow a n) trivial)
  | timesPi a k ih =>
    simp only [parts, List.forall_mem_cons, ← ih]
    refine and_congr_left fun ha => iff_of_true ?_ trivial
    exact HasFiniteResult.timesPi (ha a a.mem_parts_self) k

end Construction

end Metrology
