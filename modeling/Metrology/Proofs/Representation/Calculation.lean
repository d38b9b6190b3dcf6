/-
  Metrology.Proofs.Representation.Calculation

  Single calculations against the rational numbers. With integers of either width a calculation
  has one of four outcomes, and its exact result alone decides which: an integer that fits is the
  result, one that does not fit is an overflow, a number that is no integer an inexact result, and
  where there is no number at all it is a division by zero.
-/
import Metrology.Proofs.Representation.Exact

namespace Metrology.Representation

/-- One operation on values of a number type, with its operands. -/
inductive Calculation (r : Representation) where
  | add (a b : r.Value)
  | sub (a b : r.Value)
  | mul (a b : r.Value)
  | div (a b : r.Value)
  | pow (a : r.Value) (n : Power)

namespace Calculation

variable {r : Representation} {w : Width}

def run : Calculation r → Except Error r.Value
  | add a b => r.add a b
  | sub a b => r.sub a b
  | mul a b => r.mul a b
  | div a b => r.div a b
  | pow a n => r.pow a n

/-- The result over the rational numbers. A quotient by zero and a negative power of zero have
none. -/
def exactResult? : Calculation r → Option Ratio
  | add a b => some (r.number a + r.number b)
  | sub a b => some (r.number a - r.number b)
  | mul a b => some (r.number a * r.number b)
  | div a b => if r.number b = 0 then none else some (r.number a / r.number b)
  | pow a n => if r.number a = 0 ∧ n.val < 0 then none else some (r.number a ^ n.val)

/-! ## Results -/

/-- Where values are kept exactly, a calculation succeeds exactly with the value that stands for
its exact result. -/
theorem run_eq_ok (hr : r.IsExact) (calculation : Calculation r) {c : r.Value} :
    calculation.run = .ok c ↔ calculation.exactResult? = some (r.number c) := by
  cases calculation with
  | add a b => rw [run, add_eq_ok hr, exactResult?, Option.some.injEq, eq_comm]
  | sub a b => rw [run, sub_eq_ok hr, exactResult?, Option.some.injEq, eq_comm]
  | mul a b => rw [run, mul_eq_ok hr, exactResult?, Option.some.injEq, eq_comm]
  | div a b =>
    rw [run, div_eq_ok hr, exactResult?]
    by_cases hb : r.number b = 0
    · simp [hb]
    · simp [hb, eq_comm]
  | pow a n =>
    rw [run, pow_eq_ok hr, exactResult?]
    by_cases hzero : r.number a = 0 ∧ n.val < 0
    · simp [hzero]
    · have hdefined : r.number a = 0 → 0 ≤ n.val :=
        fun ha => not_lt.1 fun hn => hzero ⟨ha, hn⟩
      rw [and_iff_right hdefined, if_neg hzero, Option.some.injEq, eq_comm]

/-! ## Failures -/

/-- The failure that an exact result calls for in an integer number type. -/
inductive Fault (w : Width) : Option Ratio → ErrorCode → Prop where
  | divisionByZero : Fault w none .divisionByZero
  | narrowing {q : Ratio} (hq : ∀ n : Int, q ≠ n) : Fault w (some q) .narrowing
  | overflow {n : Int} (hn : ¬ w.Fits n) : Fault w (some (n : Ratio)) .overflow

/-- An exact result calls for one failure at most. -/
theorem Fault.unique {q? : Option Ratio} {c d : ErrorCode} (hc : Fault w q? c)
    (hd : Fault w q? d) : c = d := by
  generalize hq? : q? = p? at hd
  cases hc with
  | divisionByZero =>
    subst hq?
    cases hd
    rfl
  | narrowing hq =>
    cases hd with
    | divisionByZero => cases hq?
    | narrowing => rfl
    | @overflow n hn => exact absurd (Option.some.inj hq?) (hq n)
  | @overflow n hn =>
    cases hd with
    | divisionByZero => cases hq?
    | narrowing hq => exact absurd (Option.some.inj hq?).symm (hq n)
    | overflow => rfl

theorem Fault.not_fits {n : Int} {c : ErrorCode} (h : Fault w (some (n : Ratio)) c) :
    ¬ w.Fits n := by
  generalize hq : (n : Ratio) = q at h
  cases h with
  | narrowing hne => exact absurd hq.symm (hne n)
  | @overflow m hm =>
    rw [Int.cast_inj.1 hq]
    exact hm

theorem fault_divisionByZero_iff {q? : Option Ratio} :
    Fault w q? .divisionByZero ↔ q? = none := by
  constructor
  · intro h
    cases h
    rfl
  · rintro rfl
    exact .divisionByZero

theorem fault_narrowing_iff {q? : Option Ratio} :
    Fault w q? .narrowing ↔ ∃ q, q? = some q ∧ ∀ n : Int, q ≠ n := by
  constructor
  · intro h
    cases h with
    | narrowing hq => exact ⟨_, rfl, hq⟩
  · rintro ⟨q, rfl, hq⟩
    exact .narrowing hq

theorem fault_overflow_iff {q? : Option Ratio} :
    Fault w q? .overflow ↔ ∃ n : Int, q? = some (n : Ratio) ∧ ¬ w.Fits n := by
  constructor
  · intro h
    cases h with
    | overflow hn => exact ⟨_, rfl, hn⟩
  · rintro ⟨n, rfl, hn⟩
    exact .overflow hn

/-- What answers an exact result fails only as that calls for. -/
theorem fault_of_answers {q? : Option Ratio} {x : Except Error (FixedInt w)} {e : Error}
    (hx : FixedInt.Answers q? x) (h : x = .error e) : Fault w q? e.code := by
  cases hx with
  | divisionByZero =>
    cases h
    exact .divisionByZero
  | inexact hq =>
    cases h
    exact .narrowing hq
  | integer hx =>
    rw [hx.overflowsOnly e h]
    exact .overflow (hx.not_of_error h)

theorem run_answers (calculation : Calculation (.integer w)) :
    FixedInt.Answers calculation.exactResult? calculation.run := by
  cases calculation with
  | add a b => exact FixedInt.add_answers a b
  | sub a b => exact FixedInt.sub_answers a b
  | mul a b => exact FixedInt.mul_answers a b
  | div a b => exact FixedInt.div_answers a b
  | pow a n => exact FixedInt.pow_answers a n

/-- A calculation fails with a code exactly if its exact result calls for that failure. -/
theorem exists_error_iff (calculation : Calculation (.integer w)) (code : ErrorCode) :
    (∃ e, calculation.run = .error e ∧ e.code = code) ↔
      Fault w calculation.exactResult? code := by
  constructor
  · rintro ⟨e, he, rfl⟩
    exact fault_of_answers (run_answers calculation) he
  · intro hfault
    cases hrun : calculation.run with
    | error e =>
      have hcode := fault_of_answers (run_answers calculation) hrun
      exact ⟨e, rfl, hcode.unique hfault⟩
    | ok c =>
      -- The exact result of a calculation that succeeds is an integer that fits.
      rw [(run_eq_ok (isExact_integer w) calculation).1 hrun] at hfault
      exact absurd c.fits hfault.not_fits

/-! ## Outcomes -/

/-- Nothing wraps, nothing is cut off, and no result that exists is refused: a calculation with
integers gives its exact result wherever that is an integer of the width. Otherwise it fails by
division by zero exactly if there is no exact result, as inexact exactly if that is no integer,
and by overflow exactly if it is an integer that does not fit. -/
theorem integer_outcomes (calculation : Calculation (.integer w)) :
    (∀ c, calculation.run = .ok c ↔ calculation.exactResult? = some (c.val : Ratio)) ∧
    ((∃ e, calculation.run = .error e ∧ e.code = .divisionByZero) ↔
      calculation.exactResult? = none) ∧
    ((∃ e, calculation.run = .error e ∧ e.code = .narrowing) ↔
      ∃ q, calculation.exactResult? = some q ∧ ∀ n : Int, q ≠ n) ∧
    ((∃ e, calculation.run = .error e ∧ e.code = .overflow) ↔
      ∃ n : Int, calculation.exactResult? = some (n : Ratio) ∧ ¬ w.Fits n) := by
  refine ⟨fun c => run_eq_ok (isExact_integer w) calculation, ?_, ?_, ?_⟩
  · rw [exists_error_iff, fault_divisionByZero_iff]
  · rw [exists_error_iff, fault_narrowing_iff]
  · rw [exists_error_iff, fault_overflow_iff]

/-- The least integer over minus one is an integer out of range, but over two it fits. -/
example :
    (div (.lit (-2147483648)) (.lit (-1)) : Calculation (.integer .w32)).run.toOption = none ∧
      (div (.lit (-2147483648)) (.lit 2) : Calculation (.integer .w32)).run.toOption =
        some (.lit (-1073741824)) := by
  decide

end Calculation

end Metrology.Representation
