/-
  Metrology.Proofs.Representation.Widening

  Values kept in a wider number type: 32 bits within 64 bits, and 64 bits within the ratios.
  The wider value stands for the same number, so that every operation which succeeds on the
  narrower values succeeds on the wider ones and gives the wider result.
-/
import Metrology.Proofs.Representation.Exact

namespace Metrology.Representation

/-- The first number type lies within the second one: the two steps by which values that are
kept exactly are widened. -/
inductive Widens : Representation → Representation → Prop where
  | w32_w64 : Widens (.integer .w32) (.integer .w64)
  | w64_exact : Widens (.integer .w64) .exact

namespace Widens

variable {r s : Representation}

theorem source (h : Widens r s) : r.IsExact := by
  cases h <;> exact nofun

theorem target (h : Widens r s) : s.IsExact := by
  cases h <;> exact nofun

/-- Factors that lose nothing in the narrower number type lose nothing in the wider one. -/
theorem isLossless (h : Widens r s) {factor : Magnitude} (hfactor : r.isLossless factor = true) :
    s.isLossless factor = true := by
  obtain ⟨q, rfl, hq⟩ := (isLossless_iff h.source).1 hfactor
  rw [isLossless_iff h.target]
  refine ⟨q, rfl, fun _ => ?_⟩
  cases h <;> exact hq rfl

/-! ## Values -/

theorem isSome_widen? (h : Widens r s) (a : r.Value) : (r.widen? s a).isSome = true := by
  cases h <;> rfl

/-- The value in the wider number type. -/
def widen (h : Widens r s) (a : r.Value) : s.Value := (r.widen? s a).get (h.isSome_widen? a)

theorem widen?_eq (h : Widens r s) (a : r.Value) : r.widen? s a = some (h.widen a) :=
  (Option.some_get _).symm

/-- The wider value stands for the number of the narrower one. -/
@[simp] theorem number_widen (h : Widens r s) (a : r.Value) :
    s.number (h.widen a) = r.number a := by
  cases h <;> rfl

/-! ## Arithmetic -/

theorem add (h : Widens r s) (a b : r.Value) :
    Simulates h.widen (r.add a b) (s.add (h.widen a) (h.widen b)) := by
  intro c hc
  rw [add_eq_ok h.source] at hc
  rw [add_eq_ok h.target, h.number_widen, h.number_widen, h.number_widen, hc]

theorem sub (h : Widens r s) (a b : r.Value) :
    Simulates h.widen (r.sub a b) (s.sub (h.widen a) (h.widen b)) := by
  intro c hc
  rw [sub_eq_ok h.source] at hc
  rw [sub_eq_ok h.target, h.number_widen, h.number_widen, h.number_widen, hc]

theorem mul (h : Widens r s) (a b : r.Value) :
    Simulates h.widen (r.mul a b) (s.mul (h.widen a) (h.widen b)) := by
  intro c hc
  rw [mul_eq_ok h.source] at hc
  rw [mul_eq_ok h.target, h.number_widen, h.number_widen, h.number_widen, hc]

theorem div (h : Widens r s) (a b : r.Value) :
    Simulates h.widen (r.div a b) (s.div (h.widen a) (h.widen b)) := by
  intro c hc
  rw [div_eq_ok h.source] at hc
  rw [div_eq_ok h.target, h.number_widen, h.number_widen, h.number_widen]
  exact hc

theorem pow (h : Widens r s) (a : r.Value) (n : Power) :
    Simulates h.widen (r.pow a n) (s.pow (h.widen a) n) := by
  intro c hc
  rw [pow_eq_ok h.source] at hc
  rw [pow_eq_ok h.target, h.number_widen, h.number_widen]
  exact hc

/-- A factor that loses nothing multiplies both values by one ratio. -/
theorem rescale (h : Widens r s) {factor : Magnitude} (hfactor : r.isLossless factor = true)
    (a : r.Value) : Simulates h.widen (r.rescale a factor) (s.rescale (h.widen a) factor) := by
  intro c hc
  -- Both number types take the factor as one ratio, the integers as an integral one.
  have hwide := h.isLossless hfactor
  obtain ⟨q, rfl, hq⟩ := (isLossless_iff h.source).1 hfactor
  obtain ⟨p, hp, hp'⟩ := (isLossless_iff h.target).1 hwide
  cases hp
  rw [rescale_eq_ok h.source hq] at hc
  rw [rescale_eq_ok h.target hp', h.number_widen, h.number_widen, hc]

/-! ## Comparison -/

theorem valueEq_widen (h : Widens r s) (a b : r.Value) :
    s.valueEq (h.widen a) (h.widen b) = r.valueEq a b := by
  rw [valueEq_eq h.target, valueEq_eq h.source, h.number_widen, h.number_widen]

theorem valueCompare?_widen (h : Widens r s) (a b : r.Value) :
    s.valueCompare? (h.widen a) (h.widen b) = r.valueCompare? a b := by
  rw [valueCompare?_eq h.target, valueCompare?_eq h.source, h.number_widen, h.number_widen]

end Widens

end Metrology.Representation
