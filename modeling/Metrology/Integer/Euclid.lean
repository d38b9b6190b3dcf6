/-
  Metrology.Integer.Euclid

  Euclid's algorithm. As long as the second number is not zero, the pair goes over to the
  second number and the remainder, which is smaller.
-/

namespace Metrology

/-- The first number that is left when the second one has become zero. -/
def euclid (a b : Nat) : Nat :=
  if b = 0 then a else euclid b (a % b)
termination_by b
decreasing_by exact Nat.mod_lt a (Nat.pos_of_ne_zero ‹_›)

@[simp] theorem euclid_zero (a : Nat) : euclid a 0 = a := by
  rw [euclid, if_pos rfl]

theorem euclid_of_ne_zero (a : Nat) {b : Nat} (h : b ≠ 0) : euclid a b = euclid b (a % b) := by
  rw [euclid, if_neg h]

end Metrology
