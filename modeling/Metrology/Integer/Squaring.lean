/-
  Metrology.Integer.Squaring

  Powers by repeated squaring, for any multiplication. Where products are rounded or
  checked, the order of the multiplications is part of the result, so there is one order
  for the whole library: the factor of a binary digit is multiplied in from the right, and
  the base is squared only while digits remain.
-/

namespace Metrology

/-- `acc` times `base` multiplied by itself `n` times. -/
def powerBySquaring {α : Type} (mul : α → α → α) (acc base : α) (n : Nat) : α :=
  if n = 0 then acc
  else
    let acc := if n % 2 = 1 then mul acc base else acc
    if n / 2 = 0 then acc else powerBySquaring mul acc (mul base base) (n / 2)
termination_by n

end Metrology
