/-
  Metrology.Proofs.Representation.Mismatch

  Failures of operations on values. Values have no units, so whatever keeps an operation on them
  from a result, in any number type, it is no mismatch of dimensions or reference units.
-/
import Metrology.Representation.Operations
import Metrology.Proofs.Integer.Checked

namespace Metrology

/-! ## Integers of fixed width -/

namespace FixedInt

variable {w : Width}

theorem mismatchFree_orOverflow (o : Option (FixedInt w)) (s : String) :
    MismatchFree (orOverflow o s) :=
  (overflowsOnly_orOverflow o s).mismatchFree

theorem mismatchFree_ofInt (n : Int) (s : String) :
    MismatchFree (ofInt n s : Except Error (FixedInt w)) :=
  (ofInt_overflowsUnless n s).overflowsOnly.mismatchFree

/-- No exact result calls for a mismatch. -/
theorem Answers.mismatchFree {q? : Option Ratio} {x : Except Error (FixedInt w)}
    (h : Answers q? x) : MismatchFree x := by
  cases h with
  | divisionByZero => exact .error ⟨nofun, nofun⟩
  | inexact hq => exact .error ⟨nofun, nofun⟩
  | integer hx => exact hx.overflowsOnly.mismatchFree

theorem mismatchFree_div (a b : FixedInt w) : MismatchFree (div a b) :=
  (div_answers a b).mismatchFree

theorem mismatchFree_pow (a : FixedInt w) (n : Power) : MismatchFree (pow a n) :=
  (pow_answers a n).mismatchFree

theorem mismatchFree_ofBinary (x : Binary .double) :
    MismatchFree (ofBinary x : Except Error (FixedInt w)) := by
  rw [ofBinary]
  split
  · exact mismatchFree_ofInt _ _
  · exact .error ⟨nofun, nofun⟩

end FixedInt

/-! ## Floating-point numbers -/

namespace Binary

variable {f : Format}

theorem mismatchFree_finiteResult (x : Binary f) : MismatchFree (finiteResult x) :=
  .ite (.ok x) (.error ⟨nofun, nofun⟩)

theorem mismatchFree_checkedDiv (a b : Binary f) : MismatchFree (checkedDiv a b) :=
  .ite (.error ⟨nofun, nofun⟩) (mismatchFree_finiteResult _)

theorem mismatchFree_checkedPow (a : Binary f) (n : Power) : MismatchFree (checkedPow a n) :=
  .ite (.error ⟨nofun, nofun⟩) (mismatchFree_finiteResult _)

end Binary

/-! ## All number types -/

namespace Representation

variable (r : Representation)

theorem mismatchFree_add (a b : r.Value) : MismatchFree (r.add a b) := by
  cases r with
  | integer w => exact FixedInt.mismatchFree_orOverflow _ _
  | floating f => exact Binary.mismatchFree_finiteResult _
  | exact => exact .ok _

theorem mismatchFree_sub (a b : r.Value) : MismatchFree (r.sub a b) := by
  cases r with
  | integer w => exact FixedInt.mismatchFree_orOverflow _ _
  | floating f => exact Binary.mismatchFree_finiteResult _
  | exact => exact .ok _

theorem mismatchFree_mul (a b : r.Value) : MismatchFree (r.mul a b) := by
  cases r with
  | integer w => exact FixedInt.mismatchFree_orOverflow _ _
  | floating f => exact Binary.mismatchFree_finiteResult _
  | exact => exact .ok _

theorem mismatchFree_div (a b : r.Value) : MismatchFree (r.div a b) := by
  cases r with
  | integer w => exact FixedInt.mismatchFree_div a b
  | floating f => exact Binary.mismatchFree_checkedDiv a b
  | exact => exact mismatchFree_lift _

theorem mismatchFree_pow (a : r.Value) (n : Power) : MismatchFree (r.pow a n) := by
  cases r with
  | integer w => exact FixedInt.mismatchFree_pow a n
  | floating f => exact Binary.mismatchFree_checkedPow a n
  | exact => exact mismatchFree_lift _

theorem mismatchFree_toRatio (a : r.Value) : MismatchFree (r.toRatio a) := by
  cases r with
  | integer w => exact .ok _
  | floating f => exact mismatchFree_lift _
  | exact => exact .ok _

theorem mismatchFree_ofRatio (q : Ratio) : MismatchFree (r.ofRatio q) := by
  cases r with
  | integer w => exact FixedInt.mismatchFree_ofInt _ _
  | floating f => exact Binary.mismatchFree_finiteResult _
  | exact => exact .ok _

theorem mismatchFree_ofBinary (x : Binary .double) : MismatchFree (r.ofBinary x) := by
  cases r with
  | integer w => exact FixedInt.mismatchFree_ofBinary x
  | floating f => exact Binary.mismatchFree_finiteResult _
  | exact => exact mismatchFree_lift _

/-- The factor has been found before, so only its product with the value can fail. -/
theorem mismatchFree_rescale (a : r.Value) (factor : Magnitude) :
    MismatchFree (r.rescale a factor) := by
  rw [rescale]
  split
  · refine .ite (.ok a) ((r.mismatchFree_toRatio a).bind fun q _ => ?_)
    exact r.mismatchFree_ofRatio _
  · exact r.mismatchFree_ofBinary _

end Representation

end Metrology
