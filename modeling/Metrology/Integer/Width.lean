/-
  Metrology.Integer.Width

  Signed integers of a fixed width. Every operation computes the exact integer and then
  asks whether it fits, so nothing wraps: a result is exact or absent.
-/

namespace Metrology

/-! ## Widths -/

/-- The widths that integers are kept in. -/
inductive Width where
  | w32
  | w64
  deriving DecidableEq, Repr

namespace Width

def least : Width → Int
  | w32 => -2147483648
  | w64 => -9223372036854775808

def greatest : Width → Int
  | w32 => 2147483647
  | w64 => 9223372036854775807

/-- The integer lies between the bounds of the width. -/
abbrev Fits (w : Width) (n : Int) : Prop := w.least ≤ n ∧ n ≤ w.greatest

theorem fits_zero (w : Width) : w.Fits 0 := by cases w <;> decide

theorem fits_one (w : Width) : w.Fits 1 := by cases w <;> decide

/-- The narrower width lies inside the wider one. -/
theorem fits_w64_of_w32 {n : Int} (h : w32.Fits n) : w64.Fits n := by
  simp only [Fits, least, greatest] at *
  omega

end Width

/-! ## Integers that fit -/

structure FixedInt (w : Width) where
  val : Int
  fits : w.Fits val
  deriving DecidableEq

namespace FixedInt

variable {w : Width}

@[ext] theorem ext {a b : FixedInt w} (h : a.val = b.val) : a = b := by
  cases a; cases b; cases h; rfl

instance : OfNat (FixedInt w) 0 := ⟨⟨0, w.fits_zero⟩⟩

instance : OfNat (FixedInt w) 1 := ⟨⟨1, w.fits_one⟩⟩

@[simp] theorem val_zero : (0 : FixedInt w).val = 0 := rfl

@[simp] theorem val_one : (1 : FixedInt w).val = 1 := rfl

def ofInt? (w : Width) (n : Int) : Option (FixedInt w) :=
  if h : w.Fits n then some ⟨n, h⟩ else none

/-- The integer, whose bounds are checked by evaluation where it is written. -/
def lit (n : Int) (h : decide (w.Fits n) = true := by exact Eq.refl true) : FixedInt w :=
  ⟨n, of_decide_eq_true h⟩

theorem ofInt?_eq_some_iff {n : Int} {a : FixedInt w} : ofInt? w n = some a ↔ a.val = n := by
  unfold ofInt?
  split
  · rename_i h
    constructor
    · intro e; cases e; rfl
    · intro e; exact congrArg some (FixedInt.ext e.symm)
  · rename_i h
    constructor
    · intro e; cases e
    · intro e; exact absurd (e ▸ a.fits) h

theorem ofInt?_eq_none_iff {n : Int} : ofInt? w n = none ↔ ¬ w.Fits n := by
  unfold ofInt?
  split <;> simp_all

@[simp] theorem ofInt?_val (a : FixedInt w) : ofInt? w a.val = some a :=
  ofInt?_eq_some_iff.2 rfl

/-! ## Checked arithmetic -/

def add? (a b : FixedInt w) : Option (FixedInt w) := ofInt? w (a.val + b.val)

def sub? (a b : FixedInt w) : Option (FixedInt w) := ofInt? w (a.val - b.val)

def mul? (a b : FixedInt w) : Option (FixedInt w) := ofInt? w (a.val * b.val)

/-- The quotient toward zero, absent for a zero divisor. -/
def quot? (a b : FixedInt w) : Option (FixedInt w) :=
  if b.val = 0 then none else ofInt? w (a.val.tdiv b.val)

/-- The remainder that the quotient leaves. It is absent with the quotient, so for the least
integer over minus one as well, which would leave nothing. -/
def rem? (a b : FixedInt w) : Option (FixedInt w) :=
  if b.val = 0 ∨ a.val = w.least ∧ b.val = -1 then none else ofInt? w (a.val.tmod b.val)

end FixedInt

/-- The integer power of a base dimension or of pi. -/
abbrev Power := FixedInt .w32

end Metrology
