/-
  Metrology.Text.Blank

  White space in the sense of Unicode, and text with the white space at its ends removed.
-/

namespace Metrology.Text

/-! ## The characters -/

/-- The 25 characters with Unicode's `White_Space` property. -/
def isBlank (c : Char) : Bool :=
  let code := c.toNat
  (9 ≤ code && code ≤ 13) || code == 32 || code == 0x85 || code == 0xA0 || code == 0x1680 ||
    (0x2000 ≤ code && code ≤ 0x200A) || code == 0x2028 || code == 0x2029 || code == 0x202F ||
    code == 0x205F || code == 0x3000

/-! ## Trimming -/

/-- Text without the blanks it starts with. -/
def trimStart (s : List Char) : List Char := s.dropWhile isBlank

/-- Text without the blanks it ends with. -/
def trimEnd (s : List Char) : List Char := (s.reverse.dropWhile isBlank).reverse

/-- Text without the blanks at both ends. -/
def trim (s : List Char) : List Char := trimEnd (trimStart s)

/-- Text that starts and ends with other characters is its own trimming. -/
theorem trim_eq_self {s : List Char} (first : ∀ c ∈ s.head?, isBlank c = false)
    (last : ∀ c ∈ s.getLast?, isBlank c = false) : trim s = s := by
  have start : trimStart s = s := by
    cases s with
    | nil => rfl
    | cons c s => simp [trimStart, first c (by simp)]
  have finish : s.reverse.dropWhile isBlank = s.reverse := by
    cases h : s.reverse with
    | nil => rfl
    | cons c r =>
      have hc : s.getLast? = some c := by
        rw [← List.head?_reverse, h]; rfl
      simp [last c (by simp [hc])]
  rw [trim, start, trimEnd, finish, List.reverse_reverse]

end Metrology.Text
