/-
  Metrology.Text.Lowercase

  Full Unicode lowercasing: the simple mapping of each character, the one character that
  lowers to two, and the capital sigma, whose lowercase form depends on its place.
-/
import Metrology.Text.CaseTable

namespace Metrology.Text

/-! ## Single characters -/

/-- The lowercase code point that the table gives for `code`. -/
def lowerCode (code : Nat) : Nat :=
  match caseRuns.find? fun run =>
      run.first ≤ code && code ≤ run.last && (code - run.first) % run.step == 0 with
  | some run => (code + run.shift).toNat
  | none => code

/-- The lowercase form of a character outside any word. -/
def lowerChar (c : Char) : List Char :=
  if c.toNat < 128 then [c.toLower]
  else if c = 'İ' then ['i', Char.ofNat 0x307]
  else [Char.ofNat (lowerCode c.toNat)]

/-! ## The capital sigma -/

/-- Whether the first character that casing does not look through is a letter with case. -/
def meetsCasedLetter (s : List Char) : Bool :=
  match s.dropWhile fun c => caseIgnorable.has c.toNat with
  | [] => false
  | c :: _ => casedLetters.has c.toNat

/-- Lowercases `s`, which stands after the reversed text `before`: a capital sigma that ends
a word is lowered to the final form. -/
def lowerAfter (before : List Char) : List Char → List Char
  | [] => []
  | c :: s =>
    let lowered :=
      if c = 'Σ' then
        -- Final means after a letter and before none, looking through what casing ignores.
        if meetsCasedLetter before && !meetsCasedLetter s then ['ς'] else ['σ']
      else lowerChar c
    lowered ++ lowerAfter (c :: before) s

def lowercase (s : List Char) : List Char := lowerAfter [] s

theorem lowerChar_ne_nil (c : Char) : lowerChar c ≠ [] := by
  rw [lowerChar]
  split
  · exact List.cons_ne_nil _ _
  split
  · exact List.cons_ne_nil _ _
  · exact List.cons_ne_nil _ _

/-- No character is lowered to nothing. -/
theorem lowercase_ne_nil {s : List Char} (h : s ≠ []) : lowercase s ≠ [] := by
  cases s with
  | nil => exact absurd rfl h
  | cons c s =>
    rw [lowercase, lowerAfter]
    refine List.append_ne_nil_of_left_ne_nil ?_ _
    split
    · split
      · exact List.cons_ne_nil _ _
      · exact List.cons_ne_nil _ _
    · exact lowerChar_ne_nil c

end Metrology.Text
