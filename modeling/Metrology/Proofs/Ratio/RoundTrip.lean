/-
  Metrology.Proofs.Ratio.RoundTrip

  A ratio is read back from its text. The text is a numerator and, unless that is one, a
  denominator in lowest terms; neither of them has a slash, a point or a blank, so the text is
  taken apart exactly where it was put together.
-/
import Metrology.Ratio.Text
import Metrology.Proofs.Integer.Reading
import Mathlib.Data.Rat.Lemmas

namespace Metrology.Ratio

variable {a : Ratio} {c : Char}

/-! ## The text -/

/-- The characters that the text of a ratio is made of. -/
def IsTextChar (c : Char) : Prop := c.isDigit = true ∨ c = '-' ∨ c = '/'

theorem isBlank_of_isTextChar (h : IsTextChar c) : Text.isBlank c = false := by
  rcases h with h | rfl | rfl
  · exact Text.isBlank_of_isDigit h
  · rfl
  · rfl

/-- An integer is written without its denominator. -/
theorem toChars_of_isInteger (h : a.isInteger = true) : toChars a = Integer.toChars a.num :=
  if_pos h

/-- A denominator is written as the integer that it is. -/
theorem toChars_of_not_isInteger (h : ¬ a.isInteger = true) :
    toChars a = Integer.toChars a.num ++ '/' :: Integer.toChars a.den :=
  if_neg h

theorem isTextChar_of_mem_integerToChars {n : Int} (h : c ∈ Integer.toChars n) : IsTextChar c :=
  (Integer.isDigit_or_minus_of_mem_toChars h).imp_right .inl

theorem isTextChar_of_mem_toChars (h : c ∈ toChars a) : IsTextChar c := by
  by_cases ha : a.isInteger = true
  · rw [toChars_of_isInteger ha] at h
    exact isTextChar_of_mem_integerToChars h
  · rw [toChars_of_not_isInteger ha, List.mem_append, List.mem_cons] at h
    rcases h with h | rfl | h
    · exact isTextChar_of_mem_integerToChars h
    · exact .inr (.inr rfl)
    · exact isTextChar_of_mem_integerToChars h

theorem toChars_ne_nil (a : Ratio) : toChars a ≠ [] := by
  by_cases h : a.isInteger = true
  · rw [toChars_of_isInteger h]
    exact Integer.toChars_ne_nil _
  · rw [toChars_of_not_isInteger h]
    exact List.append_ne_nil_of_left_ne_nil (Integer.toChars_ne_nil _) _

/-- A ratio has no blanks in its text. -/
@[simp] theorem trim_toChars (a : Ratio) : Text.trim (toChars a) = toChars a :=
  Text.trim_of_forall fun _ hc => isBlank_of_isTextChar (isTextChar_of_mem_toChars hc)

/-! ## Reading it -/

@[simp] theorem trim_integerToChars (n : Int) :
    Text.trim (Integer.toChars n) = Integer.toChars n :=
  Text.trim_of_forall fun _ hc => isBlank_of_isTextChar (isTextChar_of_mem_integerToChars hc)

/-- The text of an integer has no point, so it is read as an integer. -/
theorem readPlain?_toChars (n : Int) : readPlain? (Integer.toChars n) = some (n : Ratio) := by
  have hpoint : '.' ∉ Integer.toChars n :=
    Text.not_mem_of_forall (fun _ => isTextChar_of_mem_integerToChars) (by simp [IsTextChar])
  rw [readPlain?, Text.cut_eq_none hpoint]
  simp only [Integer.readGrouped?_toChars]
  rfl

/-- The reader gives back every ratio. -/
theorem ofChars_toChars (a : Ratio) : ofChars (toChars a) = .ok a := by
  have hslash (n : Int) : '/' ∉ Integer.toChars n :=
    Text.not_mem_of_forall (fun _ => Integer.isDigit_or_minus_of_mem_toChars) (by decide)
  rw [ofChars, trim_toChars]
  by_cases h : a.isInteger = true
  · -- The one part is the numerator, which is the ratio itself.
    have hparts : (toChars a).splitOn '/' = [Integer.toChars a.num] := by
      rw [toChars_of_isInteger h, List.splitOn_eq_singleton (hslash _)]
    have hvalue : (a.num : Ratio) = a := (Rat.den_eq_one_iff a).1 (beq_iff_eq.1 h)
    simp only [hparts, readPlain?_toChars, Option.elim_some, hvalue]
  · -- The two parts are numerator and denominator, which is not zero.
    have hparts : (toChars a).splitOn '/' =
        [Integer.toChars a.num, Integer.toChars a.den] := by
      rw [toChars_of_not_isInteger h, List.splitOn_append_cons_self_of_not_mem (hslash _),
        List.splitOn_eq_singleton (hslash _)]
    have hden : ((a.den : Int) : Ratio) ≠ 0 := by
      rw [Int.cast_natCast, Nat.cast_ne_zero]
      exact a.den_nz
    simp only [hparts, readParts?, trim_integerToChars, readPlain?_toChars]
    rw [div_of_ne_zero _ hden, Int.cast_natCast, Rat.num_div_den]

@[simp] theorem ofText_text (a : Ratio) : ofText (text a) = .ok a := by
  rw [ofText, text, String.toList_ofList, ofChars_toChars]

end Metrology.Ratio
