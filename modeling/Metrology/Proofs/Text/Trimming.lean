/-
  Metrology.Proofs.Text.Trimming

  Trimming and cutting text at a separator. A character that is not blank keeps the two sides
  apart: the blanks in front of it are those of the left side and the blanks behind it those of the
  right side. So text may be trimmed before it is cut or after.
-/
import Metrology.Proofs.Integer.Reading
import Mathlib.Data.List.DropRight

namespace Metrology.Text

variable {s t : List Char} {c : Char}

/-! ## Trimming around a character that stays -/

theorem trimStart_append_cons (hc : isBlank c = false) (s t : List Char) :
    trimStart (s ++ c :: t) = trimStart s ++ c :: t := by
  have hstop : (c :: t).dropWhile isBlank = c :: t := List.dropWhile_cons_of_neg (by simp [hc])
  rw [trimStart, trimStart, List.dropWhile_append, hstop]
  split
  · rename_i hempty
    rw [List.isEmpty_iff.1 hempty, List.nil_append]
  · rfl

theorem trimEnd_append_cons (hc : isBlank c = false) (s t : List Char) :
    trimEnd (s ++ c :: t) = s ++ c :: trimEnd t := by
  -- Seen from its end the text is the other one.
  have hreverse : (s ++ c :: t).reverse = t.reverse ++ c :: s.reverse := by simp
  have hstart := trimStart_append_cons hc t.reverse s.reverse
  rw [trimStart, trimStart] at hstart
  rw [trimEnd, trimEnd, hreverse, hstart]
  simp

theorem trim_append_cons (hc : isBlank c = false) (s t : List Char) :
    trim (s ++ c :: t) = trimStart s ++ c :: trimEnd t := by
  rw [trim, trimStart_append_cons hc, trimEnd_append_cons hc]

/-- Text that ends with other characters is trimmed at its start only. -/
theorem trim_append_of_forall (hne : t ≠ []) (ht : ∀ c ∈ t, isBlank c = false) (s : List Char) :
    trim (s ++ t) = trimStart s ++ t := by
  obtain ⟨c, r, rfl⟩ := List.exists_cons_of_ne_nil hne
  obtain ⟨hc, hr⟩ := List.forall_mem_cons.1 ht
  have hend : trimEnd r = r := by
    have h := trim_of_forall ht
    rw [← List.nil_append (c :: r), trim_append_cons hc] at h
    exact (List.cons.inj h).2
  rw [trim_append_cons hc, hend]

/-! ## Trimming twice -/

theorem trimStart_trimStart (s : List Char) : trimStart (trimStart s) = trimStart s :=
  List.dropWhile_idempotent isBlank s

theorem trimEnd_trimEnd (s : List Char) : trimEnd (trimEnd s) = trimEnd s :=
  List.rdropWhile_idempotent isBlank s

@[simp] theorem trim_trimStart (s : List Char) : trim (trimStart s) = trim s := by
  rw [trim, trimStart_trimStart, trim]

@[simp] theorem trim_trimEnd (s : List Char) : trim (trimEnd s) = trim s := by
  by_cases h : ∀ c ∈ s, isBlank c = true
  · -- Nothing is left of blanks, whichever end they are taken from.
    have hstart : trimStart s = [] := List.dropWhile_eq_nil_iff.2 h
    have hend : trimEnd s = [] := List.rdropWhile_eq_nil_iff.2 h
    rw [hend, trim, trim, hstart]
    rfl
  · obtain ⟨c, hmem, hblank⟩ := not_forall₂.1 h
    have hc : isBlank c = false := Bool.eq_false_iff.2 hblank
    obtain ⟨a, b, rfl⟩ := List.append_of_mem hmem
    rw [trimEnd_append_cons hc, trim_append_cons hc, trim_append_cons hc, trimEnd_trimEnd]

@[simp] theorem trim_trim (s : List Char) : trim (trim s) = trim s := by
  show trim (trimEnd (trimStart s)) = trim s
  rw [trim_trimEnd, trim_trimStart]

/-! ## Cutting at a character -/

/-- Text is cut at the first occurrence of a character. -/
theorem cut_append_cons (h : c ∉ s) (t : List Char) : cut [c] (s ++ c :: t) = some (s, t) := by
  induction s with
  | nil => simp [cut, List.isPrefixOf]
  | cons d s ih =>
    rw [List.mem_cons, not_or] at h
    obtain ⟨hd, hs⟩ := h
    have hpattern : ¬ [c].isPrefixOf (d :: (s ++ c :: t)) = true := by
      simp [List.isPrefixOf, hd]
    rw [List.cons_append, cut, if_neg hpattern, ih hs]
    rfl

theorem cut_eq_none_iff {c : Char} : Text.cut [c] s = none ↔ c ∉ s := by
  constructor
  · intro h hmem
    obtain ⟨front, rest, rfl, hfront⟩ := List.eq_append_cons_of_mem hmem
    rw [Text.cut_append_cons hfront] at h
    cases h
  · exact Text.cut_eq_none

end Metrology.Text
