/-
  Metrology.Proofs.Ratio.Reading

  When a text is read as a ratio, and as which. The text is cut at its slashes, and the blanks
  around each part are dropped; those at the ends of the whole text are blanks around its first and
  its last part, so it makes no difference that they are dropped before.
-/
import Metrology.Ratio.Text
import Metrology.Proofs.Text.Trimming
import Mathlib.Algebra.Field.Rat

namespace Metrology.Ratio

variable {s : List Char} {x : Ratio}

/-! ## Blanks at the ends -/

/-- Text either has no slash or is cut at its first one. -/
theorem slash_cases (s : List Char) : '/' ∉ s ∨ ∃ a r, '/' ∉ a ∧ s = a ++ '/' :: r := by
  by_cases h : '/' ∈ s
  · obtain ⟨a, r, hs, ha⟩ := List.eq_append_cons_of_mem h
    exact .inr ⟨a, r, ha, hs⟩
  · exact .inl h

theorem readParts?_cons (part : List Char) {parts : List (List Char)} (h : parts ≠ []) :
    readParts? (part :: parts) =
      (readPlain? (Text.trim part)).bind fun numerator => (readParts? parts).bind fun denominator =>
        if denominator = 0 then none else some (numerator / denominator) := by
  obtain ⟨q, qs, rfl⟩ := List.exists_cons_of_ne_nil h
  rfl

/-- The blanks at the end belong to the last part. -/
theorem readParts?_trimEnd (s : List Char) :
    readParts? ((Text.trimEnd s).splitOn '/') = readParts? (s.splitOn '/') := by
  -- Along the parts: each cut leaves a shorter text with the same end.
  induction hn : s.length using Nat.strong_induction_on generalizing s with
  | h n ih =>
    rcases slash_cases s with h | ⟨a, r, ha, rfl⟩
    · have hend : '/' ∉ Text.trimEnd s := fun hmem =>
        h (List.mem_reverse.1 ((List.dropWhile_sublist _).subset (List.mem_reverse.1 hmem)))
      rw [List.splitOn_eq_singleton h, List.splitOn_eq_singleton hend, readParts?, readParts?,
        Text.trim_trimEnd]
    · have hshorter : r.length < n := by
        rw [← hn, List.length_append, List.length_cons]
        omega
      rw [Text.trimEnd_append_cons (by decide), List.splitOn_append_cons_self_of_not_mem ha,
        List.splitOn_append_cons_self_of_not_mem ha, readParts?_cons a (List.splitOn_ne_nil _ _),
        readParts?_cons a (List.splitOn_ne_nil _ _), ih r.length hshorter r rfl]

/-- The blanks at both ends belong to the first and to the last part. -/
theorem readParts?_trim (s : List Char) :
    readParts? ((Text.trim s).splitOn '/') = readParts? (s.splitOn '/') := by
  rw [Text.trim, readParts?_trimEnd]
  rcases slash_cases s with h | ⟨a, r, ha, rfl⟩
  · have hstart : '/' ∉ Text.trimStart s := fun hmem => h ((List.dropWhile_sublist _).subset hmem)
    rw [List.splitOn_eq_singleton h, List.splitOn_eq_singleton hstart, readParts?, readParts?,
      Text.trim_trimStart]
  · have hstart : '/' ∉ Text.trimStart a := fun hmem => ha ((List.dropWhile_sublist _).subset hmem)
    rw [Text.trimStart_append_cons (by decide), List.splitOn_append_cons_self_of_not_mem ha,
      List.splitOn_append_cons_self_of_not_mem hstart,
      readParts?_cons _ (List.splitOn_ne_nil _ _), readParts?_cons _ (List.splitOn_ne_nil _ _),
      Text.trim_trimStart]

/-! ## The ratio of a text -/

theorem div_eq_ok {a b : Ratio} : div a b = .ok x ↔ b ≠ 0 ∧ a / b = x := by
  rw [div]
  split
  · rename_i h
    simp [h]
  · rename_i h
    simp [h]

/-- A text is read as what the parts between its slashes make. -/
theorem ofChars_eq_ok_iff : ofChars s = .ok x ↔ readParts? (s.splitOn '/') = some x := by
  rw [← readParts?_trim, ofChars]
  cases hparts : (Text.trim s).splitOn '/' with
  | nil => exact absurd hparts (List.splitOn_ne_nil _ _)
  | cons part parts =>
    cases parts with
    | nil =>
      -- The one part is the trimmed text.
      have hpart : part = Text.trim s := by
        have hjoin : ['/'].intercalate ((Text.trim s).splitOn '/') = Text.trim s :=
          List.intercalate_splitOn '/'
        rw [hparts, List.intercalate_singleton] at hjoin
        exact hjoin
      show (readPlain? part).elim _ Except.ok = _ ↔ readPlain? (Text.trim part) = _
      rw [hpart, Text.trim_trim]
      cases readPlain? (Text.trim s) <;> simp
    | cons q parts =>
      rw [readParts?_cons part (List.cons_ne_nil q parts)]
      cases hnumerator : readPlain? (Text.trim part) with
      | none => simp [hnumerator]
      | some numerator =>
        cases hdenominator : readParts? (q :: parts) with
        | none => simp [hnumerator, hdenominator]
        | some denominator =>
          have hdiv : div numerator denominator = .ok x ↔
              (if denominator = 0 then none else some (numerator / denominator)) = some x := by
            rw [div_eq_ok, Option.ite_none_left_eq_some, Option.some.injEq]
          simpa [hnumerator, hdenominator] using hdiv

/-- Text without a slash is an integer or a decimal, with blanks around it. -/
theorem ofChars_eq_ok_iff_of_not_mem (h : '/' ∉ s) :
    ofChars s = .ok x ↔ readPlain? (Text.trim s) = some x := by
  rw [ofChars_eq_ok_iff, List.splitOn_eq_singleton h, readParts?]

end Metrology.Ratio
