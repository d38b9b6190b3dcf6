/-
  Metrology.Text.Cut

  Text cut in two at the first place where a pattern occurs, and the test for occurrence
  that comes with it.
-/

namespace Metrology.Text

/-- What stands before and after the first occurrence of `pattern`. -/
def cut (pattern : List Char) : List Char → Option (List Char × List Char)
  | [] => if pattern.isEmpty then some ([], []) else none
  | c :: s =>
    if pattern.isPrefixOf (c :: s) then some ([], (c :: s).drop pattern.length)
    else (cut pattern s).map fun (before, after) => (c :: before, after)

/-- Whether `pattern` occurs somewhere in the text. -/
def occursIn (pattern s : List Char) : Bool := (cut pattern s).isSome

/-- Cutting loses nothing but the pattern. -/
theorem append_of_cut {pattern s before after : List Char}
    (h : cut pattern s = some (before, after)) : before ++ pattern ++ after = s := by
  induction s generalizing before with
  | nil =>
    simp only [cut] at h
    split at h
    · rename_i hp
      simp only [Option.some.injEq, Prod.mk.injEq] at h
      obtain ⟨rfl, rfl⟩ := h
      simp [List.isEmpty_iff.1 hp]
    · simp at h
  | cons c s ih =>
    simp only [cut] at h
    split at h
    · rename_i hp
      simp only [Option.some.injEq, Prod.mk.injEq] at h
      obtain ⟨rfl, rfl⟩ := h
      obtain ⟨rest, hr⟩ := List.isPrefixOf_iff_prefix.1 hp
      rw [← hr]; simp
    · obtain ⟨⟨b, a⟩, hb, he⟩ := Option.map_eq_some_iff.1 h
      simp only [Prod.mk.injEq] at he
      obtain ⟨rfl, rfl⟩ := he
      have := ih hb
      simp only [List.cons_append, ← this]

theorem occursIn_iff {pattern s : List Char} : occursIn pattern s = true ↔ pattern <:+: s := by
  rw [occursIn]
  induction s with
  | nil =>
    rw [cut, List.infix_nil, ← List.isEmpty_iff]
    cases pattern.isEmpty <;> simp
  | cons c s ih =>
    rw [cut, List.infix_cons_iff, ← List.isPrefixOf_iff_prefix, ← ih]
    cases pattern.isPrefixOf (c :: s) <;> simp

end Metrology.Text
