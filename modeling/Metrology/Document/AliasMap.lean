/-
  Metrology.Document.AliasMap

  Maps from aliases to keys, kept in the order of the aliases. A map has one list of
  entries, so maps with the same entries are equal.
-/

namespace Metrology

/-- Entries of which each comes before the next by its alias. -/
abbrev AliasesInOrder (entries : List (String × String)) : Prop :=
  entries.Pairwise fun a b => compare a.1 b.1 = .lt

structure AliasMap where
  entries : List (String × String)
  inOrder : AliasesInOrder entries

namespace AliasMap

def empty : AliasMap := ⟨[], .nil⟩

/-- The entries with one more, which replaces an entry of the same alias. -/
def insertEntry (other key : String) : List (String × String) → List (String × String)
  | [] => [(other, key)]
  | e :: es =>
    match compare other e.1 with
    | .lt => (other, key) :: e :: es
    | .eq => (other, key) :: es
    | .gt => e :: insertEntry other key es

theorem mem_insertEntry {other key : String} {es : List (String × String)} {x : String × String}
    (h : x ∈ insertEntry other key es) : x = (other, key) ∨ x ∈ es := by
  induction es with
  | nil => simpa [insertEntry] using h
  | cons e es ih =>
    simp only [insertEntry] at h
    split at h
    · simpa using h
    · rcases List.mem_cons.1 h with h | h
      · exact .inl h
      · exact .inr (List.mem_cons_of_mem _ h)
    · rcases List.mem_cons.1 h with h | h
      · exact .inr (h ▸ List.mem_cons_self)
      · exact (ih h).imp_right (List.mem_cons_of_mem _)

theorem inOrder_insertEntry {other key : String} {es : List (String × String)}
    (h : AliasesInOrder es) : AliasesInOrder (insertEntry other key es) := by
  induction es with
  | nil => simp [insertEntry]
  | cons e es ih =>
    obtain ⟨first, rest⟩ := List.pairwise_cons.1 h
    simp only [insertEntry]
    split
    · rename_i before
      refine List.pairwise_cons.2 ⟨fun x hx => ?_, h⟩
      rcases List.mem_cons.1 hx with rfl | hx
      · exact before
      · exact Std.TransCmp.lt_trans before (first x hx)
    · rename_i equal
      refine List.pairwise_cons.2 ⟨fun x hx => ?_, rest⟩
      have := first x hx
      rwa [← Std.LawfulEqOrd.eq_of_compare equal] at this
    · rename_i after
      refine List.pairwise_cons.2 ⟨fun x hx => ?_, ih rest⟩
      rcases mem_insertEntry hx with rfl | hx
      · exact Std.OrientedCmp.gt_iff_lt.1 after
      · exact first x hx

/-- The map with an alias that stands for a key, whatever it stood for before. -/
def insert (m : AliasMap) (other key : String) : AliasMap :=
  ⟨insertEntry other key m.entries, inOrder_insertEntry m.inOrder⟩

/-- The map of the entries, a later one replacing an earlier one of the same alias. -/
def ofEntries (entries : List (String × String)) : AliasMap :=
  entries.foldl (fun m e => m.insert e.1 e.2) empty

@[ext] theorem ext {a b : AliasMap} (h : a.entries = b.entries) : a = b := by
  cases a; cases b; cases h; rfl

end AliasMap

end Metrology
