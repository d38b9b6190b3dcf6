/-
  Metrology.Proofs.Catalog.Keys

  The keys of a catalog. A new key or alias must be free in both tables, so whatever is done to a
  catalog, and whatever magnitudes its units have, no key or alias is repeated and no alias is a
  key.
-/
import Metrology.Proofs.Catalog.Run

namespace Metrology.Catalog

/-- The catalogs that operations lead to from the empty one, with serial numbers given to units at
any time. -/
inductive Reachable : Catalog → Prop where
  | empty : Reachable .empty
  | after {c : Catalog} (h : Reachable c) (op : Operation) : Reachable (c.after op)
  | numbered {c : Catalog} (h : Reachable c) (serial : Nat) : Reachable (c.numbered serial)

theorem Reachable.run {c : Catalog} (h : Reachable c) (ops : List Operation) :
    Reachable (c.run ops) := by
  induction ops generalizing c with
  | nil => exact h
  | cons op ops ih => exact ih (h.after op)

/-- No key and no alias is repeated, and no alias is a key. -/
structure IsKeyed (c : Catalog) : Prop where
  unitKeys : (c.units.map Prod.fst).Nodup
  aliasKeys : (c.aliases.map Prod.fst).Nodup
  aliases : ∀ e ∈ c.aliases, hasEntry c.units e.1 = false

variable {c : Catalog} {e : Entry}

theorem isKeyed_empty : IsKeyed .empty := ⟨.nil, .nil, List.forall_mem_nil _⟩

/-! ## One more entry -/

theorem IsKeyed.add (h : c.IsKeyed) (he : c.Accepts e) : (c.add e).IsKeyed := by
  cases e with
  | base b => exact ⟨h.unitKeys, h.aliasKeys, h.aliases⟩
  | name name d => exact ⟨h.unitKeys, h.aliasKeys, h.aliases⟩
  | unit key u =>
    obtain ⟨hkey, halias⟩ := isTaken_eq_false_iff.1 he.2.1
    refine ⟨nodup_keys_append h.unitKeys hkey, h.aliasKeys, fun x hx => ?_⟩
    -- The new key is none of the aliases.
    have hne : key ≠ x.1 := by
      have hmem : x.1 ∈ c.aliases.map Prod.fst := List.mem_map_of_mem hx
      rintro rfl
      rw [hasEntry_iff_mem.2 hmem] at halias
      cases halias
    rw [hasEntry, Catalog.add, lookup?_append_of_ne hne]
    exact h.aliases x hx
  | «alias» other key =>
    obtain ⟨hother, halias⟩ := isTaken_eq_false_iff.1 he.1
    exact ⟨h.unitKeys, nodup_keys_append h.aliasKeys halias,
      List.forall_mem_append.2 ⟨h.aliases, List.forall_mem_singleton.2 hother⟩⟩

/-! ## Serial numbers -/

theorem keys_numbered (c : Catalog) (serial : Nat) :
    (c.numbered serial).units.map Prod.fst = c.units.map Prod.fst := by
  simp [numbered]

/-- Serial numbers change no key. -/
theorem hasEntry_numbered (c : Catalog) (serial : Nat) (key : String) :
    hasEntry (c.numbered serial).units key = hasEntry c.units key := by
  rw [Bool.eq_iff_iff, hasEntry_iff_mem, hasEntry_iff_mem, keys_numbered]

theorem IsKeyed.numbered (h : c.IsKeyed) (serial : Nat) : (c.numbered serial).IsKeyed where
  unitKeys := by rw [keys_numbered]; exact h.unitKeys
  aliasKeys := h.aliasKeys
  aliases x hx := by rw [hasEntry_numbered]; exact h.aliases x hx

/-! ## Runs -/

theorem Reachable.isKeyed (h : Reachable c) : c.IsKeyed := by
  induction h with
  | empty => exact isKeyed_empty
  | after _ op ih => exact run_induction_of_add (fun _ _ hc he => hc.add he) ih [op]
  | numbered _ serial ih => exact ih.numbered serial

/-- An alias of a registered key is no registered key itself. -/
theorem IsKeyed.hasEntry_aliases (h : c.IsKeyed) {key : String} {u : MeasureUnit}
    (hu : lookup? c.units key = some u) : hasEntry c.aliases key = false := by
  by_contra halias
  rw [Bool.not_eq_false] at halias
  obtain ⟨other, hother⟩ := hasEntry_iff.1 halias
  have hfree := h.aliases _ (mem_of_lookup? hother)
  rw [hasEntry_iff.2 ⟨u, hu⟩] at hfree
  cases hfree

end Metrology.Catalog
