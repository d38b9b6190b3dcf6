/-
  Metrology.Proofs.Catalog.Lookup

  Look-up in the tables of a catalog. An entry that is added at the end of a table leaves
  every look-up that found something alone, and in a table whose keys are all different a
  look-up finds exactly the entries.
-/
import Metrology.Catalog.Declare
import Metrology.Proofs.Dimension.Composition

namespace Metrology.Catalog

/-! ## Tables -/

/-- What is put under a new key comes to the end of the table. -/
theorem put_of_absent {α β : Type} {table : List (α × β)} {same : α → Bool}
    (h : ∀ e ∈ table, same e.1 = false) (key : α) (value : β) :
    put table same key value = table ++ [(key, value)] := by
  refine if_neg ?_
  rw [List.any_eq_true, not_exists]
  rintro e ⟨he, hsame⟩
  rw [h e he] at hsame
  cases hsame

section Tables

variable {α : Type} {table more : List (String × α)} {key other : String} {v w : α}

theorem mem_of_lookup? (h : lookup? table key = some v) : (key, v) ∈ table := by
  rw [lookup?, Option.map_eq_some_iff] at h
  obtain ⟨⟨k, w⟩, hfind, rfl⟩ := h
  obtain rfl : k = key := by simpa using List.find?_some hfind
  exact List.mem_of_find?_eq_some hfind

theorem hasEntry_iff : hasEntry table key = true ↔ ∃ v, lookup? table key = some v :=
  Option.isSome_iff_exists

theorem hasEntry_eq_false_iff : hasEntry table key = false ↔ lookup? table key = none :=
  Option.isSome_eq_false_iff.trans Option.isNone_iff_eq_none

/-- A key has a value exactly if it occurs. -/
theorem hasEntry_iff_mem : hasEntry table key = true ↔ key ∈ table.map Prod.fst := by
  rw [hasEntry, lookup?, Option.isSome_map, List.find?_isSome, List.mem_map]
  simp only [beq_iff_eq]

theorem lookup?_append :
    lookup? (table ++ more) key = (lookup? table key).or (lookup? more key) := by
  rw [lookup?, lookup?, lookup?, List.find?_append]
  cases table.find? fun e => e.1 == key <;> rfl

theorem lookup?_singleton :
    lookup? [(other, w)] key = if other = key then some w else none := by
  by_cases h : other = key <;> simp [lookup?, h]

/-- What was found is found in the longer table. -/
theorem lookup?_append_of_some (h : lookup? table key = some v) :
    lookup? (table ++ more) key = some v := by
  rw [lookup?_append, h, Option.some_or]

theorem lookup?_append_of_ne (h : other ≠ key) :
    lookup? (table ++ [(other, w)]) key = lookup? table key := by
  rw [lookup?_append, lookup?_singleton, if_neg h, Option.or_none]

theorem hasEntry_append_of (h : hasEntry table key = true) :
    hasEntry (table ++ more) key = true := by
  obtain ⟨v, hv⟩ := hasEntry_iff.1 h
  exact hasEntry_iff.2 ⟨v, lookup?_append_of_some hv⟩

/-- Where no key is repeated, look-up finds exactly the entries. -/
theorem lookup?_eq_some_iff (hkeys : (table.map Prod.fst).Nodup) :
    lookup? table key = some v ↔ (key, v) ∈ table := by
  refine ⟨mem_of_lookup?, fun hmem => ?_⟩
  obtain ⟨w, hw⟩ := hasEntry_iff.1 (hasEntry_iff_mem.2 (List.mem_map.2 ⟨_, hmem, rfl⟩))
  have heq := List.inj_on_of_nodup_map hkeys (mem_of_lookup? hw) hmem rfl
  rw [hw, (Prod.mk.inj heq).2]

/-- Where no key is repeated, the order of the table does not matter. -/
theorem lookup?_of_perm {table' : List (String × α)} (hkeys : (table.map Prod.fst).Nodup)
    (h : table'.Perm table) (key : String) : lookup? table' key = lookup? table key := by
  have hkeys' : (table'.map Prod.fst).Nodup := (h.map Prod.fst).nodup_iff.2 hkeys
  refine Option.ext fun v => ?_
  rw [lookup?_eq_some_iff hkeys', lookup?_eq_some_iff hkeys, h.mem_iff]

/-- A new key is put at the end of the table. -/
theorem put_of_hasEntry_eq_false (hnew : hasEntry table key = false) (v : α) :
    put table (· == key) key v = table ++ [(key, v)] := by
  refine put_of_absent (fun e he => ?_) key v
  rw [← Bool.not_eq_true, hasEntry_iff_mem] at hnew
  exact beq_false_of_ne fun h => hnew (h ▸ List.mem_map_of_mem he)

/-- A key that is new may be added. -/
theorem nodup_keys_append (hkeys : (table.map Prod.fst).Nodup)
    (hnew : hasEntry table key = false) : ((table ++ [(key, v)]).map Prod.fst).Nodup := by
  have hmem : key ∉ table.map Prod.fst := by
    rw [← hasEntry_iff_mem, hnew]
    exact Bool.false_ne_true
  rw [List.map_append, List.map_singleton, ← List.concat_eq_append]
  exact hkeys.concat hmem

end Tables

variable {c : Catalog} {key : String} {b : BaseDimension} {d : Dimension}

theorem isTaken_eq_false_iff :
    c.isTaken key = false ↔ hasEntry c.units key = false ∧ hasEntry c.aliases key = false :=
  Bool.or_eq_false_iff

/-! ## Base dimensions -/

theorem base?_eq_some {name referenceUnit : String} (h : c.base? name referenceUnit = some b) :
    b ∈ c.bases ∧ b.name = name ∧ b.referenceUnit = referenceUnit := by
  rw [base?] at h
  refine ⟨List.mem_of_find?_eq_some h, ?_⟩
  simpa using List.find?_some h

theorem hasBase_iff : c.hasBase b = true ↔ ∃ x, c.base? b.name b.referenceUnit = some x := by
  rw [hasBase, base?, ← Option.isSome_iff_exists, List.find?_isSome, List.any_eq_true]
  rfl

/-- All base dimensions of the dimension are declared. -/
def HasBases (c : Catalog) (d : Dimension) : Prop :=
  ∀ e ∈ d.exponents, c.hasBase e.base = true

theorem undeclaredBase?_eq_none_iff : c.undeclaredBase? d = none ↔ c.HasBases d := by
  rw [undeclaredBase?, List.find?_eq_none, List.forall_mem_map]
  simp only [Bool.not_eq_true', Bool.not_eq_false]
  rfl

theorem not_hasBases_of_undeclaredBase? (h : c.undeclaredBase? d = some b) :
    ¬ c.HasBases d := by
  rw [← undeclaredBase?_eq_none_iff, h]
  exact Option.some_ne_none b

/-! ## Names -/

theorem dimensionName?_eq_some {name : String} (h : c.dimensionName? d = some name) :
    ∃ x, (x, name) ∈ c.names ∧ x.same d = true := by
  rw [dimensionName?, Option.map_eq_some_iff] at h
  obtain ⟨⟨x, n⟩, hfind, rfl⟩ := h
  have hsame := List.find?_some (p := fun e : Dimension × String => e.1.same d) hfind
  exact ⟨x, List.mem_of_find?_eq_some hfind, hsame⟩

theorem dimensionName?_eq_none_iff :
    c.dimensionName? d = none ↔ ∀ e ∈ c.names, e.1.same d = false := by
  rw [dimensionName?, Option.map_eq_none_iff, List.find?_eq_none]
  simp only [Bool.not_eq_true]

end Metrology.Catalog
