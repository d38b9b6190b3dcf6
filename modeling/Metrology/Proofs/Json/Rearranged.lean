/-
  Metrology.Proofs.Json.Rearranged

  JSON values that differ in the order in which their objects have their members. A record reads
  each of its fields by name, so where no name is repeated the order does not matter. Readers are
  put together as the values are written: a reader of strings, of items, of fields that must be
  present and of fields that may be missing.
-/
import Metrology.Json.Members
import Metrology.Proofs.Catalog.Lookup
import Metrology.Proofs.Integer.Reading
import Metrology.Proofs.Outcome

namespace Metrology.Json

open Catalog (lookup? lookup?_of_perm)

/-- The same value but for the order of the members of its objects. -/
inductive Rearranged : Json → Json → Prop where
  | null : Rearranged null null
  | bool (value : Bool) : Rearranged (bool value) (bool value)
  | number (literal : String) : Rearranged (number literal) (number literal)
  | string (value : String) : Rearranged (string value) (string value)
  | array {items items' : List Json} (h : List.Forall₂ Rearranged items items') :
      Rearranged (array items) (array items')
  | object {members members' paired : List (String × Json)}
      (hkeys : members.map Prod.fst = paired.map Prod.fst)
      (hvalues : List.Forall₂ Rearranged (members.map Prod.snd) (paired.map Prod.snd))
      (hperm : members'.Perm paired) : Rearranged (object members) (object members')
  | meaningless : Rearranged meaningless meaningless

variable {α : Type} {j j' : Json} {members members' : List (String × Json)}

/-! ## Values as they are -/

mutual

theorem Rearranged.refl : (j : Json) → Rearranged j j
  | .null => .null
  | .bool value => .bool value
  | .number literal => .number literal
  | .string value => .string value
  | .array items => .array (Rearranged.refl_items items)
  | .object members => .object rfl (Rearranged.refl_members members) (.refl members)
  | .meaningless => .meaningless

theorem Rearranged.refl_items : (items : List Json) → List.Forall₂ Rearranged items items
  | [] => .nil
  | item :: items => .cons (Rearranged.refl item) (Rearranged.refl_items items)

theorem Rearranged.refl_members : (members : List (String × Json)) →
    List.Forall₂ Rearranged (members.map Prod.snd) (members.map Prod.snd)
  | [] => .nil
  | (_, value) :: members => .cons (Rearranged.refl value) (Rearranged.refl_members members)

end

theorem rearranged_of_perm (h : members'.Perm members) :
    Rearranged (.object members) (.object members') :=
  .object rfl (Rearranged.refl_members members) h

/-! ## Members by name -/

theorem lookup?_cons (m : String × Json) (key : String) :
    lookup? (m :: members) key = if m.1 = key then some m.2 else lookup? members key := by
  by_cases h : m.1 = key <;> simp [lookup?, h]

/-- Where no name is repeated a name has its one value. -/
theorem valuesOf_eq (hkeys : (members.map Prod.fst).Nodup) (key : String) :
    valuesOf key members = (lookup? members key).toList := by
  induction members with
  | nil => rfl
  | cons m members ih =>
    obtain ⟨hm, hmembers⟩ := List.nodup_cons.1 hkeys
    rw [lookup?_cons, valuesOf]
    by_cases h : m.1 = key
    · -- The name does not occur again.
      have hnone : ∀ x ∈ members, ¬ (x.1 == key) = true := by
        intro x hx heq
        rw [beq_iff_eq] at heq
        exact hm (h ▸ heq ▸ List.mem_map_of_mem hx)
      rw [List.filter_cons_of_pos (by simpa using h), List.filter_eq_nil_iff.2 hnone, if_pos h]
      rfl
    · rw [List.filter_cons_of_neg (by simpa using h), if_neg h]
      exact ih hmembers

theorem pick?_eq (hkeys : (members.map Prod.fst).Nodup) (names : List String) :
    pick? names members = some (names.map (lookup? members)) := by
  have hvalues : pick? names members = names.mapM fun name => some (lookup? members name) := by
    rw [pick?]
    congr 1
    funext name
    rw [valuesOf_eq hkeys]
    cases lookup? members name <;> rfl
  rw [hvalues]
  exact List.mapM_pure (m := Option) (f := lookup? members)

theorem Rearranged.exists_object (h : Rearranged (.object members) j) :
    ∃ members', j = .object members' := by
  cases h
  exact ⟨_, rfl⟩

theorem Rearranged.nodup_keys (h : Rearranged (.object members) (.object members'))
    (hkeys : (members.map Prod.fst).Nodup) : (members'.map Prod.fst).Nodup := by
  cases h with
  | object hfst _ hperm => exact (hperm.map Prod.fst).nodup_iff.2 (hfst ▸ hkeys)

/-- Lists with the same names and rearranged values have the same values by name. -/
theorem rel_lookup?_of_paired {paired : List (String × Json)}
    (hkeys : members.map Prod.fst = paired.map Prod.fst)
    (hvalues : List.Forall₂ Rearranged (members.map Prod.snd) (paired.map Prod.snd))
    (key : String) : Option.Rel Rearranged (lookup? members key) (lookup? paired key) := by
  induction members generalizing paired with
  | nil =>
    rw [List.map_nil, eq_comm, List.map_eq_nil_iff] at hkeys
    rw [hkeys]
    exact .none
  | cons m members ih =>
    cases paired with
    | nil => cases hkeys
    | cons p paired =>
      obtain ⟨hkey, hkeys⟩ := List.cons.inj hkeys
      obtain ⟨hvalue, hvalues⟩ := List.forall₂_cons.1 hvalues
      rw [lookup?_cons, lookup?_cons, ← hkey]
      split
      · exact .some hvalue
      · exact ih hkeys hvalues

theorem Rearranged.rel_lookup? (h : Rearranged (.object members) (.object members'))
    (hkeys : (members.map Prod.fst).Nodup) (key : String) :
    Option.Rel Rearranged (lookup? members key) (lookup? members' key) := by
  cases h with
  | object hfst hvalues hperm =>
    rw [lookup?_of_perm (hfst ▸ hkeys) hperm]
    exact rel_lookup?_of_paired hfst hvalues key

/-! ## Fields of a record -/

section Fields

variable {fields : List (String × Option Json)}

/-- The members that an object has of the given fields. -/
theorem keys_ofMembers_sublist (fields : List (String × Option Json)) :
    ((fields.filterMap fun (key, value) => value.map (key, ·)).map Prod.fst).Sublist
      (fields.map Prod.fst) := by
  induction fields with
  | nil => exact .slnil
  | cons field fields ih =>
    obtain ⟨key, _ | value⟩ := field
    · exact ih.cons key
    · exact ih.cons_cons key

theorem lookup?_ofMembers (hkeys : (fields.map Prod.fst).Nodup) (key : String) :
    lookup? (fields.filterMap fun (key, value) => value.map (key, ·)) key =
      (lookup? fields key).join := by
  induction fields with
  | nil => rfl
  | cons field fields ih =>
    obtain ⟨hfield, hfields⟩ := List.nodup_cons.1 hkeys
    obtain ⟨name, value⟩ := field
    have hrest := ih hfields
    by_cases h : name = key
    · -- No other field has this name.
      have hnone : lookup? fields key = none := by
        rw [← Catalog.hasEntry_eq_false_iff, ← Bool.not_eq_true, Catalog.hasEntry_iff_mem, ← h]
        exact hfield
      rw [hnone] at hrest
      cases value <;> simp [lookup?, h] at hrest ⊢
      exact hrest
    · have hskip : lookup? ((name, value) :: fields) key = lookup? fields key := by
        simp [lookup?, h]
      rw [hskip, ← hrest]
      cases value <;> simp [lookup?, h]

/-- From a rearranged record each field is read by its name. -/
theorem Rearranged.fields? (fields : List (String × Option Json))
    (h : Rearranged (ofMembers fields) j) (hkeys : (fields.map Prod.fst).Nodup)
    (names : List String) :
    ∃ value? : String → Option Json, j.fields? names = some (names.map value?) ∧
      ∀ name, Option.Rel Rearranged (lookup? fields name).join (value? name) := by
  obtain ⟨members', rfl⟩ := h.exists_object
  have hmembers := hkeys.sublist (keys_ofMembers_sublist fields)
  refine ⟨lookup? members', pick?_eq (h.nodup_keys hmembers) names, fun name => ?_⟩
  rw [← lookup?_ofMembers hkeys]
  exact h.rel_lookup? hmembers name

end Fields

/-! ## Reading what is written -/

/-- The reader gives the thing back from every rearrangement of what is written of it. -/
def ReadsBack (read : Json → Option α) (write : α → Json) (x : α) : Prop :=
  ∀ j, Rearranged (write x) j → read j = some x

section ReadsBack

variable {read : Json → Option α} {write : α → Json} {x : α} {field : Option Json}

theorem string_not_null (s : String) : ¬ Rearranged (.string s) .null := nofun

theorem readsBack_string (s : String) : ReadsBack asString? .string s := by
  rintro _ ⟨⟩
  rfl

/-- Powers are written as numbers, and none of them as minus zero. -/
theorem readsBack_power (k : Power) : ReadsBack asPower? (fun k => .ofInt k.val) k := by
  rintro _ ⟨⟩
  have hread := Integer.read?_toChars k.val
  have hminus : Integer.text k.val ≠ "-0" := by
    intro h
    have hchars : Integer.toChars k.val = ['-', '0'] := by
      rw [← String.toList_ofList (l := Integer.toChars k.val), ← Integer.text, h]
      rfl
    have hzero : k.val = 0 := by
      rw [hchars] at hread
      exact (Option.some.inj hread).symm
    rw [hzero] at hchars
    cases hchars
  rw [asPower?, asInt?, if_neg hminus, Integer.text, String.toList_ofList, hread,
    Option.bind_some, FixedInt.ofInt?_val]

theorem readsBack_items {xs : List α} (h : ∀ x ∈ xs, ReadsBack read write x) :
    ReadsBack (itemsOf? read) (fun xs => .array (xs.map write)) xs := by
  intro j hj
  cases hj with
  | @array _ items hitems =>
    rw [itemsOf?]
    induction xs generalizing items with
    | nil =>
      cases hitems
      rfl
    | cons x xs ih =>
      obtain ⟨item, rest, hitem, hrest, rfl⟩ := List.forall₂_cons_left_iff.1 hitems
      obtain ⟨hx, hxs⟩ := List.forall_mem_cons.1 h
      rw [List.mapM_cons, hx item hitem, ih hxs hrest]
      rfl

theorem readsBack_strings (items : List String) :
    ReadsBack (itemsOf? asString?) ofStrings items :=
  readsBack_items fun s _ => readsBack_string s

theorem ReadsBack.required (h : ReadsBack read write x)
    (hfield : Option.Rel Rearranged (some (write x)) field) : required? read field = some x := by
  cases hfield with
  | some hvalue => exact h _ hvalue

/-- A field that may be missing is read back if nothing is written as null. -/
theorem ReadsBack.optional {o : Option α} (h : ∀ x, o = some x → ReadsBack read write x)
    (hnull : ∀ x, ¬ Rearranged (write x) .null)
    (hfield : Option.Rel Rearranged (o.map write) field) : optional? read field = some o := by
  cases o with
  | none =>
    cases hfield
    rfl
  | some x =>
    cases hfield with
    | some hvalue =>
      rw [optional?, h x rfl _ hvalue]
      · rfl
      · rintro rfl
        exact hnull x hvalue

theorem ReadsBack.listed {xs : List α} (h : ∀ x ∈ xs, ReadsBack read write x)
    (hfield : Option.Rel Rearranged (some (.array (xs.map write))) field) :
    listed? read field = some xs := by
  cases hfield with
  | some hvalue => exact readsBack_items h _ hvalue

end ReadsBack

end Metrology.Json
