/-
  Metrology.Proofs.Catalog.Listing

  The listing of the units of a dimension. Where all of them have exact magnitudes with one power
  of pi, the order of units is that of pairs of a ratio and a symbol, which is linear. So the
  listing is sorted, it has every registered key once, and it does not depend on the order of the
  table: units that come in either order are the same unit.
-/
import Metrology.Proofs.Catalog.Keys
import Metrology.Proofs.Catalog.Persistence
import Metrology.Proofs.Magnitude.Exact
import Mathlib.Data.List.Sort
import Mathlib.Data.Prod.Lex
import Mathlib.Data.String.Basic

namespace Metrology.Catalog

variable {c : Catalog} {d : Dimension} {k : Power} {a b : MeasureUnit}

/-! ## The place of a unit -/

/-- What decides the place of a unit in a listing: its coefficient, as far as that is exact, and
then its symbol. -/
def place (u : MeasureUnit) : Ratio ×ₗ String :=
  match u.magnitude.coefficient with
  | .exact x => toLex (x, u.symbol)
  | .approx _ => toLex (0, u.symbol)

/-- The magnitude is exact with the given power of pi. -/
def IsExactWith (k : Power) (u : MeasureUnit) : Prop := ∃ x, u.magnitude = ⟨.exact x, k⟩

theorem place_of_magnitude {x : Ratio} (h : a.magnitude = ⟨.exact x, k⟩) :
    place a = toLex (x, a.symbol) := by
  rw [place, h]

/-- Exact units with one power of pi are compared by their places. -/
theorem isLE_compareUnits (ha : IsExactWith k a) (hb : IsExactWith k b) :
    (compareUnits a b).isLE = decide (place a ≤ place b) := by
  obtain ⟨x, hx⟩ := ha
  obtain ⟨y, hy⟩ := hb
  have hvalue : a.magnitude.compareValue b.magnitude = cmp x y := by
    rw [hx, hy, Magnitude.compareValue_exact]
  rw [compareUnits, hvalue, place_of_magnitude hx, place_of_magnitude hy, Bool.eq_iff_iff,
    decide_eq_true_iff, Prod.Lex.toLex_le_toLex]
  rcases lt_trichotomy x y with h | rfl | h
  · rw [h.cmp_eq_lt]
    simp [h]
  · rw [cmp_self_eq_eq, Ordering.eq_then, ← cmp_eq_compare, isLE_cmp_iff]
    simp
  · rw [h.cmp_eq_gt]
    simp [h.not_gt, h.ne']

/-- Places are in the order of the ratios and then of the symbols. -/
theorem place_le_iff (ha : IsExactWith k a) (hb : IsExactWith k b) :
    place a ≤ place b ↔ ∃ x y, a.magnitude = ⟨.exact x, k⟩ ∧ b.magnitude = ⟨.exact y, k⟩ ∧
      (x < y ∨ x = y ∧ a.symbol ≤ b.symbol) := by
  obtain ⟨x, hx⟩ := ha
  obtain ⟨y, hy⟩ := hb
  rw [place_of_magnitude hx, place_of_magnitude hy, Prod.Lex.toLex_le_toLex]
  simp [hx, hy]

/-- Units of one dimension in one place are the same unit. -/
theorem same_of_place_eq (ha : IsExactWith k a) (hb : IsExactWith k b)
    (hda : a.measures d = true) (hdb : b.measures d = true) (h : place a = place b) :
    a.same b = true := by
  obtain ⟨x, hx⟩ := ha
  obtain ⟨y, hy⟩ := hb
  rw [place_of_magnitude hx, place_of_magnitude hy, toLex_inj, Prod.mk.injEq] at h
  obtain ⟨rfl, hsymbol⟩ := h
  have hdimension : a.dimension.same b.dimension = true :=
    Dimension.same_trans hda (Dimension.same_symm hdb)
  have hmagnitude : a.magnitude.sameValue b.magnitude = true := by
    rw [hx, hy]
    exact Magnitude.sameValue_self rfl
  simp [MeasureUnit.same, hsymbol, hdimension, hmagnitude]

/-! ## Sorted listings -/

/-- The units of a table that measure a dimension, under their keys. -/
def entriesOf (units : List (String × MeasureUnit)) (d : Dimension) :
    List (String × MeasureUnit) :=
  units.filter fun e => e.2.measures d

/-- The listing with the keys of the units. -/
def listing (c : Catalog) (d : Dimension) : List (String × MeasureUnit) :=
  (entriesOf c.units d).mergeSort fun x y => (compareUnits x.2 y.2).isLE

theorem unitsOf_eq (c : Catalog) (d : Dimension) : c.unitsOf d = (c.listing d).map Prod.snd := by
  rw [unitsOf, listing, entriesOf, List.filter_map]
  exact (List.map_mergeSort (f := Prod.snd) fun _ _ _ _ => rfl).symm

theorem listing_perm (c : Catalog) (d : Dimension) :
    (c.listing d).Perm (entriesOf c.units d) := List.mergeSort_perm _ _

theorem exists_mem_entriesOf {u : MeasureUnit} (hu : u ∈ c.unitsOf d) :
    ∃ e ∈ entriesOf c.units d, e.2 = u := by
  rw [unitsOf_eq, List.mem_map] at hu
  obtain ⟨e, he, rfl⟩ := hu
  exact ⟨e, (listing_perm c d).mem_iff.1 he, rfl⟩

/-- The places of a listing are the places of its units, in their order. -/
theorem map_place_unitsOf (hexact : ∀ e ∈ entriesOf c.units d, IsExactWith k e.2) :
    (c.unitsOf d).map place =
      ((entriesOf c.units d).map fun e => place e.2).mergeSort fun p q => decide (p ≤ q) := by
  rw [unitsOf_eq, List.map_map]
  exact List.map_mergeSort fun x hx y hy => isLE_compareUnits (hexact x hx) (hexact y hy)

theorem pairwise_unitsOf (hexact : ∀ e ∈ entriesOf c.units d, IsExactWith k e.2) :
    (c.unitsOf d).Pairwise fun a b => place a ≤ place b := by
  rw [← List.pairwise_map, map_place_unitsOf hexact]
  exact List.pairwise_mergeSort' (· ≤ ·) _

/-! ## Keys -/

theorem IsKeyed.mem_listing_iff (h : c.IsKeyed) {e : String × MeasureUnit} :
    e ∈ c.listing d ↔ lookup? c.units e.1 = some e.2 ∧ e.2.measures d = true := by
  rw [(listing_perm c d).mem_iff, entriesOf, List.mem_filter, lookup?_eq_some_iff h.unitKeys]

theorem IsKeyed.nodup_keys_listing (h : c.IsKeyed) (d : Dimension) :
    ((c.listing d).map Prod.fst).Nodup := by
  have hsublist : ((entriesOf c.units d).map Prod.fst).Sublist (c.units.map Prod.fst) :=
    List.filter_sublist.map Prod.fst
  exact ((listing_perm c d).map Prod.fst).nodup_iff.2 (h.unitKeys.sublist hsublist)

theorem IsKeyed.mem_keys_listing_iff (h : c.IsKeyed) {key : String} :
    key ∈ (c.listing d).map Prod.fst ↔
      ∃ u, lookup? c.units key = some u ∧ u.measures d = true := by
  rw [List.mem_map]
  constructor
  · rintro ⟨e, he, rfl⟩
    exact ⟨e.2, h.mem_listing_iff.1 he⟩
  · rintro ⟨u, hu⟩
    exact ⟨(key, u), h.mem_listing_iff.2 hu, rfl⟩

/-- Each unit of a listing is registered under the key in its place. -/
theorem IsKeyed.forall₂_lookup?_unitsOf (h : c.IsKeyed) (d : Dimension) :
    List.Forall₂ (fun key u => lookup? c.units key = some u) ((c.listing d).map Prod.fst)
      (c.unitsOf d) := by
  rw [unitsOf_eq, List.forall₂_map_left_iff, List.forall₂_map_right_iff, List.forall₂_same]
  exact fun e he => (h.mem_listing_iff.1 he).1

/-! ## Other orders of the table -/

/-- The catalog with its units in another table. -/
def withUnits (c : Catalog) (units : List (String × MeasureUnit)) : Catalog :=
  { c with units := units }

theorem forall_entriesOf_of_perm {P : String × MeasureUnit → Prop}
    {table : List (String × MeasureUnit)} (h : table.Perm c.units)
    (hP : ∀ e ∈ entriesOf c.units d, P e) : ∀ e ∈ entriesOf table d, P e :=
  fun e he => hP e ((h.filter _).mem_iff.1 he)

/-- In every order of the table the places of the listing are the same. -/
theorem map_place_of_perm (hexact : ∀ e ∈ entriesOf c.units d, IsExactWith k e.2)
    {table : List (String × MeasureUnit)} (h : table.Perm c.units) :
    ((c.withUnits table).unitsOf d).map place = (c.unitsOf d).map place := by
  have hexact' : ∀ e ∈ entriesOf (c.withUnits table).units d, IsExactWith k e.2 :=
    forall_entriesOf_of_perm h hexact
  refine List.Perm.eq_of_pairwise' (r := (· ≤ ·)) ?_ ?_ ?_
  · exact List.pairwise_map.2 (pairwise_unitsOf hexact')
  · exact List.pairwise_map.2 (pairwise_unitsOf hexact)
  · rw [unitsOf_eq, unitsOf_eq]
    refine List.Perm.map _ (List.Perm.map _ ?_)
    exact (listing_perm _ d).trans ((h.filter _).trans (listing_perm c d).symm)

/-- Lists of units in the same places have the same units. -/
theorem forall₂_same_of_places {us vs : List MeasureUnit}
    (hus : ∀ u ∈ us, IsExactWith k u ∧ u.measures d = true)
    (hvs : ∀ v ∈ vs, IsExactWith k v ∧ v.measures d = true) (h : us.map place = vs.map place) :
    List.Forall₂ (fun u v => u.same v = true) us vs := by
  induction us generalizing vs with
  | nil =>
    rw [List.map_nil, eq_comm, List.map_eq_nil_iff] at h
    rw [h]
    exact .nil
  | cons u us ih =>
    cases vs with
    | nil => cases h
    | cons v vs =>
      obtain ⟨hu, hus⟩ := List.forall_mem_cons.1 hus
      obtain ⟨hv, hvs⟩ := List.forall_mem_cons.1 hvs
      obtain ⟨hplace, hplaces⟩ := List.cons.inj h
      exact .cons (same_of_place_eq hu.1 hv.1 hu.2 hv.2 hplace) (ih hus hvs hplaces)

/-- In any two orders of the table the listings have the same units in the same places. -/
theorem forall₂_same_of_perm (hexact : ∀ e ∈ entriesOf c.units d, IsExactWith k e.2)
    {table table' : List (String × MeasureUnit)} (h : table.Perm c.units)
    (h' : table'.Perm c.units) :
    List.Forall₂ (fun a b => a.same b = true) ((c.withUnits table).unitsOf d)
      ((c.withUnits table').unitsOf d) := by
  have hunits {t : List (String × MeasureUnit)} (ht : t.Perm c.units) :
      ∀ u ∈ (c.withUnits t).unitsOf d, IsExactWith k u ∧ u.measures d = true := by
    intro u hu
    obtain ⟨e, he, rfl⟩ := exists_mem_entriesOf hu
    exact ⟨forall_entriesOf_of_perm ht hexact e he, (List.mem_filter.1 he).2⟩
  refine forall₂_same_of_places (hunits h) (hunits h') ?_
  rw [map_place_of_perm hexact h, map_place_of_perm hexact h']

/-! ## The listing of a dimension -/

/-- Whatever has been done to a catalog, the listing of a dimension whose registered units have
exact magnitudes with one power of pi has the unit of every registered key once, and no other;
aliases are not among these keys. Magnitudes do not decrease, and equal ones come in the order of
the symbols. Whichever two orders the table of units has, the listings have the same units in the
same places. -/
theorem unitsOf_sorted_once (h : Reachable c)
    (hexact : ∀ key u, lookup? c.units key = some u → u.measures d = true → IsExactWith k u) :
    (∃ keys : List String, keys.Nodup ∧
      (∀ key, key ∈ keys ↔ ∃ u, lookup? c.units key = some u ∧ u.measures d = true) ∧
      (∀ key ∈ keys, hasEntry c.aliases key = false) ∧
      List.Forall₂ (fun key u => lookup? c.units key = some u) keys (c.unitsOf d)) ∧
    ((c.unitsOf d).Pairwise fun a b => ∃ x y, a.magnitude = ⟨.exact x, k⟩ ∧
      b.magnitude = ⟨.exact y, k⟩ ∧ (x < y ∨ x = y ∧ a.symbol ≤ b.symbol)) ∧
    ∀ table table' : List (String × MeasureUnit), table.Perm c.units → table'.Perm c.units →
      List.Forall₂ (fun a b => a.same b = true) ((c.withUnits table).unitsOf d)
        ((c.withUnits table').unitsOf d) := by
  have hkeyed := h.isKeyed
  have hentries : ∀ e ∈ entriesOf c.units d, IsExactWith k e.2 := by
    intro e he
    obtain ⟨hregistered, hmeasures⟩ :=
      hkeyed.mem_listing_iff.1 ((listing_perm c d).mem_iff.2 he)
    exact hexact e.1 e.2 hregistered hmeasures
  refine ⟨⟨(c.listing d).map Prod.fst, hkeyed.nodup_keys_listing d,
    fun key => hkeyed.mem_keys_listing_iff, ?_, hkeyed.forall₂_lookup?_unitsOf d⟩, ?_,
    fun table table' htable htable' => forall₂_same_of_perm hentries htable htable'⟩
  · intro key hkey
    obtain ⟨u, hu, -⟩ := hkeyed.mem_keys_listing_iff.1 hkey
    exact hkeyed.hasEntry_aliases hu
  · refine (pairwise_unitsOf hentries).imp_of_mem fun {a b} ha hb hle => ?_
    obtain ⟨e, he, rfl⟩ := exists_mem_entriesOf ha
    obtain ⟨e', he', rfl⟩ := exists_mem_entriesOf hb
    exact (place_le_iff (hentries e he) (hentries e' he')).1 hle

/-- The metre with an alias, the kilometre and the millimetre. -/
def threeLengths : List Operation :=
  [.declare (Systems.declareBase Systems.length),
    .declare (Systems.declareCoherent Systems.length "metre"),
    .declare (.alias "metre" "m"), .prefixes "metre" [.kilo, .milli]]

/-- Each of the three units is listed once, and the alias adds nothing. -/
theorem unitsOf_sorted_once_lengths :
    ∃ keys : List String, keys.Nodup ∧ (∀ key, key ∈ keys ↔ key ∈ ["m", "km", "mm"]) ∧
      List.Forall₂ (fun key u => lookup? (Catalog.empty.run threeLengths).units key = some u) keys
        ((Catalog.empty.run threeLengths).unitsOf (.ofBase Systems.length)) := by
  obtain ⟨m, km, mm, hunits, hm, hkm, hmm⟩ : ∃ m km mm : MeasureUnit,
      (Catalog.empty.run threeLengths).units = [("m", m), ("km", km), ("mm", mm)] ∧
      (IsExactWith 0 m ∧ m.measures (.ofBase Systems.length) = true) ∧
      (IsExactWith 0 km ∧ km.measures (.ofBase Systems.length) = true) ∧
      (IsExactWith 0 mm ∧ mm.measures (.ofBase Systems.length) = true) := by
    rw [threeLengths, run_cons, after_declare_length]
    exact ⟨_, _, _, by with_unfolding_all rfl, ⟨⟨_, by with_unfolding_all rfl⟩, by decide⟩,
      ⟨⟨_, by with_unfolding_all rfl⟩, by decide⟩, ⟨⟨_, by with_unfolding_all rfl⟩, by decide⟩⟩
  have hentries : ∀ e ∈ (Catalog.empty.run threeLengths).units,
      IsExactWith 0 e.2 ∧ e.2.measures (.ofBase Systems.length) = true := by
    rw [hunits]
    simp [hm, hkm, hmm]
  obtain ⟨⟨keys, hnodup, hkeys, -, hfound⟩, -⟩ :=
    unitsOf_sorted_once (Reachable.empty.run threeLengths)
      fun key u hu _ => (hentries _ (mem_of_lookup? hu)).1
  refine ⟨keys, hnodup, fun key => ?_, hfound⟩
  have hregistered : key ∈ ["m", "km", "mm"] ↔
      ∃ u, lookup? (Catalog.empty.run threeLengths).units key = some u := by
    rw [← hasEntry_iff, hasEntry_iff_mem, hunits]
    rfl
  rw [hkeys, hregistered]
  exact exists_congr fun u => and_iff_left_of_imp fun hu => (hentries _ (mem_of_lookup? hu)).2

end Metrology.Catalog
