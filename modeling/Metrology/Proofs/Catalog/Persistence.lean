/-
  Metrology.Proofs.Catalog.Persistence

  Declarations change nothing or add one entry, and what a catalog has once answered it answers
  ever after. A key may lead to a unit directly or through an alias; neither way is ever cut off
  or redirected, because a new key must be free in both tables.
-/
import Metrology.Proofs.Catalog.Run
import Metrology.Systems.Mechanics

namespace Metrology

namespace Catalog

variable {c c' : Catalog} {e e' : Entry}

/-! ## The entry of a declaration -/

/-- Each key leads to one unit. -/
theorem units_unique {keys : List String} {us vs : List MeasureUnit}
    (hus : List.Forall₂ (fun key v => c.unit? key = some v) keys us)
    (hvs : List.Forall₂ (fun key v => c.unit? key = some v) keys vs) : us = vs := by
  have hunique : Relator.RightUnique fun key v => c.unit? key = some v :=
    fun key v w hv hw => Option.some.inj (hv.symm.trans hw)
  exact hunique.forall₂ hus hvs

/-- A declaration asks for one entry only. -/
theorem asks_unique {d : Declaration} (h : c.Asks d e) (h' : c.Asks d e') : e = e' := by
  cases h with
  | base => cases h'; rfl
  | unit => cases h'; rfl
  | scaled _ hr hu =>
    cases h' with
    | scaled _ hr' hu' =>
      cases hr.symm.trans hr'
      cases hu.symm.trans hu'
      rfl
  | prefixed hr hu =>
    cases h' with
    | prefixed hr' hu' =>
      cases hr.symm.trans hr'
      cases hu.symm.trans hu'
      rfl
  | prefixedBy hscale hr hu =>
    cases h' with
    | prefixedBy hscale' hr' hu' =>
      cases hscale.symm.trans hscale'
      cases hr.symm.trans hr'
      cases hu.symm.trans hu'
      rfl
  | deduced hd hus hu =>
    cases h' with
    | deduced hd' hus' hu' =>
      cases hd.symm.trans hd'
      cases units_unique hus hus'
      cases hu.symm.trans hu'
      rfl
  | composed hes hd =>
    cases h' with
    | composed hes' hd' =>
      cases hes.symm.trans hes'
      cases hd.symm.trans hd'
      rfl
  | derived hd =>
    cases h' with
    | derived hd' =>
      cases hd.symm.trans hd'
      rfl
  | named => cases h'; rfl
  | «alias» => cases h'; rfl

/-- The base dimensions with one more are the same ones and that one, in their order. -/
theorem bases_add_perm (c : Catalog) (b : BaseDimension) :
    (c.add (.base b)).bases.Perm (b :: c.bases) :=
  (List.mergeSort_perm _ _).trans (List.perm_append_singleton b c.bases)

/-! ## Answers after one more entry -/

/-- The first base dimension with a name and unit stays the first one, for sorting keeps the
order of equal ones. -/
theorem base?_add {name referenceUnit : String} {b : BaseDimension}
    (h : c.base? name referenceUnit = some b) (e : Entry) :
    (c.add e).base? name referenceUnit = some b := by
  cases e with
  | base x =>
    have hfind (bs : List BaseDimension) :
        (bs.find? fun x => x.name == name && x.referenceUnit == referenceUnit) =
          (bs.filter fun x => x.same ⟨name, referenceUnit, .one⟩).head? := List.head?_filter.symm
    rw [base?, hfind] at h
    have hsorted := BaseDimension.filter_mergeSort id (c.bases ++ [x])
      ⟨name, referenceUnit, .one⟩
    simp only [id_eq] at hsorted
    rw [base?, hfind, add, BaseDimension.sort, hsorted, List.filter_append, List.head?_append, h,
      Option.some_or]
  | unit key u => exact h
  | name other d => exact h
  | «alias» other key => exact h

theorem unit?_eq_some_iff {key : String} {u : MeasureUnit} :
    c.unit? key = some u ↔ lookup? c.units key = some u ∨
      lookup? c.units key = none ∧
        ∃ k, lookup? c.aliases key = some k ∧ lookup? c.units k = some u := by
  rw [unit?]
  cases lookup? c.units key with
  | some v => simp
  | none => simp [Option.bind_eq_some_iff]

/-- A new key or alias is neither a key nor an alias yet, so no look-up that found a unit comes
upon it. -/
theorem unit?_add {key : String} {u : MeasureUnit} (h : c.unit? key = some u)
    (he : c.Accepts e) : (c.add e).unit? key = some u := by
  cases e with
  | base b => exact h
  | name name d => exact h
  | unit other v =>
    rw [unit?_eq_some_iff] at h ⊢
    obtain ⟨-, hnew, -, -⟩ := he
    rcases h with h | ⟨hnone, k, hk, h⟩
    · exact .inl (lookup?_append_of_some h)
    · -- The key is an alias, and an alias never becomes the key of a unit.
      have hne : other ≠ key := by
        rintro rfl
        rw [(hasEntry_eq_false_iff.1 (isTaken_eq_false_iff.1 hnew).2)] at hk
        cases hk
      exact .inr ⟨(lookup?_append_of_ne hne).trans hnone, k, hk, lookup?_append_of_some h⟩
  | «alias» other k =>
    rw [unit?_eq_some_iff] at h ⊢
    rcases h with h | ⟨hnone, k, hk, h⟩
    · exact .inl h
    · exact .inr ⟨hnone, k, lookup?_append_of_some hk, h⟩

theorem dimension?_add {name : String} {d : Dimension} (h : c.dimension? name = some d)
    (e : Entry) : (c.add e).dimension? name = some d := by
  cases e with
  | name other x => exact lookup?_append_of_some h
  | base b => exact h
  | unit key u => exact h
  | «alias» other key => exact h

theorem dimensionName?_add {name : String} {d : Dimension} (h : c.dimensionName? d = some name)
    (e : Entry) : (c.add e).dimensionName? d = some name := by
  cases e with
  | name other x =>
    rw [dimensionName?, Option.map_eq_some_iff] at h ⊢
    obtain ⟨found, hfind, hname⟩ := h
    refine ⟨found, ?_, hname⟩
    rw [add, List.find?_append, hfind, Option.some_or]
  | base b => exact h
  | unit key u => exact h
  | «alias» other key => exact h

/-! ## Answers after a run -/

theorem base?_run {name referenceUnit : String} {b : BaseDimension}
    (h : c.base? name referenceUnit = some b) (ops : List Operation) :
    (c.run ops).base? name referenceUnit = some b :=
  run_induction_of_add (P := fun c => c.base? name referenceUnit = some b)
    (fun _ e h _ => base?_add h e) h ops

theorem unit?_run {key : String} {u : MeasureUnit} (h : c.unit? key = some u)
    (ops : List Operation) : (c.run ops).unit? key = some u :=
  run_induction_of_add (P := fun c => c.unit? key = some u) (fun _ _ h he => unit?_add h he) h
    ops

theorem dimension?_run {name : String} {d : Dimension} (h : c.dimension? name = some d)
    (ops : List Operation) : (c.run ops).dimension? name = some d :=
  run_induction_of_add (P := fun c => c.dimension? name = some d)
    (fun _ e h _ => dimension?_add h e) h ops

theorem dimensionName?_run {name : String} {d : Dimension} (h : c.dimensionName? d = some name)
    (ops : List Operation) : (c.run ops).dimensionName? d = some name :=
  run_induction_of_add (P := fun c => c.dimensionName? d = some name)
    (fun _ e h _ => dimensionName?_add h e) h ops

/-! ## Longer catalogs -/

/-- The base dimensions of the first catalog are found in the second one, which has all of its
units and named dimensions. -/
structure Extends (c c' : Catalog) : Prop where
  bases : ∀ name unit b, c.base? name unit = some b → c'.base? name unit = some b
  units : ∀ e ∈ c.units, e ∈ c'.units
  dimensions : ∀ e ∈ c.dimensions, e ∈ c'.dimensions

theorem extends_add (c : Catalog) (e : Entry) : c.Extends (c.add e) where
  bases _ _ _ hb := base?_add hb e
  units x hx := by
    cases e with
    | unit key u => exact List.mem_append_left _ hx
    | base b => exact hx
    | name name d => exact hx
    | «alias» other key => exact hx
  dimensions x hx := by
    cases e with
    | name name d => exact List.mem_append_left _ hx
    | base b => exact hx
    | unit key u => exact hx
    | «alias» other key => exact hx

theorem Extends.refl (c : Catalog) : c.Extends c :=
  ⟨fun _ _ _ hb => hb, fun _ hx => hx, fun _ hx => hx⟩

theorem Extends.trans {c'' : Catalog} (h : c.Extends c') (h' : c'.Extends c'') : c.Extends c'' :=
  ⟨fun _ _ _ hb => h'.bases _ _ _ (h.bases _ _ _ hb), fun x hx => h'.units x (h.units x hx),
    fun x hx => h'.dimensions x (h.dimensions x hx)⟩

theorem extends_run (c : Catalog) (ops : List Operation) : c.Extends (c.run ops) :=
  run_induction_of_add (P := c.Extends) (fun c' e h _ => h.trans (extends_add c' e)) (.refl c) ops

theorem extends_applyAll (c : Catalog) (ds : List Declaration) :
    c.Extends (c.applyAll ds).catalog := by
  refine applyAll_induction (P := c.Extends) (fun d _ c' _ h happly => ?_) (.refl c)
  obtain ⟨-, rfl⟩ | ⟨e, -, -, rfl⟩ := added_of_apply happly
  · exact h
  · exact h.trans (extends_add c' e)

theorem Extends.hasBases {d : Dimension} (h : c.Extends c') (hd : c.HasBases d) :
    c'.HasBases d := by
  intro x hx
  obtain ⟨b, hb⟩ := hasBase_iff.1 (hd x hx)
  exact hasBase_iff.2 ⟨b, h.bases _ _ _ hb⟩

/-! ## The list of keys -/

/-- Two units whose keys are not in order change places in the list of keys. -/
theorem symbols_of_not_le {x y : String} (hunits : c.units.map Prod.fst = [x, y])
    (h : (compare x y).isLE = false) : c.symbols = [y, x] := by
  rw [symbols, hunits, sortStrings]
  simp [List.mergeSort, h]

/-! ## Atomic declarations, lasting answers -/

/-- A declaration that is refused leaves the catalog as it was, and one that succeeds adds
exactly the one entry that it asks for (a question asks for none). Whatever the catalog answers,
it answers the same after every run, with operations in it that are refused or stop half way. -/
theorem declare_atomic_run_persistent (c : Catalog) :
    (∀ d : Declaration,
      (∀ error c', c.apply d = .error error c' → c.after (.declare d) = c' ∧ c' = c) ∧
      ∀ c', c.apply d = .ok () c' → c.after (.declare d) = c' ∧
        (IsQuestion d ∧ c' = c ∨ ∃! e, c.Asks d e ∧ c' = c.add e)) ∧
    (∀ b, (c.add (.base b)).bases.Perm (b :: c.bases)) ∧
    ∀ ops : List Operation,
      (∀ name referenceUnit b, c.base? name referenceUnit = some b →
        (c.run ops).base? name referenceUnit = some b) ∧
      (∀ key u, c.unit? key = some u → (c.run ops).unit? key = some u) ∧
      (∀ name d, c.dimension? name = some d → (c.run ops).dimension? name = some d) ∧
      ∀ d name, c.dimensionName? d = some name → (c.run ops).dimensionName? d = some name := by
  refine ⟨fun d => ⟨fun error c' h => ⟨?_, eq_of_apply_eq_error h⟩, fun c' h => ⟨?_, ?_⟩⟩,
    bases_add_perm c, fun ops =>
    ⟨fun name referenceUnit b h => base?_run h ops, fun key u h => unit?_run h ops,
      fun name d h => dimension?_run h ops, fun d name h => dimensionName?_run h ops⟩⟩
  · rw [after, h, Outcome.catalog]
  · rw [after, h, Outcome.catalog]
  · obtain ⟨hquestion, hc⟩ | ⟨e, hasks, -, hc⟩ := added_of_apply h
    · exact .inl ⟨hquestion, hc⟩
    · exact .inr ⟨e, ⟨hasks, hc⟩, fun e' he' => asks_unique he'.1 hasks⟩

/-- The first base dimension is declared. -/
theorem after_declare_length :
    Catalog.empty.after (.declare (Systems.declareBase Systems.length)) =
      Catalog.empty.add (.base Systems.length) := by
  rw [after, Systems.declareBase, apply_of_asks .base ⟨by decide, rfl, rfl, rfl⟩,
    Outcome.catalog]

/-- The metre. -/
def metre : MeasureUnit := Systems.coherentUnit Systems.length "metre"

/-- Length with the metre, which has an alias. -/
def metres : Catalog where
  bases := [Systems.length]
  units := [("m", metre)]
  aliases := [("metre", "m")]

/-- Prefixes of which the second one repeats the first, and a unit under a key that is an alias
already. -/
def halfWay : List Operation :=
  [.prefixes "metre" [.kilo, .kilo, .milli], .declare (.unit "metre" .dimensionless)]

/-- The unit is refused and leaves the catalog as it was; in the run the kilometre stays, the
millimetre is not reached, and the alias leads to the metre. -/
theorem declare_atomic_run_persistent_metres :
    metres.after (.declare (.unit "metre" .dimensionless)) = metres ∧
      (metres.run halfWay).symbols = ["km", "m"] ∧
      (metres.run halfWay).unit? "metre" = some metre := by
  refine ⟨?_, ?_, ?_⟩
  · have hrefused : metres.apply (.unit "metre" .dimensionless) =
        .error ⟨.duplicate "unit" "metre", []⟩ metres := by with_unfolding_all rfl
    obtain ⟨hatomic, -, -⟩ := declare_atomic_run_persistent metres
    exact ((hatomic (.unit "metre" .dimensionless)).1 _ _ hrefused).1
  · have hunits : (metres.run halfWay).units.map Prod.fst = ["m", "km"] := by
      with_unfolding_all rfl
    exact symbols_of_not_le hunits (by with_unfolding_all rfl)
  · obtain ⟨-, -, hrun⟩ := declare_atomic_run_persistent metres
    exact (hrun halfWay).2.1 "metre" metre rfl

end Catalog

end Metrology
