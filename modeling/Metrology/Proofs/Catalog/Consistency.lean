/-
  Metrology.Proofs.Catalog.Consistency

  Catalogs built by operations with exact magnitudes are consistent. Each accepted entry keeps
  the tables in agreement with each other, whichever operation brings it and whatever fails
  beside it, so checking a whole catalog never finds a problem.
-/
import Mathlib.Data.List.Pairwise
import Metrology.Proofs.Catalog.Keys
import Metrology.Proofs.Catalog.Persistence
import Metrology.Proofs.MeasureUnit.Made

namespace Metrology

/-! ## Exact declarations -/

/-- The magnitudes that the declaration gives to units are exact. -/
def Declaration.IsExact : Declaration → Prop
  | .scaled _ _ _ factor => factor.isExact = true
  | .unit _ u => u.IsMade
  | _ => True

namespace Catalog

/-- The magnitudes that the operation gives to units are exact. -/
def Operation.IsExact : Operation → Prop
  | .declare d => d.IsExact
  | .prefixes _ _ => True
  | .load d => ∀ e ∈ d.units, e.declaration.IsExact

theorem Operation.IsExact.declarations {op : Operation} (h : op.IsExact) :
    ∀ d ∈ op.declarations, d.IsExact := by
  cases op with
  | declare d =>
    rw [Operation.declarations, List.forall_mem_singleton]
    exact h
  | prefixes reference scales =>
    rw [Operation.declarations, List.forall_mem_map]
    exact fun _ _ => trivial
  | load doc =>
    simp only [Operation.declarations, Document.declarations, List.forall_mem_append,
      List.forall_mem_map, List.forall_mem_flatMap]
    refine ⟨⟨⟨fun e _ => ?_, fun e _ => trivial⟩, h⟩, fun e _ => trivial⟩
    -- A base dimension comes with its coherent unit.
    rw [BaseEntry.declarations, List.forall_mem_cons, List.forall_mem_singleton]
    exact ⟨trivial, .coherent _ _ _⟩

/-- The catalogs that exact operations lead to from the empty one, with serial numbers given to
units at any time. -/
inductive Reached : Catalog → Prop where
  | empty : Reached .empty
  | after {c : Catalog} {op : Operation} (h : Reached c) (hop : op.IsExact) :
      Reached (c.after op)
  | numbered {c : Catalog} (h : Reached c) (serial : Nat) : Reached (c.numbered serial)

theorem Reached.run {c : Catalog} (h : Reached c) {ops : List Operation}
    (hops : ∀ op ∈ ops, op.IsExact) : Reached (c.run ops) := by
  induction ops generalizing c with
  | nil => exact h
  | cons op ops ih =>
    obtain ⟨hop, hops⟩ := List.forall_mem_cons.1 hops
    exact ih (h.after hop) hops

/-! ## Consistent catalogs -/

/-- The tables of a catalog agree with each other. -/
structure IsConsistent (c : Catalog) : Prop where
  /-- Base dimensions are in their strict order. -/
  bases : c.bases.Pairwise fun x y => x.compare y = .lt
  unitKeys : (c.units.map Prod.fst).Nodup
  aliasKeys : (c.aliases.map Prod.fst).Nodup
  /-- An alias is not the key of a unit, but it leads to one. -/
  aliases : ∀ e ∈ c.aliases, hasEntry c.units e.1 = false ∧ hasEntry c.units e.2 = true
  units : ∀ e ∈ c.units, e.2.IsMade ∧ e.2.magnitude.isZero = false ∧ c.HasBases e.2.dimension
  /-- The two tables of names hold the same pairs. -/
  names : c.names = c.dimensions.map Prod.swap
  dimensionNames : (c.dimensions.map Prod.fst).Nodup
  /-- No dimension has two names. -/
  dimensions : c.dimensions.Pairwise fun x y => x.2.same y.2 = false
  namedBases : ∀ e ∈ c.dimensions, c.HasBases e.2

variable {c : Catalog} {e : Entry} {d : Dimension}

theorem isConsistent_empty : IsConsistent .empty where
  bases := .nil
  unitKeys := .nil
  aliasKeys := .nil
  aliases := List.forall_mem_nil _
  units := List.forall_mem_nil _
  names := rfl
  dimensionNames := .nil
  dimensions := .nil
  namedBases := List.forall_mem_nil _

theorem IsConsistent.isKeyed (h : c.IsConsistent) : c.IsKeyed :=
  ⟨h.unitKeys, h.aliasKeys, fun e he => (h.aliases e he).1⟩

/-! ## One more entry -/

/-- A new base dimension takes its place in the strict order. -/
theorem pairwise_bases_add {b : BaseDimension}
    (h : c.bases.Pairwise fun x y => x.compare y = .lt)
    (hnew : c.base? b.name b.referenceUnit = none) :
    (c.add (.base b)).bases.Pairwise fun x y => x.compare y = .lt := by
  have hdifferent : (b :: c.bases).Pairwise fun x y => x.same y = false := by
    refine List.pairwise_cons.2 ⟨fun x hx => ?_, h.imp BaseDimension.not_same_of_lt⟩
    rw [BaseDimension.same_comm]
    exact Bool.eq_false_iff.2 (List.find?_eq_none.1 hnew x hx)
  have hsorted := BaseDimension.pairwise_mergeSort id (c.bases ++ [b])
  have hperm := (bases_add_perm c b).symm
  have hne := hperm.pairwise hdifferent fun {x y} hxy => by rwa [BaseDimension.same_comm]
  exact hsorted.imp₂ (fun x y hle hxy => BaseDimension.lt_of_atMost hle hxy) hne

/-- Entries keep a catalog consistent if it accepts them and their units are made from exact
factors. -/
theorem IsConsistent.add (h : c.IsConsistent) (he : c.Accepts e)
    (hmade : ∀ key u, e = .unit key u → u.IsMade) : (c.add e).IsConsistent := by
  have hkeyed := h.isKeyed.add he
  have hextends := extends_add c e
  have hunits : ∀ x ∈ c.units, x.2.IsMade ∧ x.2.magnitude.isZero = false ∧
      (c.add e).HasBases x.2.dimension := fun x hx =>
    ⟨(h.units x hx).1, (h.units x hx).2.1, hextends.hasBases (h.units x hx).2.2⟩
  have hnamed : ∀ x ∈ c.dimensions, (c.add e).HasBases x.2 := fun x hx =>
    hextends.hasBases (h.namedBases x hx)
  cases e with
  | base b =>
    exact { h with
      bases := pairwise_bases_add h.bases he.2.2.2
      units := hunits
      namedBases := hnamed }
  | unit key u =>
    obtain ⟨-, -, hbases, hzero⟩ := he
    exact { h with
      unitKeys := hkeyed.unitKeys
      aliases := fun x hx => ⟨hkeyed.aliases x hx, hasEntry_append_of (h.aliases x hx).2⟩
      units := List.forall_mem_append.2 ⟨hunits, List.forall_mem_singleton.2
        ⟨hmade key u rfl, hzero, hextends.hasBases hbases⟩⟩
      namedBases := hnamed }
  | name name d =>
    obtain ⟨-, hnew, hunnamed, hbases⟩ := he
    rw [dimensionName?_eq_none_iff, h.names, List.forall_mem_map] at hunnamed
    exact { h with
      units := hunits
      names := by simp [Catalog.add, h.names]
      dimensionNames := nodup_keys_append h.dimensionNames hnew
      dimensions := List.pairwise_append.2 ⟨h.dimensions, List.pairwise_singleton _ _,
        fun x hx y hy => by rw [List.mem_singleton.1 hy]; exact hunnamed x hx⟩
      namedBases := List.forall_mem_append.2 ⟨hnamed, List.forall_mem_singleton.2
        (hextends.hasBases hbases)⟩ }
  | «alias» other key =>
    obtain ⟨hnew, hkey⟩ := he
    exact { h with
      aliasKeys := hkeyed.aliasKeys
      aliases := List.forall_mem_append.2 ⟨h.aliases, List.forall_mem_singleton.2
        ⟨(isTaken_eq_false_iff.1 hnew).1, hkey⟩⟩
      units := hunits
      namedBases := hnamed }

/-! ## Declarations -/

theorem IsConsistent.isMade_of_unit? (h : c.IsConsistent) {key : String} {u : MeasureUnit}
    (hu : c.unit? key = some u) : u.IsMade := by
  rcases unit?_eq_some_iff.1 hu with hu | ⟨-, k, -, hu⟩
  · exact (h.units _ (mem_of_lookup? hu)).1
  · exact (h.units _ (mem_of_lookup? hu)).1

/-- The unit that an exact declaration asks for is made from exact factors, given that the
units that it looks up are. -/
theorem IsConsistent.isMade_of_asks (h : c.IsConsistent) {d : Declaration} (hd : d.IsExact)
    {key : String} {u : MeasureUnit} (hasks : c.Asks d (.unit key u)) : u.IsMade := by
  cases hasks with
  | unit => exact hd
  | scaled _ hr hu => exact .scaled (h.isMade_of_unit? hr) hd hu
  | prefixed hr hu => exact .prefixed (h.isMade_of_unit? hr) hu
  | prefixedBy _ hr hu => exact .prefixed (h.isMade_of_unit? hr) hu
  | deduced _ hus hu =>
    refine .deduced (fun v hv => ?_) hu
    obtain ⟨key, -, hkey⟩ := exists_mem_of_forall₂ hus hv
    exact h.isMade_of_unit? hkey

theorem IsConsistent.apply (h : c.IsConsistent) {c' : Catalog} {d : Declaration}
    (hd : d.IsExact) (happly : c.apply d = .ok () c') : c'.IsConsistent := by
  obtain ⟨-, rfl⟩ | ⟨e, hasks, haccepts, rfl⟩ := added_of_apply happly
  · exact h
  · refine h.add haccepts fun key u he => ?_
    subst he
    exact h.isMade_of_asks hd hasks

theorem IsConsistent.after (h : c.IsConsistent) {op : Operation} (hop : op.IsExact) :
    (c.after op).IsConsistent :=
  after_induction (fun d hd _ _ hc happly => hc.apply (hop.declarations d hd) happly) h

theorem IsConsistent.numbered (h : c.IsConsistent) (serial : Nat) :
    (c.numbered serial).IsConsistent := by
  have hkeyed := h.isKeyed.numbered serial
  exact { h with
    unitKeys := hkeyed.unitKeys
    aliases := fun e he => by rw [hasEntry_numbered, hasEntry_numbered]; exact h.aliases e he
    units := by
      rw [Catalog.numbered, List.forall_mem_map]
      intro e he
      obtain ⟨hmade, hzero, hbases⟩ := h.units e he
      rw [MeasureUnit.magnitude_numbered, MeasureUnit.dimension_numbered]
      exact ⟨hmade.numbered serial, hzero, hbases⟩ }

theorem Reached.isConsistent (h : Reached c) : c.IsConsistent := by
  induction h with
  | empty => exact isConsistent_empty
  | after _ hop ih => exact ih.after hop
  | numbered _ serial ih => exact ih.numbered serial

/-! ## Checking a catalog -/

theorem hasRepeatedBase_eq_false {bs : List BaseDimension}
    (h : bs.Pairwise fun x y => x.compare y = .lt) : hasRepeatedBase bs = false := by
  induction bs with
  | nil => rfl
  | cons b bs ih =>
    obtain ⟨hb, hbs⟩ := List.pairwise_cons.1 h
    rw [hasRepeatedBase, ih hbs, Bool.or_false, List.any_eq_false]
    intro x hx
    rw [Bool.not_eq_true]
    exact BaseDimension.not_same_of_gt (hb x hx)

theorem IsConsistent.unitProblems (h : c.IsConsistent) {key : String} {u : MeasureUnit}
    (hu : (key, u) ∈ c.units) : c.unitProblems key u = [] := by
  obtain ⟨hmade, hzero, hbases⟩ := h.units _ hu
  have hdeclared : ((u.dimension.exponents.map Exponent.base).filter fun b => !c.hasBase b) =
      [] := by
    rw [List.filter_eq_nil_iff, List.forall_mem_map]
    intro x hx
    rw [hbases x hx]
    decide
  rw [Catalog.unitProblems, hmade.checkMagnitude hzero, hdeclared]
  rfl

/-- A dimension has at most one name. -/
theorem IsConsistent.eq_of_same (h : c.IsConsistent) {x y : String × Dimension}
    (hx : x ∈ c.dimensions) (hy : y ∈ c.dimensions) (hsame : x.2.same y.2 = true) : x = y := by
  have : Std.Symm fun p q : String × Dimension => p.2.same q.2 = false :=
    ⟨fun p q hpq => Bool.eq_false_iff.2 fun hqp =>
      Bool.eq_false_iff.1 hpq (Dimension.same_symm hqp)⟩
  by_contra hne
  have hdifferent := h.dimensions.forall hx hy hne
  rw [hsame] at hdifferent
  cases hdifferent

/-- In a consistent catalog a name stands for a dimension exactly if it is the name of that
dimension. -/
theorem IsConsistent.dimension?_iff (h : c.IsConsistent) {name : String} :
    (∃ x, c.dimension? name = some x ∧ x.same d = true) ↔ c.dimensionName? d = some name := by
  constructor
  · rintro ⟨x, hx, hsame⟩
    have hmem := mem_of_lookup? hx
    cases hname : c.dimensionName? d with
    | none =>
      rw [dimensionName?_eq_none_iff, h.names, List.forall_mem_map] at hname
      have hdifferent : x.same d = false := hname _ hmem
      rw [hdifferent] at hsame
      cases hsame
    | some other =>
      obtain ⟨y, hy, hother⟩ := dimensionName?_eq_some hname
      rw [h.names, List.mem_map] at hy
      obtain ⟨⟨n, z⟩, hz, heq⟩ := hy
      cases heq
      -- Both names stand for the same dimension, so they are one name.
      cases h.eq_of_same hmem hz (Dimension.same_trans hsame (Dimension.same_symm hother))
      rfl
  · intro hname
    obtain ⟨x, hx, hsame⟩ := dimensionName?_eq_some hname
    rw [h.names, List.mem_map] at hx
    obtain ⟨⟨n, y⟩, hy, heq⟩ := hx
    cases heq
    exact ⟨y, (lookup?_eq_some_iff h.dimensionNames).2 hy, hsame⟩

theorem IsConsistent.problems (h : c.IsConsistent) : c.problems = [] := by
  have halias (e : String × String) (he : e ∈ c.aliases) : c.aliasProblems e.1 e.2 = [] :=
    if_pos (h.aliases e he).2
  have hname (e : String × Dimension) (he : e ∈ c.dimensions) : c.nameProblems e.1 e.2 = [] := by
    refine if_pos (h.dimension?_iff.1 ⟨e.2, ?_, Dimension.same_refl e.2⟩)
    exact (lookup?_eq_some_iff h.dimensionNames).2 he
  rw [Catalog.problems, hasRepeatedBase_eq_false h.bases]
  simp only [List.append_eq_nil_iff, List.flatMap_eq_nil_iff]
  exact ⟨⟨⟨fun _ hu => h.unitProblems hu, halias⟩, hname⟩, rfl⟩

/-! ## Runs -/

/-- After any run of exact operations, with operations in it that are refused or stop half way,
a check of the catalog finds nothing wrong: base dimensions are in their strict order, aliases
are apart from the keys that they lead to, units and names have declared base dimensions, no
unit has magnitude zero, and the two tables of names are inverse to each other. -/
theorem consistent_of_reached (h : Reached c) :
    c.verify = [] ∧
    (c.bases.Pairwise fun x y => x.compare y = .lt) ∧
    (∀ key, ¬(hasEntry c.units key = true ∧ hasEntry c.aliases key = true)) ∧
    (∀ e ∈ c.aliases, hasEntry c.units e.2 = true) ∧
    (∀ e ∈ c.units, c.HasBases e.2.dimension ∧ e.2.magnitude.isZero = false) ∧
    (∀ e ∈ c.dimensions, c.HasBases e.2) ∧
    ∀ name d, (∃ x, c.dimension? name = some x ∧ x.same d = true) ↔
      c.dimensionName? d = some name := by
  have hc := h.isConsistent
  refine ⟨?_, hc.bases, ?_, fun e he => (hc.aliases e he).2, fun e he =>
    ⟨(hc.units e he).2.2, (hc.units e he).2.1⟩, hc.namedBases, fun name d => hc.dimension?_iff⟩
  · rw [verify, hc.problems, List.map_nil, ErrorReport.sort, List.mergeSort_nil]
  · rintro key ⟨hkey, halias⟩
    obtain ⟨other, hother⟩ := hasEntry_iff.1 halias
    rw [(hc.aliases _ (mem_of_lookup? hother)).1] at hkey
    cases hkey

/-- Lengths, with a prefix that is repeated, an alias that is taken and a factor of zero. -/
def lengths : List Operation :=
  [.declare (Systems.declareBase Systems.length),
    .declare (Systems.declareCoherent Systems.length "metre"),
    .declare (.alias "metre" "m"), .prefixes "metre" [.kilo, .kilo, .milli],
    .declare (.named "L" (.ofBase Systems.length)), .declare (.alias "km" "m"),
    .declare (.scaled "nil" "nothing" "km" (.integer 0))]

theorem consistent_of_reached_lengths :
    (Catalog.empty.run lengths).symbols = ["km", "m"] ∧
      (Catalog.empty.run lengths).verify = [] := by
  have hexact : ∀ op ∈ lengths, op.IsExact := by
    simp only [lengths, List.forall_mem_cons, Operation.IsExact, Declaration.IsExact,
      Systems.declareBase, Systems.declareCoherent, true_and]
    exact ⟨.coherent _ _ _, rfl, List.forall_mem_nil _⟩
  have hreached : Reached (Catalog.empty.run lengths) := Reached.empty.run hexact
  refine ⟨?_, (consistent_of_reached hreached).1⟩
  have hunits : (Catalog.empty.run lengths).units.map Prod.fst = ["m", "km"] := by
    rw [lengths, run_cons, after_declare_length]
    with_unfolding_all rfl
  exact symbols_of_not_le hunits (by with_unfolding_all rfl)

end Catalog

end Metrology
