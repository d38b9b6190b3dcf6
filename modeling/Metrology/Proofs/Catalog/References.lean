/-
  Metrology.Proofs.Catalog.References

  Reference magnitudes in a catalog. A base dimension is known by its name and reference unit,
  and no declaration compares reference magnitudes, so a catalog agrees with itself exactly as
  long as the dimensions that callers hand to it do. Where it agrees, a way over a unit of the
  same dimension changes no factor.
-/
import Metrology.Proofs.Catalog.Persistence
import Metrology.Proofs.MeasureUnit.Bridge
import Metrology.Proofs.MeasureUnit.Made

namespace Metrology

/-- The dimension that the caller of a declaration hands to the catalog. The other declarations
take their dimensions from the catalog itself. -/
def Declaration.handed : Declaration → Option Dimension
  | .unit _ u => some u.dimension
  | .derived _ es => (Dimension.ofExponents es).toOption
  | .named _ d => some d
  | _ => none

open MeasureUnit (siMetre siKilometre cgsCentimetre)

namespace Catalog

/-! ## Agreement -/

/-- Every base dimension in the dimension has the reference magnitude with which it has been
declared. -/
def Knows (c : Catalog) (d : Dimension) : Prop :=
  ∀ x ∈ d.exponents, ∃ b, c.base? x.base.name x.base.referenceUnit = some b ∧
    x.base.referenceMagnitude = b.referenceMagnitude

/-- Every base dimension in a registered unit or in a named dimension has the reference
magnitude with which it has been declared. -/
structure Agrees (c : Catalog) : Prop where
  units : ∀ e ∈ c.units, c.Knows e.2.dimension
  dimensions : ∀ e ∈ c.dimensions, c.Knows e.2

/-- A dimension handed over by a declaration that succeeds has the reference magnitudes with
which its base dimensions have been declared. -/
def Operation.IsFaithful (c : Catalog) : Operation → Prop
  | .declare d => ∀ c', c.apply d = .ok () c' → ∀ x ∈ d.handed, c.Knows x
  | _ => True

/-- Every operation of a run is faithful to the catalog that it meets. -/
def IsFaithfulRun : Catalog → List Operation → Prop
  | _, [] => True
  | c, op :: ops => op.IsFaithful c ∧ IsFaithfulRun (c.after op) ops

variable {c c' : Catalog} {d : Dimension} {e : Entry}

/-- In other words, the declared base dimensions are those of the dimension, whole. -/
theorem knows_iff :
    c.Knows d ↔ ∀ x ∈ d.exponents, c.base? x.base.name x.base.referenceUnit = some x.base := by
  refine forall₂_congr fun x _ => ?_
  constructor
  · rintro ⟨b, hb, hmagnitude⟩
    obtain ⟨-, hname, hunit⟩ := base?_eq_some hb
    obtain ⟨⟨name, unit, m⟩, power⟩ := x
    obtain ⟨bname, bunit, bm⟩ := b
    cases hname
    cases hunit
    cases hmagnitude
    exact hb
  · exact fun hb => ⟨x.base, hb, rfl⟩

/-- Dimensions that a catalog knows are equal if they are the same. -/
theorem Knows.eq_of_same {a b : Dimension} (ha : c.Knows a) (hb : c.Knows b)
    (h : a.same b = true) : a = b := by
  rw [knows_iff] at ha hb
  refine congrArg Dimension.mk (Exponents.eq_of_same h fun x hx y hy hxy => ?_)
  obtain ⟨hname, hunit⟩ := BaseDimension.same_iff.1 hxy
  have hfound := ha x hx
  rw [hname, hunit, hb y hy] at hfound
  exact (Option.some.inj hfound).symm

/-! ## Longer catalogs -/

theorem Extends.knows (h : c.Extends c') (hd : c.Knows d) : c'.Knows d := by
  intro x hx
  obtain ⟨b, hb, hmagnitude⟩ := hd x hx
  exact ⟨b, h.bases _ _ _ hb, hmagnitude⟩

/-- What the longer catalog knows the shorter one knows as well, as far as it has the base
dimensions. -/
theorem Extends.knows_of (h : c.Extends c') (hbases : c.HasBases d) (hd : c'.Knows d) :
    c.Knows d := by
  intro x hx
  obtain ⟨b, hb⟩ := hasBase_iff.1 (hbases x hx)
  obtain ⟨b', hb', hmagnitude⟩ := hd x hx
  cases hb'.symm.trans (h.bases _ _ _ hb)
  exact ⟨b, hb, hmagnitude⟩

/-- Registered units and named dimensions have declared base dimensions. -/
structure IsGrounded (c : Catalog) : Prop where
  units : ∀ e ∈ c.units, c.HasBases e.2.dimension
  dimensions : ∀ e ∈ c.dimensions, c.HasBases e.2

theorem IsGrounded.add (h : c.IsGrounded) (he : c.Accepts e) : (c.add e).IsGrounded := by
  have hextends := extends_add c e
  have hunits : ∀ x ∈ c.units, (c.add e).HasBases x.2.dimension := fun x hx =>
    hextends.hasBases (h.units x hx)
  have hdimensions : ∀ x ∈ c.dimensions, (c.add e).HasBases x.2 := fun x hx =>
    hextends.hasBases (h.dimensions x hx)
  cases e with
  | base b => exact ⟨hunits, hdimensions⟩
  | «alias» other key => exact ⟨hunits, hdimensions⟩
  | unit key u =>
    obtain ⟨-, -, hbases, -⟩ := he
    exact ⟨List.forall_mem_append.2
      ⟨hunits, List.forall_mem_singleton.2 (hextends.hasBases hbases)⟩, hdimensions⟩
  | name name d =>
    obtain ⟨-, -, -, hbases⟩ := he
    exact ⟨hunits, List.forall_mem_append.2
      ⟨hdimensions, List.forall_mem_singleton.2 (hextends.hasBases hbases)⟩⟩

theorem IsGrounded.run (h : c.IsGrounded) (ops : List Operation) : (c.run ops).IsGrounded :=
  run_induction_of_add (fun _ _ h he => h.add he) h ops

/-- A disagreement stays for good. -/
theorem Extends.agrees_of (h : c.Extends c') (hc : c.IsGrounded) (h' : c'.Agrees) :
    c.Agrees where
  units x hx := h.knows_of (hc.units x hx) (h'.units x (h.units x hx))
  dimensions x hx := h.knows_of (hc.dimensions x hx) (h'.dimensions x (h.dimensions x hx))

/-! ## One more entry -/

/-- The dimension that an entry brings into the catalog. -/
def Entry.dimension? : Entry → Option Dimension
  | .unit _ u => some u.dimension
  | .name _ d => some d
  | _ => none

theorem Agrees.add (h : c.Agrees) (he : ∀ d ∈ e.dimension?, c.Knows d) : (c.add e).Agrees := by
  have hextends := extends_add c e
  have hunits : ∀ x ∈ c.units, (c.add e).Knows x.2.dimension := fun x hx =>
    hextends.knows (h.units x hx)
  have hdimensions : ∀ x ∈ c.dimensions, (c.add e).Knows x.2 := fun x hx =>
    hextends.knows (h.dimensions x hx)
  cases e with
  | base b => exact ⟨hunits, hdimensions⟩
  | «alias» other key => exact ⟨hunits, hdimensions⟩
  | unit key u =>
    exact ⟨List.forall_mem_append.2
      ⟨hunits, List.forall_mem_singleton.2 (hextends.knows (he _ rfl))⟩, hdimensions⟩
  | name name d =>
    exact ⟨hunits, List.forall_mem_append.2
      ⟨hdimensions, List.forall_mem_singleton.2 (hextends.knows (he _ rfl))⟩⟩

/-- The dimension of an accepted entry is known if the longer catalog agrees. -/
theorem knows_of_agrees_add (he : c.Accepts e) (h : (c.add e).Agrees) (hd : d ∈ e.dimension?) :
    c.Knows d := by
  cases e with
  | unit key u =>
    cases hd
    exact (extends_add c _).knows_of he.2.2.1 (h.units (key, u) List.mem_concat_self)
  | name name d =>
    cases hd
    exact (extends_add c _).knows_of he.2.2.2 (h.dimensions (name, d) List.mem_concat_self)
  | base b => cases hd
  | «alias» other key => cases hd

/-! ## Declarations -/

theorem Agrees.knows_of_unit? (h : c.Agrees) {key : String} {u : MeasureUnit}
    (hu : c.unit? key = some u) : c.Knows u.dimension := by
  rcases unit?_eq_some_iff.1 hu with hu | ⟨-, k, -, hu⟩
  · exact h.units _ (mem_of_lookup? hu)
  · exact h.units _ (mem_of_lookup? hu)

/-- The only base dimension with a name is found under the name and its reference unit. -/
theorem base?_of_basesNamed {name : String} {b : BaseDimension} (h : c.basesNamed name = [b]) :
    c.base? b.name b.referenceUnit = some b := by
  have hb : b ∈ c.basesNamed name := by rw [h]; exact List.mem_singleton_self b
  obtain ⟨hmem, hname⟩ := List.mem_filter.1 hb
  cases hfound : c.base? b.name b.referenceUnit with
  | none =>
    have hnone := List.find?_eq_none.1 hfound b hmem
    simp at hnone
  | some x =>
    obtain ⟨hx, hxname, -⟩ := base?_eq_some hfound
    have hxmem : x ∈ c.basesNamed name := List.mem_filter.2 ⟨hx, by rw [hxname, hname]⟩
    rw [h, List.mem_singleton] at hxmem
    rw [hxmem]

/-- The base dimension that a name stands for is a declared one. -/
theorem base?_of_resolveBase {name : BaseName} {b : BaseDimension}
    (h : c.resolveBase name = .ok b) : c.base? b.name b.referenceUnit = some b := by
  simp only [resolveBase] at h
  split at h
  · split at h
    · rename_i x hx
      cases h
      obtain ⟨-, hname, hunit⟩ := base?_eq_some hx
      rw [hname, hunit, hx]
    · cases h
  · split at h
    · rename_i x hx
      cases h
      exact base?_of_basesNamed hx
    · cases h
    · cases h

theorem base?_of_resolveParts {parts : List (BaseName × Power)} {es : List Exponent}
    (h : c.resolveParts parts = .ok es) :
    ∀ x ∈ es, c.base? x.base.name x.base.referenceUnit = some x.base := by
  rw [resolveParts, mapM_eq_ok] at h
  induction h with
  | nil => exact List.forall_mem_nil _
  | cons hx _ ih =>
    obtain ⟨b, hb, rfl⟩ := map_eq_ok.1 hx
    exact List.forall_mem_cons.2 ⟨base?_of_resolveBase hb, ih⟩

/-- In a catalog that agrees, a declaration asks for a dimension that the catalog knows, unless
the caller hands over another one. -/
theorem Agrees.knows_of_asks (h : c.Agrees) {declaration : Declaration}
    (hasks : c.Asks declaration e) (hhanded : ∀ d ∈ declaration.handed, c.Knows d) :
    ∀ d ∈ e.dimension?, c.Knows d := by
  intro d hd
  cases hasks with
  | base => cases hd
  | «alias» => cases hd
  | unit => exact hhanded d hd
  | named => exact hhanded d hd
  | derived hes =>
    rw [Declaration.handed, hes] at hhanded
    exact hhanded d hd
  | scaled _ hr hu =>
    obtain ⟨m, -, rfl⟩ := MeasureUnit.scaled_eq_ok.1 hu
    have hknows := h.knows_of_unit? hr
    cases hd
    exact hknows
  | prefixed hr hu =>
    obtain ⟨-, f, m, -, -, rfl⟩ := MeasureUnit.prefixed_eq_ok.1 hu
    have hknows := h.knows_of_unit? hr
    cases hd
    exact hknows
  | prefixedBy _ hr hu =>
    obtain ⟨-, f, m, -, -, rfl⟩ := MeasureUnit.prefixed_eq_ok.1 hu
    have hknows := h.knows_of_unit? hr
    cases hd
    exact hknows
  | deduced hnamed _ hu =>
    obtain ⟨-, m, -, rfl⟩ := MeasureUnit.deduced_eq_ok.1 hu
    cases hd
    exact h.dimensions _ (mem_of_lookup? hnamed)
  | composed hes hcomposed =>
    cases hd
    exact knows_iff.2 (Dimension.forall_base_ofExponents
      (P := fun b => c.base? b.name b.referenceUnit = some b) (base?_of_resolveParts hes) hcomposed)

/-- What a caller hands over is what the declaration brings into the catalog. -/
theorem mem_dimension?_of_handed {declaration : Declaration} (hasks : c.Asks declaration e)
    (hd : d ∈ declaration.handed) : d ∈ e.dimension? := by
  cases hasks with
  | unit => exact hd
  | named => exact hd
  | derived hes =>
    rw [Declaration.handed, hes] at hd
    exact hd
  | _ => cases hd

theorem Agrees.apply (h : c.Agrees) {declaration : Declaration}
    (happly : c.apply declaration = .ok () c') (hhanded : ∀ d ∈ declaration.handed, c.Knows d) :
    c'.Agrees := by
  obtain ⟨-, rfl⟩ | ⟨e, hasks, -, rfl⟩ := added_of_apply happly
  · exact h
  · exact h.add (h.knows_of_asks hasks hhanded)

/-- After a declaration that succeeds the catalog agrees exactly if it knew what it was handed. -/
theorem Agrees.apply_iff (h : c.Agrees) {declaration : Declaration}
    (happly : c.apply declaration = .ok () c') :
    c'.Agrees ↔ ∀ d ∈ declaration.handed, c.Knows d := by
  refine ⟨fun h' d hd => ?_, h.apply happly⟩
  obtain ⟨hquestion, -⟩ | ⟨e, hasks, haccepts, rfl⟩ := added_of_apply happly
  · cases hquestion
    cases hd
  · exact knows_of_agrees_add haccepts h' (mem_dimension?_of_handed hasks hd)

/-! ## Lists of declarations -/

/-- Declarations that are handed nothing keep the catalog in agreement. -/
theorem Agrees.applyAll_of_handed_none (h : c.Agrees) {ds : List Declaration}
    (hds : ∀ declaration ∈ ds, declaration.handed = none) : (c.applyAll ds).catalog.Agrees := by
  refine applyAll_induction (fun declaration hmem _ _ hc happly => hc.apply happly ?_) h
  rw [hds declaration hmem]
  exact fun _ hd => nomatch hd

/-- A new base dimension is found. -/
theorem base?_add_self {b : BaseDimension} (hnew : c.base? b.name b.referenceUnit = none) :
    (c.add (.base b)).base? b.name b.referenceUnit = some b := by
  have hmem (x : BaseDimension) : x ∈ (c.add (.base b)).bases ↔ x = b ∨ x ∈ c.bases := by
    rw [(bases_add_perm c b).mem_iff, List.mem_cons]
  cases hfound : (c.add (.base b)).base? b.name b.referenceUnit with
  | none =>
    have hnone := List.find?_eq_none.1 hfound b ((hmem b).2 (.inl rfl))
    simp at hnone
  | some x =>
    obtain ⟨hx, hname, hunit⟩ := base?_eq_some hfound
    rcases (hmem x).1 hx with rfl | hx
    · rfl
    · have hnone := List.find?_eq_none.1 hnew x hx
      simp [hname, hunit] at hnone

/-- The coherent unit that comes with a base dimension in a document has that very base
dimension. -/
theorem Agrees.baseEntry (h : c.Agrees) (entry : BaseEntry) :
    (c.applyAll entry.declarations).catalog.Agrees := by
  rw [BaseEntry.declarations]
  generalize entry.referenceMagnitude.getD .one = magnitude
  cases hbase : c.apply (.base entry.name entry.referenceUnit magnitude) with
  | error error c₁ =>
    rw [applyAll_cons_of_error hbase, eq_of_apply_eq_error hbase]
    exact h
  | ok _ c₁ =>
    have h₁ : c₁.Agrees := h.apply hbase fun d hd => nomatch hd
    have hknows : c₁.Knows (.ofBase ⟨entry.name, entry.referenceUnit, magnitude⟩) := by
      obtain ⟨hquestion, -⟩ | ⟨e, hasks, haccepts, rfl⟩ := added_of_apply hbase
      · cases hquestion
      · cases hasks
        exact knows_iff.2 (List.forall_mem_singleton.2 (base?_add_self haccepts.2.2.2))
    rw [applyAll_cons_of_ok hbase]
    cases hunit : c₁.apply (.unit (entry.key.getD entry.referenceUnit)
        (.coherent entry.referenceUnit entry.unitName
          (.ofBase ⟨entry.name, entry.referenceUnit, magnitude⟩))) with
    | error error c₂ =>
      rw [applyAll_cons_of_error hunit, eq_of_apply_eq_error hunit]
      exact h₁
    | ok _ c₂ =>
      rw [applyAll_cons_of_ok hunit]
      exact h₁.apply hunit fun d hd => by cases hd; exact hknows

theorem Agrees.load (h : c.Agrees) (doc : Document) : (c.load doc).catalog.Agrees := by
  rw [Catalog.load, Document.declarations, List.append_assoc, List.append_assoc]
  refine applyAll_append_induction
    (applyAll_flatMap_induction (fun entry _ _ hc => hc.baseEntry entry) h)
    fun c hc => hc.applyAll_of_handed_none ?_
  -- All other declarations take their dimensions from the catalog.
  simp only [List.forall_mem_append, List.forall_mem_map]
  refine ⟨fun entry _ => rfl, fun entry _ => ?_, fun entry _ => rfl⟩
  cases entry <;> rfl

/-! ## Runs -/

/-- After an operation the catalog agrees exactly if the operation was faithful. -/
theorem Agrees.after_iff (h : c.Agrees) (op : Operation) :
    (c.after op).Agrees ↔ op.IsFaithful c := by
  cases op with
  | declare declaration =>
    rw [after, Operation.IsFaithful]
    cases happly : c.apply declaration with
    | error error c' =>
      rw [eq_of_apply_eq_error happly]
      refine iff_of_true h fun c' hc' => ?_
      cases hc'
    | ok _ c' =>
      rw [Outcome.catalog, h.apply_iff happly]
      constructor
      · rintro hhanded _ -
        exact hhanded
      · exact fun hhanded => hhanded c' rfl
  | prefixes reference scales =>
    refine iff_of_true ?_ trivial
    rw [after_eq]
    refine h.applyAll_of_handed_none ?_
    rw [Operation.declarations, List.forall_mem_map]
    exact fun _ _ => rfl
  | load doc => exact iff_of_true (h.load doc) trivial

/-- A run keeps the agreement exactly if each of its operations is faithful. -/
theorem Agrees.run_iff (h : c.Agrees) (hc : c.IsGrounded) (ops : List Operation) :
    (c.run ops).Agrees ↔ IsFaithfulRun c ops := by
  induction ops generalizing c with
  | nil => exact iff_of_true h trivial
  | cons op ops ih =>
    have hafter : (c.after op).IsGrounded := hc.run [op]
    rw [run_cons, IsFaithfulRun, ← h.after_iff op]
    constructor
    · intro hrun
      have hnext := (extends_run (c.after op) ops).agrees_of hafter hrun
      exact ⟨hnext, (ih hnext hafter).1 hrun⟩
    · rintro ⟨hnext, hops⟩
      exact (ih hnext hafter).2 hops

theorem agrees_empty : Agrees .empty := ⟨List.forall_mem_nil _, List.forall_mem_nil _⟩

theorem isGrounded_empty : IsGrounded .empty := ⟨List.forall_mem_nil _, List.forall_mem_nil _⟩

/-- In a catalog that agrees, units of one dimension have equal dimensions, reference magnitudes
included. -/
theorem Agrees.dimension_eq (h : c.Agrees) {x y : String} {a b : MeasureUnit}
    (ha : c.unit? x = some a) (hb : c.unit? y = some b) (hab : a.isCompatible b = true) :
    a.dimension = b.dimension :=
  (h.knows_of_unit? ha).eq_of_same (h.knows_of_unit? hb) hab

/-- Every base dimension in a registered unit or in a named dimension has its declared reference
magnitude exactly if every dimension that a caller hands over has them at that time; prefixed,
scaled, deduced and composed declarations and whole documents never break the agreement. Then a
factor from a registered unit to any other one may be taken over a registered unit of the same
dimension, as far as the factors are in range. -/
theorem agrees_iff_isFaithfulRun (ops : List Operation) :
    ((Catalog.empty.run ops).Agrees ↔ IsFaithfulRun .empty ops) ∧
    (IsFaithfulRun .empty ops → ∀ (x y : String) (a b t : MeasureUnit) (f g h : Magnitude),
      (Catalog.empty.run ops).unit? x = some a → (Catalog.empty.run ops).unit? y = some b →
      a.HasExactScale → b.HasExactScale → t.HasExactScale →
      a.bridgeFactor t = .ok f → a.conversionFactor b = .ok g → b.bridgeFactor t = .ok h →
        g.mul h = .ok f) := by
  have hagrees := agrees_empty.run_iff isGrounded_empty ops
  refine ⟨hagrees, fun hfaithful x y a b t f g h ha hb haexact hbexact htexact hf hg hh => ?_⟩
  have hab : a.isCompatible b = true := (MeasureUnit.conversionFactor_eq_ok.1 hg).1
  have hdimension := (hagrees.2 hfaithful).dimension_eq ha hb hab
  exact MeasureUnit.conversionFactor_mul_bridgeFactor haexact hbexact htexact hdimension hf hg hh

/-- The metre and the kilometre, with the very base dimension that has been declared. -/
def metreAndKilometre : List Operation :=
  [.declare (Systems.declareBase Systems.length),
    .declare (Systems.declareCoherent Systems.length "metre"), .prefixes "m" [.kilo]]

/-- From the metre over the kilometre to the centimetre of the other system. -/
theorem agrees_iff_isFaithfulRun_metre :
    IsFaithfulRun .empty metreAndKilometre ∧
      (Magnitude.exact (mkRat 1 1000)).mul (.exact 100000) = .ok (.exact 100) := by
  have hknows : (Catalog.empty.add (.base Systems.length)).Knows (.ofBase Systems.length) :=
    knows_iff.2 (List.forall_mem_singleton.2 (base?_add_self rfl))
  have hfaithful : IsFaithfulRun .empty metreAndKilometre := by
    refine ⟨fun _ _ d hd => (nomatch hd), fun _ _ d hd => ?_, trivial, trivial⟩
    cases hd
    rw [after_declare_length]
    exact hknows
  refine ⟨hfaithful, ?_⟩
  have hmetreExact : siMetre.HasExactScale := ⟨rfl, List.forall_mem_singleton.2 rfl⟩
  have hkilometreExact : siKilometre.HasExactScale := ⟨rfl, List.forall_mem_singleton.2 rfl⟩
  have hcentimetreExact : cgsCentimetre.HasExactScale := ⟨rfl, List.forall_mem_singleton.2 rfl⟩
  have hmetre : (Catalog.empty.run metreAndKilometre).unit? "m" = some siMetre := by
    rw [metreAndKilometre, run_cons, after_declare_length]
    with_unfolding_all rfl
  have hkilometre : (Catalog.empty.run metreAndKilometre).unit? "km" = some siKilometre := by
    rw [metreAndKilometre, run_cons, after_declare_length]
    with_unfolding_all rfl
  exact (agrees_iff_isFaithfulRun metreAndKilometre).2 hfaithful "m" "km" siMetre siKilometre
    cgsCentimetre _ _ _ hmetre hkilometre hmetreExact hkilometreExact hcentimetreExact
    (by with_unfolding_all rfl) (by with_unfolding_all rfl) (by with_unfolding_all rfl)

/-- A unit of length with a reference magnitude of its own. -/
def strayMetre : MeasureUnit := .coherent "x" "x" (.ofBase ⟨"length", "m", .integer 5⟩)

/-- The metre and the stray one. -/
def strayLength : List Operation :=
  [.declare (Systems.declareBase Systems.length),
    .declare (Systems.declareCoherent Systems.length "metre"), .declare (.unit "x" strayMetre)]

/-- The unit is registered although its reference magnitude is not the declared one, and the way
over the metre gives another factor than the direct one. -/
theorem not_agrees_strayLength :
    ¬ (Catalog.empty.run strayLength).Agrees ∧
      (Catalog.empty.run strayLength).unit? "x" = some strayMetre ∧
      (Catalog.empty.run strayLength).unit? "m" = some siMetre ∧
      strayMetre.isCompatible siMetre = true ∧
      strayMetre.dimension.isBridgeable cgsCentimetre.dimension = true ∧
      strayMetre.bridgeFactor cgsCentimetre = .ok (.exact 500) ∧
      strayMetre.conversionFactor siMetre = .ok (.exact 1) ∧
      siMetre.bridgeFactor cgsCentimetre = .ok (.exact 100) ∧
      (Magnitude.exact 1).mul (.exact 100) ≠ .ok (.exact 500) := by
  have hstray : (Catalog.empty.run strayLength).unit? "x" = some strayMetre := by
    rw [strayLength, run_cons, after_declare_length]
    with_unfolding_all rfl
  have hmetre : (Catalog.empty.run strayLength).unit? "m" = some siMetre := by
    rw [strayLength, run_cons, after_declare_length]
    with_unfolding_all rfl
  have hcompatible : strayMetre.isCompatible siMetre = true := rfl
  refine ⟨fun h => ?_, hstray, hmetre, hcompatible, rfl, by with_unfolding_all rfl,
    by with_unfolding_all rfl, by with_unfolding_all rfl, ?_⟩
  · -- In a catalog that agrees the two dimensions would be equal.
    have hdimension := h.dimension_eq hstray hmetre hcompatible
    revert hdimension
    decide
  · intro h
    obtain ⟨hcoefficient, -⟩ := Magnitude.mul_exact_eq_ok.1 h
    have hvalue : (500 : Ratio) = 1 * 100 := Coefficient.exact.inj hcoefficient
    norm_num at hvalue

end Catalog

end Metrology
