/-
  Metrology.Proofs.Catalog.FiniteUnits

  Units of infinite magnitude. A declaration works out the magnitude of its unit from magnitudes
  that are there already, by products and powers only, and an infinite result on the way shows in
  the unit. No declaration checks for it and no unit is ever removed, so the units of a catalog
  are finite exactly as long as every product in a declaration that succeeds is in range.
-/
import Metrology.Proofs.Catalog.Persistence
import Metrology.Proofs.MeasureUnit.Deduced
import Metrology.Proofs.Magnitude.TextConstruction

namespace Metrology

/-! ## Products of powers -/

namespace Construction

variable {a b t : Construction} {m : Magnitude} {fs : List (Magnitude × Power)}

/-- An infinite result on the way shows in the result. -/
def ShowsInfinite (t : Construction) : Prop := ∀ m, t.eval = .ok m → m.IsFinite → t.IsFinite

theorem ShowsInfinite.isFinite_iff (h : t.ShowsInfinite) (heval : t.eval = .ok m) :
    m.IsFinite ↔ t.IsInRange := by
  rw [← Construction.isFinite_iff]
  exact ⟨h m heval, fun hfinite => hfinite.result m heval⟩

/-- A single step has no result on the way but its own. -/
theorem showsInfinite_of_parts (h : t.parts = [t]) : t.ShowsInfinite := by
  intro m heval hm
  rw [IsFinite, h, List.forall_mem_singleton]
  intro m' heval'
  cases heval.symm.trans heval'
  exact hm

theorem ShowsInfinite.mul (ha : a.ShowsInfinite) (hb : b.ShowsInfinite) :
    (mul a b).ShowsInfinite := by
  intro m heval hm
  obtain ⟨x, hx, y, hy, hmul⟩ := eval_mul_eq_ok.1 heval
  obtain ⟨hxfinite, hyfinite⟩ := ((Magnitude.isFinite_mul_iff hmul).1 hm).isFinite
  rw [IsFinite, parts, List.forall_mem_cons, List.forall_mem_append]
  refine ⟨fun m' heval' => ?_, ha x hx hxfinite, hb y hy hyfinite⟩
  cases heval.symm.trans heval'
  exact hm

/-- A power is finite, so it shows nothing of its base. -/
theorem showsInfinite_pow (hm : m.IsFinite) (n : Power) : (pow (given m) n).ShowsInfinite := by
  intro _ _ _
  simp only [IsFinite, parts, List.forall_mem_cons]
  exact ⟨hasFiniteResult_pow _ n, hasFiniteResult_given_iff.2 hm, List.forall_mem_nil _⟩

/-- The product of powers of magnitudes, from the left. -/
def ofPowers (product : Construction) : List (Magnitude × Power) → Construction
  | [] => product
  | f :: fs => ofPowers (mul product (pow (given f.1) f.2)) fs

theorem eval_ofPowers_eq_ok :
    (ofPowers t fs).eval = .ok m ↔ ∃ x, t.eval = .ok x ∧ Magnitude.powerProduct x fs = .ok m := by
  induction fs generalizing t with
  | nil => simp [ofPowers, Magnitude.powerProduct]
  | cons f fs ih =>
    simp only [ofPowers, ih, eval_mul_eq_ok, Magnitude.powerProduct, bind_eq_ok]
    constructor
    · rintro ⟨y, ⟨x, hx, power, hpower, hy⟩, hm⟩
      exact ⟨x, hx, power, hpower, y, hy, hm⟩
    · rintro ⟨x, hx, power, hpower, y, hy, hm⟩
      exact ⟨y, ⟨x, hx, power, hpower, hy⟩, hm⟩

theorem ShowsInfinite.ofPowers (h : t.ShowsInfinite) (hfs : ∀ f ∈ fs, f.1.IsFinite) :
    (ofPowers t fs).ShowsInfinite := by
  induction fs generalizing t with
  | nil => exact h
  | cons f fs ih =>
    obtain ⟨hf, hfs⟩ := List.forall_mem_cons.1 hfs
    exact ih (h.mul (showsInfinite_pow hf f.2)) hfs

end Construction

namespace Catalog

variable {c c' : Catalog} {d : Declaration} {t : Construction} {key : String} {u : MeasureUnit}

/-! ## Declarations -/

/-- How a declaration works out the magnitude of its unit, from those of the units that it looks
up. -/
inductive Constructs (c : Catalog) : Declaration → Construction → Prop where
  | unit {key : String} {u : MeasureUnit} : Constructs c (.unit key u) (.given u.magnitude)
  | scaled {symbol name reference : String} {factor : Magnitude} {r : MeasureUnit}
      (hr : c.unit? reference = some r) :
      Constructs c (.scaled symbol name reference factor)
        (.mul (.given r.magnitude) (.given factor))
  | prefixed {scale : UnitPrefix} {reference : String} {r : MeasureUnit}
      (hr : c.unit? reference = some r) :
      Constructs c (.prefixed scale reference)
        (.mul (.given r.magnitude) (.powerOf scale.family.radix scale.exponent))
  | prefixedBy {symbol reference : String} {scale : UnitPrefix} {r : MeasureUnit}
      (hscale : UnitPrefix.find? symbol = some scale) (hr : c.unit? reference = some r) :
      Constructs c (.prefixedBy symbol reference)
        (.mul (.given r.magnitude) (.powerOf scale.family.radix scale.exponent))
  | deduced {symbol name dimension : String} {constituents : List String} {d : Dimension}
      {us : List MeasureUnit} {fs : List (MeasureUnit × Power)}
      (hd : c.dimension? dimension = some d)
      (hus : List.Forall₂ (fun key v => c.unit? key = some v) constituents us)
      (hfs : MeasureUnit.Finds us d.exponents fs) :
      Constructs c (.deduced symbol name dimension constituents)
        (.ofPowers (.exact 1) (MeasureUnit.magnitudes fs))

/-- Every registered unit has an exact magnitude or one with a finite coefficient. -/
def HasFiniteUnits (c : Catalog) : Prop := ∀ e ∈ c.units, e.2.magnitude.IsFinite

theorem exists_constructs (hasks : c.Asks d (.unit key u)) : ∃ t, c.Constructs d t := by
  cases hasks with
  | unit => exact ⟨_, .unit⟩
  | scaled _ hr _ => exact ⟨_, .scaled hr⟩
  | prefixed hr _ => exact ⟨_, .prefixed hr⟩
  | prefixedBy hscale hr _ => exact ⟨_, .prefixedBy hscale hr⟩
  | deduced hd hus hu =>
    obtain ⟨-, m, hm, -⟩ := MeasureUnit.deduced_eq_ok.1 hu
    obtain ⟨fs, hfs⟩ := MeasureUnit.exists_finds hm
    exact ⟨_, .deduced hd hus hfs⟩

theorem eval_prefixed {scale : UnitPrefix} {r : MeasureUnit}
    (h : MeasureUnit.prefixed scale r = .ok u) :
    (Construction.mul (.given r.magnitude) (.powerOf scale.family.radix scale.exponent)).eval =
      .ok u.magnitude := by
  obtain ⟨-, f, m, hf, hm, rfl⟩ := MeasureUnit.prefixed_eq_ok.1 h
  refine Construction.eval_mul_eq_ok.2 ⟨r.magnitude, rfl, f, ?_, hm⟩
  rw [Construction.eval, Int.cast_natCast]
  exact hf

/-- It is the magnitude that the declaration asks for. -/
theorem eval_of_constructs (hasks : c.Asks d (.unit key u)) (h : c.Constructs d t) :
    t.eval = .ok u.magnitude := by
  cases h with
  | unit =>
    cases hasks
    rfl
  | scaled hr =>
    cases hasks with
    | scaled _ hr' hu =>
      cases hr.symm.trans hr'
      obtain ⟨m, hm, rfl⟩ := MeasureUnit.scaled_eq_ok.1 hu
      exact hm
  | prefixed hr =>
    cases hasks with
    | prefixed hr' hu =>
      cases hr.symm.trans hr'
      exact eval_prefixed hu
  | prefixedBy hscale hr =>
    cases hasks with
    | prefixedBy hscale' hr' hu =>
      cases hscale.symm.trans hscale'
      cases hr.symm.trans hr'
      exact eval_prefixed hu
  | deduced hd hus hfs =>
    cases hasks with
    | deduced hd' hus' hu =>
      cases hd.symm.trans hd'
      cases units_unique hus hus'
      obtain ⟨-, m, hm, rfl⟩ := MeasureUnit.deduced_eq_ok.1 hu
      rw [MeasureUnit.deducedMagnitude_of_finds hfs, lift_eq_ok] at hm
      exact Construction.eval_ofPowers_eq_ok.2 ⟨.one, rfl, hm⟩

theorem HasFiniteUnits.of_unit? (h : c.HasFiniteUnits) (hu : c.unit? key = some u) :
    u.magnitude.IsFinite := by
  rcases unit?_eq_some_iff.1 hu with hu | ⟨-, k, -, hu⟩
  · exact h _ (mem_of_lookup? hu)
  · exact h _ (mem_of_lookup? hu)

theorem showsInfinite_of_constructs (hc : c.HasFiniteUnits) (h : c.Constructs d t) :
    t.ShowsInfinite := by
  cases h with
  | unit => exact Construction.showsInfinite_of_parts rfl
  | scaled _ =>
    exact (Construction.showsInfinite_of_parts rfl).mul (Construction.showsInfinite_of_parts rfl)
  | prefixed _ =>
    exact (Construction.showsInfinite_of_parts rfl).mul (Construction.showsInfinite_of_parts rfl)
  | prefixedBy _ _ =>
    exact (Construction.showsInfinite_of_parts rfl).mul (Construction.showsInfinite_of_parts rfl)
  | deduced _ hus hfs =>
    refine (Construction.showsInfinite_of_parts rfl).ofPowers ?_
    rw [MeasureUnit.magnitudes, List.forall_mem_map]
    intro f hf
    obtain ⟨e, -, hfound, -⟩ := exists_mem_of_forall₂ hfs hf
    obtain ⟨-, vs, hperm⟩ := MeasureUnit.exists_perm_of_measuring hfound
    obtain ⟨key, -, hkey⟩ := exists_mem_of_forall₂ hus (hperm.mem_iff.2 List.mem_cons_self)
    exact hc.of_unit? hkey

/-- The declaration works out the magnitude of its unit in range, if it gives one. -/
def IsInRange (c : Catalog) (d : Declaration) : Prop := ∀ t, c.Constructs d t → t.IsInRange

/-- After a declaration that succeeds the units are finite exactly if it is in range. -/
theorem HasFiniteUnits.apply_iff (h : c.HasFiniteUnits) (happly : c.apply d = .ok () c') :
    c'.HasFiniteUnits ↔ c.IsInRange d := by
  obtain ⟨hquestion, rfl⟩ | ⟨e, hasks, -, rfl⟩ := added_of_apply happly
  · refine iff_of_true h fun t ht => ?_
    cases hquestion
    cases ht
  · cases e with
    | unit key u =>
      have hunits : (c.add (.unit key u)).HasFiniteUnits ↔ u.magnitude.IsFinite := by
        rw [HasFiniteUnits, add, List.forall_mem_append, List.forall_mem_singleton]
        exact and_iff_right h
      rw [hunits]
      constructor
      · intro hu t ht
        exact ((showsInfinite_of_constructs h ht).isFinite_iff (eval_of_constructs hasks ht)).1 hu
      · intro hrange
        obtain ⟨t, ht⟩ := exists_constructs hasks
        exact ((showsInfinite_of_constructs h ht).isFinite_iff
          (eval_of_constructs hasks ht)).2 (hrange t ht)
    | base b =>
      refine iff_of_true h fun t ht => ?_
      cases hasks
      cases ht
    | name name x =>
      refine iff_of_true h fun t ht => ?_
      cases ht <;> cases hasks
    | «alias» other key =>
      refine iff_of_true h fun t ht => ?_
      cases hasks
      cases ht

/-! ## Runs -/

/-- Every declaration of a list is in range, as long as none of them is refused. -/
def AreInRange : Catalog → List Declaration → Prop
  | _, [] => True
  | c, d :: ds => ∀ c', c.apply d = .ok () c' → c.IsInRange d ∧ AreInRange c' ds

/-- Every operation of a run is in range for the catalog that it meets. -/
def IsInRangeRun : Catalog → List Operation → Prop
  | _, [] => True
  | c, op :: ops => c.AreInRange op.declarations ∧ IsInRangeRun (c.after op) ops

/-- A unit of infinite magnitude stays for good. -/
theorem Extends.hasFiniteUnits_of (h : c.Extends c') (h' : c'.HasFiniteUnits) :
    c.HasFiniteUnits := fun e he => h' e (h.units e he)

theorem HasFiniteUnits.applyAll_iff (h : c.HasFiniteUnits) (ds : List Declaration) :
    (c.applyAll ds).catalog.HasFiniteUnits ↔ c.AreInRange ds := by
  induction ds generalizing c with
  | nil => exact iff_of_true h trivial
  | cons d ds ih =>
    rw [AreInRange]
    cases happly : c.apply d with
    | error e c' =>
      rw [applyAll_cons_of_error happly, eq_of_apply_eq_error happly]
      exact iff_of_true h fun c' hc' => nomatch hc'
    | ok _ c' =>
      rw [applyAll_cons_of_ok happly]
      simp only [EStateM.Result.ok.injEq, true_and, forall_eq', ← h.apply_iff happly]
      constructor
      · intro hall
        have hnext := (extends_applyAll c' ds).hasFiniteUnits_of hall
        exact ⟨hnext, (ih hnext).1 hall⟩
      · rintro ⟨hnext, hds⟩
        exact (ih hnext).2 hds

theorem HasFiniteUnits.run_iff (h : c.HasFiniteUnits) (ops : List Operation) :
    (c.run ops).HasFiniteUnits ↔ IsInRangeRun c ops := by
  induction ops generalizing c with
  | nil => exact iff_of_true h trivial
  | cons op ops ih =>
    rw [run_cons, IsInRangeRun, ← h.applyAll_iff, ← after_eq]
    constructor
    · intro hrun
      have hnext := (extends_run (c.after op) ops).hasFiniteUnits_of hrun
      exact ⟨hnext, (ih hnext).1 hrun⟩
    · rintro ⟨hnext, hops⟩
      exact (ih hnext).2 hops

theorem hasFiniteUnits_empty : HasFiniteUnits .empty := List.forall_mem_nil _

/-! ## Finite magnitudes -/

/-- A text is read as the result of the construction that it describes. All results of a
construction, of whichever constructors and operations, are finite exactly if each product,
quotient and reciprocal in it is in range; a magnitude from a floating-point number, a power and a
multiple by a power of pi are never the first to be infinite. And after any run of operations all
units of a catalog are finite exactly if every declaration that succeeded was given a finite unit
or worked out the magnitude of its unit in range. -/
theorem finite_correct_iff (s : String) (t : Construction) (ops : List Operation) :
    (∀ m, Magnitude.ofText s = .ok m ↔
      ∃ t, Construction.ofText? s = some t ∧ t.eval = .ok m) ∧
    ((∀ p ∈ t.parts, ∀ m, p.eval = .ok m → m.IsFinite) ↔ ∀ p ∈ t.parts, p.IsStepInRange) ∧
    ((∀ e ∈ (Catalog.empty.run ops).units, e.2.magnitude.IsFinite) ↔ IsInRangeRun .empty ops) :=
  ⟨fun _ => Construction.ofText_eq_ok, t.isFinite_iff, hasFiniteUnits_empty.run_iff ops⟩

/-- An approximate coefficient not far below the bound. -/
def aboutGreat : Magnitude := ⟨.approx (.finite false 9214871658872686752 (by decide)), 0⟩

/-- What is no finite magnitude. -/
def endless : Magnitude := ⟨.approx (.infinite false), 0⟩

/-- A great length, and one as many times as great. -/
def greatLengths : List Operation :=
  [.declare (Systems.declareBase Systems.length),
    .declare (Systems.declareCoherent Systems.length "metre"),
    .declare (.scaled "x" "x" "m" aboutGreat), .declare (.scaled "y" "y" "x" aboutGreat)]

/-- The product of two finite magnitudes is infinite, in a text too, and a unit of this magnitude
is registered. -/
theorem not_finite_greatLengths :
    Magnitude.ofText "~1e308" = .ok aboutGreat ∧ aboutGreat.IsFinite ∧
      aboutGreat.mul aboutGreat = .ok endless ∧
      Magnitude.ofText "~1e308*1e308" = .ok endless ∧ ¬ endless.IsFinite ∧
      ((Catalog.empty.run greatLengths).unit? "y").map MeasureUnit.magnitude = some endless := by
  refine ⟨by decide +kernel, rfl, by decide +kernel, by decide +kernel, Bool.false_ne_true, ?_⟩
  rw [greatLengths, run_cons, after_declare_length]
  decide +kernel

end Catalog

end Metrology
