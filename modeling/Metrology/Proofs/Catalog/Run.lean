/-
  Metrology.Proofs.Catalog.Run

  Runs of operations on a catalog: single declarations, lists of prefixes and whole documents.
  An operation that is refused or stops half way leaves a catalog like any other, so a run goes
  on after it. Whatever every successful declaration keeps is kept by every run.
-/
import Metrology.Document.Basic
import Metrology.Proofs.Catalog.Entry

namespace Metrology

namespace Catalog

/-! ## Operations -/

/-- What a caller does to a catalog. -/
inductive Operation where
  | declare (d : Declaration)
  /-- The unit under a key with each of the prefixes. -/
  | prefixes (reference : String) (scales : List UnitPrefix)
  | load (d : Document)

/-- The catalog that an operation leaves, whether it succeeds or not. -/
def after (c : Catalog) : Operation → Catalog
  | .declare d => (c.apply d).catalog
  | .prefixes reference scales => Outcome.catalog ((declarePrefixes reference scales).run c)
  | .load d => (c.load d).catalog

/-- The catalog that is left after all of the operations. -/
def run (c : Catalog) (ops : List Operation) : Catalog := ops.foldl after c

@[simp] theorem run_cons (c : Catalog) (op : Operation) (ops : List Operation) :
    c.run (op :: ops) = (c.after op).run ops := rfl

/-- The declarations that an operation makes, as long as none of them is refused. -/
def Operation.declarations : Operation → List Declaration
  | .declare d => [d]
  | .prefixes reference scales => scales.map (.prefixed · reference)
  | .load d => d.declarations

variable {c c' : Catalog}

open Update

/-! ## Lists of declarations -/

theorem applyAll_cons_of_ok {d : Declaration} (h : c.apply d = .ok () c')
    (ds : List Declaration) : c.applyAll (d :: ds) = c'.applyAll ds := by
  rw [applyAll, List.forM_cons, run_bind_of_ok h, applyAll]

/-- A refused declaration ends the list. -/
theorem applyAll_cons_of_error {d : Declaration} {e : Error} (h : c.apply d = .error e c')
    (ds : List Declaration) : c.applyAll (d :: ds) = .error e c' := by
  rw [applyAll, List.forM_cons, run_bind_of_error h]

/-- Declaring prefixes one after the other is a list of declarations. -/
theorem declarePrefixes_eq (c : Catalog) (reference : String) (scales : List UnitPrefix) :
    Outcome.catalog ((declarePrefixes reference scales).run c) =
      (c.applyAll (scales.map (.prefixed · reference))).catalog := by
  induction scales generalizing c with
  | nil => rfl
  | cons scale scales ih =>
    rw [declarePrefixes, List.mapM_cons, List.map_cons]
    cases h : (declarePrefixed scale reference).run c with
    | error e c' =>
      have happly : c.apply (.prefixed scale reference) = .error e c' := by
        rw [apply, declare, discard_eq_bind, run_bind_of_error h]
      rw [run_bind_of_error h, applyAll_cons_of_error happly]
      rfl
    | ok u c' =>
      have happly : c.apply (.prefixed scale reference) = .ok () c' := by
        rw [apply, declare, run_discard_eq_ok]
        exact ⟨u, h⟩
      rw [run_bind_of_ok h, catalog_bind_pure, applyAll_cons_of_ok happly]
      exact ih c'

/-- Every operation is a list of declarations, of which the first that is refused ends it. -/
theorem after_eq (c : Catalog) (op : Operation) :
    c.after op = (c.applyAll op.declarations).catalog := by
  cases op with
  | declare d =>
    rw [after, Operation.declarations]
    cases happly : c.apply d with
    | ok _ c' => rw [applyAll_cons_of_ok happly]; rfl
    | error e c' => rw [applyAll_cons_of_error happly]
  | prefixes reference scales => exact declarePrefixes_eq c reference scales
  | load d => rfl

/-! ## Induction -/

/-- What is kept by every declaration of a list that succeeds is kept by the list. -/
theorem applyAll_induction {P : Catalog → Prop} {ds : List Declaration}
    (hstep : ∀ d ∈ ds, ∀ c c', P c → c.apply d = .ok () c' → P c') (h : P c) :
    P (c.applyAll ds).catalog := by
  induction ds generalizing c with
  | nil => exact h
  | cons d ds ih =>
    obtain ⟨hd, hds⟩ := List.forall_mem_cons.1 hstep
    cases happly : c.apply d with
    | error e c' =>
      rw [applyAll_cons_of_error happly, Outcome.catalog, eq_of_apply_eq_error happly]
      exact h
    | ok _ c' =>
      rw [applyAll_cons_of_ok happly]
      exact ih hds (hd c c' h happly)

/-- Two lists of declarations that keep a property keep it one after the other, wherever they
stop. -/
theorem applyAll_append_induction {P : Catalog → Prop} {xs ys : List Declaration}
    (hxs : P (c.applyAll xs).catalog) (hys : ∀ c, P c → P (c.applyAll ys).catalog) :
    P (c.applyAll (xs ++ ys)).catalog := by
  induction xs generalizing c with
  | nil => exact hys c hxs
  | cons x xs ih =>
    rw [List.cons_append]
    cases happly : c.apply x with
    | error e c' =>
      rw [applyAll_cons_of_error happly] at hxs ⊢
      exact hxs
    | ok _ c' =>
      rw [applyAll_cons_of_ok happly] at hxs ⊢
      exact ih hxs

theorem applyAll_flatMap_induction {α : Type} {P : Catalog → Prop} {f : α → List Declaration}
    {as : List α} (hstep : ∀ a ∈ as, ∀ c, P c → P (c.applyAll (f a)).catalog) (h : P c) :
    P (c.applyAll (as.flatMap f)).catalog := by
  induction as generalizing c with
  | nil => exact h
  | cons a as ih =>
    obtain ⟨ha, has⟩ := List.forall_mem_cons.1 hstep
    rw [List.flatMap_cons]
    exact applyAll_append_induction (ha c h) fun c' hc' => ih has hc'

theorem after_induction {P : Catalog → Prop} {op : Operation}
    (hstep : ∀ d ∈ op.declarations, ∀ c c', P c → c.apply d = .ok () c' → P c') (h : P c) :
    P (c.after op) := by
  rw [after_eq]
  exact applyAll_induction hstep h

/-- What is kept by every successful declaration of a run is kept by the run. -/
theorem run_induction {P : Catalog → Prop} {ops : List Operation}
    (hstep : ∀ op ∈ ops, ∀ d ∈ op.declarations, ∀ c c', P c → c.apply d = .ok () c' → P c')
    (h : P c) : P (c.run ops) := by
  induction ops generalizing c with
  | nil => exact h
  | cons op ops ih =>
    obtain ⟨hop, hops⟩ := List.forall_mem_cons.1 hstep
    exact ih hops (after_induction hop h)

/-- What every accepted entry keeps is kept by every run. -/
theorem run_induction_of_add {P : Catalog → Prop}
    (hstep : ∀ c e, P c → c.Accepts e → P (c.add e)) (h : P c) (ops : List Operation) :
    P (c.run ops) := by
  refine run_induction (fun op _ d _ c c' hc happly => ?_) h
  obtain ⟨-, rfl⟩ | ⟨e, -, haccepts, rfl⟩ := added_of_apply happly
  · exact hc
  · exact hstep c e hc haccepts

end Catalog

end Metrology
