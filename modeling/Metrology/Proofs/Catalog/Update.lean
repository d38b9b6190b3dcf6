/-
  Metrology.Proofs.Catalog.Update

  Changes of a catalog that may be refused. Nothing undoes a write, so a change leaves the catalog
  as it was on a refusal only if every step that may be refused comes before the first write. That
  is what the lemmas on atomic changes ask for: steps that write nothing in front, and steps that
  are never refused behind.
-/
import Metrology.Catalog.Update
import Metrology.Proofs.Outcome

namespace Metrology.Catalog.Update

variable {α β : Type} {x : Update α} {f : α → Update β} {c c' : Catalog} {a : α} {b : β}

/-! ## Results -/

theorem run_bind_of_ok (h : x.run c = .ok a c') (f : α → Update β) :
    (x >>= f).run c = (f a).run c' := by
  rw [EStateM.run_bind, h]

theorem run_bind_of_error {e : Error} (h : x.run c = .error e c') (f : α → Update β) :
    (x >>= f).run c = .error e c' := by
  rw [EStateM.run_bind, h]

/-- A sequence succeeds exactly if both of its parts do, the second one on the catalog that the
first one leaves. -/
theorem run_bind_eq_ok :
    (x >>= f).run c = .ok b c' ↔ ∃ a c₁, x.run c = .ok a c₁ ∧ (f a).run c₁ = .ok b c' := by
  rw [EStateM.run_bind]
  cases x.run c <;> simp

/-- A sequence is refused in its first part or in its second one. -/
theorem run_bind_eq_error {e : Error} :
    (x >>= f).run c = .error e c' ↔
      x.run c = .error e c' ∨ ∃ a c₁, x.run c = .ok a c₁ ∧ (f a).run c₁ = .error e c' := by
  rw [EStateM.run_bind]
  cases x.run c <;> simp

@[simp] theorem run_get_bind (f : Catalog → Update β) (c : Catalog) :
    (get >>= f).run c = (f c).run c := rfl

@[simp] theorem run_modify_bind (g : Catalog → Catalog) (f : PUnit → Update β) (c : Catalog) :
    (modify g >>= f).run c = (f ()).run (g c) := rfl

@[simp] theorem run_throw (e : Error) (c : Catalog) :
    (throw e : Update α).run c = .error e c := rfl

@[simp] theorem run_refuse (cause : Cause) (c : Catalog) :
    (refuse cause : Update α).run c = .error ⟨cause, []⟩ c := rfl

/-- Behind a check a change succeeds exactly if the check does not fail. -/
theorem run_check_eq_ok {p : Prop} [Decidable p] {cause : Cause} :
    (if p then refuse cause else x).run c = .ok a c' ↔ ¬ p ∧ x.run c = .ok a c' := by
  by_cases h : p <;> simp [h]

@[simp] theorem run_lift_ok (a : α) (c : Catalog) :
    (liftM (.ok a : Except Error α) : Update α).run c = .ok a c := rfl

@[simp] theorem run_lift_error (e : Error) (c : Catalog) :
    (liftM (.error e : Except Error α) : Update α).run c = .error e c := rfl

/-- What was computed is given on, and the catalog stays. -/
theorem run_lift_bind_eq_ok {y : Except Error α} :
    (liftM y >>= f).run c = .ok b c' ↔ ∃ a, y = .ok a ∧ (f a).run c = .ok b c' := by
  rw [EStateM.run_bind]
  cases y <;> simp

/-- What is made of the result does not show in the catalog. -/
theorem catalog_bind_pure (x : Update α) (f : α → β) (c : Catalog) :
    Outcome.catalog ((x >>= fun a => pure (f a)).run c) = Outcome.catalog (x.run c) := by
  rw [EStateM.run_bind]
  cases x.run c <;> rfl

theorem discard_eq_bind (x : Update α) : discard x = x >>= fun _ => pure () := by
  funext c
  change EStateM.map _ x c = EStateM.bind x _ c
  rw [EStateM.map, EStateM.bind]
  cases x c <;> rfl

theorem run_discard_eq_ok : (discard x).run c = .ok () c' ↔ ∃ a, x.run c = .ok a c' := by
  rw [discard_eq_bind, run_bind_eq_ok]
  constructor
  · rintro ⟨a, c₁, ha, h⟩
    cases h
    exact ⟨a, ha⟩
  · rintro ⟨a, ha⟩
    exact ⟨a, c', ha, rfl⟩

/-! ## Refusals -/

/-- Whatever becomes of the change, it leaves the catalog as it was. -/
def Reads (x : Update α) : Prop := ∀ c, Outcome.catalog (x.run c) = c

/-- The change is never refused. -/
def Succeeds (x : Update α) : Prop := ∀ c, ∃ a c', x.run c = .ok a c'

/-- If the change is refused, it leaves the catalog as it was. -/
def IsAtomic (x : Update α) : Prop := ∀ c e c', x.run c = .error e c' → c' = c

/-- A write before a refusal stays. -/
example (g : Catalog → Catalog) (cause : Cause) (c : Catalog) :
    (modify g >>= fun _ => refuse cause : Update α).run c = .error ⟨cause, []⟩ (g c) := rfl

theorem reads_get : Reads get := fun _ => rfl

theorem reads_lift (y : Except Error α) : Reads (liftM y) := by
  intro c
  cases y <;> rfl

theorem succeeds_pure (a : α) : Succeeds (pure a) := fun c => ⟨a, c, rfl⟩

theorem succeeds_modify (f : Catalog → Catalog) : Succeeds (modify f) := fun c => ⟨(), f c, rfl⟩

theorem Succeeds.bind (hx : x.Succeeds) (hf : ∀ a, (f a).Succeeds) : (x >>= f).Succeeds := by
  intro c
  obtain ⟨a, c₁, ha⟩ := hx c
  obtain ⟨b, c', hb⟩ := hf a c₁
  exact ⟨b, c', run_bind_eq_ok.2 ⟨a, c₁, ha, hb⟩⟩

theorem Succeeds.isAtomic (hx : x.Succeeds) : x.IsAtomic := by
  intro c e c' h
  obtain ⟨a, c₁, ha⟩ := hx c
  cases ha.symm.trans h

theorem Reads.isAtomic (hx : x.Reads) : x.IsAtomic := by
  intro c e c' h
  have hleft := hx c
  rw [h] at hleft
  exact hleft

theorem isAtomic_throw (e : Error) : IsAtomic (throw e : Update α) := by
  intro c d c' h
  cases h
  rfl

theorem isAtomic_refuse (cause : Cause) : IsAtomic (refuse cause : Update α) := isAtomic_throw _

theorem IsAtomic.ite {p : Prop} [Decidable p] {y : Update α} (hx : x.IsAtomic)
    (hy : y.IsAtomic) : IsAtomic (if p then x else y) := by
  split
  · exact hx
  · exact hy

/-- An atomic change stays atomic behind steps that write nothing. -/
theorem Reads.bind_isAtomic (hx : x.Reads) (hf : ∀ a, (f a).IsAtomic) : (x >>= f).IsAtomic := by
  intro c e c' h
  rcases run_bind_eq_error.1 h with h | ⟨a, c₁, ha, h⟩
  · exact hx.isAtomic c e c' h
  · have hleft := hx c
    rw [ha] at hleft
    exact (hf a c₁ e c' h).trans hleft

/-- An atomic change stays atomic before steps that are never refused. -/
theorem IsAtomic.bind (hx : x.IsAtomic) (hf : ∀ a, (f a).Succeeds) : (x >>= f).IsAtomic := by
  intro c e c' h
  rcases run_bind_eq_error.1 h with h | ⟨a, c₁, -, h⟩
  · exact hx c e c' h
  · obtain ⟨b, c₂, hb⟩ := hf a c₁
    cases hb.symm.trans h

theorem IsAtomic.discard (hx : x.IsAtomic) : IsAtomic (discard x) := by
  rw [discard_eq_bind]
  exact hx.bind fun _ => succeeds_pure ()

end Metrology.Catalog.Update
