/-
  Metrology.Proofs.Outcome

  Steps that may fail: what is known of the parts of a computation once the whole has
  succeeded, computations that succeed wherever others do, and computations that have failures
  of some kinds only, such as overflow, or overflow exactly unless a condition holds.
-/
import Metrology.Error
import Mathlib.Data.List.Forall2

namespace Metrology

variable {ε α β : Type}

/-! ## Inversion -/

/-- A sequence succeeds exactly if both of its parts do. -/
theorem bind_eq_ok {x : Except ε α} {f : α → Except ε β} {b : β} :
    (x >>= f) = .ok b ↔ ∃ a, x = .ok a ∧ f a = .ok b := by
  cases x <;> simp [bind, Except.bind]

/-- A mapped step succeeds exactly if the step does. -/
theorem map_eq_ok {x : Except ε α} {f : α → β} {b : β} :
    f <$> x = .ok b ↔ ∃ a, x = .ok a ∧ f a = b := by
  cases x <;> simp [Functor.map, Except.map]

/-- A mapped step fails exactly as the step does. -/
theorem map_eq_error {x : Except ε α} {f : α → β} {e : ε} :
    f <$> x = .error e ↔ x = .error e := by
  cases x <;> simp [Functor.map, Except.map]

@[simp] theorem ok_bind (a : α) (f : α → Except ε β) : (Except.ok a >>= f) = f a := rfl

@[simp] theorem error_bind (e : ε) (f : α → Except ε β) :
    (Except.error e >>= f) = .error e := rfl

/-- Behind a check a computation succeeds exactly if the check does not fail. -/
theorem check_eq_ok {p : Prop} [Decidable p] {cause : Cause} {x : Except Error α} {a : α} :
    (if p then fail cause else x) = .ok a ↔ ¬ p ∧ x = .ok a := by
  by_cases h : p <;> simp [h, fail]

@[simp] theorem lift_ok (a : α) : Error.lift (.ok a) = .ok a := rfl

/-- Lifting a result on numbers keeps its success. -/
theorem lift_eq_ok {x : Except NumberError α} {a : α} : Error.lift x = .ok a ↔ x = .ok a := by
  cases x <;> simp [Error.lift]

theorem lift_bind (x : Except NumberError α) (f : α → Except NumberError β) :
    Error.lift (x >>= f) = Error.lift x >>= fun a => Error.lift (f a) := by
  cases x <;> rfl

/-- A list is mapped step by step exactly if every one of its items is. -/
theorem mapM_eq_ok {f : α → Except ε β} {as : List α} {bs : List β} :
    as.mapM f = .ok bs ↔ List.Forall₂ (fun a b => f a = .ok b) as bs := by
  induction as generalizing bs with
  | nil =>
    rw [List.mapM_nil, List.forall₂_nil_left_iff]
    exact ⟨fun h => by cases h; rfl, fun h => by rw [h]; rfl⟩
  | cons a as ih =>
    rw [List.mapM_cons, List.forall₂_cons_left_iff]
    simp only [bind_eq_ok, ih]
    constructor
    · rintro ⟨b, hb, bs', hbs', h⟩
      cases h
      exact ⟨b, bs', hb, hbs', rfl⟩
    · rintro ⟨b, bs', hb, hbs', rfl⟩
      exact ⟨b, hb, bs', hbs', rfl⟩

/-- Some list is related to a given one, place by place, exactly if every item is to something. -/
theorem exists_forall₂_iff {R : α → β → Prop} {as : List α} :
    (∃ bs, List.Forall₂ R as bs) ↔ ∀ a ∈ as, ∃ b, R a b := by
  induction as with
  | nil => exact iff_of_true ⟨[], .nil⟩ (List.forall_mem_nil _)
  | cons a as ih =>
    rw [List.forall_mem_cons, ← ih]
    constructor
    · rintro ⟨_, h⟩
      obtain ⟨b, bs, hb, hbs, -⟩ := List.forall₂_cons_left_iff.1 h
      exact ⟨⟨b, hb⟩, bs, hbs⟩
    · rintro ⟨⟨b, hb⟩, bs, hbs⟩
      exact ⟨b :: bs, .cons hb hbs⟩

/-- Every item of the second list is related to one of the first. -/
theorem exists_mem_of_forall₂ {R : α → β → Prop} {as : List α} {bs : List β} {b : β}
    (h : List.Forall₂ R as bs) (hb : b ∈ bs) : ∃ a ∈ as, R a b := by
  induction h with
  | nil => cases hb
  | @cons a _ _ _ hab _ ih =>
    rcases List.mem_cons.1 hb with rfl | hb
    · exact ⟨a, List.mem_cons_self, hab⟩
    · obtain ⟨a', ha', h'⟩ := ih hb
      exact ⟨a', List.mem_cons_of_mem _ ha', h'⟩

/-- A list can be mapped exactly if every one of its items can. -/
theorem exists_mapM_eq_ok_iff {f : α → Except ε β} {as : List α} :
    (∃ bs, as.mapM f = .ok bs) ↔ ∀ a ∈ as, ∃ b, f a = .ok b := by
  simp only [mapM_eq_ok, exists_forall₂_iff]

/-! ## Simulation -/

/-- Wherever the first computation succeeds the second one succeeds as well, with the image of
the result. -/
def Simulates (f : α → β) (x : Except ε α) (y : Except ε β) : Prop :=
  ∀ a, x = .ok a → y = .ok (f a)

namespace Simulates

variable {γ δ : Type} {f : α → β} {g : γ → δ} {x : Except ε α} {y : Except ε β}

theorem ok (f : α → β) (a : α) : Simulates f (.ok a : Except ε α) (.ok (f a)) := by
  intro b h
  cases h
  rfl

/-- A failure is simulated by anything. -/
theorem error (e : ε) : Simulates f (.error e) y := nofun

theorem bind {k : α → Except ε γ} {l : β → Except ε δ} (hx : Simulates f x y)
    (hk : ∀ a, Simulates g (k a) (l (f a))) : Simulates g (x >>= k) (y >>= l) := by
  intro c h
  obtain ⟨a, ha, hc⟩ := bind_eq_ok.1 h
  exact bind_eq_ok.2 ⟨f a, hx a ha, hk a c hc⟩

/-- A step that both computations share. -/
theorem bind_shared {k : α → Except ε γ} {l : α → Except ε δ}
    (hk : ∀ a, Simulates g (k a) (l a)) : Simulates g (x >>= k) (x >>= l) :=
  bind (f := id) (fun _ h => h) hk

theorem map {k : α → γ} {l : β → δ} (hx : Simulates f x y) (hk : ∀ a, l (f a) = g (k a)) :
    Simulates g (k <$> x) (l <$> y) := by
  intro c h
  obtain ⟨a, ha, rfl⟩ := map_eq_ok.1 h
  exact map_eq_ok.2 ⟨f a, hx a ha, hk a⟩

end Simulates

/-! ## Kinds of failure -/

/-- The step has no failures but those with a code of the given kind. -/
def FailsOnly (p : ErrorCode → Prop) (x : Except Error α) : Prop := ∀ e, x = .error e → p e.code

namespace FailsOnly

variable {p q : ErrorCode → Prop} {x y : Except Error α}

theorem ok (a : α) : FailsOnly p (.ok a) := nofun

theorem error {e : Error} (h : p e.code) : FailsOnly p (.error e : Except Error α) := by
  intro d hd
  cases hd
  exact h

theorem imp (hx : FailsOnly p x) (h : ∀ code, p code → q code) : FailsOnly q x :=
  fun e he => h e.code (hx e he)

theorem ite {c : Prop} [Decidable c] (hx : FailsOnly p x) (hy : FailsOnly p y) :
    FailsOnly p (if c then x else y) := by
  split
  · exact hx
  · exact hy

/-- The second step only has to be looked at where the first one leads to it. -/
theorem bind {f : α → Except Error β} (hx : FailsOnly p x)
    (hf : ∀ a, x = .ok a → FailsOnly p (f a)) : FailsOnly p (x >>= f) := by
  intro e h
  cases x with
  | error d =>
    cases h
    exact hx e rfl
  | ok a => exact hf a rfl e h

theorem map (f : α → β) (hx : FailsOnly p x) : FailsOnly p (f <$> x) := by
  intro e h
  cases x with
  | error d =>
    cases h
    exact hx e rfl
  | ok a => cases h

theorem mapM {f : α → Except Error β} (hf : ∀ a, FailsOnly p (f a)) (as : List α) :
    FailsOnly p (as.mapM f) := by
  induction as with
  | nil => exact ok []
  | cons a as ih =>
    rw [List.mapM_cons]
    exact (hf a).bind fun b _ => ih.bind fun bs _ => ok (b :: bs)

theorem foldlM {f : β → α → Except Error β} (hf : ∀ b a, FailsOnly p (f b a)) (as : List α)
    (b : β) : FailsOnly p (as.foldlM f b) := by
  induction as generalizing b with
  | nil => exact ok b
  | cons a as ih =>
    rw [List.foldlM_cons]
    exact (hf b a).bind fun c _ => ih c

end FailsOnly

/-! ## Failures that are no mismatch -/

/-- The step may fail, but neither because of the dimensions of units nor because of their
reference units. -/
abbrev MismatchFree (x : Except Error α) : Prop :=
  FailsOnly (fun code => code ≠ .dimensionMismatch ∧ code ≠ .referenceMismatch) x

theorem mismatchFree_lift (x : Except NumberError α) : MismatchFree (Error.lift x) := by
  cases x with
  | ok a => exact .ok a
  | error e =>
    apply FailsOnly.error
    cases e <;> exact ⟨nofun, nofun⟩

/-! ## Overflow as the only failure -/

/-- The step fails by overflow only. -/
def OverflowsOnly (x : Except Error α) : Prop := ∀ e, x = .error e → e.code = .overflow

namespace OverflowsOnly

variable {x : Except Error α}

theorem iff_failsOnly : OverflowsOnly x ↔ FailsOnly (· = .overflow) x := Iff.rfl

theorem mismatchFree (hx : OverflowsOnly x) : MismatchFree x := by
  refine (iff_failsOnly.1 hx).imp ?_
  rintro _ rfl
  exact ⟨nofun, nofun⟩

theorem ok (a : α) : OverflowsOnly (.ok a) := iff_failsOnly.2 (.ok a)

theorem bind {f : α → Except Error β} (hx : OverflowsOnly x) (hf : ∀ a, OverflowsOnly (f a)) :
    OverflowsOnly (x >>= f) :=
  iff_failsOnly.2 (.bind hx fun a _ => hf a)

theorem map (f : α → β) (hx : OverflowsOnly x) : OverflowsOnly (f <$> x) :=
  iff_failsOnly.2 (.map f hx)

theorem mapM {f : α → Except Error β} (hf : ∀ a, OverflowsOnly (f a)) (as : List α) :
    OverflowsOnly (as.mapM f) :=
  iff_failsOnly.2 (.mapM hf as)

end OverflowsOnly

/-- The step succeeds as described if the condition holds, and otherwise it overflows. -/
structure OverflowsUnless (p : Prop) (x : Except Error α) (P : α → Prop) : Prop where
  ok : p → ∃ a, x = .ok a ∧ P a
  overflow : ¬ p → ∃ e, x = .error e ∧ e.code = .overflow

theorem OverflowsOnly.overflowsUnless {p : Prop} {x : Except Error α} {P : α → Prop}
    (hx : OverflowsOnly x) (hok : p → ∃ a, x = .ok a) (hP : ∀ a, x = .ok a → p ∧ P a) :
    OverflowsUnless p x P := by
  constructor
  · intro hp
    obtain ⟨a, ha⟩ := hok hp
    exact ⟨a, ha, (hP a ha).2⟩
  · intro hp
    cases x with
    | error e => exact ⟨e, rfl, hx e rfl⟩
    | ok a => exact absurd (hP a rfl).1 hp

/-- A step that can only overflow succeeds if a result as described exists. -/
theorem OverflowsOnly.overflowsUnless_exists {x : Except Error α} {P : α → Prop}
    (hx : OverflowsOnly x) (h : ∀ a, x = .ok a ↔ P a) : OverflowsUnless (∃ a, P a) x P := by
  refine hx.overflowsUnless ?_ fun a ha => ⟨⟨a, (h a).1 ha⟩, (h a).1 ha⟩
  rintro ⟨a, ha⟩
  exact ⟨a, (h a).2 ha⟩

namespace OverflowsUnless

variable {p q : Prop} {x : Except Error α} {f : α → Except Error β} {P : α → Prop}
  {Q : β → Prop}

/-- A sequence succeeds if the conditions of both parts hold. -/
theorem bind (hx : OverflowsUnless p x P) (hf : ∀ a, P a → OverflowsUnless q (f a) Q) :
    OverflowsUnless (p ∧ q) (x >>= f) Q := by
  constructor
  · rintro ⟨hp, hq⟩
    obtain ⟨a, rfl, ha⟩ := hx.ok hp
    exact (hf a ha).ok hq
  · intro hpq
    by_cases hp : p
    · obtain ⟨a, rfl, ha⟩ := hx.ok hp
      exact (hf a ha).overflow fun hq => hpq ⟨hp, hq⟩
    · obtain ⟨e, rfl, he⟩ := hx.overflow hp
      exact ⟨e, rfl, he⟩

/-- A part that always succeeds adds no condition. -/
theorem bind_ok (hx : OverflowsUnless p x P) (hf : ∀ a, P a → ∃ b, f a = .ok b ∧ Q b) :
    OverflowsUnless p (x >>= f) Q := by
  constructor
  · intro hp
    obtain ⟨a, rfl, ha⟩ := hx.ok hp
    exact hf a ha
  · intro hp
    obtain ⟨e, rfl, he⟩ := hx.overflow hp
    exact ⟨e, rfl, he⟩

/-- What is made of a result changes no condition. -/
theorem map {f : α → β} (hx : OverflowsUnless p x P) (hf : ∀ a, P a → Q (f a)) :
    OverflowsUnless p (f <$> x) Q := by
  constructor
  · intro hp
    obtain ⟨a, rfl, ha⟩ := hx.ok hp
    exact ⟨f a, rfl, hf a ha⟩
  · intro hp
    obtain ⟨e, rfl, he⟩ := hx.overflow hp
    exact ⟨e, rfl, he⟩

theorem imp {R : α → Prop} (hx : OverflowsUnless p x P) (hR : ∀ a, P a → R a) :
    OverflowsUnless p x R := by
  refine ⟨fun hp => ?_, hx.overflow⟩
  obtain ⟨a, ha, hP⟩ := hx.ok hp
  exact ⟨a, ha, hR a hP⟩

/-- A result under a condition that holds. -/
theorem of_eq_ok {a : α} (hx : x = .ok a) (hp : p) (ha : P a) : OverflowsUnless p x P :=
  ⟨fun _ => ⟨a, hx, ha⟩, fun h => absurd hp h⟩

theorem congr (hx : OverflowsUnless p x P) (h : p ↔ q) : OverflowsUnless q x P :=
  ⟨fun hq => hx.ok (h.2 hq), fun hq => hx.overflow (mt h.1 hq)⟩

/-- The step succeeds exactly if its condition holds. -/
theorem exists_ok_iff (hx : OverflowsUnless p x P) : (∃ a, x = .ok a) ↔ p := by
  constructor
  · rintro ⟨a, ha⟩
    by_contra hp
    obtain ⟨e, he, -⟩ := hx.overflow hp
    cases ha.symm.trans he
  · intro hp
    obtain ⟨a, ha, -⟩ := hx.ok hp
    exact ⟨a, ha⟩

theorem not_of_error {e : Error} (hx : OverflowsUnless p x P) (h : x = .error e) : ¬ p := by
  intro hp
  obtain ⟨a, ha, -⟩ := hx.ok hp
  cases ha.symm.trans h

theorem overflowsOnly (hx : OverflowsUnless p x P) : OverflowsOnly x := by
  intro e he
  obtain ⟨d, hd, hcode⟩ := hx.overflow (hx.not_of_error he)
  cases hd.symm.trans he
  exact hcode

/-- A result is as described. -/
theorem of_ok {a : α} (hx : OverflowsUnless p x P) (h : x = .ok a) : P a := by
  obtain ⟨b, hb, hP⟩ := hx.ok (hx.exists_ok_iff.1 ⟨a, h⟩)
  cases h.symm.trans hb
  exact hP

/-- A list is mapped if the conditions of all its items hold. -/
theorem mapM {p : α → Prop} {f : α → Except Error β} {Q : α → β → Prop}
    (hf : ∀ a, OverflowsUnless (p a) (f a) (Q a)) (as : List α) :
    OverflowsUnless (∀ a ∈ as, p a) (as.mapM f) (List.Forall₂ Q as) := by
  have honly : OverflowsOnly (as.mapM f) := .mapM (fun a => (hf a).overflowsOnly) as
  have hexists : (∃ bs, as.mapM f = .ok bs) ↔ ∀ a ∈ as, p a := by
    rw [exists_mapM_eq_ok_iff]
    exact forall₂_congr fun a _ => (hf a).exists_ok_iff
  refine honly.overflowsUnless hexists.2 fun bs hbs => ⟨hexists.1 ⟨bs, hbs⟩, ?_⟩
  exact (mapM_eq_ok.1 hbs).imp fun a b hb => (hf a).of_ok hb

end OverflowsUnless

/-- Both steps succeed, with results that are related, or both of them overflow. -/
def SameOutcome (R : α → β → Prop) (x : Except Error α) (y : Except Error β) : Prop :=
  (∃ a b, x = .ok a ∧ y = .ok b ∧ R a b) ∨
    ∃ d e, x = .error d ∧ y = .error e ∧ d.code = .overflow ∧ e.code = .overflow

/-- Steps under equivalent conditions have the same outcome. -/
theorem OverflowsUnless.sameOutcome {p q : Prop} {x : Except Error α} {y : Except Error β}
    {P : α → Prop} {Q : β → Prop} {R : α → β → Prop} (hx : OverflowsUnless p x P)
    (hy : OverflowsUnless q y Q) (hpq : p ↔ q) (hR : ∀ a b, P a → Q b → R a b) :
    SameOutcome R x y := by
  by_cases hp : p
  · obtain ⟨a, ha, hPa⟩ := hx.ok hp
    obtain ⟨b, hb, hQb⟩ := hy.ok (hpq.1 hp)
    exact .inl ⟨a, b, ha, hb, hR a b hPa hQb⟩
  · obtain ⟨d, hd, hdcode⟩ := hx.overflow hp
    obtain ⟨e, he, hecode⟩ := hy.overflow (mt hpq.2 hp)
    exact .inr ⟨d, e, hd, he, hdcode, hecode⟩

end Metrology
