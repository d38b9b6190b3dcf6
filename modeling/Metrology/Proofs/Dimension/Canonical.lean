/-
  Metrology.Proofs.Dimension.Canonical

  Canonical lists of exponents: sorted by base dimension, one entry for each, no zero power.
  In such a list every entry is the degree of its base dimension, so that the list is
  determined by its degrees and a canonical dimension by its powers.
-/
import Metrology.Proofs.Dimension.Degree
import Metrology.Systems.Mechanics

namespace Metrology

/-! ## The order of base dimensions -/

namespace BaseDimension

variable {a b c : BaseDimension}

theorem same_comm (a b : BaseDimension) : a.same b = b.same a := by
  rw [Bool.eq_iff_iff, same_iff, same_iff, eq_comm, eq_comm (a := a.referenceUnit)]

@[simp] theorem same_self (a : BaseDimension) : a.same a = true := same_iff.2 ⟨rfl, rfl⟩

theorem not_same_of_lt (h : a.compare b = .lt) : a.same b = false := by
  rw [← Bool.not_eq_true, ← compare_eq_iff, h]
  decide

theorem not_same_of_gt (h : b.compare a = .lt) : a.same b = false := by
  rw [same_comm, not_same_of_lt h]

/-- Two base dimensions that are not the same are in their strict order. -/
theorem lt_of_atMost (h : a.atMost b = true) (hne : a.same b = false) : a.compare b = .lt := by
  have heq : a.compare b ≠ .eq := by
    rw [ne_eq, compare_eq_iff, hne]
    decide
  rw [atMost] at h
  cases hcompare : a.compare b with
  | lt => rfl
  | eq => exact absurd hcompare heq
  | gt =>
    rw [hcompare] at h
    cases h

end BaseDimension

namespace Exponents

variable {a b : BaseDimension} {e x y : Exponent} {es as bs xs ys : List Exponent}

/-! ## Entries and degrees -/

/-- A list is in the strict order of its base dimensions. -/
def Increasing (es : List Exponent) : Prop := es.Pairwise fun x y => x.base.compare y.base = .lt

theorem increasing_cons :
    Increasing (e :: es) ↔ (∀ x ∈ es, e.base.compare x.base = .lt) ∧ Increasing es :=
  List.pairwise_cons

/-- A base dimension that does not occur has degree zero. -/
theorem degree_eq_zero (h : ∀ e ∈ es, e.base.same b = false) : degree es b = 0 := by
  induction es with
  | nil => rfl
  | cons e es ih =>
    have he := h e List.mem_cons_self
    have hes := ih fun x hx => h x (List.mem_cons_of_mem e hx)
    rw [degree_cons, he, hes]
    rfl

theorem degree_eq_zero_of_lt (h : ∀ e ∈ es, b.compare e.base = .lt) : degree es b = 0 :=
  degree_eq_zero fun e he => BaseDimension.not_same_of_gt (h e he)

/-- Degrees do not tell the same base dimensions apart. -/
theorem degree_congr_base (h : a.same b = true) (es : List Exponent) :
    degree es a = degree es b := by
  induction es with
  | nil => rfl
  | cons e es ih =>
    have he : e.base.same a = e.base.same b := by
      rw [BaseDimension.same_comm e.base, BaseDimension.same_congr h, BaseDimension.same_comm b]
    rw [degree_cons, degree_cons, he, ih]

/-- What is before the head of an increasing list is before all of it. -/
theorem lt_of_lt_head? (hes : Increasing es) (h : ∀ e ∈ es.head?, b.compare e.base = .lt) :
    ∀ x ∈ es, b.compare x.base = .lt := by
  cases es with
  | nil => exact List.forall_mem_nil _
  | cons e es =>
    have hhead : b.compare e.base = .lt := h e rfl
    obtain ⟨hlt, -⟩ := increasing_cons.1 hes
    exact List.forall_mem_cons.2 ⟨hhead, fun x hx => Std.TransCmp.lt_trans hhead (hlt x hx)⟩

theorem lt_of_lt_head (hes : Increasing (e :: es)) (h : b.compare e.base = .lt) :
    ∀ x ∈ e :: es, b.compare x.base = .lt :=
  lt_of_lt_head? hes (by rintro _ ⟨⟩; exact h)

theorem degree_eq_zero_of_same (hb : a.same b = true) (h : ∀ e ∈ es, a.compare e.base = .lt) :
    degree es b = 0 := by
  rw [← degree_congr_base hb, degree_eq_zero_of_lt h]

/-- Without its head an increasing list has the same degrees, except for that of the head. -/
theorem degree_tail (h : ∀ x ∈ es, e.base.compare x.base = .lt) (b : BaseDimension) :
    degree es b = if e.base.same b then 0 else degree (e :: es) b := by
  by_cases hb : e.base.same b = true
  · rw [if_pos hb, degree_eq_zero_of_same hb h]
  · rw [if_neg hb, degree_cons, if_neg hb, zero_add]

/-- The degree of a base dimension that occurs is the power in its one entry. -/
theorem degree_of_mem (hes : Increasing es) (he : e ∈ es) : degree es e.base = e.power.val := by
  induction es with
  | nil => cases he
  | cons x xs ih =>
    obtain ⟨hx, hxs⟩ := increasing_cons.1 hes
    rcases List.mem_cons.1 he with rfl | hmem
    · rw [degree_cons, BaseDimension.same_self, degree_eq_zero_of_lt hx, if_pos rfl, add_zero]
    · rw [degree_cons, BaseDimension.not_same_of_lt (hx e hmem), ih hxs hmem]
      exact zero_add _

/-- A degree is zero or the power in an entry. -/
theorem degree_cases (hes : Increasing es) (b : BaseDimension) :
    degree es b = 0 ∨ ∃ e ∈ es, e.base.same b = true ∧ degree es b = e.power.val := by
  by_cases hb : ∃ e ∈ es, e.base.same b = true
  · obtain ⟨e, he, hsame⟩ := hb
    right
    refine ⟨e, he, hsame, ?_⟩
    rw [← degree_congr_base hsame, degree_of_mem hes he]
  · left
    exact degree_eq_zero fun e he => Bool.eq_false_iff.2 fun hsame => hb ⟨e, he, hsame⟩

/-- The degrees of an increasing list are powers. -/
theorem fits_degree (hes : Increasing es) (b : BaseDimension) :
    Width.w32.Fits (degree es b) := by
  rcases degree_cases hes b with hzero | ⟨e, -, -, hpower⟩
  · rw [hzero]
    exact Width.fits_zero .w32
  · rw [hpower]
    exact e.power.fits

/-! ## Canonical lists -/

/-- Sorted by base dimension, with one entry for each and no power zero. -/
structure IsCanonical (es : List Exponent) : Prop where
  increasing : Increasing es
  nonzero : ∀ e ∈ es, e.power.val ≠ 0

instance (es : List Exponent) : Decidable (Increasing es) :=
  inferInstanceAs (Decidable (es.Pairwise _))

instance (es : List Exponent) : Decidable (IsCanonical es) :=
  decidable_of_iff (Increasing es ∧ ∀ e ∈ es, e.power.val ≠ 0)
    ⟨fun h => ⟨h.1, h.2⟩, fun h => ⟨h.increasing, h.nonzero⟩⟩

theorem isCanonical_nil : IsCanonical [] := ⟨.nil, List.forall_mem_nil _⟩

theorem isCanonical_cons :
    IsCanonical (e :: es) ↔
      (∀ x ∈ es, e.base.compare x.base = .lt) ∧ e.power.val ≠ 0 ∧ IsCanonical es := by
  constructor
  · rintro ⟨hincreasing, hnonzero⟩
    obtain ⟨hlt, hes⟩ := increasing_cons.1 hincreasing
    obtain ⟨he, hrest⟩ := List.forall_mem_cons.1 hnonzero
    exact ⟨hlt, he, hes, hrest⟩
  · rintro ⟨hlt, he, hes, hrest⟩
    exact ⟨increasing_cons.2 ⟨hlt, hes⟩, List.forall_mem_cons.2 ⟨he, hrest⟩⟩

/-- The first base dimension of a canonical list has a degree. -/
theorem degree_head_ne_zero (h : IsCanonical (e :: es)) : degree (e :: es) e.base ≠ 0 := by
  rw [degree_of_mem h.increasing List.mem_cons_self]
  exact h.nonzero e List.mem_cons_self

/-- The first base dimension of a canonical list is not before that of a list with the same
degrees, which would not have it. -/
theorem not_head_lt (hx : IsCanonical (x :: xs)) (hy : IsCanonical (y :: ys))
    (h : ∀ c, degree (x :: xs) c = degree (y :: ys) c) : x.base.compare y.base ≠ .lt := by
  intro hlt
  have hzero := degree_eq_zero_of_lt (lt_of_lt_head hy.increasing hlt)
  exact degree_head_ne_zero hx ((h x.base).trans hzero)

/-- Canonical lists with the same degrees begin with the same entry. -/
theorem same_head_of_degree (hx : IsCanonical (x :: xs)) (hy : IsCanonical (y :: ys))
    (h : ∀ c, degree (x :: xs) c = degree (y :: ys) c) :
    x.base.same y.base = true ∧ x.power = y.power := by
  have hbase : x.base.same y.base = true := by
    rw [← BaseDimension.compare_eq_iff]
    cases hcompare : x.base.compare y.base with
    | eq => rfl
    | lt => exact absurd hcompare (not_head_lt hx hy h)
    | gt =>
      have hlt := Std.OrientedCmp.gt_iff_lt.1 hcompare
      exact absurd hlt (not_head_lt hy hx fun c => (h c).symm)
  refine ⟨hbase, FixedInt.ext ?_⟩
  have hdegree := h x.base
  rwa [degree_congr_base hbase (y :: ys), degree_of_mem hx.increasing List.mem_cons_self,
    degree_of_mem hy.increasing List.mem_cons_self] at hdegree

/-- Canonical lists with the same degrees are the same. -/
theorem same_of_degree (ha : IsCanonical as) (hb : IsCanonical bs)
    (h : ∀ c, degree as c = degree bs c) : same as bs = true := by
  induction as generalizing bs with
  | nil =>
    cases bs with
    | nil => rfl
    | cons y ys => exact absurd (h y.base).symm (degree_head_ne_zero hb)
  | cons x xs ih =>
    cases bs with
    | nil => exact absurd (h x.base) (degree_head_ne_zero ha)
    | cons y ys =>
      obtain ⟨hbase, hpower⟩ := same_head_of_degree ha hb h
      obtain ⟨hx, -, hxs⟩ := isCanonical_cons.1 ha
      obtain ⟨hy, -, hys⟩ := isCanonical_cons.1 hb
      have hrest : same xs ys = true := by
        refine ih hxs hys fun c => ?_
        rw [degree_tail hx, degree_tail hy, BaseDimension.same_congr hbase, h c]
      rw [same, Exponent.same, hbase, hpower, hrest]
      simp

end Exponents

/-! ## Canonical dimensions -/

namespace Dimension

variable {c d : Dimension}

/-- The exponents are a canonical list. -/
def IsCanonical (d : Dimension) : Prop := Exponents.IsCanonical d.exponents

instance (d : Dimension) : Decidable d.IsCanonical :=
  inferInstanceAs (Decidable (Exponents.IsCanonical d.exponents))

/-- The power that is looked up is the degree. -/
theorem powerOf_val (h : d.IsCanonical) (b : BaseDimension) :
    (d.powerOf b).val = d.degree b := by
  rw [powerOf]
  cases hfind : d.exponents.find? fun e => e.base.same b with
  | none =>
    have hnone : ∀ e ∈ d.exponents, e.base.same b = false := fun e he =>
      Bool.eq_false_iff.2 (List.find?_eq_none.1 hfind e he)
    exact (Exponents.degree_eq_zero hnone).symm
  | some e =>
    have he := List.mem_of_find?_eq_some hfind
    have hsame := List.find?_some (p := fun e : Exponent => e.base.same b) hfind
    rw [degree, ← Exponents.degree_congr_base hsame, Exponents.degree_of_mem h.increasing he]

/-- Canonical dimensions are the same exactly if all their powers are equal. -/
theorem same_iff_powerOf (hc : c.IsCanonical) (hd : d.IsCanonical) :
    c.same d = true ↔ ∀ b, c.powerOf b = d.powerOf b := by
  constructor
  · intro h b
    apply FixedInt.ext
    rw [powerOf_val hc, powerOf_val hd, degree_of_same h]
  · intro h
    apply Exponents.same_of_degree hc hd
    intro b
    have hpower := congrArg FixedInt.val (h b)
    rwa [powerOf_val hc, powerOf_val hd] at hpower

/-- Length over time. -/
def speed : Dimension := ⟨[⟨Systems.length, 1⟩, ⟨Systems.time, .lit (-1)⟩]⟩

theorem isCanonical_speed : speed.IsCanonical := by decide

end Dimension

end Metrology
