/-
  Metrology.Proofs.Dimension.Composition

  Dimensions composed of exponents in any order. The exponents are sorted, which keeps the
  powers of one base dimension in the order given, and these are added up from the left. So a
  composition succeeds exactly if all partial sums fit, and then it is canonical.
-/
import Metrology.Proofs.Dimension.Canonical
import Mathlib.Data.List.Sort

namespace Metrology

namespace BaseDimension

theorem atMost_trans (a b c : BaseDimension) (h : a.atMost b = true) (h' : b.atMost c = true) :
    a.atMost c = true :=
  Std.TransCmp.isLE_trans h h'

theorem atMost_total (a b : BaseDimension) : (a.atMost b || b.atMost a) = true := by
  have hswap : b.compare a = (a.compare b).swap := Std.OrientedCmp.eq_swap
  rw [atMost, atMost, hswap]
  cases a.compare b <;> rfl

theorem atMost_of_same {a b : BaseDimension} (h : a.same b = true) : a.atMost b = true := by
  rw [atMost, compare_eq_iff.2 h]
  rfl

/-! ## Sorting by a base dimension -/

section Sorting

variable {α : Type} (f : α → BaseDimension)

theorem pairwise_mergeSort (xs : List α) :
    (xs.mergeSort fun x y => (f x).atMost (f y)).Pairwise fun x y =>
      (f x).atMost (f y) = true := by
  apply List.pairwise_mergeSort
  · intro x y z
    exact atMost_trans (f x) (f y) (f z)
  · intro x y
    exact atMost_total (f x) (f y)

/-- Sorting keeps the items of one base dimension in the order given. -/
theorem filter_mergeSort (xs : List α) (b : BaseDimension) :
    ((xs.mergeSort fun x y => (f x).atMost (f y)).filter fun x => (f x).same b) =
      xs.filter fun x => (f x).same b := by
  have hordered : (xs.filter fun x => (f x).same b).Pairwise fun x y =>
      (f x).atMost (f y) = true := by
    refine List.pairwise_of_forall_mem_list fun x hx y hy => ?_
    have hxb := (List.mem_filter.1 hx).2
    have hyb := (List.mem_filter.1 hy).2
    apply atMost_of_same
    rw [same_congr hxb, same_comm, hyb]
  -- A part that is in order already is found as it is in the sorted list.
  have hsublist : (xs.filter fun x => (f x).same b).Sublist
      (xs.mergeSort fun x y => (f x).atMost (f y)) := by
    refine List.sublist_mergeSort ?_ ?_ hordered List.filter_sublist
    · intro x y z
      exact atMost_trans (f x) (f y) (f z)
    · intro x y
      exact atMost_total (f x) (f y)
  have hfilter := hsublist.filter fun x => (f x).same b
  rw [List.filter_filter] at hfilter
  simp only [Bool.and_self] at hfilter
  have hlength := ((List.mergeSort_perm xs fun x y => (f x).atMost (f y)).filter
    fun x => (f x).same b).length_eq
  exact (hfilter.eq_of_length hlength.symm).symm

end Sorting

end BaseDimension

namespace Exponents

variable {b : BaseDimension} {e x : Exponent} {p : Power} {es fs xs : List Exponent}

/-! ## Sorting -/

theorem sort_perm (es : List Exponent) : (sort es).Perm es := List.mergeSort_perm _ _

/-- A list is in the order of its base dimensions, where the same ones may come in any order. -/
def InOrder (es : List Exponent) : Prop :=
  es.Pairwise fun x y => x.base.atMost y.base = true

theorem inOrder_sort (es : List Exponent) : InOrder (sort es) :=
  BaseDimension.pairwise_mergeSort Exponent.base es

/-- If the first two of a list in order are not the same, the first one is before all others. -/
theorem lt_of_inOrder (h : InOrder (e :: x :: xs)) (hne : e.base.same x.base = false) :
    ∀ y ∈ x :: xs, e.base.compare y.base = .lt := by
  obtain ⟨hle, hsorted⟩ := List.pairwise_cons.1 h
  have hlt := BaseDimension.lt_of_atMost (hle x List.mem_cons_self) hne
  refine List.forall_mem_cons.2 ⟨hlt, fun y hy => ?_⟩
  exact Std.TransCmp.lt_of_lt_of_isLE hlt ((List.pairwise_cons.1 hsorted).1 y hy)

/-- Sorting keeps the powers of one base dimension in the order given. -/
theorem filter_sort (es : List Exponent) (b : BaseDimension) :
    ((sort es).filter fun e => e.base.same b) = es.filter fun e => e.base.same b :=
  BaseDimension.filter_mergeSort Exponent.base es b

theorem degree_perm (h : es.Perm fs) (b : BaseDimension) : degree es b = degree fs b :=
  (h.map _).sum_eq

/-- The degree of a base dimension depends on its own powers only. -/
theorem degree_filter_same (es : List Exponent) (b : BaseDimension) :
    degree (es.filter fun e => e.base.same b) b = degree es b := by
  induction es with
  | nil => rfl
  | cons e es ih =>
    rw [List.filter_cons]
    by_cases he : e.base.same b = true
    · rw [if_pos he, degree_cons, degree_cons, ih]
    · rw [if_neg he, degree_cons, if_neg he, zero_add, ih]

/-! ## Partial sums -/

/-- The powers of each base dimension are added up from the left within the range. -/
def PartialSumsFit (es : List Exponent) : Prop :=
  ∀ ps, ps <+: es → ∀ b, Width.w32.Fits (degree ps b)

theorem partialSumsFit_nil : PartialSumsFit [] := by
  intro ps hps b
  rw [List.prefix_nil.1 hps]
  exact Width.fits_zero .w32

theorem partialSumsFit_cons :
    PartialSumsFit (e :: es) ↔ ∀ ps, ps <+: es → ∀ b, Width.w32.Fits (degree (e :: ps) b) := by
  constructor
  · intro h ps hps b
    exact h (e :: ps) ((List.prefix_cons_inj e).2 hps) b
  · intro h ps hps b
    rcases List.prefix_cons_iff.1 hps with rfl | ⟨qs, rfl, hqs⟩
    · exact Width.fits_zero .w32
    · exact h qs hqs b

theorem fits_degree_singleton (e : Exponent) (b : BaseDimension) :
    Width.w32.Fits (degree [e] b) :=
  fits_degree (List.pairwise_singleton _ e) b

/-- Only the partial sums of each base dimension by itself matter. -/
theorem partialSumsFit_iff_filter :
    PartialSumsFit es ↔
      ∀ b ps, ps <+: (es.filter fun e => e.base.same b) → Width.w32.Fits (degree ps b) := by
  constructor
  · intro h b ps hps
    obtain ⟨qs, hqs, rfl⟩ := List.prefix_filter_iff.1 hps
    rw [degree_filter_same]
    exact h qs hqs b
  · intro h ps hps b
    rw [← degree_filter_same]
    exact h b _ (hps.filter _)

/-- Sorting changes no partial sum, as it is stable. -/
theorem partialSumsFit_sort : PartialSumsFit (sort es) ↔ PartialSumsFit es := by
  simp only [partialSumsFit_iff_filter, filter_sort]

/-- Neighbouring powers of one base dimension may be added up first. -/
theorem degree_join (hsame : e.base.same x.base = true)
    (hp : p.val = e.power.val + x.power.val) (ps : List Exponent) (b : BaseDimension) :
    degree (⟨e.base, p⟩ :: ps) b = degree (e :: x :: ps) b := by
  rw [degree_cons, degree_cons, degree_cons, ← BaseDimension.same_congr hsame, hp]
  split <;> omega

theorem partialSumsFit_join (hsame : e.base.same x.base = true)
    (hp : p.val = e.power.val + x.power.val) :
    PartialSumsFit (e :: x :: xs) ↔ PartialSumsFit (⟨e.base, p⟩ :: xs) := by
  have hdegree := degree_join hsame hp
  rw [partialSumsFit_cons, partialSumsFit_cons]
  constructor
  · intro h ps hps b
    rw [hdegree]
    exact h (x :: ps) ((List.prefix_cons_inj x).2 hps) b
  · intro h ps hps b
    rcases List.prefix_cons_iff.1 hps with rfl | ⟨qs, rfl, hqs⟩
    · exact fits_degree_singleton e b
    · rw [← hdegree]
      exact h qs hqs b

/-- The sum of the first two powers of one base dimension is a partial sum. -/
theorem PartialSumsFit.fits_add (h : PartialSumsFit (e :: x :: xs))
    (hsame : e.base.same x.base = true) : Width.w32.Fits (e.power.val + x.power.val) := by
  have htwo := h [e, x] (List.prefix_append [e, x] xs) x.base
  rwa [degree_cons, degree_cons, degree_nil, hsame, if_pos rfl, if_pos x.base.same_self,
    add_zero] at htwo

/-- A base dimension that comes first and once has one partial sum, its power. -/
theorem partialSumsFit_cons_of_lt (h : ∀ x ∈ es, e.base.compare x.base = .lt) :
    PartialSumsFit (e :: es) ↔ PartialSumsFit es := by
  rw [partialSumsFit_cons]
  refine forall_congr' fun ps => forall_congr' fun hps => forall_congr' fun b => ?_
  by_cases hb : e.base.same b = true
  · have hzero : degree ps b = 0 :=
      degree_eq_zero_of_same hb fun x hx => h x (hps.subset hx)
    rw [degree_cons, if_pos hb, hzero, add_zero]
    exact iff_of_true e.power.fits (Width.fits_zero .w32)
  · rw [degree_cons, if_neg hb, zero_add]

/-! ## Composition -/

/-- Adding up neighbours in a sorted list. -/
theorem gather_overflowsUnless (h : InOrder (e :: es)) :
    OverflowsUnless (PartialSumsFit (e :: es)) (gather e es) fun zs =>
      Increasing zs ∧ (∀ b, degree zs b = degree (e :: es) b) ∧
        ∀ c : BaseDimension, (∀ x ∈ e :: es, c.compare x.base = .lt) →
          ∀ z ∈ zs, c.compare z.base = .lt := by
  induction es generalizing e with
  | nil =>
    refine ⟨fun _ => ⟨[e], rfl, List.pairwise_singleton _ e, fun b => rfl, fun c hc => hc⟩, ?_⟩
    intro hfits
    refine absurd (partialSumsFit_cons.2 fun ps hps b => ?_) hfits
    rw [List.prefix_nil.1 hps]
    exact fits_degree_singleton e b
  | cons x xs ih =>
    obtain ⟨hle, hsorted⟩ := List.pairwise_cons.1 h
    by_cases hsame : e.base.same x.base = true
    · rw [gather, if_pos hsame]
      by_cases hfits : Width.w32.Fits (e.power.val + x.power.val)
      · obtain ⟨p, hp, hval⟩ := (sum_overflowsUnless e.power x.power).ok hfits
        -- The sum takes the place of both entries, in order and with the same partial sums.
        have hjoined : InOrder (⟨e.base, p⟩ :: xs) :=
          List.pairwise_cons.2 ⟨fun y hy => hle y (List.mem_cons_of_mem x hy),
            (List.pairwise_cons.1 hsorted).2⟩
        rw [hp, ok_bind, partialSumsFit_join hsame hval]
        refine (ih hjoined).imp ?_
        rintro zs ⟨hincreasing, hdegree, hlower⟩
        refine ⟨hincreasing, fun b => ?_, fun c hc => ?_⟩
        · rw [hdegree b, degree_join hsame hval]
        · obtain ⟨hce, hcx⟩ := List.forall_mem_cons.1 hc
          exact hlower c (List.forall_mem_cons.2 ⟨hce, (List.forall_mem_cons.1 hcx).2⟩)
      · obtain ⟨d, hd, hcode⟩ := (sum_overflowsUnless e.power x.power).overflow hfits
        rw [hd, error_bind]
        exact ⟨fun hsums => absurd (hsums.fits_add hsame) hfits, fun _ => ⟨d, rfl, hcode⟩⟩
    · -- Nothing more is added to this entry, as all that follows comes after it.
      have hlt := lt_of_inOrder h (Bool.eq_false_iff.2 hsame)
      rw [gather, if_neg hsame, partialSumsFit_cons_of_lt hlt]
      refine (ih hsorted).map ?_
      rintro zs ⟨hincreasing, hdegree, hlower⟩
      refine ⟨increasing_cons.2 ⟨hlower e.base hlt, hincreasing⟩, fun b => ?_, fun c hc => ?_⟩
      · rw [degree_cons, degree_cons, hdegree b]
      · obtain ⟨hce, hcx⟩ := List.forall_mem_cons.1 hc
        exact List.forall_mem_cons.2 ⟨hce, hlower c hcx⟩

theorem degree_filter_nonzero (es : List Exponent) (b : BaseDimension) :
    degree (es.filter fun e => e.power.val != 0) b = degree es b := by
  induction es with
  | nil => rfl
  | cons e es ih =>
    rw [List.filter_cons]
    by_cases he : e.power.val = 0
    · have hdrop : ¬ (e.power.val != 0) = true := by simp [he]
      rw [if_neg hdrop, degree_cons, he, ite_self, zero_add, ih]
    · have hkeep : (e.power.val != 0) = true := by simp [he]
      rw [if_pos hkeep, degree_cons, degree_cons, ih]

/-- Dropping zero powers makes an increasing list canonical. -/
theorem isCanonical_filter_nonzero (hes : Increasing es) :
    IsCanonical (es.filter fun e => e.power.val != 0) := by
  refine ⟨hes.filter _, fun e he => ?_⟩
  have hnonzero := (List.mem_filter.1 he).2
  simpa using hnonzero

/-- A list is normalized to the canonical list of its degrees, if all partial sums fit. -/
theorem normalize_overflowsUnless (es : List Exponent) :
    OverflowsUnless (PartialSumsFit es) (normalize es) fun zs =>
      IsCanonical zs ∧ ∀ b, degree zs b = degree es b := by
  have hsorted := inOrder_sort es
  have hdegree (b : BaseDimension) := degree_perm (sort_perm es) b
  rw [← partialSumsFit_sort, normalize]
  simp only [← hdegree]
  generalize sort es = sorted at hsorted
  cases sorted with
  | nil =>
    refine ⟨fun _ => ⟨[], rfl, isCanonical_nil, fun b => rfl⟩, fun h => ?_⟩
    exact absurd partialSumsFit_nil h
  | cons e rest =>
    refine (gather_overflowsUnless hsorted).map ?_
    rintro zs ⟨hincreasing, hzs, -⟩
    refine ⟨isCanonical_filter_nonzero hincreasing, fun b => ?_⟩
    rw [degree_filter_nonzero, hzs b]

/-! ## Base dimensions of a composition -/

/-- Adding up powers makes no new base dimensions, reference magnitudes included. -/
theorem forall_base_gather {P : BaseDimension → Prop} (hes : ∀ x ∈ e :: es, P x.base)
    (h : gather e es = .ok fs) : ∀ z ∈ fs, P z.base := by
  induction es generalizing e fs with
  | nil =>
    cases h
    exact hes
  | cons x xs ih =>
    obtain ⟨he, hxs⟩ := List.forall_mem_cons.1 hes
    rw [gather] at h
    split at h
    · obtain ⟨p, -, h⟩ := bind_eq_ok.1 h
      have hjoined : ∀ y ∈ (⟨e.base, p⟩ : Exponent) :: xs, P y.base :=
        List.forall_mem_cons.2 ⟨he, (List.forall_mem_cons.1 hxs).2⟩
      exact ih hjoined h
    · obtain ⟨zs, hzs, rfl⟩ := map_eq_ok.1 h
      exact List.forall_mem_cons.2 ⟨he, ih hxs hzs⟩

theorem forall_base_normalize {P : BaseDimension → Prop} (hes : ∀ x ∈ es, P x.base)
    (h : normalize es = .ok fs) : ∀ z ∈ fs, P z.base := by
  have hsorted : ∀ x ∈ sort es, P x.base := fun x hx => hes x ((sort_perm es).mem_iff.1 hx)
  rw [normalize] at h
  generalize sort es = sorted at h hsorted
  cases sorted with
  | nil =>
    cases h
    exact List.forall_mem_nil _
  | cons e rest =>
    obtain ⟨zs, hzs, rfl⟩ := map_eq_ok.1 h
    exact fun z hz => forall_base_gather hsorted hzs z (List.mem_filter.1 hz).1

end Exponents

namespace Dimension

/-- The dimension of the exponents exists exactly if all partial sums fit, and has the totals
as its powers. -/
theorem ofExponents_overflowsUnless (es : List Exponent) :
    OverflowsUnless (Exponents.PartialSumsFit es) (ofExponents es) fun d =>
      d.IsCanonical ∧ ∀ b, (d.powerOf b).val = Exponents.degree es b := by
  refine (Exponents.normalize_overflowsUnless es).map ?_
  rintro zs ⟨hcanonical, hdegree⟩
  refine ⟨hcanonical, fun b => ?_⟩
  rw [powerOf_val hcanonical]
  exact hdegree b

theorem forall_base_ofExponents {P : BaseDimension → Prop} {es : List Exponent} {d : Dimension}
    (hes : ∀ x ∈ es, P x.base) (h : ofExponents es = .ok d) : ∀ z ∈ d.exponents, P z.base := by
  obtain ⟨zs, hzs, rfl⟩ := map_eq_ok.1 h
  exact Exponents.forall_base_normalize hes hzs

end Dimension

end Metrology
