/-
  Metrology.Proofs.Dimension.Degree

  A dimension as the integer power of every base dimension, its degrees. The algebra of
  exponent lists adds, subtracts and multiplies degrees, whatever the order of the lists. What
  a merge of two lists does with their entries is said here once.
-/
import Metrology.Dimension.Basic
import Metrology.Proofs.Outcome
import Mathlib.Algebra.BigOperators.Group.List.Basic
import Mathlib.Tactic.Ring

namespace Metrology

/-! ## Same bases, same dimensions -/

namespace BaseDimension

instance : Std.TransCmp compare :=
  inferInstanceAs (Std.TransCmp (compareLex (compareOn name) (compareOn referenceUnit)))

theorem same_iff {a b : BaseDimension} :
    a.same b = true ↔ a.name = b.name ∧ a.referenceUnit = b.referenceUnit := by
  simp [same]

theorem compare_eq_iff {a b : BaseDimension} : a.compare b = .eq ↔ a.same b = true := by
  rw [compare, Ordering.then_eq_eq, same_iff, Std.LawfulEqCmp.compare_eq_iff_eq,
    Std.LawfulEqCmp.compare_eq_iff_eq]

/-- Same bases are told apart from others alike. -/
theorem same_congr {a b : BaseDimension} (h : a.same b = true) (c : BaseDimension) :
    a.same c = b.same c := by
  rw [same_iff] at h
  rw [same, same, h.1, h.2]

end BaseDimension

namespace Exponents

theorem same_refl (es : List Exponent) : same es es = true := by
  induction es with
  | nil => rfl
  | cons e es ih => simp [same, Exponent.same, BaseDimension.same, ih]

theorem same_symm {as bs : List Exponent} (h : same as bs = true) : same bs as = true := by
  induction as generalizing bs with
  | nil => cases bs <;> simp_all [same]
  | cons a as ih =>
    cases bs with
    | nil => simp [same] at h
    | cons b bs =>
      simp only [same, Exponent.same, BaseDimension.same, Bool.and_eq_true, beq_iff_eq] at h ⊢
      obtain ⟨⟨⟨hname, hunit⟩, hpower⟩, hrest⟩ := h
      exact ⟨⟨⟨hname.symm, hunit.symm⟩, hpower.symm⟩, ih hrest⟩

theorem same_trans {as bs cs : List Exponent} (h : same as bs = true)
    (h' : same bs cs = true) : same as cs = true := by
  induction as generalizing bs cs with
  | nil =>
    cases bs with
    | nil => exact h'
    | cons b bs => simp [same] at h
  | cons a as ih =>
    cases bs with
    | nil => simp [same] at h
    | cons b bs =>
      cases cs with
      | nil => simp [same] at h'
      | cons c cs =>
        simp only [same, Exponent.same, BaseDimension.same, Bool.and_eq_true,
          beq_iff_eq] at h h' ⊢
        obtain ⟨⟨⟨hname, hunit⟩, hpower⟩, hrest⟩ := h
        obtain ⟨⟨⟨hname', hunit'⟩, hpower'⟩, hrest'⟩ := h'
        exact ⟨⟨⟨hname.trans hname', hunit.trans hunit'⟩, hpower.trans hpower'⟩,
          ih hrest hrest'⟩

/-! ## Degrees of exponent lists -/

/-- The sum of the powers that a list gives to a base dimension. -/
def degree (es : List Exponent) (b : BaseDimension) : Int :=
  (es.map fun e => if e.base.same b then e.power.val else 0).sum

@[simp] theorem degree_nil (b : BaseDimension) : degree [] b = 0 := rfl

@[simp] theorem degree_cons (e : Exponent) (es : List Exponent) (b : BaseDimension) :
    degree (e :: es) b = (if e.base.same b then e.power.val else 0) + degree es b := by
  rw [degree, List.map_cons, List.sum_cons, degree]

theorem degree_congr {as bs : List Exponent} (h : same as bs = true) (c : BaseDimension) :
    degree as c = degree bs c := by
  induction as generalizing bs with
  | nil => cases bs <;> simp_all [same]
  | cons a as ih =>
    cases bs with
    | nil => simp [same] at h
    | cons b bs =>
      simp only [same, Exponent.same, Bool.and_eq_true, beq_iff_eq] at h
      obtain ⟨⟨hbase, hpower⟩, hrest⟩ := h
      rw [degree_cons, degree_cons, BaseDimension.same_congr hbase, hpower, ih hrest]

/-! ## Degrees of sums, differences and multiples -/

theorem scaled_eq_ok {a n c : Power} : scaled a n = .ok c ↔ c.val = a.val * n.val := by
  rw [scaled, ← FixedInt.ofInt?_eq_some_iff, FixedInt.mul?]
  cases FixedInt.ofInt? .w32 (a.val * n.val) <;> simp [fail]

theorem sum_eq_ok {a b c : Power} : sum a b = .ok c ↔ c.val = a.val + b.val := by
  rw [sum, ← FixedInt.ofInt?_eq_some_iff, FixedInt.add?]
  cases FixedInt.ofInt? .w32 (a.val + b.val) <;> simp [fail]

theorem scale_eq_ok {n : Power} {e f : Exponent} :
    scale n e = .ok f ↔ f.base = e.base ∧ f.power.val = e.power.val * n.val := by
  obtain ⟨base, power⟩ := f
  simp only [scale, map_eq_ok, scaled_eq_ok, Exponent.mk.injEq]
  constructor
  · rintro ⟨c, hc, rfl, rfl⟩
    exact ⟨rfl, hc⟩
  · rintro ⟨rfl, hc⟩
    exact ⟨power, hc, rfl, rfl⟩

theorem scaled_overflowsUnless (a n : Power) :
    OverflowsUnless (Width.w32.Fits (a.val * n.val)) (scaled a n) (·.val = a.val * n.val) := by
  constructor
  · intro h
    exact ⟨⟨_, h⟩, scaled_eq_ok.2 rfl, rfl⟩
  · intro h
    rw [scaled, FixedInt.mul?, FixedInt.ofInt?_eq_none_iff.2 h]
    exact ⟨_, rfl, rfl⟩

theorem sum_overflowsUnless (a b : Power) :
    OverflowsUnless (Width.w32.Fits (a.val + b.val)) (sum a b) (·.val = a.val + b.val) := by
  constructor
  · intro h
    exact ⟨⟨_, h⟩, sum_eq_ok.2 rfl, rfl⟩
  · intro h
    rw [sum, FixedInt.add?, FixedInt.ofInt?_eq_none_iff.2 h]
    exact ⟨_, rfl, rfl⟩

theorem scale_overflowsUnless (n : Power) (e : Exponent) :
    OverflowsUnless (Width.w32.Fits (e.power.val * n.val)) (scale n e)
      fun f => f.base = e.base ∧ f.power.val = e.power.val * n.val :=
  (scaled_overflowsUnless e.power n).map fun _ hc => ⟨rfl, hc⟩

theorem degree_mapM_scale {n : Power} {es fs : List Exponent}
    (h : es.mapM (scale n) = .ok fs) (b : BaseDimension) :
    degree fs b = degree es b * n.val := by
  induction es generalizing fs with
  | nil =>
    cases h
    simp
  | cons e es ih =>
    rw [List.mapM_cons] at h
    simp only [bind_eq_ok, scale_eq_ok, pure, Except.pure, Except.ok.injEq] at h
    obtain ⟨f, ⟨hbase, hpower⟩, fs, hfs, rfl⟩ := h
    rw [degree_cons, degree_cons, ih hfs, hbase, hpower]
    split <;> ring

/-! ## Merging -/

/-- What merging makes of two lists when it succeeds. The next entry comes from the list whose
head is first, the second list's with a multiplied power; the powers of a common head are added
up, and a sum that is zero leaves no entry. -/
inductive Merged (sign : Power) : List Exponent → List Exponent → List Exponent → Prop where
  | nil : Merged sign [] [] []
  | left {x : Exponent} {xs ys zs : List Exponent}
      (hfirst : ∀ y ∈ ys.head?, x.base.compare y.base = .lt) (hrest : Merged sign xs ys zs) :
      Merged sign (x :: xs) ys (x :: zs)
  | right {y z : Exponent} {xs ys zs : List Exponent}
      (hfirst : ∀ x ∈ xs.head?, y.base.compare x.base = .lt) (hz : scale sign y = .ok z)
      (hrest : Merged sign xs ys zs) : Merged sign xs (y :: ys) (z :: zs)
  | both {x y : Exponent} {n p : Power} {xs ys zs : List Exponent}
      (hsame : x.base.same y.base = true) (hn : scaled y.power sign = .ok n)
      (hp : sum x.power n = .ok p) (hrest : Merged sign xs ys zs) :
      Merged sign (x :: xs) (y :: ys) (if p.val = 0 then zs else ⟨x.base, p⟩ :: zs)

variable {sign : Power} {xs ys zs : List Exponent}

theorem merged_nil_right (xs : List Exponent) : Merged sign xs [] xs := by
  induction xs with
  | nil => exact .nil
  | cons x xs ih => exact .left (by simp) ih

theorem merged_nil_left (h : ys.mapM (scale sign) = .ok zs) : Merged sign [] ys zs := by
  rw [mapM_eq_ok] at h
  induction h with
  | nil => exact .nil
  | cons hz _ ih => exact .right (by simp) hz ih

theorem merged_of_merge (h : merge sign xs ys = .ok zs) : Merged sign xs ys zs := by
  induction xs, ys using merge.induct generalizing zs with
  | case1 ys =>
    rw [merge] at h
    exact merged_nil_left h
  | case2 xs hxs =>
    rw [merge] at h
    · cases h
      exact merged_nil_right xs
    · exact hxs
  | case3 x xs y ys hlt ih =>
    simp only [merge, hlt, map_eq_ok] at h
    obtain ⟨zs, hzs, rfl⟩ := h
    refine .left ?_ (ih hzs)
    rintro _ ⟨⟩
    exact hlt
  | case4 x xs y ys hgt ih =>
    simp only [merge, hgt, bind_eq_ok, map_eq_ok] at h
    obtain ⟨z, hz, zs, hzs, rfl⟩ := h
    refine .right ?_ hz (ih hzs)
    rintro _ ⟨⟩
    exact Std.OrientedCmp.gt_iff_lt.1 hgt
  | case5 x xs y ys heq ih =>
    simp only [merge, heq, bind_eq_ok, pure, Except.pure, Except.ok.injEq] at h
    obtain ⟨n, hn, p, hp, zs, hzs, rfl⟩ := h
    exact .both (BaseDimension.compare_eq_iff.1 heq) hn hp (ih hzs)

/-- Merging adds the degrees of the first list and the multiplied degrees of the second, in
whichever order the entries come. -/
theorem degree_merge (h : merge sign xs ys = .ok zs) (b : BaseDimension) :
    degree zs b = degree xs b + degree ys b * sign.val := by
  have hmerged := merged_of_merge h
  clear h
  induction hmerged with
  | nil => rw [degree_nil, zero_mul, add_zero]
  | left _ _ ih =>
    rw [degree_cons, degree_cons, ih, add_assoc]
  | right _ hz _ ih =>
    obtain ⟨hbase, hpower⟩ := scale_eq_ok.1 hz
    rw [degree_cons, degree_cons, ih, hbase, hpower]
    split <;> ring
  | @both x y n p xs ys zs hsame hn hp _ ih =>
    -- A sum that is zero leaves no entry, which is an entry of degree zero.
    have hsum : degree (if p.val = 0 then zs else ⟨x.base, p⟩ :: zs) b =
        (if x.base.same b then p.val else 0) + degree zs b := by
      by_cases hp0 : p.val = 0
      · simp [hp0]
      · rw [if_neg hp0, degree_cons]
    rw [hsum, ih, degree_cons, degree_cons, ← BaseDimension.same_congr hsame, sum_eq_ok.1 hp,
      scaled_eq_ok.1 hn]
    split <;> ring

end Exponents

/-! ## Degrees of dimensions -/

namespace Dimension

/-- The power of a base dimension in a dimension. -/
def degree (d : Dimension) (b : BaseDimension) : Int := Exponents.degree d.exponents b

theorem same_refl (d : Dimension) : d.same d = true := Exponents.same_refl _

theorem same_symm {a b : Dimension} (h : a.same b = true) : b.same a = true :=
  Exponents.same_symm h

theorem same_trans {a b c : Dimension} (h : a.same b = true) (h' : b.same c = true) :
    a.same c = true := Exponents.same_trans h h'

theorem degree_of_same {a b : Dimension} (h : a.same b = true) (c : BaseDimension) :
    a.degree c = b.degree c := Exponents.degree_congr h c

theorem degree_multiply {a b c : Dimension} (h : a.multiply b = .ok c) (e : BaseDimension) :
    c.degree e = a.degree e + b.degree e := by
  rw [multiply, map_eq_ok] at h
  obtain ⟨es, hes, rfl⟩ := h
  have hmerge := Exponents.degree_merge hes e
  rw [FixedInt.val_one, mul_one] at hmerge
  exact hmerge

theorem degree_divide {a b c : Dimension} (h : a.divide b = .ok c) (e : BaseDimension) :
    c.degree e = a.degree e - b.degree e := by
  rw [divide, map_eq_ok] at h
  obtain ⟨es, hes, rfl⟩ := h
  have hmerge := Exponents.degree_merge hes e
  have hsign : (FixedInt.lit (-1) : Power).val = -1 := rfl
  rw [hsign, mul_neg_one, ← sub_eq_add_neg] at hmerge
  exact hmerge

theorem degree_power {d c : Dimension} {n : Power} (h : d.power n = .ok c)
    (e : BaseDimension) : c.degree e = d.degree e * n.val := by
  rw [power, map_eq_ok] at h
  obtain ⟨es, hes, rfl⟩ := h
  rw [Exponents.power] at hes
  by_cases hn : n.val = 0
  · -- The power zero is the empty list, without a look at the entries.
    rw [if_pos hn] at hes
    cases hes
    rw [hn, mul_zero]
    rfl
  · rw [if_neg hn] at hes
    exact Exponents.degree_mapM_scale hes e

end Dimension

end Metrology
