/-
  Metrology.Proofs.Dimension.Reordering

  Compositions of the same exponents in different orders. Where the totals fit, some order has
  a dimension, and all that have one have the same. All orders have it exactly if the positive
  and the negative powers of each base dimension fit by themselves as well, as either of them
  may come first.
-/
import Metrology.Proofs.Dimension.Composition

namespace Metrology

namespace Exponents

variable {b : BaseDimension} {e : Exponent} {es fs xs : List Exponent}

/-! ## Positive and negative powers -/

/-- The sum of the positive powers of a base dimension. -/
def positiveDegree (es : List Exponent) (b : BaseDimension) : Int :=
  degree (es.filter fun e => 0 < e.power.val) b

/-- The sum of the negative powers of a base dimension. -/
def negativeDegree (es : List Exponent) (b : BaseDimension) : Int :=
  degree (es.filter fun e => e.power.val < 0) b

theorem positiveDegree_cons (e : Exponent) (es : List Exponent) (b : BaseDimension) :
    positiveDegree (e :: es) b =
      (if e.base.same b then max e.power.val 0 else 0) + positiveDegree es b := by
  rw [positiveDegree, positiveDegree, List.filter_cons]
  by_cases he : 0 < e.power.val
  · rw [if_pos (decide_eq_true he), degree_cons, max_eq_left he.le]
  · rw [if_neg (by simpa using he), max_eq_right (not_lt.1 he), ite_self, zero_add]

theorem negativeDegree_cons (e : Exponent) (es : List Exponent) (b : BaseDimension) :
    negativeDegree (e :: es) b =
      (if e.base.same b then min e.power.val 0 else 0) + negativeDegree es b := by
  rw [negativeDegree, negativeDegree, List.filter_cons]
  by_cases he : e.power.val < 0
  · rw [if_pos (decide_eq_true he), degree_cons, min_eq_left he.le]
  · rw [if_neg (by simpa using he), min_eq_right (not_lt.1 he), ite_self, zero_add]

theorem positiveDegree_perm (h : es.Perm fs) (b : BaseDimension) :
    positiveDegree es b = positiveDegree fs b :=
  degree_perm (h.filter _) b

theorem negativeDegree_perm (h : es.Perm fs) (b : BaseDimension) :
    negativeDegree es b = negativeDegree fs b :=
  degree_perm (h.filter _) b

/-- The degrees of a prefix are between the negative and the positive powers of the list. -/
theorem degree_prefix_bounds (h : fs.Sublist es) (b : BaseDimension) :
    negativeDegree es b ≤ degree fs b ∧ degree fs b ≤ positiveDegree es b := by
  induction h with
  | slnil => exact ⟨le_refl 0, le_refl 0⟩
  | cons e _ ih =>
    rw [negativeDegree_cons, positiveDegree_cons]
    split <;> omega
  | cons_cons e _ ih =>
    rw [negativeDegree_cons, positiveDegree_cons, degree_cons]
    split <;> omega

/-- The positive and the negative powers of each base dimension fit, by themselves. -/
def SignedSumsFit (es : List Exponent) : Prop :=
  ∀ b, Width.w32.Fits (positiveDegree es b) ∧ Width.w32.Fits (negativeDegree es b)

/-- All orders of the exponents have partial sums that fit, exactly if the positive and the
negative powers do: each of them may come first. -/
theorem forall_perm_partialSumsFit_iff :
    (∀ fs, es.Perm fs → PartialSumsFit fs) ↔ SignedSumsFit es := by
  constructor
  · intro h b
    constructor
    · have hperm := List.filter_append_perm (fun e : Exponent => decide (0 < e.power.val)) es
      exact h _ hperm.symm _ (List.prefix_append _ _) b
    · have hperm := List.filter_append_perm (fun e : Exponent => decide (e.power.val < 0)) es
      exact h _ hperm.symm _ (List.prefix_append _ _) b
  · intro h fs hperm ps hps b
    obtain ⟨hlower, hupper⟩ := degree_prefix_bounds hps.sublist b
    rw [← negativeDegree_perm hperm] at hlower
    rw [← positiveDegree_perm hperm] at hupper
    obtain ⟨⟨-, hpositive⟩, hnegative, -⟩ := h b
    exact ⟨hnegative.trans hlower, hupper.trans hpositive⟩

/-! ## Orders that succeed -/

theorem degree_append (es fs : List Exponent) (b : BaseDimension) :
    degree (es ++ fs) b = degree es b + degree fs b := by
  rw [degree, List.map_append, List.sum_append, degree, degree]

/-- If all powers of a base dimension have one sign, so has its degree. -/
theorem mul_degree_nonneg {s : Int} (h : ∀ x ∈ es, x.base.same b = true → 0 ≤ s * x.power.val) :
    0 ≤ s * degree es b := by
  induction es with
  | nil => rw [degree_nil, mul_zero]
  | cons x xs ih =>
    obtain ⟨hx, hxs⟩ := List.forall_mem_cons.1 h
    have hrest := ih hxs
    rw [degree_cons, mul_add]
    by_cases hb : x.base.same b = true
    · rw [if_pos hb]
      exact add_nonneg (hx hb) hrest
    · rw [if_neg hb, mul_zero, zero_add]
      exact hrest

/-- If all powers of a base dimension have one sign, none is further from zero than the
degree. -/
theorem mul_power_le_mul_degree {s : Int}
    (h : ∀ x ∈ es, x.base.same b = true → 0 ≤ s * x.power.val) (he : e ∈ es)
    (hb : e.base.same b = true) : s * e.power.val ≤ s * degree es b := by
  obtain ⟨before, after, rfl⟩ := List.append_of_mem he
  have hrest : 0 ≤ s * degree (before ++ after) b :=
    mul_degree_nonneg fun x hx => h x (List.perm_middle.mem_iff.2 (List.mem_cons_of_mem e hx))
  rw [degree_perm List.perm_middle, degree_cons, if_pos hb, mul_add]
  exact le_add_of_nonneg_right hrest

/-- After powers with the sum of a given sign, some exponent can be added next: one whose power
leads back towards zero, or else any of them, as all powers of its base dimension then lead to
its total. -/
theorem exists_next_of_sign {s : Int} (hs : s = 1 ∨ s = -1) (he : e ∈ xs)
    (hsum : Width.w32.Fits (degree es e.base))
    (htotal : Width.w32.Fits (degree es e.base + degree xs e.base))
    (hsign : 0 ≤ s * degree es e.base) :
    ∃ x ∈ xs, Width.w32.Fits (degree es x.base + x.power.val) := by
  -- A step back from one side of zero stays in range, as a power is no wider than the range.
  by_cases hback : ∃ x ∈ xs, x.base.same e.base = true ∧ s * x.power.val < 0
  · obtain ⟨x, hx, hsame, hneg⟩ := hback
    refine ⟨x, hx, ?_⟩
    have hfits := x.power.fits
    rw [degree_congr_base hsame]
    rcases hs with rfl | rfl <;> omega
  · have hforward : ∀ x ∈ xs, x.base.same e.base = true → 0 ≤ s * x.power.val := by
      intro x hx hsame
      by_contra hneg
      exact hback ⟨x, hx, hsame, not_le.1 hneg⟩
    have hpower := hforward e he e.base.same_self
    have hle := mul_power_le_mul_degree hforward he e.base.same_self
    refine ⟨e, he, ?_⟩
    rcases hs with rfl | rfl <;> omega

/-- If all totals fit, some exponent can be added next. -/
theorem exists_next (hne : xs ≠ []) (hes : ∀ b, Width.w32.Fits (degree es b))
    (htotal : ∀ b, Width.w32.Fits (degree es b + degree xs b)) :
    ∃ x ∈ xs, Width.w32.Fits (degree es x.base + x.power.val) := by
  obtain ⟨y, hy⟩ := List.exists_mem_of_ne_nil xs hne
  rcases le_total 0 (degree es y.base) with hsign | hsign
  · exact exists_next_of_sign (.inl rfl) hy (hes y.base) (htotal y.base) (by omega)
  · exact exists_next_of_sign (.inr rfl) hy (hes y.base) (htotal y.base) (by omega)

theorem partialSumsFit_concat (h : PartialSumsFit es)
    (he : Width.w32.Fits (degree es e.base + e.power.val)) : PartialSumsFit (es ++ [e]) := by
  intro ps hps b
  rcases List.prefix_concat_iff.1 hps with rfl | hps
  · rw [degree_append, degree_cons, degree_nil, add_zero]
    by_cases hb : e.base.same b = true
    · rw [if_pos hb, ← degree_congr_base hb]
      exact he
    · rw [if_neg hb, add_zero]
      exact h es List.prefix_rfl b
  · exact h ps hps b

/-- Exponents whose totals fit can be put in an order in which they are added. -/
theorem exists_perm_append (hes : PartialSumsFit es)
    (htotal : ∀ b, Width.w32.Fits (degree es b + degree xs b)) :
    ∃ fs, xs.Perm fs ∧ PartialSumsFit (es ++ fs) := by
  induction hlength : xs.length generalizing es xs with
  | zero =>
    rw [List.length_eq_zero_iff.1 hlength]
    exact ⟨[], List.Perm.refl [], by rw [List.append_nil]; exact hes⟩
  | succ n ih =>
    have hne : xs ≠ [] := List.ne_nil_of_length_eq_add_one hlength
    obtain ⟨x, hx, hfits⟩ := exists_next hne (hes es List.prefix_rfl) htotal
    obtain ⟨before, after, rfl⟩ := List.append_of_mem hx
    have hperm : (before ++ x :: after).Perm (x :: (before ++ after)) := List.perm_middle
    have hrest : (before ++ after).length = n := by
      have := hperm.length_eq
      rw [List.length_cons] at this
      omega
    have htotal' (b : BaseDimension) :
        Width.w32.Fits (degree (es ++ [x]) b + degree (before ++ after) b) := by
      have hsum := htotal b
      rw [degree_perm hperm, degree_cons, ← add_assoc] at hsum
      rwa [degree_append, degree_cons, degree_nil, add_zero]
    obtain ⟨fs, hfs, hsums⟩ := ih (partialSumsFit_concat hes hfits) htotal' hrest
    refine ⟨x :: fs, hperm.trans (hfs.cons x), ?_⟩
    rwa [List.append_assoc, List.singleton_append] at hsums

/-- Some order has partial sums that fit exactly if the totals do. -/
theorem exists_perm_partialSumsFit_iff :
    (∃ fs, es.Perm fs ∧ PartialSumsFit fs) ↔ ∀ b, Width.w32.Fits (degree es b) := by
  constructor
  · rintro ⟨fs, hperm, hfs⟩ b
    rw [degree_perm hperm]
    exact hfs fs List.prefix_rfl b
  · intro h
    have hempty : ∀ b, Width.w32.Fits (degree [] b + degree es b) := by
      intro b
      rw [degree_nil, zero_add]
      exact h b
    exact exists_perm_append partialSumsFit_nil hempty

end Exponents

/-! ## Dimensions of exponents in any order -/

namespace Dimension

open Exponents (PartialSumsFit SignedSumsFit)

variable {es fs : List Exponent}

/-- Both compositions have the same dimension, or both overflow. -/
def SameAnswer (x y : Except Error Dimension) : Prop :=
  (∃ c d, x = .ok c ∧ y = .ok d ∧ c.same d = true) ∨
    ∃ e f, x = .error e ∧ y = .error f ∧ e.code = .overflow ∧ f.code = .overflow

theorem same_of_perm {c d : Dimension} (hperm : es.Perm fs) (hc : ofExponents es = .ok c)
    (hd : ofExponents fs = .ok d) : c.same d = true := by
  obtain ⟨hccanonical, hcpower⟩ := (ofExponents_overflowsUnless es).of_ok hc
  obtain ⟨hdcanonical, hdpower⟩ := (ofExponents_overflowsUnless fs).of_ok hd
  rw [same_iff_powerOf hccanonical hdcanonical]
  intro b
  apply FixedInt.ext
  rw [hcpower, hdpower, Exponents.degree_perm hperm]

/-- Two orders of the exponents have the same answer exactly if their partial sums fit in both
or in neither. -/
theorem sameAnswer_iff (hperm : es.Perm fs) :
    SameAnswer (ofExponents es) (ofExponents fs) ↔ (PartialSumsFit es ↔ PartialSumsFit fs) := by
  have hes := ofExponents_overflowsUnless es
  have hfs := ofExponents_overflowsUnless fs
  constructor
  · rintro (⟨c, d, hc, hd, -⟩ | ⟨e, f, he, hf, -⟩)
    · exact iff_of_true (hes.exists_ok_iff.1 ⟨c, hc⟩) (hfs.exists_ok_iff.1 ⟨d, hd⟩)
    · exact iff_of_false (hes.not_of_error he) (hfs.not_of_error hf)
  · intro h
    by_cases hsums : PartialSumsFit es
    · obtain ⟨c, hc, -⟩ := hes.ok hsums
      obtain ⟨d, hd, -⟩ := hfs.ok (h.1 hsums)
      exact .inl ⟨c, d, hc, hd, same_of_perm hperm hc hd⟩
    · obtain ⟨e, he, hcode⟩ := hes.overflow hsums
      obtain ⟨f, hf, hcode'⟩ := hfs.overflow fun h' => hsums (h.2 h')
      exact .inr ⟨e, f, he, hf, hcode, hcode'⟩

/-- The order of exponents matters only on the way. Each order is composed exactly if its
partial sums fit, all orders that are composed have the same dimension, and there is one exactly
if the totals fit. The answer does not depend on the order exactly if a total does not fit or
the positive and the negative powers fit by themselves, and then the totals decide. -/
theorem order_irrelevant_iff (es : List Exponent) :
    OverflowsUnless (PartialSumsFit es) (ofExponents es)
      (fun d => d.IsCanonical ∧ ∀ b, (d.powerOf b).val = Exponents.degree es b) ∧
    (∀ fs c d, es.Perm fs → ofExponents es = .ok c → ofExponents fs = .ok d →
      c.same d = true) ∧
    ((∃ fs d, es.Perm fs ∧ ofExponents fs = .ok d) ↔
      ∀ b, Width.w32.Fits (Exponents.degree es b)) ∧
    ((∀ fs, es.Perm fs → SameAnswer (ofExponents es) (ofExponents fs)) ↔
      (∃ b, ¬ Width.w32.Fits (Exponents.degree es b)) ∨ SignedSumsFit es) ∧
    ((∃ b, ¬ Width.w32.Fits (Exponents.degree es b)) ∨ SignedSumsFit es →
      ((∃ d, ofExponents es = .ok d) ↔ ∀ b, Width.w32.Fits (Exponents.degree es b))) := by
  have hok (fs : List Exponent) : (∃ d, ofExponents fs = .ok d) ↔ PartialSumsFit fs :=
    (ofExponents_overflowsUnless fs).exists_ok_iff
  have htotal (fs : List Exponent) (hperm : es.Perm fs) (hfs : PartialSumsFit fs) :
      ∀ b, Width.w32.Fits (Exponents.degree es b) :=
    Exponents.exists_perm_partialSumsFit_iff.1 ⟨fs, hperm, hfs⟩
  refine ⟨ofExponents_overflowsUnless es, fun fs c d => same_of_perm, ?_, ?_, ?_⟩
  · rw [← Exponents.exists_perm_partialSumsFit_iff]
    simp only [exists_and_left, hok]
  · constructor
    · intro h
      by_cases hfits : ∀ b, Width.w32.Fits (Exponents.degree es b)
      · -- One order succeeds, so all of them do.
        obtain ⟨fs, hperm, hfs⟩ := Exponents.exists_perm_partialSumsFit_iff.2 hfits
        have hes := ((sameAnswer_iff hperm).1 (h fs hperm)).2 hfs
        right
        rw [← Exponents.forall_perm_partialSumsFit_iff]
        intro fs hperm
        exact ((sameAnswer_iff hperm).1 (h fs hperm)).1 hes
      · exact .inl (not_forall.1 hfits)
    · rintro (⟨b, hb⟩ | hsigned) fs hperm
      · -- A total that does not fit is the last partial sum in every order.
        rw [sameAnswer_iff hperm]
        exact iff_of_false (fun h => hb (htotal es (.refl es) h b))
          fun h => hb (htotal fs hperm h b)
      · have hall := Exponents.forall_perm_partialSumsFit_iff.2 hsigned
        rw [sameAnswer_iff hperm]
        exact iff_of_true (hall es (.refl es)) (hall fs hperm)
  · rintro (⟨b, hb⟩ | hsigned)
    · rw [hok]
      exact iff_of_false (fun h => hb (htotal es (.refl es) h b)) fun h => hb (h b)
    · have hes := Exponents.forall_perm_partialSumsFit_iff.2 hsigned es (.refl es)
      rw [hok]
      exact iff_of_true hes (htotal es (.refl es) hes)

/-- Time to the greatest power, once more, and once less. -/
def timeOnceMoreFirst : List Exponent :=
  [⟨Systems.time, .lit 2147483647⟩, ⟨Systems.time, 1⟩, ⟨Systems.time, .lit (-1)⟩]

/-- Time to the greatest power, once less, and once more. -/
def timeOnceLessFirst : List Exponent :=
  [⟨Systems.time, .lit 2147483647⟩, ⟨Systems.time, .lit (-1)⟩, ⟨Systems.time, 1⟩]

theorem partialSumsFit_timeOnceLessFirst : PartialSumsFit timeOnceLessFirst := by
  have hone := Exponents.partialSumsFit_concat (e := ⟨Systems.time, .lit 2147483647⟩)
    Exponents.partialSumsFit_nil (by decide)
  have htwo := Exponents.partialSumsFit_concat (e := ⟨Systems.time, .lit (-1)⟩) hone (by decide)
  exact Exponents.partialSumsFit_concat (e := ⟨Systems.time, 1⟩) htwo (by decide)

/-- The total fits in both orders, and only one of them has a dimension. -/
theorem ofExponents_timeOnceMoreFirst :
    timeOnceMoreFirst.Perm timeOnceLessFirst ∧
      (∀ b, Width.w32.Fits (Exponents.degree timeOnceMoreFirst b)) ∧
      (∃ e, ofExponents timeOnceMoreFirst = .error e ∧ e.code = .overflow) ∧
      ∃ d, ofExponents timeOnceLessFirst = .ok d := by
  have hperm : timeOnceMoreFirst.Perm timeOnceLessFirst := (List.Perm.swap _ _ _).cons _
  have hless := partialSumsFit_timeOnceLessFirst
  refine ⟨hperm, ?_, ?_, (ofExponents_overflowsUnless _).exists_ok_iff.2 hless⟩
  · exact Exponents.exists_perm_partialSumsFit_iff.1 ⟨_, hperm, hless⟩
  · refine (ofExponents_overflowsUnless _).overflow fun hmore => ?_
    have htwo := hmore (timeOnceMoreFirst.take 2) (List.take_prefix 2 _) Systems.time
    revert htwo
    decide

end Dimension

end Metrology
