/-
  Metrology.Proofs.Dimension.Merge

  Merging canonical lists of exponents, which gives canonical lists again. It fails only by
  overflow, and exactly where a multiplied power or a resulting power does not fit.
-/
import Metrology.Proofs.Dimension.Canonical

namespace Metrology

namespace Exponents

variable {b : BaseDimension} {sign : Power} {xs ys zs : List Exponent}

/-! ## Merging -/

/-- With an empty second list nothing is multiplied and nothing added. -/
@[simp] theorem merge_nil_right (sign : Power) (xs : List Exponent) :
    merge sign xs [] = .ok xs := by
  cases xs with
  | nil =>
    rw [merge]
    rfl
  | cons x xs =>
    rw [merge]
    exact List.cons_ne_nil x xs

/-- A base dimension before both lists is before the merged one. -/
theorem lt_of_merged (h : Merged sign xs ys zs) (hx : ∀ x ∈ xs, b.compare x.base = .lt)
    (hy : ∀ y ∈ ys, b.compare y.base = .lt) : ∀ z ∈ zs, b.compare z.base = .lt := by
  induction h with
  | nil => exact List.forall_mem_nil _
  | left _ _ ih =>
    obtain ⟨hhead, hrest⟩ := List.forall_mem_cons.1 hx
    exact List.forall_mem_cons.2 ⟨hhead, ih hrest hy⟩
  | right _ hz _ ih =>
    obtain ⟨hhead, hrest⟩ := List.forall_mem_cons.1 hy
    rw [← (scale_eq_ok.1 hz).1] at hhead
    exact List.forall_mem_cons.2 ⟨hhead, ih hx hrest⟩
  | both _ _ _ _ ih =>
    obtain ⟨hhead, hrest⟩ := List.forall_mem_cons.1 hx
    have htail := ih hrest (List.forall_mem_cons.1 hy).2
    split
    · exact htail
    · exact List.forall_mem_cons.2 ⟨hhead, htail⟩

/-- Each entry of the merged list is before all that is left of both lists, and so before all
that is merged after it. -/
theorem isCanonical_merged (hsign : sign.val ≠ 0) (hx : IsCanonical xs) (hy : IsCanonical ys)
    (h : Merged sign xs ys zs) : IsCanonical zs := by
  induction h with
  | nil => exact isCanonical_nil
  | left hfirst hrest ih =>
    obtain ⟨hlt, hx0, hxs⟩ := isCanonical_cons.1 hx
    have hlower := lt_of_merged hrest hlt (lt_of_lt_head? hy.increasing hfirst)
    exact isCanonical_cons.2 ⟨hlower, hx0, ih hxs hy⟩
  | right hfirst hz hrest ih =>
    obtain ⟨hlt, hy0, hys⟩ := isCanonical_cons.1 hy
    obtain ⟨hbase, hpower⟩ := scale_eq_ok.1 hz
    have hlower := lt_of_merged hrest (lt_of_lt_head? hx.increasing hfirst) hlt
    rw [← hbase] at hlower
    have hz0 := mul_ne_zero hy0 hsign
    rw [← hpower] at hz0
    exact isCanonical_cons.2 ⟨hlower, hz0, ih hx hys⟩
  | @both x y n p xs ys zs hsame hn hp hrest ih =>
    obtain ⟨hxlt, -, hxs⟩ := isCanonical_cons.1 hx
    obtain ⟨hylt, -, hys⟩ := isCanonical_cons.1 hy
    have heq := BaseDimension.compare_eq_iff.2 hsame
    have hlower := lt_of_merged hrest hxlt fun z hz =>
      Std.TransCmp.lt_of_eq_of_lt heq (hylt z hz)
    by_cases hp0 : p.val = 0
    · rw [if_pos hp0]
      exact ih hxs hys
    · rw [if_neg hp0]
      exact isCanonical_cons.2 ⟨hlower, hp0, ih hxs hys⟩

theorem isCanonical_merge (hsign : sign.val ≠ 0) (hx : IsCanonical xs) (hy : IsCanonical ys)
    (h : merge sign xs ys = .ok zs) : IsCanonical zs :=
  isCanonical_merged hsign hx hy (merged_of_merge h)

/-! ## Failures of merging -/

theorem overflowsOnly_merge (sign : Power) (xs ys : List Exponent) :
    OverflowsOnly (merge sign xs ys) := by
  induction xs, ys using merge.induct with
  | case1 ys =>
    rw [merge]
    exact .mapM (fun y => (scale_overflowsUnless sign y).overflowsOnly) ys
  | case2 xs hxs =>
    rw [merge]
    · exact .ok xs
    · exact hxs
  | case3 x xs y ys hlt ih =>
    simp only [merge, hlt]
    exact ih.map _
  | case4 x xs y ys hgt ih =>
    simp only [merge, hgt]
    exact (scale_overflowsUnless sign y).overflowsOnly.bind fun z => ih.map _
  | case5 x xs y ys heq ih =>
    simp only [merge, heq]
    refine (scaled_overflowsUnless y.power sign).overflowsOnly.bind fun n => ?_
    exact (sum_overflowsUnless x.power n).overflowsOnly.bind fun p => ih.bind fun zs => .ok _

/-- Every power of the second list is multiplied on the way, wherever it goes. -/
theorem fits_of_merged (h : Merged sign xs ys zs) :
    ∀ y ∈ ys, Width.w32.Fits (y.power.val * sign.val) := by
  induction h with
  | nil => exact List.forall_mem_nil _
  | left _ _ ih => exact ih
  | @right y z xs ys zs _ hz _ ih =>
    have hfits := z.power.fits
    rw [(scale_eq_ok.1 hz).2] at hfits
    exact List.forall_mem_cons.2 ⟨hfits, ih⟩
  | @both x y n p xs ys zs _ hn _ _ ih =>
    have hfits := n.fits
    rw [scaled_eq_ok.1 hn] at hfits
    exact List.forall_mem_cons.2 ⟨hfits, ih⟩

/-- Merging canonical lists succeeds if all powers fit that are computed. -/
theorem exists_merge (hx : IsCanonical xs) (hy : IsCanonical ys)
    (hscaled : ∀ y ∈ ys, Width.w32.Fits (y.power.val * sign.val))
    (hdegree : ∀ b, Width.w32.Fits (degree xs b + degree ys b * sign.val)) :
    ∃ zs, merge sign xs ys = .ok zs := by
  induction xs, ys using merge.induct with
  | case1 ys =>
    rw [merge]
    exact exists_mapM_eq_ok_iff.2 fun y hy =>
      (scale_overflowsUnless sign y).exists_ok_iff.2 (hscaled y hy)
  | case2 xs hxs =>
    rw [merge]
    · exact ⟨xs, rfl⟩
    · exact hxs
  | case3 x xs y ys hlt ih =>
    obtain ⟨hxlt, -, hxs⟩ := isCanonical_cons.1 hx
    have hrest : ∃ zs, merge sign xs (y :: ys) = .ok zs := by
      refine ih hxs hy hscaled fun b => ?_
      -- Without the head all degrees are as before, except for its own, which is now zero.
      rw [degree_tail hxlt]
      split
      · rename_i hb
        rw [degree_eq_zero_of_same hb (lt_of_lt_head hy.increasing hlt), zero_mul]
        exact Width.fits_zero .w32
      · exact hdegree b
    obtain ⟨zs, hzs⟩ := hrest
    exact ⟨x :: zs, by simp only [merge, hlt, hzs]; rfl⟩
  | case4 x xs y ys hgt ih =>
    obtain ⟨hylt, -, hys⟩ := isCanonical_cons.1 hy
    obtain ⟨hhead, hscaled'⟩ := List.forall_mem_cons.1 hscaled
    have hlt := Std.OrientedCmp.gt_iff_lt.1 hgt
    have hrest : ∃ zs, merge sign (x :: xs) ys = .ok zs := by
      refine ih hx hys hscaled' fun b => ?_
      rw [degree_tail hylt]
      split
      · rename_i hb
        rw [degree_eq_zero_of_same hb (lt_of_lt_head hx.increasing hlt), zero_mul]
        exact Width.fits_zero .w32
      · exact hdegree b
    obtain ⟨z, hz, -⟩ := (scale_overflowsUnless sign y).ok hhead
    obtain ⟨zs, hzs⟩ := hrest
    exact ⟨z :: zs, by simp only [merge, hgt, hz, hzs]; rfl⟩
  | case5 x xs y ys heq ih =>
    obtain ⟨hxlt, -, hxs⟩ := isCanonical_cons.1 hx
    obtain ⟨hylt, -, hys⟩ := isCanonical_cons.1 hy
    obtain ⟨hhead, hscaled'⟩ := List.forall_mem_cons.1 hscaled
    have hsame := BaseDimension.compare_eq_iff.1 heq
    have hrest : ∃ zs, merge sign xs ys = .ok zs := by
      refine ih hxs hys hscaled' fun b => ?_
      rw [degree_tail hxlt, degree_tail hylt, ← BaseDimension.same_congr hsame]
      split
      · rw [zero_mul]
        exact Width.fits_zero .w32
      · exact hdegree b
    -- The powers of the common base dimension are the degrees of the two lists.
    have hsum : Width.w32.Fits (x.power.val + y.power.val * sign.val) := by
      have hfits := hdegree x.base
      rwa [degree_of_mem hx.increasing List.mem_cons_self, degree_congr_base hsame,
        degree_of_mem hy.increasing List.mem_cons_self] at hfits
    obtain ⟨n, hn, hval⟩ := (scaled_overflowsUnless y.power sign).ok hhead
    rw [← hval] at hsum
    obtain ⟨p, hp, -⟩ := (sum_overflowsUnless x.power n).ok hsum
    obtain ⟨zs, hzs⟩ := hrest
    exact ⟨_, by simp only [merge, heq, hn, ok_bind, hp, hzs]; rfl⟩

/-- Merging canonical lists gives the canonical list of the degrees, unless a power that is
computed does not fit: one of the second list when it is multiplied, or a resulting one. -/
theorem merge_overflowsUnless (hsign : sign.val ≠ 0) (hx : IsCanonical xs)
    (hy : IsCanonical ys) :
    OverflowsUnless
      ((∀ y ∈ ys, Width.w32.Fits (y.power.val * sign.val)) ∧
        ∀ b, Width.w32.Fits (degree xs b + degree ys b * sign.val))
      (merge sign xs ys)
      fun zs => IsCanonical zs ∧ ∀ b, degree zs b = degree xs b + degree ys b * sign.val := by
  refine (overflowsOnly_merge sign xs ys).overflowsUnless ?_ ?_
  · rintro ⟨hscaled, hdegree⟩
    exact exists_merge hx hy hscaled hdegree
  · intro zs hzs
    have hcanonical := isCanonical_merge hsign hx hy hzs
    have hdegree := degree_merge hzs
    refine ⟨⟨fits_of_merged (merged_of_merge hzs), fun b => ?_⟩, hcanonical, hdegree⟩
    rw [← hdegree b]
    exact fits_degree hcanonical.increasing b

end Exponents

/-! ## Failures of dimensions -/

namespace Dimension

theorem overflowsOnly_multiply (a b : Dimension) : OverflowsOnly (a.multiply b) :=
  (Exponents.overflowsOnly_merge _ _ _).map _

theorem overflowsOnly_divide (a b : Dimension) : OverflowsOnly (a.divide b) :=
  (Exponents.overflowsOnly_merge _ _ _).map _

theorem overflowsOnly_power (d : Dimension) (n : Power) : OverflowsOnly (d.power n) := by
  have hscale : OverflowsOnly (d.exponents.mapM (Exponents.scale n)) :=
    .mapM (fun e => (Exponents.scale_overflowsUnless n e).overflowsOnly) _
  refine OverflowsOnly.map _ ?_
  rw [Exponents.power]
  split
  · exact .ok []
  · exact hscale

end Dimension

end Metrology
