/-
  Metrology.Proofs.Dimension.Scaling

  Lists of exponents scaled by an integer, entry by entry. A power of a list is the list scaled,
  and a root is a list that gives this one when it is scaled. Two scalings of one list have the
  same bases in the same places, so their product adds the powers place by place.
-/
import Metrology.Proofs.Dimension.Merge
import Metrology.Proofs.Integer.Squaring

namespace Metrology

namespace Exponents

variable {es fs gs hs : List Exponent} {k n : Power} {i j : Int}

/-- The second list has the entries of the first one with every power multiplied by `i`. -/
def IsScaled (i : Int) (es fs : List Exponent) : Prop :=
  List.Forall₂ (fun e f => f.base = e.base ∧ f.power.val = e.power.val * i) es fs

theorem isScaled_one (es : List Exponent) : IsScaled 1 es es := by
  refine List.forall₂_same.2 fun e _ => ⟨rfl, ?_⟩
  rw [mul_one]

/-- An integer scales a list to one list. -/
theorem IsScaled.unique (hf : IsScaled i es fs) (hg : IsScaled i es gs) : fs = gs := by
  refine List.right_unique_forall₂' ?_ hf hg
  rintro e ⟨base, power⟩ ⟨base', power'⟩ ⟨hbase, hpower⟩ ⟨hbase', hpower'⟩
  obtain rfl : base = base' := hbase.trans hbase'.symm
  obtain rfl : power = power' := FixedInt.ext (hpower.trans hpower'.symm)
  rfl

/-- Scaling a scaled list is scaling by the product. -/
theorem IsScaled.mul_iff (hf : IsScaled i es fs) : IsScaled j fs gs ↔ IsScaled (i * j) es gs := by
  induction hf generalizing gs with
  | nil => rw [IsScaled, IsScaled, List.forall₂_nil_left_iff, List.forall₂_nil_left_iff]
  | @cons e f es fs hef _ ih =>
    obtain ⟨hbase, hpower⟩ := hef
    rw [IsScaled, IsScaled, List.forall₂_cons_left_iff, List.forall₂_cons_left_iff, hbase, hpower]
    simp only [← IsScaled.eq_1, ih, mul_assoc]

/-! ## Canonical scalings -/

/-- A list with the bases of an increasing list and no power zero is canonical. -/
theorem isCanonical_of_forall₂ (hes : Increasing es)
    (h : List.Forall₂ (fun e f => f.base = e.base ∧ f.power.val ≠ 0) es fs) :
    IsCanonical fs := by
  have hbases : fs.map Exponent.base = es.map Exponent.base := by
    induction h with
    | nil => rfl
    | cons hef _ ih => rw [List.map_cons, List.map_cons, hef.1, ih (increasing_cons.1 hes).2]
  constructor
  · rw [Increasing, ← List.pairwise_map (f := Exponent.base) (R := fun a b => a.compare b = .lt)]
    rw [hbases, List.pairwise_map]
    exact hes
  · clear hes hbases
    induction h with
    | nil => exact List.forall_mem_nil _
    | cons hef _ ih => exact List.forall_mem_cons.2 ⟨hef.2, ih⟩

/-- A canonical list stays canonical under an integer other than zero. -/
theorem IsScaled.isCanonical (h : IsScaled i es fs) (hes : IsCanonical es) (hi : i ≠ 0) :
    IsCanonical fs := by
  refine isCanonical_of_forall₂ hes.increasing ?_
  induction h with
  | nil => exact .nil
  | cons hef _ ih =>
    obtain ⟨-, he, hrest⟩ := isCanonical_cons.1 hes
    refine .cons ⟨hef.1, ?_⟩ (ih hrest)
    rw [hef.2]
    exact mul_ne_zero he hi

/-- A list that is scaled to a canonical one is canonical. -/
theorem IsScaled.isCanonical_of (h : IsScaled i es fs) (hfs : IsCanonical fs) :
    IsCanonical es := by
  refine isCanonical_of_forall₂ hfs.increasing ?_
  induction h with
  | nil => exact .nil
  | @cons e f es fs hef _ ih =>
    obtain ⟨-, hf, hrest⟩ := isCanonical_cons.1 hfs
    have he : e.power.val ≠ 0 := by
      intro hzero
      rw [hef.2, hzero, zero_mul] at hf
      exact hf rfl
    exact .cons ⟨hef.1.symm, he⟩ (ih hrest)

/-! ## Powers -/

theorem mapM_scale_eq_ok : es.mapM (scale k) = .ok fs ↔ IsScaled k.val es fs := by
  simp only [mapM_eq_ok, scale_eq_ok, IsScaled]

/-- The zeroth power is empty, whatever the entries are. -/
theorem power_of_eq_zero (es : List Exponent) (hn : n.val = 0) : power es n = .ok [] := if_pos hn

theorem power_eq_ok (hn : n.val ≠ 0) : power es n = .ok fs ↔ IsScaled n.val es fs := by
  rw [power, if_neg hn, mapM_scale_eq_ok]

/-- Two heads with one base become one, unless they cancel out. -/
theorem merge_cons_eq_ok {f g : Exponent} (hbase : f.base = g.base) :
    merge 1 (f :: fs) (g :: gs) = .ok hs ↔
      ∃ rest, merge 1 fs gs = .ok rest ∧ ∃ p : Power, p.val = f.power.val + g.power.val ∧
        hs = if p.val = 0 then rest else ⟨f.base, p⟩ :: rest := by
  have heq : f.base.compare g.base = .eq := by
    rw [BaseDimension.compare_eq_iff, hbase, BaseDimension.same_self]
  simp only [merge, heq, bind_eq_ok, scaled_eq_ok, sum_eq_ok, FixedInt.val_one, mul_one,
    pure, Except.pure, Except.ok.injEq]
  constructor
  · rintro ⟨s, hs, p, hp, rest, hrest, h⟩
    exact ⟨rest, hrest, p, by rw [hp, hs], h.symm⟩
  · rintro ⟨rest, hrest, p, hp, h⟩
    exact ⟨g.power, rfl, p, hp, rest, hrest, h.symm⟩

/-- Products of two scalings of one list. If they cancel out, nothing is left; otherwise no sum
is zero, and every entry stays. -/
theorem merge_scaled_eq_ok (hes : ∀ e ∈ es, e.power.val ≠ 0) (hf : IsScaled i es fs)
    (hg : IsScaled j es gs) :
    merge 1 fs gs = .ok hs ↔ if i + j = 0 then hs = [] else IsScaled (i + j) es hs := by
  induction hf generalizing gs hs with
  | nil =>
    obtain rfl := List.forall₂_nil_left_iff.1 hg
    rw [merge_nil_right, IsScaled, List.forall₂_nil_left_iff, ite_self, Except.ok.injEq, eq_comm]
  | @cons e f es fs hef _ ih =>
    obtain ⟨g, gs, ⟨hgbase, hgpower⟩, hgs, rfl⟩ := List.forall₂_cons_left_iff.1 hg
    obtain ⟨he, hrest⟩ := List.forall_mem_cons.1 hes
    obtain ⟨hfbase, hfpower⟩ := hef
    have hsum : f.power.val + g.power.val = e.power.val * (i + j) := by
      rw [hfpower, hgpower, mul_add]
    rw [merge_cons_eq_ok (hfbase.trans hgbase.symm), hsum]
    simp only [ih hrest hgs]
    by_cases hij : i + j = 0
    · simp only [hij, mul_zero, if_true]
      constructor
      · rintro ⟨rest, rfl, p, hp, rfl⟩
        rw [if_pos hp]
      · rintro rfl
        exact ⟨[], rfl, 0, rfl, rfl⟩
    · simp only [if_neg hij]
      have hsum0 : e.power.val * (i + j) ≠ 0 := mul_ne_zero he hij
      rw [IsScaled, List.forall₂_cons_left_iff]
      constructor
      · rintro ⟨rest, hrest, p, hp, rfl⟩
        rw [if_neg (hp ▸ hsum0)]
        exact ⟨⟨f.base, p⟩, rest, ⟨hfbase, hp⟩, hrest, rfl⟩
      · rintro ⟨⟨base, p⟩, rest, ⟨hbase, hp⟩, hrest, rfl⟩
        obtain rfl : base = f.base := hbase.trans hfbase.symm
        have hp0 : p.val ≠ 0 := fun h => hsum0 (hp.symm.trans h)
        exact ⟨rest, hrest, p, hp, (if_neg hp0).symm⟩

/-! ## Roots -/

/-- The root of a power is what the index multiplies to it; it is no further from zero, and so
always fits. -/
theorem rootPower_eq_some {a c : Power} (hn : 0 < n.val) :
    rootPower a n = some c ↔ a.val = c.val * n.val := by
  rw [rootPower]
  by_cases hmod : a.val.tmod n.val = 0
  · obtain ⟨q, hq⟩ := Int.dvd_of_tmod_eq_zero hmod
    have hdiv : a.val.tdiv n.val = q := by rw [hq, Int.mul_tdiv_cancel_left _ hn.ne']
    rw [if_pos hmod, FixedInt.ofInt?_eq_some_iff, hdiv, hq, mul_comm n.val,
      mul_left_inj' hn.ne', eq_comm]
  · rw [if_neg hmod]
    constructor
    · intro h
      cases h
    · intro h
      rw [h, Int.mul_tmod_left] at hmod
      exact absurd rfl hmod

/-- A power has a root exactly if the index divides it. -/
theorem exists_rootPower_iff {a : Power} (hn : 0 < n.val) :
    (∃ c, rootPower a n = some c) ↔ n.val ∣ a.val := by
  simp only [rootPower_eq_some hn]
  constructor
  · rintro ⟨c, hc⟩
    exact ⟨c.val, by rw [hc, mul_comm]⟩
  · rintro ⟨q, hq⟩
    -- The quotient times one is no further from zero than the quotient times the index.
    have hfits : Width.w32.Fits (q * ((1 : Nat) : Int)) := by
      refine Width.fits_mul_of_le (n := n.val.toNat) ?_ (by omega)
      rw [Int.toNat_of_nonneg hn.le, mul_comm, ← hq]
      exact a.fits
    rw [Nat.cast_one, mul_one] at hfits
    exact ⟨⟨q, hfits⟩, by rw [hq, mul_comm]⟩

/-- A root is a list that the index scales to this one. -/
theorem root_eq_ok : root fs n = .ok es ↔ 0 < n.val ∧ IsScaled n.val es fs := by
  by_cases hn : 0 < n.val
  · rw [root, if_neg (not_le.2 hn), mapM_eq_ok, and_iff_right hn]
    constructor
    · intro h
      refine (h.imp fun f e hfe => ?_).flip
      split at hfe
      · rename_i power hpower
        cases hfe
        exact ⟨rfl, (rootPower_eq_some hn).1 hpower⟩
      · cases hfe
    · intro h
      refine h.flip.imp ?_
      rintro f ⟨base, power⟩ ⟨rfl, hpower⟩
      rw [(rootPower_eq_some hn).2 hpower]
  · rw [root, if_pos (not_lt.1 hn)]
    constructor
    · intro h
      cases h
    · rintro ⟨h, -⟩
      exact absurd h hn

/-- A list has a root exactly if the index is positive and divides every power. -/
theorem exists_root_iff :
    (∃ es, root fs n = .ok es) ↔ 0 < n.val ∧ ∀ f ∈ fs, n.val ∣ f.power.val := by
  simp only [root_eq_ok, exists_and_left]
  refine and_congr_right fun hn => ?_
  have hflip (es : List Exponent) : IsScaled n.val es fs ↔
      List.Forall₂ (fun f e : Exponent => f.base = e.base ∧ f.power.val = e.power.val * n.val)
        fs es := ⟨List.Forall₂.flip, List.Forall₂.flip⟩
  simp only [hflip, exists_forall₂_iff]
  refine forall₂_congr fun f _ => ?_
  rw [← exists_rootPower_iff hn]
  simp only [rootPower_eq_some hn]
  constructor
  · rintro ⟨e, -, he⟩
    exact ⟨e.power, he⟩
  · rintro ⟨c, hc⟩
    exact ⟨⟨f.base, c⟩, rfl, hc⟩

end Exponents

/-- A result on lists as a result on dimensions. -/
theorem Dimension.mk_eq_ok {x : Except Error (List Exponent)} {d : Dimension} :
    Dimension.mk <$> x = .ok d ↔ x = .ok d.exponents := by
  rw [map_eq_ok]
  constructor
  · rintro ⟨es, hes, rfl⟩
    exact hes
  · intro h
    exact ⟨d.exponents, h, rfl⟩

end Metrology
