/-
  Metrology.Proofs.MeasureUnit.Deduced

  Units deduced from one constituent for each base dimension. That as many constituents are given
  as there are base dimensions, and exactly one for each of these, makes the two correspond one to
  one. The deduced unit is then the product of the powers of its constituents, in whichever order
  and grouping these are multiplied.
-/
import Metrology.Proofs.MeasureUnit.Bridge
import Metrology.Proofs.MeasureUnit.Made
import Metrology.Proofs.MeasureUnit.Tree

namespace Metrology

namespace MeasureUnit

variable {b c : BaseDimension} {d : Dimension} {e : Exponent} {es : List Exponent}
  {u v w : MeasureUnit} {us vs : List MeasureUnit} {fs gs : List (MeasureUnit × Power)}
  {symbol name : String}

/-! ## Constituents of a base dimension -/

/-- The constituents of a base dimension are those that measure it. -/
theorem asBase?_any (u : MeasureUnit) (b : BaseDimension) :
    u.dimension.asBase?.any (·.same b) = u.measures (.ofBase b) := by
  rw [measures, Dimension.same, Dimension.asBase?, Dimension.ofBase]
  rcases u.dimension.exponents with _ | ⟨e, _ | ⟨x, es⟩⟩
  · rfl
  · by_cases he : e.power.val = 1
    · have hpower : e.power = 1 := FixedInt.ext he
      simp [Exponents.same, Exponent.same, hpower]
    · have hpower : e.power ≠ 1 := fun h => he (congrArg FixedInt.val h)
      simp [Exponents.same, Exponent.same, he, hpower]
  · simp [Exponents.same]

theorem measuring_eq_filter (b : BaseDimension) (us : List MeasureUnit) :
    measuring b us = us.filter fun u => u.measures (.ofBase b) := by
  simp only [measuring, asBase?_any]

theorem measuring_perm (h : us.Perm vs) (b : BaseDimension) :
    (measuring b us).Perm (measuring b vs) := h.filter _

/-- In any order there is the same constituent, if there is only one. -/
theorem measuring_eq_singleton (h : us.Perm vs) :
    measuring b us = [u] ↔ measuring b vs = [u] := by
  have hperm := measuring_perm h b
  constructor
  · intro hu
    rw [hu] at hperm
    exact (List.singleton_perm.1 hperm).symm
  · intro hv
    rw [hv] at hperm
    exact List.perm_singleton.1 hperm

/-- A unit measures one base dimension only. -/
theorem not_measures_of_ne (hu : u.measures (.ofBase b) = true) (hne : b.same c = false) :
    u.measures (.ofBase c) = false := by
  refine Bool.eq_false_iff.2 fun hc => ?_
  have hsame := Dimension.degree_of_same (Dimension.same_trans (Dimension.same_symm hu) hc) c
  rw [Dimension.degree_ofBase, Dimension.degree_ofBase, hne] at hsame
  simp at hsame

theorem measuring_cons (hu : u.measures (.ofBase b) = true) :
    measuring b (u :: us) = u :: measuring b us := by
  rw [measuring_eq_filter, measuring_eq_filter]
  exact List.filter_cons_of_pos hu

theorem measuring_cons_of_ne (hu : u.measures (.ofBase b) = true) (hne : b.same c = false) :
    measuring c (u :: us) = measuring c us := by
  rw [measuring_eq_filter, measuring_eq_filter, List.filter_cons_of_neg]
  rw [not_measures_of_ne hu hne]
  exact Bool.false_ne_true

/-- What is found alone for a base dimension measures it, and is one of the constituents. -/
theorem exists_perm_of_measuring (h : measuring b us = [u]) :
    u.measures (.ofBase b) = true ∧ ∃ vs, us.Perm (u :: vs) := by
  have hmem : u ∈ measuring b us := by
    rw [h]
    exact List.mem_singleton_self u
  rw [measuring_eq_filter] at hmem
  obtain ⟨hus, hmeasures⟩ := List.mem_filter.1 hmem
  obtain ⟨front, back, rfl⟩ := List.append_of_mem hus
  exact ⟨hmeasures, front ++ back, List.perm_middle⟩

/-! ## Matchings -/

/-- The unit measures the base dimension of the entry to the first power, and comes with the power
in that entry. -/
def IsFactorOf (e : Exponent) (f : MeasureUnit × Power) : Prop :=
  f.1.measures (.ofBase e.base) = true ∧ f.2 = e.power

/-- The constituents correspond one to one to the entries of a list of exponents, and become its
factors. -/
structure IsMatching (us : List MeasureUnit) (es : List Exponent)
    (fs : List (MeasureUnit × Power)) : Prop where
  units : us.Perm (fs.map Prod.fst)
  factors : List.Forall₂ IsFactorOf es fs

/-- For each entry exactly one constituent is found, whatever the others are. -/
def Finds (us : List MeasureUnit) (es : List Exponent) (fs : List (MeasureUnit × Power)) : Prop :=
  List.Forall₂ (fun e f => measuring e.base us = [f.1] ∧ f.2 = e.power) es fs

theorem Finds.imp {p : Exponent → Prop} (hes : ∀ e ∈ es, p e)
    (h : ∀ e, p e → ∀ u, measuring e.base us = [u] → measuring e.base vs = [u])
    (hfinds : Finds us es fs) : Finds vs es fs := by
  refine ((List.forall₂_and_left es fs).2 ⟨hes, hfinds⟩).imp ?_
  rintro e f ⟨he, hfound, hpower⟩
  exact ⟨h e he f.1 hfound, hpower⟩

/-- A constituent of another base dimension can be left out. -/
theorem finds_tail (hperm : us.Perm (u :: vs)) (hu : u.measures (.ofBase b) = true)
    (hne : ∀ e ∈ es, b.same e.base = false) : Finds us es fs ↔ Finds vs es fs := by
  have hiff (e : Exponent) (he : b.same e.base = false) (w : MeasureUnit) :
      measuring e.base us = [w] ↔ measuring e.base vs = [w] := by
    rw [measuring_eq_singleton hperm, measuring_cons_of_ne hu he]
  exact ⟨Finds.imp hne fun e he w => (hiff e he w).1, Finds.imp hne fun e he w => (hiff e he w).2⟩

/-- The base dimension of the first entry is not that of another one. -/
theorem not_same_of_increasing (hes : Exponents.Increasing (e :: es)) :
    ∀ x ∈ es, e.base.same x.base = false := by
  obtain ⟨hlt, -⟩ := Exponents.increasing_cons.1 hes
  exact fun x hx => BaseDimension.not_same_of_lt (hlt x hx)

/-- None of the constituents of some base dimensions is found for another one. -/
theorem measuring_eq_nil (h : List.Forall₂ IsFactorOf es fs)
    (hne : ∀ e ∈ es, b.same e.base = false) : measuring b (fs.map Prod.fst) = [] := by
  induction h with
  | nil => rfl
  | cons hef _ ih =>
    obtain ⟨he, hes⟩ := List.forall_mem_cons.1 hne
    rw [BaseDimension.same_comm] at he
    rw [List.map_cons, measuring_cons_of_ne hef.1 he, ih hes]

/-- In a matching the constituent for an entry is the only one that is found for it. -/
theorem finds_of_isMatching (hes : Exponents.Increasing es) (h : IsMatching us es fs) :
    Finds us es fs := by
  obtain ⟨hperm, hfactors⟩ := h
  induction hfactors generalizing us with
  | nil => exact .nil
  | @cons e f es fs hef hrest ih =>
    obtain ⟨hf, hpower⟩ := hef
    have hne := not_same_of_increasing hes
    have hhead : measuring e.base us = [f.1] := by
      rw [measuring_eq_singleton hperm, List.map_cons, measuring_cons hf,
        measuring_eq_nil hrest hne]
    have htail : Finds (fs.map Prod.fst) es fs := ih (Exponents.increasing_cons.1 hes).2 (.refl _)
    exact .cons ⟨hhead, hpower⟩ ((finds_tail hperm hf hne).2 htail)

/-- If there are as many constituents as entries, finding one for each entry makes a matching:
what is found for one base dimension is not found for another, so that none is left over. -/
theorem isMatching_of_finds (hes : Exponents.Increasing es) (hlength : us.length = es.length)
    (h : Finds us es fs) : IsMatching us es fs := by
  induction es generalizing us fs with
  | nil =>
    cases h
    obtain rfl := List.eq_nil_of_length_eq_zero hlength
    exact ⟨.nil, .nil⟩
  | cons e es ih =>
    obtain ⟨f, fs, ⟨hfound, hpower⟩, hrest, rfl⟩ := List.forall₂_cons_left_iff.1 h
    obtain ⟨hf, vs, hperm⟩ := exists_perm_of_measuring hfound
    -- The rest is found among the other constituents, which are as many as the other entries.
    have hothers : vs.length = es.length := Nat.succ.inj (hperm.length_eq.symm.trans hlength)
    have htail : Finds vs es fs := (finds_tail hperm hf (not_same_of_increasing hes)).1 hrest
    obtain ⟨hunits, hfactors⟩ := ih (Exponents.increasing_cons.1 hes).2 hothers htail
    exact ⟨hperm.trans (hunits.cons f.1), .cons ⟨hf, hpower⟩ hfactors⟩

theorem IsMatching.length_eq (h : IsMatching us es fs) : us.length = es.length := by
  rw [h.units.length_eq, List.length_map, h.factors.length_eq]

/-! ## The deduced magnitude -/

/-- The magnitudes of units with their powers. -/
def magnitudes (fs : List (MeasureUnit × Power)) : List (Magnitude × Power) :=
  fs.map fun f => (f.1.magnitude, f.2)

/-- Where one constituent is found for each entry, nothing but the arithmetic can fail. -/
theorem deducedMagnitude_of_finds (h : Finds us es fs) (product : Magnitude) :
    deducedMagnitude symbol us product es =
      Error.lift (Magnitude.powerProduct product (magnitudes fs)) := by
  induction h generalizing product with
  | nil => rfl
  | cons hef _ ih =>
    obtain ⟨hfound, hpower⟩ := hef
    rw [magnitudes, List.map_cons, ← magnitudes, Magnitude.powerProduct]
    simp only [deducedMagnitude, hfound, ← hpower, ih, lift_bind]

theorem exists_finds {product m : Magnitude}
    (h : deducedMagnitude symbol us product es = .ok m) : ∃ fs, Finds us es fs := by
  induction es generalizing product with
  | nil => exact ⟨[], .nil⟩
  | cons e es ih =>
    rw [deducedMagnitude] at h
    split at h
    · rename_i u hu
      simp only [bind_eq_ok] at h
      obtain ⟨power, -, next, -, h⟩ := h
      obtain ⟨fs, hfs⟩ := ih h
      exact ⟨(u, e.power) :: fs, .cons ⟨hu, rfl⟩ hfs⟩
    · cases h

/-- The magnitude does not depend on the order of the constituents, and neither does the error. -/
theorem deducedMagnitude_perm (h : us.Perm vs) (product : Magnitude) (es : List Exponent) :
    deducedMagnitude symbol us product es = deducedMagnitude symbol vs product es := by
  induction es generalizing product with
  | nil => rfl
  | cons e es ih =>
    have hiff (u : MeasureUnit) := measuring_eq_singleton (b := e.base) (u := u) h
    rw [deducedMagnitude, deducedMagnitude]
    split
    · rename_i u hu
      simp only [(hiff u).1 hu, ih]
    · -- Not one constituent alone is found in the first list, so neither is it in the second.
      rename_i hnone
      split
      · rename_i u hu
        exact absurd ((hiff u).2 hu) (hnone u)
      · rfl

/-! ## The deduced unit -/

/-- Where the constituents correspond to the base dimensions, only raising a magnitude to its
power or multiplying magnitudes can fail. -/
theorem deduced_of_isMatching (hd : d.IsCanonical) (h : IsMatching us d.exponents fs) :
    deduced symbol name d us =
      (fun m => mk symbol name d m (.deduced us)) <$>
        Error.lift (Magnitude.powerProduct .one (magnitudes fs)) := by
  have hfinds := finds_of_isMatching hd.increasing h
  simp only [deduced, h.length_eq, ne_eq, not_true_eq_false, if_false,
    deducedMagnitude_of_finds hfinds]
  rfl

/-- Without such a correspondence there is no unit. -/
theorem exists_isMatching (hd : d.IsCanonical) (h : deduced symbol name d us = .ok u) :
    ∃ fs, IsMatching us d.exponents fs := by
  obtain ⟨hlength, m, hm, -⟩ := deduced_eq_ok.1 h
  obtain ⟨fs, hfinds⟩ := exists_finds hm
  exact ⟨fs, isMatching_of_finds hd.increasing hlength hfinds⟩

/-- The order of the constituents is only kept in the declaration of the unit. -/
theorem deduced_perm (symbol name : String) (d : Dimension) (h : us.Perm vs) :
    (∃ e, deduced symbol name d us = .error e ∧ deduced symbol name d vs = .error e) ∨
      ∃ m, deduced symbol name d us = .ok (mk symbol name d m (.deduced us)) ∧
        deduced symbol name d vs = .ok (mk symbol name d m (.deduced vs)) := by
  simp only [deduced, ← h.length_eq, ← deducedMagnitude_perm h]
  split
  · exact .inl ⟨_, rfl, rfl⟩
  · cases deducedMagnitude symbol us .one d.exponents with
    | error e => exact .inl ⟨e, rfl, rfl⟩
    | ok m => exact .inr ⟨m, rfl, rfl⟩

/-- A unit that measures a base dimension has a canonical dimension. -/
theorem isCanonical_of_measures (hu : u.measures (.ofBase b) = true) :
    u.dimension.IsCanonical := by
  rw [measures, Dimension.same, Dimension.ofBase, Exponents.same_iff_forall₂] at hu
  rw [Dimension.IsCanonical]
  generalize u.dimension.exponents = es at hu
  cases hu with
  | @cons e _ _ _ he hrest =>
    cases hrest
    refine Exponents.isCanonical_cons.2 ⟨List.forall_mem_nil _, ?_, Exponents.isCanonical_nil⟩
    rw [he.2]
    exact one_ne_zero

theorem forall_isCanonical (h : List.Forall₂ IsFactorOf es fs) :
    ∀ f ∈ fs, f.1.dimension.IsCanonical := by
  induction h with
  | nil => exact List.forall_mem_nil _
  | cons hef _ ih => exact List.forall_mem_cons.2 ⟨isCanonical_of_measures hef.1, ih⟩

/-- The constituents of a matching are regular units. -/
theorem IsMatching.isRegular (h : IsMatching us es fs) (hus : ∀ u ∈ us, u.magnitude.IsProper) :
    ∀ f ∈ fs, f.1.IsRegular := by
  intro f hf
  have hmem : f.1 ∈ us := h.units.mem_iff.2 (List.mem_map_of_mem hf)
  exact ⟨hus f.1 hmem, forall_isCanonical h.factors f hf⟩

/-- The powers of the factors have the degrees of the exponents in total. -/
theorem sum_extent (h : List.Forall₂ IsFactorOf es fs) :
    (fs.map fun f => f.2.val • f.1.extent).sum =
      (Exponents.degree es, (fs.map fun f => f.2.val • f.1.magnitude.factor).sum) := by
  induction h with
  | nil => rfl
  | @cons e f es fs hef _ ih =>
    obtain ⟨hbase, hpower⟩ := hef
    rw [List.map_cons, List.sum_cons, ih, List.map_cons, List.sum_cons]
    have hdegree (b : BaseDimension) : Exponents.degree (e :: es) b =
        f.2.val * f.1.dimension.degree b + Exponents.degree es b := by
      rw [Dimension.degree_of_same hbase, Dimension.degree_ofBase, Exponents.degree_cons, hpower,
        mul_ite, mul_one, mul_zero]
    exact Prod.ext (funext fun b => (hdegree b).symm) rfl

theorem extent_dimensionless : extent dimensionless = 0 :=
  Prod.ext rfl Magnitude.factor_one

theorem isRegular_dimensionless : dimensionless.IsRegular :=
  ⟨Magnitude.isProper_one, Dimension.isCanonical_dimensionless⟩

end MeasureUnit

/-! ## Products of powers -/

namespace UnitTree

variable {G : Type} [AddCommGroup G] {t : UnitTree} {fs : List (MeasureUnit × Power)}
  {f : MeasureUnit → G}

/-- The tree multiplies the powers of units in the order of the list, in any grouping; a product
of none is the unit of pure numbers. -/
inductive IsProductOf : UnitTree → List (MeasureUnit × Power) → Prop where
  | one : IsProductOf (.leaf .dimensionless) []
  | power (u : MeasureUnit) (n : Power) : IsProductOf (.power (.leaf u) n) [(u, n)]
  | multiply {s t : UnitTree} {fs gs : List (MeasureUnit × Power)} (hs : IsProductOf s fs)
      (ht : IsProductOf t gs) : IsProductOf (.multiply s t) (fs ++ gs)

theorem IsProductOf.total_eq_sum (h : IsProductOf t fs) (hone : f .dimensionless = 0) :
    t.total f = (fs.map fun g => g.2.val • f g.1).sum := by
  induction h with
  | one => exact hone
  | power u n => exact (List.sum_singleton).symm
  | multiply _ _ ihs iht => rw [total, ihs, iht, List.map_append, List.sum_append]

theorem IsProductOf.forall_leaves {P : MeasureUnit → Prop} (h : IsProductOf t fs)
    (hone : P .dimensionless) (hfs : ∀ f ∈ fs, P f.1) : ∀ u ∈ t.leaves, P u := by
  induction h with
  | one => exact List.forall_mem_singleton.2 hone
  | power u n => exact List.forall_mem_singleton.2 (hfs (u, n) (List.mem_singleton_self _))
  | multiply _ _ ihs iht =>
    obtain ⟨hs, ht⟩ := List.forall_mem_append.1 hfs
    exact List.forall_mem_append.2 ⟨ihs hs, iht ht⟩

end UnitTree

namespace MeasureUnit

variable {d : Dimension} {us : List MeasureUnit} {fs gs : List (MeasureUnit × Power)}
  {symbol name : String} {u v : MeasureUnit} {t : UnitTree}

/-- Any product of the powers of the constituents has the dimension and the magnitude of the
deduced unit. -/
theorem eq_deduced_of_isProductOf (hd : d.IsCanonical) (hus : ∀ u ∈ us, u.magnitude.IsProper)
    (h : IsMatching us d.exponents fs) (hu : deduced symbol name d us = .ok u)
    (hgs : gs.Perm fs) (ht : t.IsProductOf gs) (hv : t.eval = .ok v) :
    v.isCompatible u = true ∧ v.magnitude = u.magnitude := by
  have hregular := h.isRegular hus
  have hleaves : ∀ w ∈ t.leaves, w.IsRegular :=
    ht.forall_leaves isRegular_dimensionless fun g hg => hregular g (hgs.mem_iff.1 hg)
  -- The extent of the product is the sum over its factors, which has no order.
  obtain ⟨hvregular, hvextent⟩ := UnitTree.extent_of_eval hleaves hv
  rw [ht.total_eq_sum extent_dimensionless, (hgs.map _).sum_eq, sum_extent h.factors] at hvextent
  rw [deduced_of_isMatching hd h, map_eq_ok] at hu
  obtain ⟨m, hm, rfl⟩ := hu
  rw [lift_eq_ok] at hm
  -- The deduced unit has the dimension itself and the same sum of factors.
  have hpowers : ∀ f ∈ magnitudes fs, f.1.IsProper :=
    List.forall_mem_map.2 fun f hf => (hregular f hf).magnitude
  obtain ⟨hproper, hfactor⟩ := Magnitude.factor_powerProduct hpowers hm
  rw [magnitudes, List.map_map] at hfactor
  refine hvregular.eq_of_extent ⟨hproper, hd⟩ ?_
  rw [hvextent]
  exact Prod.ext rfl hfactor.symm

/-! ## Deduced and composed units -/

/-- For a canonical dimension and constituents of exact magnitudes that are not zero: without a
one-to-one correspondence between the constituents and the base dimensions, where each constituent
measures its base dimension to the first power, deduction fails. With one, it fails only if
raising a magnitude or multiplying magnitudes fails, and otherwise gives a unit of the dimension;
any product of the constituents raised to their powers, in whichever order and grouping, has the
magnitude of this unit if it can be evaluated. A permutation of the constituents fails with the
same error or gives an equal unit. -/
theorem deduced_eq_product (symbol name : String) (hd : d.IsCanonical)
    (hus : ∀ u ∈ us, u.magnitude.IsProper) :
    ((¬ ∃ fs, IsMatching us d.exponents fs) → ∃ e, deduced symbol name d us = .error e) ∧
    (∀ fs, IsMatching us d.exponents fs →
      deduced symbol name d us =
        (fun m => mk symbol name d m (.deduced us)) <$>
          Error.lift (Magnitude.powerProduct .one (magnitudes fs)) ∧
      ∀ u, deduced symbol name d us = .ok u → u.measures d = true ∧
        ∀ gs t v, gs.Perm fs → UnitTree.IsProductOf t gs → t.eval = .ok v →
          v.isCompatible u = true ∧ v.magnitude = u.magnitude) ∧
    ∀ vs, us.Perm vs →
      (∃ e, deduced symbol name d us = .error e ∧ deduced symbol name d vs = .error e) ∨
      ∃ u w, deduced symbol name d us = .ok u ∧ deduced symbol name d vs = .ok w ∧
        u.same w = true := by
  refine ⟨fun hnone => ?_, fun fs hfs => ⟨deduced_of_isMatching hd hfs, fun u hu => ⟨?_, ?_⟩⟩,
    fun vs hvs => ?_⟩
  · cases hu : deduced symbol name d us with
    | error e => exact ⟨e, rfl⟩
    | ok u => exact absurd (exists_isMatching hd hu) hnone
  · obtain ⟨-, m, -, rfl⟩ := deduced_eq_ok.1 hu
    exact Dimension.same_refl d
  · intro gs t v hgs ht hv
    exact eq_deduced_of_isProductOf hd hus hfs hu hgs ht hv
  · obtain ⟨e, hus, hvs⟩ | ⟨m, hu, hw⟩ := deduced_perm symbol name d hvs
    · exact .inl ⟨e, hus, hvs⟩
    · obtain ⟨-, n, hn, heq⟩ := deduced_eq_ok.1 hu
      cases heq
      have hexact : (mk symbol name d m (.deduced us)).magnitude.isExact = true :=
        isExact_deducedMagnitude (fun v hv => (hus v hv).exact) rfl hn
      refine .inr ⟨_, _, hu, hw, (same_iff_identity hexact).2 (identity_eq_iff.2 ?_)⟩
      exact ⟨rfl, Dimension.same_refl d, rfl⟩

/-- The hour. -/
def hour : MeasureUnit :=
  mk "h" "hour" (.ofBase Systems.time) (.integer 3600)
    (.scaled (Systems.coherentUnit Systems.time "second"))

/-- Kilometres per hour as the inverse of an hour by a kilometre. -/
def perHourByKilometre : UnitTree :=
  .multiply (.power (.leaf hour) (.lit (-1))) (.power (.leaf siKilometre) 1)

/-- The kilometre per hour is the same whichever constituent is named first, and as a product. -/
theorem deduced_eq_product_kilometre_hour :
    ∃ u v w, deduced "km/h" "kilometre per hour" .speed [siKilometre, hour] = .ok u ∧
      perHourByKilometre.eval = .ok v ∧ v.magnitude = u.magnitude ∧
      deduced "km/h" "kilometre per hour" .speed [hour, siKilometre] = .ok w ∧
      u.same w = true := by
  have hproper : ∀ u ∈ [siKilometre, hour], u.magnitude.IsProper :=
    List.forall_mem_cons.2 ⟨⟨rfl, rfl⟩, List.forall_mem_singleton.2 ⟨rfl, rfl⟩⟩
  have hmatching : IsMatching [siKilometre, hour] Dimension.speed.exponents
      [(siKilometre, 1), (hour, .lit (-1))] :=
    ⟨.refl _, .cons ⟨by decide, rfl⟩ (.cons ⟨by decide, rfl⟩ .nil)⟩
  obtain ⟨v, hv⟩ : ∃ v, perHourByKilometre.eval = .ok v := ⟨_, by with_unfolding_all rfl⟩
  obtain ⟨-, hproduct, hperm⟩ := deduced_eq_product "km/h" "kilometre per hour"
    Dimension.isCanonical_speed hproper
  obtain ⟨hdeduced, hagrees⟩ := hproduct _ hmatching
  obtain ⟨e, he, -⟩ | ⟨u, w, hu, hw, hsame⟩ := hperm [hour, siKilometre] (.swap _ _ _)
  · -- Nothing overflows here.
    have hok : Magnitude.powerProduct .one (magnitudes [(siKilometre, 1), (hour, .lit (-1))]) =
        .ok (.exact (mkRat 5 18)) := by with_unfolding_all rfl
    rw [hdeduced, hok] at he
    cases he
  · obtain ⟨-, hall⟩ := hagrees u hu
    obtain ⟨-, hmagnitude⟩ := hall _ _ v (.swap _ _ _)
      (.multiply (.power hour (.lit (-1))) (.power siKilometre 1)) hv
    exact ⟨u, v, w, hu, hv, hmagnitude, hw, hsame⟩

end MeasureUnit

end Metrology
