/-
  Metrology.Proofs.MeasureUnit.Tree

  Units composed by products, quotients, powers and inverses in any nesting. The degrees and the
  magnitude of such a unit are totals of those of the units it is made from, each counted as often
  as its net exponent says. Totals depend on nothing but the net exponents, since these are the
  coordinates in the free abelian group of the units.
-/
import Metrology.Proofs.Dimension.Bridging
import Metrology.Proofs.Dimension.Formula
import Metrology.Proofs.Magnitude.Factor
import Metrology.Proofs.MeasureUnit.Composition
import Mathlib.Algebra.BigOperators.Finsupp.Basic

namespace Metrology

/-! ## Units that are the same -/

namespace MeasureUnit

variable {a b u v : MeasureUnit} {n : Power}

/-- What tells units of exact magnitude apart. -/
structure Identity where
  symbol : String
  powers : List ((String × String) × Power)
  magnitude : Magnitude
  deriving DecidableEq

/-- The symbol, the base dimensions with their powers, and the magnitude. -/
def identity (u : MeasureUnit) : Identity :=
  ⟨u.symbol, u.dimension.exponents.map fun e => ((e.base.name, e.base.referenceUnit), e.power),
    u.magnitude⟩

theorem identity_eq_iff :
    u.identity = v.identity ↔
      u.symbol = v.symbol ∧ u.isCompatible v = true ∧ u.magnitude = v.magnitude := by
  rw [identity, identity, Identity.mk.injEq, isCompatible, Dimension.same,
    Exponents.same_iff_forall₂, ← List.forall₂_eq_eq_eq, List.forall₂_map_left_iff,
    List.forall₂_map_right_iff]
  simp only [Prod.mk.injEq, BaseDimension.same_iff]

/-- Of units with exact magnitudes the same ones are those with one identity. -/
theorem same_iff_identity (hu : u.magnitude.isExact = true) :
    u.same v = true ↔ u.identity = v.identity := by
  rw [identity_eq_iff, same, isCompatible]
  simp only [Bool.and_eq_true, Bool.or_eq_true, beq_iff_eq, decide_eq_true_eq, and_assoc]
  refine and_congr_right fun _ => and_congr_right fun _ => ?_
  constructor
  · rintro (h | ⟨-, h⟩)
    · exact (Magnitude.sameValue_iff hu).1 h
    · exact h
  · intro h
    exact .inl ((Magnitude.sameValue_iff hu).2 h)

/-! ## Extents -/

/-- The magnitude is exact and not zero, and the dimension is canonical, as those are which the
operations on dimensions make. -/
structure IsRegular (u : MeasureUnit) : Prop where
  magnitude : u.magnitude.IsProper
  dimension : u.dimension.IsCanonical

/-- The degrees of the dimension and the factor that the magnitude is. -/
def extent (u : MeasureUnit) : (BaseDimension → Int) × Factor :=
  (u.dimension.degree, u.magnitude.factor)

theorem extent_factorsThrough : extent.FactorsThrough identity := by
  intro u v h
  obtain ⟨-, hcompatible, hmagnitude⟩ := identity_eq_iff.1 h
  rw [extent, extent, hmagnitude, funext (Dimension.degree_of_same hcompatible)]

/-- Regular units of one extent have the same dimension and magnitude. -/
theorem IsRegular.eq_of_extent (ha : a.IsRegular) (hb : b.IsRegular) (h : a.extent = b.extent) :
    a.isCompatible b = true ∧ a.magnitude = b.magnitude := by
  obtain ⟨hdegree, hfactor⟩ := Prod.mk.inj h
  exact ⟨Exponents.same_of_degree ha.dimension hb.dimension (congrFun hdegree),
    ha.magnitude.eq_of_factor hb.magnitude hfactor⟩

theorem IsRegular.multiply (ha : a.IsRegular) (hb : b.IsRegular) (h : a.multiply b = .ok u) :
    u.IsRegular ∧ u.extent = a.extent + b.extent := by
  obtain ⟨hd, hm⟩ := multiply_of_ok h
  obtain ⟨hproper, hfactor⟩ := ha.magnitude.mul hb.magnitude hm
  refine ⟨⟨hproper, Dimension.isCanonical_multiply ha.dimension hb.dimension hd⟩, ?_⟩
  exact Prod.ext (funext (Dimension.degree_multiply hd)) hfactor

theorem IsRegular.divide (ha : a.IsRegular) (hb : b.IsRegular) (h : a.divide b = .ok u) :
    u.IsRegular ∧ u.extent = a.extent - b.extent := by
  obtain ⟨hd, hm⟩ := divide_of_ok h
  obtain ⟨hproper, hfactor⟩ := ha.magnitude.div hb.magnitude hm
  refine ⟨⟨hproper, Dimension.isCanonical_divide ha.dimension hb.dimension hd⟩, ?_⟩
  exact Prod.ext (funext (Dimension.degree_divide hd)) hfactor

theorem IsRegular.power (ha : a.IsRegular) (h : a.power n = .ok u) :
    u.IsRegular ∧ u.extent = n.val • a.extent := by
  obtain ⟨hn, rfl⟩ | ⟨hd, hm⟩ := power_of_ok h
  · rw [hn, one_zsmul]
    exact ⟨ha, rfl⟩
  · obtain ⟨hproper, hfactor⟩ := ha.magnitude.pow hm
    have hdegree (e : BaseDimension) : u.dimension.degree e = n.val * a.dimension.degree e := by
      rw [Dimension.degree_power hd, mul_comm]
    refine ⟨⟨hproper, Dimension.isCanonical_power ha.dimension hd⟩, ?_⟩
    exact Prod.ext (funext hdegree) hfactor

theorem IsRegular.inverse (ha : a.IsRegular) (h : a.inverse = .ok u) :
    u.IsRegular ∧ u.extent = -a.extent := by
  obtain ⟨hd, hm⟩ := inverse_of_ok h
  obtain ⟨hproper, hfactor⟩ := ha.magnitude.recip hm
  -- The inverse is the quotient of pure numbers, which have no degrees.
  have hdegree (e : BaseDimension) : u.dimension.degree e = -a.dimension.degree e :=
    (Dimension.degree_divide hd e).trans (zero_sub _)
  refine ⟨⟨hproper, ?_⟩, Prod.ext (funext hdegree) hfactor⟩
  exact Dimension.isCanonical_divide Dimension.isCanonical_dimensionless ha.dimension hd

end MeasureUnit

/-! ## Trees -/

/-- A way of making a unit from others. -/
inductive UnitTree where
  | leaf (u : MeasureUnit)
  | multiply (s t : UnitTree)
  | divide (s t : UnitTree)
  | power (t : UnitTree) (n : Power)
  | inverse (t : UnitTree)

namespace UnitTree

/-- The unit that the operations on units give. -/
def eval : UnitTree → Except Error MeasureUnit
  | leaf u => .ok u
  | multiply s t => do
    let a ← s.eval
    let b ← t.eval
    a.multiply b
  | divide s t => do
    let a ← s.eval
    let b ← t.eval
    a.divide b
  | power t n => do
    let a ← t.eval
    a.power n
  | inverse t => do
    let a ← t.eval
    a.inverse

/-- The units that the tree is made from, in order. -/
def leaves : UnitTree → List MeasureUnit
  | leaf u => [u]
  | multiply s t => s.leaves ++ t.leaves
  | divide s t => s.leaves ++ t.leaves
  | power t _ => t.leaves
  | inverse t => t.leaves

/-! ### Totals -/

variable {G H : Type} [AddCommGroup G] [AddCommGroup H] {s t : UnitTree} {f g : MeasureUnit → G}
  {u : MeasureUnit}

/-- The total of what the leaves contribute, with the signs and multiples that the operations
above them call for. -/
def total (f : MeasureUnit → G) : UnitTree → G
  | leaf u => f u
  | multiply s t => s.total f + t.total f
  | divide s t => s.total f - t.total f
  | power t n => n.val • t.total f
  | inverse t => -t.total f

/-- The net exponent of a unit: how often it is multiplied in, less how often it is divided by. -/
def exponent (t : UnitTree) (u : MeasureUnit) : Int :=
  t.total fun v => if v.same u then 1 else 0

theorem total_congr (h : ∀ u ∈ t.leaves, f u = g u) : t.total f = t.total g := by
  induction t with
  | leaf u => exact h u (List.mem_singleton_self u)
  | multiply s t ihs iht =>
    obtain ⟨hs, ht⟩ := List.forall_mem_append.1 h
    rw [total, total, ihs hs, iht ht]
  | divide s t ihs iht =>
    obtain ⟨hs, ht⟩ := List.forall_mem_append.1 h
    rw [total, total, ihs hs, iht ht]
  | power t n iht => rw [total, total, iht h]
  | inverse t iht => rw [total, total, iht h]

/-- Homomorphisms act on totals leaf by leaf. -/
theorem map_total (φ : G →+ H) (f : MeasureUnit → G) (t : UnitTree) :
    φ (t.total f) = t.total fun u => φ (f u) := by
  induction t with
  | leaf u => rfl
  | multiply s t ihs iht => rw [total, total, map_add, ihs, iht]
  | divide s t ihs iht => rw [total, total, map_sub, ihs, iht]
  | power t n iht => rw [total, total, map_zsmul, iht]
  | inverse t iht => rw [total, total, map_neg, iht]

theorem total_eq_zero (h : ∀ u ∈ t.leaves, f u = 0) : t.total f = 0 := by
  rw [total_congr (g := fun _ => (0 : G →+ G) 0) h, ← map_total]
  rfl

/-! ### Coordinates -/

/-- The element of the free abelian group on the identities of units. -/
noncomputable def formal (t : UnitTree) : MeasureUnit.Identity →₀ ℤ :=
  t.total fun u => Finsupp.single u.identity 1

theorem formal_apply (t : UnitTree) (i : MeasureUnit.Identity) :
    t.formal i = t.total fun u => if u.identity = i then (1 : ℤ) else 0 := by
  have hmap := map_total (Finsupp.applyAddHom i) (fun u => Finsupp.single u.identity (1 : ℤ)) t
  simp only [Finsupp.applyAddHom_apply, Finsupp.single_apply] at hmap
  exact hmap

/-- The coordinates are the net exponents. -/
theorem formal_identity (ht : ∀ v ∈ t.leaves, v.magnitude.isExact = true) (u : MeasureUnit) :
    t.formal u.identity = t.exponent u := by
  rw [formal_apply, exponent]
  refine total_congr fun v hv => ?_
  simp only [← MeasureUnit.same_iff_identity (ht v hv)]

/-- A total of contributions that only depend on the identity is the image of the element. -/
theorem total_eq_lift (k : MeasureUnit.Identity → G) (t : UnitTree) :
    (t.total fun u => k u.identity) =
      Finsupp.liftAddHom (fun i => zmultiplesHom G (k i)) t.formal := by
  rw [formal, map_total]
  refine total_congr fun u _ => ?_
  rw [Finsupp.liftAddHom_apply_single, zmultiplesHom_apply, one_zsmul]

/-- Trees in which every leaf has the same net exponent are the same element. -/
theorem formal_eq (hs : ∀ u ∈ s.leaves, u.magnitude.isExact = true)
    (ht : ∀ u ∈ t.leaves, u.magnitude.isExact = true)
    (h : ∀ u ∈ s.leaves ++ t.leaves, s.exponent u = t.exponent u) : s.formal = t.formal := by
  ext i
  by_cases hi : ∃ u ∈ s.leaves ++ t.leaves, u.identity = i
  · obtain ⟨u, hu, rfl⟩ := hi
    rw [formal_identity hs, formal_identity ht, h u hu]
  · -- What is no leaf of either tree has the coordinate zero in both.
    have hzero : ∀ u ∈ s.leaves ++ t.leaves, (if u.identity = i then (1 : ℤ) else 0) = 0 :=
      fun u hu => if_neg fun heq => hi ⟨u, hu, heq⟩
    obtain ⟨hszero, htzero⟩ := List.forall_mem_append.1 hzero
    rw [formal_apply, formal_apply, total_eq_zero hszero, total_eq_zero htzero]

/-- Totals of what depends on the identity only are determined by the net exponents. -/
theorem total_eq (hs : ∀ u ∈ s.leaves, u.magnitude.isExact = true)
    (ht : ∀ u ∈ t.leaves, u.magnitude.isExact = true)
    (h : ∀ u ∈ s.leaves ++ t.leaves, s.exponent u = t.exponent u)
    (hf : f.FactorsThrough MeasureUnit.identity) : s.total f = t.total f := by
  -- Beyond the identities of units the contribution is of no account.
  obtain ⟨k, rfl⟩ : ∃ k : MeasureUnit.Identity → G, f = fun u => k u.identity :=
    ⟨Function.extend MeasureUnit.identity f 0, funext fun u => (hf.extend_apply 0 u).symm⟩
  rw [total_eq_lift, total_eq_lift, formal_eq hs ht h]

/-! ### Evaluation -/

/-- A tree of regular units makes a regular unit, with the total of the extents as its extent. -/
theorem extent_of_eval (ht : ∀ v ∈ t.leaves, v.IsRegular) (h : t.eval = .ok u) :
    u.IsRegular ∧ u.extent = t.total MeasureUnit.extent := by
  induction t generalizing u with
  | leaf v =>
    cases h
    exact ⟨ht v (List.mem_singleton_self v), rfl⟩
  | multiply s t ihs iht =>
    simp only [eval, bind_eq_ok] at h
    obtain ⟨a, ha, b, hb, h⟩ := h
    obtain ⟨hs, ht⟩ := List.forall_mem_append.1 ht
    obtain ⟨haregular, haextent⟩ := ihs hs ha
    obtain ⟨hbregular, hbextent⟩ := iht ht hb
    rw [total, ← haextent, ← hbextent]
    exact haregular.multiply hbregular h
  | divide s t ihs iht =>
    simp only [eval, bind_eq_ok] at h
    obtain ⟨a, ha, b, hb, h⟩ := h
    obtain ⟨hs, ht⟩ := List.forall_mem_append.1 ht
    obtain ⟨haregular, haextent⟩ := ihs hs ha
    obtain ⟨hbregular, hbextent⟩ := iht ht hb
    rw [total, ← haextent, ← hbextent]
    exact haregular.divide hbregular h
  | power t n iht =>
    simp only [eval, bind_eq_ok] at h
    obtain ⟨a, ha, h⟩ := h
    obtain ⟨haregular, haextent⟩ := iht ht ha
    rw [total, ← haextent]
    exact haregular.power h
  | inverse t iht =>
    simp only [eval, bind_eq_ok] at h
    obtain ⟨a, ha, h⟩ := h
    obtain ⟨haregular, haextent⟩ := iht ht ha
    rw [total, ← haextent]
    exact haregular.inverse h

end UnitTree

end Metrology
