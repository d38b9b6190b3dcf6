/-
  Metrology.Proofs.Dimension.Formula

  Dimensions made by formulas: constructions, products, quotients, inverses, powers and roots
  in any nesting. Whatever the formula, the dimension is canonical and its powers are those
  that the operations prescribe, so equal powers make equal dimensions.
-/
import Metrology.Proofs.Dimension.Composition
import Metrology.Proofs.Dimension.Scaling

namespace Metrology

/-! ## Operations on canonical dimensions -/

namespace Dimension

variable {a b c d : Dimension} {n : Power}

theorem isCanonical_dimensionless : dimensionless.IsCanonical := Exponents.isCanonical_nil

theorem isCanonical_ofBase (base : BaseDimension) : (ofBase base).IsCanonical :=
  Exponents.isCanonical_cons.2 ⟨List.forall_mem_nil _, one_ne_zero, Exponents.isCanonical_nil⟩

theorem degree_ofBase (base e : BaseDimension) :
    (ofBase base).degree e = if base.same e then 1 else 0 := by
  rw [degree, ofBase, Exponents.degree_cons, Exponents.degree_nil, add_zero]
  rfl

theorem isCanonical_multiply (ha : a.IsCanonical) (hb : b.IsCanonical)
    (h : a.multiply b = .ok c) : c.IsCanonical := by
  rw [multiply, map_eq_ok] at h
  obtain ⟨es, hes, rfl⟩ := h
  exact Exponents.isCanonical_merge one_ne_zero ha hb hes

theorem isCanonical_divide (ha : a.IsCanonical) (hb : b.IsCanonical)
    (h : a.divide b = .ok c) : c.IsCanonical := by
  rw [divide, map_eq_ok] at h
  obtain ⟨es, hes, rfl⟩ := h
  have hsign : (FixedInt.lit (-1) : Power).val ≠ 0 := by decide
  exact Exponents.isCanonical_merge hsign ha hb hes

theorem isCanonical_power (hd : d.IsCanonical) (h : d.power n = .ok c) : c.IsCanonical := by
  rw [power, mk_eq_ok] at h
  by_cases hn : n.val = 0
  · rw [Exponents.power_of_eq_zero _ hn, Except.ok.injEq] at h
    rw [IsCanonical, ← h]
    exact Exponents.isCanonical_nil
  · exact ((Exponents.power_eq_ok hn).1 h).isCanonical hd hn

theorem isCanonical_root (hd : d.IsCanonical) (h : d.root n = .ok c) : c.IsCanonical := by
  rw [root, mk_eq_ok, Exponents.root_eq_ok] at h
  exact h.2.isCanonical_of hd

/-- The powers of a root are the exact quotients by its index. -/
theorem degree_root (h : d.root n = .ok c) (e : BaseDimension) :
    c.degree e * n.val = d.degree e := by
  rw [root, mk_eq_ok, Exponents.root_eq_ok] at h
  exact (Exponents.degree_mapM_scale (Exponents.mapM_scale_eq_ok.2 h.2) e).symm

theorem index_pos_of_root (h : d.root n = .ok c) : 0 < n.val := by
  rw [root, mk_eq_ok, Exponents.root_eq_ok] at h
  exact h.1

/-! ## Formulas -/

/-- The ways of making a dimension. -/
inductive Formula where
  | dimensionless
  | base (base : BaseDimension)
  /-- Base dimensions with their powers, in any order and any number of times. -/
  | exponents (es : List Exponent)
  | multiply (a b : Formula)
  | divide (a b : Formula)
  | invert (a : Formula)
  | power (a : Formula) (n : Power)
  | root (a : Formula) (n : Power)

namespace Formula

/-- The dimension that the operations on dimensions give. -/
def eval : Formula → Except Error Dimension
  | dimensionless => .ok .dimensionless
  | base b => .ok (.ofBase b)
  | exponents es => ofExponents es
  | multiply a b => do
    let x ← a.eval
    let y ← b.eval
    x.multiply y
  | divide a b => do
    let x ← a.eval
    let y ← b.eval
    x.divide y
  | invert a => do
    let x ← a.eval
    x.invert
  | power a n => do
    let x ← a.eval
    x.power n
  | root a n => do
    let x ← a.eval
    x.root n

/-- The integer power that the operations prescribe for a base dimension. -/
def degree : Formula → BaseDimension → Int
  | dimensionless, _ => 0
  | base b, e => if b.same e then 1 else 0
  | exponents es, e => Exponents.degree es e
  | multiply a b, e => a.degree e + b.degree e
  | divide a b, e => a.degree e - b.degree e
  | invert a, e => -a.degree e
  | power a n, e => a.degree e * n.val
  | root a n, e => a.degree e / n.val

/-- Every root that is taken has a positive index which divides the powers, so that none of
the prescribed quotients is rounded. -/
def HasExactRoots : Formula → Prop
  | dimensionless => True
  | base _ => True
  | exponents _ => True
  | multiply a b => a.HasExactRoots ∧ b.HasExactRoots
  | divide a b => a.HasExactRoots ∧ b.HasExactRoots
  | invert a => a.HasExactRoots
  | power a _ => a.HasExactRoots
  | root a n => a.HasExactRoots ∧ 0 < n.val ∧ ∀ e, n.val ∣ a.degree e

/-- A formula that is evaluated gives a canonical dimension of the prescribed powers. -/
theorem isCanonical_of_eval {f : Formula} (h : f.eval = .ok d) :
    d.IsCanonical ∧ ∀ e, d.degree e = f.degree e := by
  induction f generalizing d with
  | dimensionless =>
    cases h
    exact ⟨isCanonical_dimensionless, fun e => rfl⟩
  | base b =>
    cases h
    exact ⟨isCanonical_ofBase b, degree_ofBase b⟩
  | exponents es =>
    obtain ⟨hcanonical, hpower⟩ := (ofExponents_overflowsUnless es).of_ok h
    refine ⟨hcanonical, fun e => ?_⟩
    rw [← powerOf_val hcanonical, hpower, degree]
  | multiply a b iha ihb =>
    simp only [eval, bind_eq_ok] at h
    obtain ⟨x, hx, y, hy, h⟩ := h
    obtain ⟨hxcanonical, hxdegree⟩ := iha hx
    obtain ⟨hycanonical, hydegree⟩ := ihb hy
    refine ⟨isCanonical_multiply hxcanonical hycanonical h, fun e => ?_⟩
    rw [degree_multiply h, hxdegree, hydegree, degree]
  | divide a b iha ihb =>
    simp only [eval, bind_eq_ok] at h
    obtain ⟨x, hx, y, hy, h⟩ := h
    obtain ⟨hxcanonical, hxdegree⟩ := iha hx
    obtain ⟨hycanonical, hydegree⟩ := ihb hy
    refine ⟨isCanonical_divide hxcanonical hycanonical h, fun e => ?_⟩
    rw [degree_divide h, hxdegree, hydegree, degree]
  | invert a iha =>
    simp only [eval, bind_eq_ok] at h
    obtain ⟨x, hx, h⟩ := h
    obtain ⟨hxcanonical, hxdegree⟩ := iha hx
    -- The inverse is the quotient of pure numbers and the dimension.
    refine ⟨isCanonical_divide isCanonical_dimensionless hxcanonical h, fun e => ?_⟩
    have hzero : Dimension.dimensionless.degree e = 0 := rfl
    rw [degree_divide h, hxdegree, hzero, zero_sub, degree]
  | power a n iha =>
    simp only [eval, bind_eq_ok] at h
    obtain ⟨x, hx, h⟩ := h
    obtain ⟨hxcanonical, hxdegree⟩ := iha hx
    refine ⟨isCanonical_power hxcanonical h, fun e => ?_⟩
    rw [degree_power h, hxdegree, degree]
  | root a n iha =>
    simp only [eval, bind_eq_ok] at h
    obtain ⟨x, hx, h⟩ := h
    obtain ⟨hxcanonical, hxdegree⟩ := iha hx
    refine ⟨isCanonical_root hxcanonical h, fun e => ?_⟩
    -- The index divides every power, so nothing is rounded.
    have hmul := degree_root h e
    rw [hxdegree] at hmul
    rw [degree, ← hmul, Int.mul_ediv_cancel _ (index_pos_of_root h).ne']

/-- A formula is evaluated only if all of its roots are exact. -/
theorem hasExactRoots_of_eval {f : Formula} (h : f.eval = .ok d) : f.HasExactRoots := by
  induction f generalizing d with
  | dimensionless => trivial
  | base b => trivial
  | exponents es => trivial
  | multiply a b iha ihb =>
    simp only [eval, bind_eq_ok] at h
    obtain ⟨x, hx, y, hy, -⟩ := h
    exact ⟨iha hx, ihb hy⟩
  | divide a b iha ihb =>
    simp only [eval, bind_eq_ok] at h
    obtain ⟨x, hx, y, hy, -⟩ := h
    exact ⟨iha hx, ihb hy⟩
  | invert a iha =>
    simp only [eval, bind_eq_ok] at h
    obtain ⟨x, hx, -⟩ := h
    exact iha hx
  | power a n iha =>
    simp only [eval, bind_eq_ok] at h
    obtain ⟨x, hx, -⟩ := h
    exact iha hx
  | root a n iha =>
    simp only [eval, bind_eq_ok] at h
    obtain ⟨x, hx, h⟩ := h
    refine ⟨iha hx, index_pos_of_root h, fun e => ?_⟩
    rw [← (isCanonical_of_eval hx).2 e, ← degree_root h e]
    exact Int.dvd_mul_left (d.degree e) n.val

/-- Dimensions made by formulas are canonical: their exponents increase strictly, no power is
zero, and the power of each base dimension is the prescribed one, in which all quotients are
exact. Two of them are the same list exactly if they have the same power for every base
dimension, however they were made. -/
theorem eval_canonical {f g : Formula} {c d : Dimension} (hc : f.eval = .ok c)
    (hd : g.eval = .ok d) :
    (c.exponents.Pairwise (fun x y => x.base.compare y.base = .lt) ∧
      ∀ e ∈ c.exponents, e.power.val ≠ 0) ∧
    (∀ b, (c.powerOf b).val = f.degree b) ∧ f.HasExactRoots ∧
    (c.same d = true ↔ ∀ b, c.powerOf b = d.powerOf b) := by
  obtain ⟨hccanonical, hcdegree⟩ := isCanonical_of_eval hc
  obtain ⟨hdcanonical, -⟩ := isCanonical_of_eval hd
  refine ⟨⟨hccanonical.increasing, hccanonical.nonzero⟩, fun b => ?_,
    hasExactRoots_of_eval hc, same_iff_powerOf hccanonical hdcanonical⟩
  rw [powerOf_val hccanonical, hcdegree]

/-- The root of an area over time. -/
def speedByRoot : Formula :=
  .divide (.root (.power (.base Systems.length) (.lit 2)) (.lit 2)) (.base Systems.time)

/-- Time in two parts, times a length. -/
def speedByParts : Formula :=
  .multiply (.exponents [⟨Systems.time, .lit (-2)⟩, ⟨Systems.time, 1⟩]) (.base Systems.length)

/-- Both give one canonical dimension. -/
theorem eval_canonical_speed :
    ∃ c d : Dimension, speedByRoot.eval = .ok c ∧ speedByParts.eval = .ok d ∧
      (c.exponents.Pairwise (fun x y => x.base.compare y.base = .lt) ∧
        ∀ e ∈ c.exponents, e.power.val ≠ 0) ∧
      (∀ b, (c.powerOf b).val = speedByRoot.degree b) ∧ speedByRoot.HasExactRoots ∧
      (c.same d = true ↔ ∀ b, c.powerOf b = d.powerOf b) ∧ c.same d = true := by
  have hroot : speedByRoot.eval = .ok speed := by cbv
  have hparts : speedByParts.eval = .ok speed := by
    -- The parts are in order, which spares the evaluation of sorting.
    have hsort : Exponents.sort [⟨Systems.time, .lit (-2)⟩, ⟨Systems.time, 1⟩] =
        [⟨Systems.time, .lit (-2)⟩, ⟨Systems.time, 1⟩] :=
      List.mergeSort_of_pairwise (by decide)
    simp only [speedByParts, eval, ofExponents, Exponents.normalize, hsort]
    cbv
  obtain ⟨hcanonical, hpower, hexact, hsame⟩ := eval_canonical hroot hparts
  exact ⟨_, _, hroot, hparts, hcanonical, hpower, hexact, hsame, hsame.2 fun b => rfl⟩

end Formula

end Dimension

end Metrology
