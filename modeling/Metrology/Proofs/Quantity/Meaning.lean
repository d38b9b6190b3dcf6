/-
  Metrology.Proofs.Quantity.Meaning

  Arithmetic of exactly kept quantities means what it says. Each operation that succeeds on
  quantities in units of positive magnitude gives the quantity of the exact result, in a unit
  of positive magnitude again, and by induction so does every expression.
-/
import Metrology.Proofs.Quantity.Conversion
import Metrology.Proofs.Quantity.Expression

namespace Metrology

namespace Quantity

variable {r : Representation} {x y z x' y' : Quantity r} {m n : PiMultiple}
  {d e : BaseDimension → Int}

/-! ## Quantities and what they mean -/

/-- The quantity is the number, of the given degrees, in a unit of positive magnitude. -/
structure Means (q : Quantity r) (n : PiMultiple) (d : BaseDimension → Int) : Prop where
  exact : ∃ c k, 0 < c ∧ q.unit.magnitude = ⟨.exact c, k⟩ ∧
    n = ⟨r.number q.value * c, k.val⟩
  degree : ∀ b, q.dimension.degree b = d b

theorem Means.number? (h : x.Means n d) : x.number? = some n := by
  obtain ⟨⟨c, k, -, hmagnitude, rfl⟩, -⟩ := h
  exact number?_of_magnitude hmagnitude

theorem Means.isPositive (h : x.Means n d) : x.unit.IsPositive := by
  obtain ⟨⟨c, k, hc, hmagnitude, -⟩, -⟩ := h
  exact ⟨c, k, hmagnitude, hc⟩

/-- A quantity in a unit of positive magnitude means its number and its dimension. -/
theorem means_of_isPositive (h : x.unit.IsPositive) :
    ∃ n, x.number? = some n ∧ x.Means n x.dimension.degree := by
  obtain ⟨c, k, hmagnitude, hc⟩ := h
  exact ⟨_, number?_of_magnitude hmagnitude, ⟨c, k, hc, hmagnitude, rfl⟩, fun _ => rfl⟩

/-! ## Conversion -/

theorem Means.convertTo (hr : r.IsExact) {t : MeasureUnit} (hx : x.Means n d)
    (ht : t.IsPositive) (h : x.convertTo t = .ok z) : z.Means n d := by
  obtain ⟨⟨c, k, -, hc, rfl⟩, hd⟩ := hx
  obtain ⟨f, l, hf, hpos⟩ := ht
  obtain ⟨hxt, -, rfl, -, hunit, hnumber⟩ := (convertTo_eq_ok hr hc hf).1 h
  refine ⟨⟨f, k, hpos, by rw [hunit, hf], by rw [hnumber]⟩, fun b => ?_⟩
  rw [← hd b, dimension, hunit]
  exact (Dimension.degree_of_same hxt b).symm

theorem Means.toCoherent (hr : r.IsExact) (hx : x.Means n d) (h : x.toCoherent = .ok z) :
    z.Means n d := by
  rw [Quantity.toCoherent] at h
  split at h
  · cases h
    exact hx
  · -- The coherent unit is made with the magnitude one.
    exact hx.convertTo hr ⟨1, 0, rfl, one_pos⟩ h

/-- Both quantities keep their meanings in their common unit, and there the meanings have one
power of pi and the magnitude as a positive factor. -/
theorem Means.inCommonUnit (hr : r.IsExact) {operation : String} (hx : x.Means m d)
    (hy : y.Means n e) (h : inCommonUnit operation x y = .ok (x', y')) :
    ∃ c k, 0 < c ∧ x'.unit.magnitude = ⟨.exact c, k⟩ ∧
      m = ⟨r.number x'.value * c, k.val⟩ ∧ n = ⟨r.number y'.value * c, k.val⟩ ∧
        ∀ b, x'.dimension.degree b = d b := by
  obtain ⟨u, hu, hx', hy'⟩ := inCommonUnit_eq_ok.1 h
  have hpos := MeasureUnit.isPositive_common hx.isPositive hy.isPositive hu
  obtain ⟨⟨c, k, hc, hmagnitude, rfl⟩, hd⟩ := hx.convertTo hr hpos hx'
  obtain ⟨⟨f, l, -, hmagnitude', rfl⟩, -⟩ := hy.convertTo hr hpos hy'
  -- One unit has one magnitude, so the two meanings share it.
  have hunit : y'.unit = x'.unit := by rw [unit_of_convertTo hx', unit_of_convertTo hy']
  rw [hunit, hmagnitude] at hmagnitude'
  cases hmagnitude'
  exact ⟨c, k, hc, hmagnitude, rfl, rfl, hd⟩

/-! ## Arithmetic -/

theorem Means.add (hr : r.IsExact) (hx : x.Means m d) (hy : y.Means n e)
    (h : x.add y = .ok z) : ∃ s, m.add? n = some s ∧ z.Means s d := by
  rw [Quantity.add, bind_eq_ok] at h
  obtain ⟨⟨x', y'⟩, hcommon, h⟩ := h
  obtain ⟨v, hv, hz⟩ := bind_eq_ok.1 h
  cases hz
  obtain ⟨c, k, hc, hmagnitude, rfl, rfl, hd⟩ := hx.inCommonUnit hr hy hcommon
  rw [Representation.add_eq_ok hr] at hv
  refine ⟨_, if_pos rfl, ⟨c, k, hc, hmagnitude, ?_⟩, hd⟩
  rw [hv, add_mul]

theorem Means.sub (hr : r.IsExact) (hx : x.Means m d) (hy : y.Means n e)
    (h : x.sub y = .ok z) : ∃ s, m.sub? n = some s ∧ z.Means s d := by
  rw [Quantity.sub, bind_eq_ok] at h
  obtain ⟨⟨x', y'⟩, hcommon, h⟩ := h
  obtain ⟨v, hv, hz⟩ := bind_eq_ok.1 h
  cases hz
  obtain ⟨c, k, hc, hmagnitude, rfl, rfl, hd⟩ := hx.inCommonUnit hr hy hcommon
  rw [Representation.sub_eq_ok hr] at hv
  refine ⟨_, if_pos rfl, ⟨c, k, hc, hmagnitude, ?_⟩, hd⟩
  rw [hv, sub_mul]

theorem Means.mul (hr : r.IsExact) (hx : x.Means m d) (hy : y.Means n e)
    (h : x.mul y = .ok z) : z.Means (m.mul n) fun b => d b + e b := by
  simp only [Quantity.mul, bind_eq_ok] at h
  obtain ⟨u, hu, v, hv, hz⟩ := h
  cases hz
  obtain ⟨⟨c, k, hc, hmagnitude, rfl⟩, hd⟩ := hx
  obtain ⟨⟨f, l, hf, hmagnitude', rfl⟩, he⟩ := hy
  obtain ⟨hdimension, hproduct⟩ := MeasureUnit.multiply_of_ok hu
  rw [hmagnitude, hmagnitude', Magnitude.mul_exact_eq_ok] at hproduct
  rw [Representation.mul_eq_ok hr] at hv
  refine ⟨⟨c * f, u.magnitude.pi, mul_pos hc hf, ?_, ?_⟩, fun b => ?_⟩
  · rw [← hproduct.1]
  · rw [PiMultiple.mul, hproduct.2, hv, mul_mul_mul_comm]
  · rw [← hd b, ← he b]
    exact Dimension.degree_multiply hdimension b

theorem Means.div (hr : r.IsExact) (hx : x.Means m d) (hy : y.Means n e)
    (h : x.div y = .ok z) : ∃ s, m.div? n = some s ∧ z.Means s fun b => d b - e b := by
  simp only [Quantity.div, bind_eq_ok] at h
  obtain ⟨u, hu, v, hv, hz⟩ := h
  cases hz
  obtain ⟨⟨c, k, hc, hmagnitude, rfl⟩, hd⟩ := hx
  obtain ⟨⟨f, l, hf, hmagnitude', rfl⟩, he⟩ := hy
  obtain ⟨hdimension, hquotient⟩ := MeasureUnit.divide_of_ok hu
  rw [hmagnitude, hmagnitude', Magnitude.div_exact_eq_ok] at hquotient
  rw [Representation.div_eq_ok hr] at hv
  -- The quotient exists, as neither the value nor the magnitude of the divisor is zero.
  refine ⟨_, if_neg (mul_ne_zero hv.1 hf.ne'),
    ⟨c / f, u.magnitude.pi, div_pos hc hf, ?_, ?_⟩, fun b => ?_⟩
  · rw [← hquotient.2.1]
  · rw [hquotient.2.2, hv.2, mul_div_mul_comm]
  · rw [← hd b, ← he b]
    exact Dimension.degree_divide hdimension b

theorem Means.pow (hr : r.IsExact) {k : Power} (hx : x.Means m d) (h : x.pow k = .ok z) :
    ∃ s, m.pow? k.val = some s ∧ z.Means s fun b => d b * k.val := by
  simp only [Quantity.pow, bind_eq_ok] at h
  obtain ⟨u, hu, v, hv, hz⟩ := h
  cases hz
  obtain ⟨⟨c, l, hc, hmagnitude, rfl⟩, hd⟩ := hx
  obtain ⟨hdegree, hcoefficient, hpi⟩ := MeasureUnit.power_exact hmagnitude hu
  obtain ⟨hzero, hpow⟩ := (Representation.pow_eq_ok hr).1 hv
  -- The magnitude is not zero, so only a value of zero could lack the power.
  have hdefined : ¬ (r.number x.value * c = 0 ∧ k.val < 0) := by
    rintro ⟨h0, hneg⟩
    exact hneg.not_ge (hzero ((mul_eq_zero_iff_right hc.ne').1 h0))
  refine ⟨_, if_neg hdefined, ⟨c ^ k.val, u.magnitude.pi, zpow_pos hc _, ?_, ?_⟩,
    fun b => ?_⟩
  · rw [← hcoefficient]
  · rw [hpi, hpow, mul_zpow]
  · rw [← hd b]
    exact hdegree b

theorem Means.scale (hr : r.IsExact) {factor : r.Value} (hx : x.Means n d)
    (h : x.scale factor = .ok z) : z.Means (n.mul (.ofRatio (r.number factor))) d := by
  rw [Quantity.scale, map_eq_ok] at h
  obtain ⟨v, hv, rfl⟩ := h
  obtain ⟨⟨c, k, hc, hmagnitude, rfl⟩, hd⟩ := hx
  rw [Representation.mul_eq_ok hr] at hv
  refine ⟨⟨c, k, hc, hmagnitude, ?_⟩, hd⟩
  rw [PiMultiple.mul, PiMultiple.ofRatio, hv, add_zero, mul_right_comm]

theorem Means.divScalar (hr : r.IsExact) {divisor : r.Value} (hx : x.Means n d)
    (h : x.divScalar divisor = .ok z) :
    ∃ s, n.div? (.ofRatio (r.number divisor)) = some s ∧ z.Means s d := by
  rw [Quantity.divScalar, map_eq_ok] at h
  obtain ⟨v, hv, rfl⟩ := h
  obtain ⟨⟨c, k, hc, hmagnitude, rfl⟩, hd⟩ := hx
  rw [Representation.div_eq_ok hr] at hv
  refine ⟨_, if_neg hv.1, ⟨c, k, hc, hmagnitude, ?_⟩, hd⟩
  rw [PiMultiple.ofRatio, hv.2, sub_zero, mul_div_right_comm]

/-! ## Comparison -/

/-- The numbers compare like the values in the common unit. -/
theorem Means.cmp_toReal (hr : r.IsExact) {operation : String} (hx : x.Means m d)
    (hy : y.Means n e) (h : Quantity.inCommonUnit operation x y = .ok (x', y')) :
    cmp m.toReal n.toReal = cmp (r.number x'.value) (r.number y'.value) := by
  obtain ⟨c, k, hc, -, hm, hn, -⟩ := hx.inCommonUnit hr hy h
  have hpower : m.power = n.power := by rw [hm, hn]
  rw [PiMultiple.cmp_toReal hpower, hm, hn]
  exact cmp_mul_pos_right hc _ _

theorem Means.tryEq (hr : r.IsExact) (hx : x.Means m d) (hy : y.Means n e) {answer : Bool}
    (h : x.tryEq y = .ok answer) : answer = true ↔ m.toReal = n.toReal := by
  rw [Quantity.tryEq, bind_eq_ok] at h
  obtain ⟨⟨x', y'⟩, hcommon, h⟩ := h
  cases h
  rw [← cmp_eq_eq_iff m.toReal, hx.cmp_toReal hr hy hcommon, cmp_eq_eq_iff,
    Representation.valueEq_eq hr, decide_eq_true_eq]

theorem Means.tryCompare (hr : r.IsExact) (hx : x.Means m d) (hy : y.Means n e)
    {order : Ordering} (h : x.tryCompare y = .ok order) : order = cmp m.toReal n.toReal := by
  rw [Quantity.tryCompare, bind_eq_ok] at h
  obtain ⟨⟨x', y'⟩, hcommon, h⟩ := h
  dsimp only at h
  rw [Representation.valueCompare?_eq hr] at h
  cases h
  exact (hx.cmp_toReal hr hy hcommon).symm

end Quantity

/-! ## Expressions -/

namespace Expression

variable {r : Representation}

/-- What an expression evaluates to is what it means. -/
theorem means_of_eval (hr : r.IsExact) {e : Expression r} (he : e.IsPositive)
    {q : Quantity r} (h : e.eval = .ok q) :
    ∃ n, e.number? = some n ∧ q.Means n e.degree := by
  -- The meaning carries along that magnitudes are positive, which products and quotients of
  -- units need in order to meet in a positive unit again.
  induction e generalizing q with
  | leaf p =>
    cases h
    exact Quantity.means_of_isPositive he
  | add a b iha ihb =>
    simp only [eval, bind_eq_ok] at h
    obtain ⟨x, hx, y, hy, h⟩ := h
    obtain ⟨m, hm, hxm⟩ := iha he.1 hx
    obtain ⟨n, hn, hyn⟩ := ihb he.2 hy
    obtain ⟨s, hs, hq⟩ := hxm.add hr hyn h
    exact ⟨s, by simp [number?, hm, hn, hs], hq⟩
  | sub a b iha ihb =>
    simp only [eval, bind_eq_ok] at h
    obtain ⟨x, hx, y, hy, h⟩ := h
    obtain ⟨m, hm, hxm⟩ := iha he.1 hx
    obtain ⟨n, hn, hyn⟩ := ihb he.2 hy
    obtain ⟨s, hs, hq⟩ := hxm.sub hr hyn h
    exact ⟨s, by simp [number?, hm, hn, hs], hq⟩
  | mul a b iha ihb =>
    simp only [eval, bind_eq_ok] at h
    obtain ⟨x, hx, y, hy, h⟩ := h
    obtain ⟨m, hm, hxm⟩ := iha he.1 hx
    obtain ⟨n, hn, hyn⟩ := ihb he.2 hy
    exact ⟨m.mul n, by simp [number?, hm, hn], hxm.mul hr hyn h⟩
  | div a b iha ihb =>
    simp only [eval, bind_eq_ok] at h
    obtain ⟨x, hx, y, hy, h⟩ := h
    obtain ⟨m, hm, hxm⟩ := iha he.1 hx
    obtain ⟨n, hn, hyn⟩ := ihb he.2 hy
    obtain ⟨s, hs, hq⟩ := hxm.div hr hyn h
    exact ⟨s, by simp [number?, hm, hn, hs], hq⟩
  | pow a k iha =>
    simp only [eval, bind_eq_ok] at h
    obtain ⟨x, hx, h⟩ := h
    obtain ⟨m, hm, hxm⟩ := iha he hx
    obtain ⟨s, hs, hq⟩ := hxm.pow hr h
    exact ⟨s, by simp [number?, hm, hs], hq⟩
  | scale a factor iha =>
    simp only [eval, bind_eq_ok] at h
    obtain ⟨x, hx, h⟩ := h
    obtain ⟨m, hm, hxm⟩ := iha he hx
    exact ⟨_, by simp [number?, hm], hxm.scale hr h⟩
  | divScalar a divisor iha =>
    simp only [eval, bind_eq_ok] at h
    obtain ⟨x, hx, h⟩ := h
    obtain ⟨m, hm, hxm⟩ := iha he hx
    obtain ⟨s, hs, hq⟩ := hxm.divScalar hr h
    exact ⟨s, by simp [number?, hm, hs], hq⟩
  | convertTo a target iha =>
    simp only [eval, bind_eq_ok] at h
    obtain ⟨x, hx, h⟩ := h
    obtain ⟨m, hm, hxm⟩ := iha he.1 hx
    exact ⟨m, hm, hxm.convertTo hr he.2 h⟩
  | toCoherent a iha =>
    simp only [eval, bind_eq_ok] at h
    obtain ⟨x, hx, h⟩ := h
    obtain ⟨m, hm, hxm⟩ := iha he hx
    exact ⟨m, hm, hxm.toCoherent hr h⟩

/-- An expression over units of positive magnitude that evaluates gives the number of exact
arithmetic, with the power of pi and the dimension that its operations prescribe, and two
results compare like the real numbers that the expressions are. -/
theorem eval_exact (hr : r.IsExact) {e f : Expression r} (he : e.IsPositive)
    (hf : f.IsPositive) {p q : Quantity r} (hp : e.eval = .ok p) (hq : f.eval = .ok q) :
    (∃ n, e.number? = some n ∧ p.number? = some n ∧ n.toReal = e.toReal) ∧
      (∀ b, p.dimension.degree b = e.degree b) ∧
        (∀ answer, p.tryEq q = .ok answer → (answer = true ↔ e.toReal = f.toReal)) ∧
          ∀ order, p.tryCompare q = .ok order → order = cmp e.toReal f.toReal := by
  obtain ⟨m, hm, hpm⟩ := means_of_eval hr he hp
  obtain ⟨n, hn, hqn⟩ := means_of_eval hr hf hq
  refine ⟨⟨m, hm, hpm.number?, (toReal_eq hm).symm⟩, hpm.degree, fun answer h => ?_,
    fun order h => ?_⟩
  · rw [toReal_eq hm, toReal_eq hn]
    exact hpm.tryEq hr hqn h
  · rw [toReal_eq hm, toReal_eq hn]
    exact hpm.tryCompare hr hqn h

/-- A kibibit and a kilobit, kept as integers. -/
def kibibitAndKilobit : Expression (.integer .w32) :=
  .add (.leaf ⟨1, .kibibit⟩) (.leaf ⟨1, .kilobit⟩)

/-- Two kibibits. -/
def twoKibibits : Expression (.integer .w32) := .scale (.leaf ⟨1, .kibibit⟩) (.lit 2)

/-- They are 253 times their common unit of eight bits, and compare like 2024 and 2048. -/
theorem eval_exact_kibibitAndKilobit :
    ∃ p q : Quantity (.integer .w32),
      kibibitAndKilobit.eval = .ok p ∧ twoKibibits.eval = .ok q ∧ p.value.val = 253 ∧
        (∃ n, kibibitAndKilobit.number? = some n ∧ p.number? = some n ∧
          n.toReal = kibibitAndKilobit.toReal) ∧
        (∀ b, p.dimension.degree b = kibibitAndKilobit.degree b) ∧
        (∀ answer, p.tryEq q = .ok answer →
          (answer = true ↔ kibibitAndKilobit.toReal = twoKibibits.toReal)) ∧
        ∀ order, p.tryCompare q = .ok order →
          order = cmp kibibitAndKilobit.toReal twoKibibits.toReal := by
  have hkibibit : MeasureUnit.kibibit.IsPositive := ⟨1024, 0, rfl, by norm_num⟩
  have hkilobit : MeasureUnit.kilobit.IsPositive := ⟨1000, 0, rfl, by norm_num⟩
  have hsum : kibibitAndKilobit.eval =
      .ok ⟨.lit 253, .ofCommonDivisor .kibibit .kilobit (.integer 8)⟩ := by
    with_unfolding_all rfl
  have htwice : twoKibibits.eval = .ok ⟨.lit 2, .kibibit⟩ := rfl
  have hpositive : kibibitAndKilobit.IsPositive := ⟨hkibibit, hkilobit⟩
  have hpositive' : twoKibibits.IsPositive := hkibibit
  exact ⟨_, _, hsum, htwice, rfl, eval_exact (by decide) hpositive hpositive' hsum htwice⟩

end Expression

end Metrology
