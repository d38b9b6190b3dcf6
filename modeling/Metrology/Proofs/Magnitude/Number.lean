/-
  Metrology.Proofs.Magnitude.Number

  The numbers that exact magnitudes are. Products and quotients of exact magnitudes are those
  of their numbers, which cancel, so laws about factors are equations between numbers.
-/
import Metrology.Proofs.Magnitude.Exact
import Metrology.Proofs.Magnitude.PiMultiple

namespace Metrology

/-! ## Products of numbers -/

namespace PiMultiple

variable {m n s : PiMultiple} {q : Ratio}

instance : CommMonoid PiMultiple where
  mul := mul
  mul_assoc m n s := by
    simp only [HMul.hMul, mul, mk.injEq]
    exact ⟨mul_assoc _ _ _, add_assoc _ _ _⟩
  one := ofRatio 1
  one_mul m := congrArg₂ mk (one_mul _) (zero_add _)
  mul_one m := congrArg₂ mk (mul_one _) (add_zero _)
  mul_comm m n := congrArg₂ mk (mul_comm _ _) (add_comm _ _)

@[simp] theorem coefficient_mul (m n : PiMultiple) :
    (m * n).coefficient = m.coefficient * n.coefficient := rfl

theorem eq_iff : m = n ↔ m.coefficient = n.coefficient ∧ m.power = n.power := by
  obtain ⟨c, k⟩ := m
  obtain ⟨d, l⟩ := n
  exact mk.injEq _ _ _ _ ▸ Iff.rfl

theorem ofRatio_mul (p q : Ratio) : ofRatio (p * q) = ofRatio p * ofRatio q := rfl

theorem mul_right_cancel (hs : s.coefficient ≠ 0) (h : m * s = n * s) : m = n := by
  obtain ⟨hcoefficient, hpower⟩ := eq_iff.1 h
  exact eq_iff.2 ⟨mul_right_cancel₀ hs hcoefficient, add_right_cancel hpower⟩

/-- Quotients along a chain multiply: of the first number by the second one and of the second
one by the third. -/
theorem mul_eq_of_chain {x y z : PiMultiple} (hz : z.coefficient ≠ 0) (hm : m * y = x)
    (hn : n * z = y) (hs : s * z = x) : m * n = s := by
  apply mul_right_cancel hz
  rw [mul_assoc, hn, hm, hs]

/-- A number times the reciprocal of a ratio. -/
theorem ofRatio_inv_mul (hm : m.coefficient ≠ 0) (h : ofRatio q * n = m) :
    ofRatio q⁻¹ * m = n := by
  subst h
  have hq : q ≠ 0 := left_ne_zero_of_mul hm
  rw [← mul_assoc, ← ofRatio_mul, inv_mul_cancel₀ hq]
  exact one_mul n

/-- The integer power. -/
def zpow (m : PiMultiple) (n : Int) : PiMultiple := ⟨m.coefficient ^ n, m.power * n⟩

end PiMultiple

/-! ## Magnitudes -/

namespace Magnitude

variable {a b m : Magnitude}

/-- The number that an exact magnitude is; one for the others. -/
def number (m : Magnitude) : PiMultiple := m.number?.getD 1

/-- Exact and not zero, so that it can be divided by. -/
structure IsProper (m : Magnitude) : Prop where
  exact : m.isExact = true
  not_zero : m.isZero = false

@[simp] theorem number_mk (x : Ratio) (k : Power) : number ⟨.exact x, k⟩ = ⟨x, k.val⟩ := rfl

theorem number?_eq (hm : m.isExact = true) : m.number? = some m.number := by
  obtain ⟨x, k, rfl⟩ := isExact_iff.1 hm
  rfl

/-- Exact magnitudes are determined by their numbers. -/
theorem eq_of_number (ha : a.isExact = true) (hb : b.isExact = true) (h : a.number = b.number) :
    a = b := by
  obtain ⟨x, k, rfl⟩ := isExact_iff.1 ha
  obtain ⟨y, l, rfl⟩ := isExact_iff.1 hb
  obtain ⟨hcoefficient, hpower⟩ := PiMultiple.eq_iff.1 h
  obtain rfl : x = y := hcoefficient
  obtain rfl : k = l := FixedInt.ext hpower
  rfl

theorem isZero_eq_false_iff (hm : m.isExact = true) :
    m.isZero = false ↔ m.number.coefficient ≠ 0 := by
  obtain ⟨x, k, rfl⟩ := isExact_iff.1 hm
  simp [isZero, Coefficient.isZero]

theorem IsProper.number_ne_zero (hm : m.IsProper) : m.number.coefficient ≠ 0 :=
  (isZero_eq_false_iff hm.exact).1 hm.not_zero

theorem isProper_mk {x : Ratio} {k : Power} : IsProper ⟨.exact x, k⟩ ↔ x ≠ 0 := by
  constructor
  · intro h
    exact h.number_ne_zero
  · intro hx
    exact ⟨rfl, (isZero_eq_false_iff rfl).2 hx⟩

theorem mul_eq_ok_iff (ha : a.isExact = true) (hb : b.isExact = true) :
    a.mul b = .ok m ↔ m.isExact = true ∧ m.number = a.number * b.number := by
  obtain ⟨x, k, rfl⟩ := isExact_iff.1 ha
  obtain ⟨y, l, rfl⟩ := isExact_iff.1 hb
  rw [mul_exact_eq_ok]
  constructor
  · rintro ⟨hcoefficient, hpi⟩
    obtain ⟨c, p⟩ := m
    obtain rfl : c = .exact (x * y) := hcoefficient
    exact ⟨rfl, PiMultiple.eq_iff.2 ⟨rfl, hpi⟩⟩
  · rintro ⟨hm, hnumber⟩
    obtain ⟨w, p, rfl⟩ := isExact_iff.1 hm
    obtain ⟨hcoefficient, hpi⟩ := PiMultiple.eq_iff.1 hnumber
    exact ⟨congrArg _ hcoefficient, hpi⟩

/-- The quotient is the number that times the divisor is the dividend. -/
theorem div_eq_ok_iff (ha : a.isExact = true) (hb : b.isExact = true) :
    a.div b = .ok m ↔ b.isZero = false ∧ m.isExact = true ∧ m.number * b.number = a.number := by
  obtain ⟨x, k, rfl⟩ := isExact_iff.1 ha
  obtain ⟨y, l, rfl⟩ := isExact_iff.1 hb
  rw [div_exact_eq_ok, isZero_eq_false_iff hb]
  refine and_congr_right fun hy => ?_
  constructor
  · rintro ⟨hcoefficient, hpi⟩
    obtain ⟨c, p⟩ := m
    obtain rfl : c = .exact (x / y) := hcoefficient
    exact ⟨rfl, PiMultiple.eq_iff.2 ⟨div_mul_cancel₀ x hy, eq_sub_iff_add_eq.1 hpi⟩⟩
  · rintro ⟨hm, hnumber⟩
    obtain ⟨w, p, rfl⟩ := isExact_iff.1 hm
    obtain ⟨hcoefficient, hpi⟩ := PiMultiple.eq_iff.1 hnumber
    exact ⟨congrArg _ (eq_div_of_mul_eq hy hcoefficient), eq_sub_iff_add_eq.2 hpi⟩

theorem IsProper.div_self (hm : m.IsProper) : m.div m = .ok one :=
  (div_eq_ok_iff hm.exact hm.exact).2 ⟨hm.not_zero, rfl, one_mul _⟩

/-- Quotients by one divisor differ by the factor between the dividends. -/
theorem mul_of_div {x y z f g h : Magnitude} (hx : x.isExact = true) (hy : y.isExact = true)
    (hz : z.isExact = true) (hg : g.isExact = true) (hxy : g.number * y.number = x.number)
    (hf : x.div z = .ok f) (hh : y.div z = .ok h) : g.mul h = .ok f := by
  obtain ⟨hzero, hfexact, hfnumber⟩ := (div_eq_ok_iff hx hz).1 hf
  obtain ⟨-, hhexact, hhnumber⟩ := (div_eq_ok_iff hy hz).1 hh
  have hne := (isZero_eq_false_iff hz).1 hzero
  exact (mul_eq_ok_iff hg hhexact).2
    ⟨hfexact, (PiMultiple.mul_eq_of_chain hne hxy hhnumber hfnumber).symm⟩

theorem number_pow {n : Power} (ha : a.isExact = true) (h : a.pow n = .ok m) :
    m.number = a.number.zpow n.val := by
  obtain ⟨x, k, rfl⟩ := isExact_iff.1 ha
  obtain ⟨-, hcoefficient, hpi⟩ := pow_exact_eq_ok.1 h
  obtain ⟨c, p⟩ := m
  obtain rfl : c = .exact (x ^ n.val) := hcoefficient
  exact PiMultiple.eq_iff.2 ⟨rfl, hpi⟩

/-! ### Products of powers -/

/-- The product of the powers of magnitudes, in the order of the list, times what it starts
with. -/
def powerProduct (product : Magnitude) : List (Magnitude × Power) → Except NumberError Magnitude
  | [] => .ok product
  | f :: fs => do
    let power ← f.1.pow f.2
    let next ← product.mul power
    powerProduct next fs

/-- A product of powers of exact magnitudes is that of their numbers. -/
theorem number_powerProduct {fs : List (Magnitude × Power)} {product : Magnitude}
    (hproduct : product.isExact = true) (hfs : ∀ f ∈ fs, f.1.isExact = true)
    (h : powerProduct product fs = .ok m) :
    m.isExact = true ∧
      m.number = product.number * (fs.map fun f => f.1.number.zpow f.2.val).prod := by
  induction fs generalizing product with
  | nil =>
    cases h
    exact ⟨hproduct, (mul_one _).symm⟩
  | cons f fs ih =>
    obtain ⟨hf, hfs⟩ := List.forall_mem_cons.1 hfs
    simp only [powerProduct, bind_eq_ok] at h
    obtain ⟨power, hpower, next, hnext, h⟩ := h
    rw [mul_eq_ok_iff hproduct (isExact_pow hf hpower)] at hnext
    obtain ⟨hexact, hnumber⟩ := ih hnext.1 hfs h
    refine ⟨hexact, ?_⟩
    rw [hnumber, hnext.2, number_pow hf hpower, List.map_cons, List.prod_cons, mul_assoc]

end Magnitude

end Metrology
