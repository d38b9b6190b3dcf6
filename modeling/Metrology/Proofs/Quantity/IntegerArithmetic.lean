/-
  Metrology.Proofs.Quantity.IntegerArithmetic

  Sums, differences and comparisons of integer quantities in different units. Both values are
  integers in the common unit, so the only failure is an integer that does not fit.
-/
import Metrology.Proofs.Quantity.Conversion

namespace Metrology.Quantity

variable {w : Width} {x y : Quantity (.integer w)} {a b c : Ratio} {k : Power}
  {u : MeasureUnit} {m n : Int}

/-- A value times the quotient of its magnitude and one that divides it is an integer. -/
theorem exists_integer_of_isMultiple (v : FixedInt w) (hac : a.IsMultiple c) (hc : c ≠ 0) :
    ∃ m : Int, (v.val : Ratio) * (a / c) = m := by
  obtain ⟨l, rfl⟩ := hac
  refine ⟨v.val * l, ?_⟩
  rw [mul_div_assoc, div_self hc, mul_one, Int.cast_mul]

/-- The quantities are brought into the unit as the two integers, if these fit. -/
def MeetAs (x y : Quantity (.integer w)) (u : MeasureUnit) (m n : Int) : Prop :=
  ∀ operation, OverflowsUnless (w.Fits m ∧ w.Fits n) (inCommonUnit operation x y) fun p =>
    p.1.unit = u ∧ p.1.value.val = m ∧ p.2.value.val = n

/-- In the common unit both values are integers, and overflow is the only obstacle. -/
theorem meetAs_common (h : MeasureUnit.Commensurable x.unit y.unit a b k) :
    ∃ u c, ∃ m n : Int, MeasureUnit.common x.unit y.unit = .ok u ∧
      u.magnitude = ⟨.exact c, k⟩ ∧ c ≠ 0 ∧
        (x.value.val : Ratio) * a / c = m ∧ (y.value.val : Ratio) * b / c = n ∧
          MeetAs x y u m n := by
  obtain ⟨u, hu, hmagnitude⟩ := MeasureUnit.common_exact h
  have hcommon := inCommonUnit_overflowsUnless (Representation.isExact_integer w) h
  obtain ⟨-, -, -, ha, hb⟩ := h
  have hc := Ratio.commonMeasure_ne_zero ha hb
  obtain ⟨m, hm⟩ := exists_integer_of_isMultiple x.value
    (Ratio.isMultiple_commonMeasure_left hb) hc
  obtain ⟨n, hn⟩ := exists_integer_of_isMultiple y.value
    (Ratio.isMultiple_commonMeasure_right ha) hc
  refine ⟨u, _, m, n, hu, hmagnitude, hc, ?_, ?_, fun operation => ?_⟩
  · rw [mul_div_assoc, hm]
  · rw [mul_div_assoc, hn]
  · have hmeet := hcommon operation
    simp only [Representation.number, hm, hn, Representation.holds_intCast_iff,
      Int.cast_inj] at hmeet
    refine hmeet.imp fun t ht => ?_
    obtain ⟨hunit, hv, hv'⟩ := ht
    exact ⟨Except.ok.inj (hunit.symm.trans hu), hv, hv'⟩

theorem MeetAs.add (h : MeetAs x y u m n) :
    OverflowsUnless ((w.Fits m ∧ w.Fits n) ∧ w.Fits (m + n)) (x.add y) fun z =>
      z.unit = u ∧ z.value.val = m + n := by
  refine (h "add").bind fun p hp => ?_
  obtain ⟨rfl, rfl, rfl⟩ := hp
  exact (FixedInt.add_overflowsUnless p.1.value p.2.value).bind_ok fun v hv => ⟨_, rfl, rfl, hv⟩

theorem MeetAs.sub (h : MeetAs x y u m n) :
    OverflowsUnless ((w.Fits m ∧ w.Fits n) ∧ w.Fits (m - n)) (x.sub y) fun z =>
      z.unit = u ∧ z.value.val = m - n := by
  refine (h "subtract").bind fun p hp => ?_
  obtain ⟨rfl, rfl, rfl⟩ := hp
  exact (FixedInt.sub_overflowsUnless p.1.value p.2.value).bind_ok fun v hv => ⟨_, rfl, rfl, hv⟩

theorem MeetAs.tryEq (h : MeetAs x y u m n) :
    OverflowsUnless (w.Fits m ∧ w.Fits n) (x.tryEq y) (· = decide (m = n)) := by
  refine (h "compare").bind_ok fun p hp => ?_
  obtain ⟨-, rfl, rfl⟩ := hp
  exact ⟨_, rfl, rfl⟩

theorem MeetAs.tryCompare (h : MeetAs x y u m n) :
    OverflowsUnless (w.Fits m ∧ w.Fits n) (x.tryCompare y) (· = compare m n) := by
  refine (h "compare").bind_ok fun p hp => ?_
  obtain ⟨-, rfl, rfl⟩ := hp
  exact ⟨_, rfl, rfl⟩

/-- Sums, differences and comparisons of integer quantities in commensurable units are exact.
Both quantities are integers in the common unit; an operation succeeds exactly if both
of them fit, and for sums and differences the result too; everything else is an overflow. -/
theorem integer_arithmetic_exact (h : MeasureUnit.Commensurable x.unit y.unit a b k) :
    ∃ u c, ∃ m n : Int, MeasureUnit.common x.unit y.unit = .ok u ∧
      u.magnitude = ⟨.exact c, k⟩ ∧ c ≠ 0 ∧
      (x.value.val : Ratio) * a / c = m ∧ (y.value.val : Ratio) * b / c = n ∧
      OverflowsUnless ((w.Fits m ∧ w.Fits n) ∧ w.Fits (m + n)) (x.add y)
        (fun z => z.unit = u ∧ z.value.val = m + n) ∧
      OverflowsUnless ((w.Fits m ∧ w.Fits n) ∧ w.Fits (m - n)) (x.sub y)
        (fun z => z.unit = u ∧ z.value.val = m - n) ∧
      OverflowsUnless (w.Fits m ∧ w.Fits n) (x.tryEq y) (· = decide (m = n)) ∧
      OverflowsUnless (w.Fits m ∧ w.Fits n) (x.tryCompare y) (· = compare m n) := by
  obtain ⟨u, c, m, n, hu, hmagnitude, hc, hm, hn, hmeet⟩ := meetAs_common h
  exact ⟨u, c, m, n, hu, hmagnitude, hc, hm, hn, hmeet.add, hmeet.sub, hmeet.tryEq,
    hmeet.tryCompare⟩

/-- A kibibit and a kilobit are 128 and 125 times eight bits. Their sum is kept as 253, and
the greatest number of kibibits that 32 bits hold is too great to be counted in eight bits. -/
theorem integer_arithmetic_exact_kibibit_kilobit :
    (∃ z, add (⟨1, .kibibit⟩ : Quantity (.integer .w32)) ⟨1, .kilobit⟩ = .ok z ∧
      z.value.val = 253) ∧
    ∃ e, add (⟨.lit 2147483647, .kibibit⟩ : Quantity (.integer .w32)) ⟨1, .kilobit⟩ =
      .error e ∧ e.code = .overflow := by
  have hunits : MeasureUnit.Commensurable .kibibit .kilobit 1024 1000 0 :=
    ⟨by decide, rfl, rfl, by norm_num, by norm_num⟩
  have hadd (v : FixedInt .w32) :
      OverflowsUnless ((Width.w32.Fits (v.val * 128) ∧ Width.w32.Fits 125) ∧
        Width.w32.Fits (v.val * 128 + 125))
        (add (⟨v, .kibibit⟩ : Quantity (.integer .w32)) ⟨1, .kilobit⟩)
        fun z => z.value.val = v.val * 128 + 125 := by
    obtain ⟨u, c, m, n, hu, hc, -, hm, hn, hadd, -⟩ :=
      integer_arithmetic_exact (x := ⟨v, .kibibit⟩) (y := ⟨1, .kilobit⟩) hunits
    cases MeasureUnit.common_kibibit_kilobit.symm.trans hu
    cases hc
    obtain rfl : m = v.val * 128 := by
      have h : (m : Ratio) = ((v.val * 128 : Int) : Ratio) := by
        rw [← hm]
        push_cast
        ring
      exact_mod_cast h
    obtain rfl : n = 125 := by
      have h : (n : Ratio) = ((125 : Int) : Ratio) := by
        rw [← hn]
        norm_num
      exact_mod_cast h
    exact ⟨fun h => (hadd.ok h).imp fun z hz => ⟨hz.1, hz.2.2⟩, hadd.overflow⟩
  exact ⟨(hadd 1).ok (by decide), (hadd (.lit 2147483647)).overflow (by decide)⟩

end Metrology.Quantity
