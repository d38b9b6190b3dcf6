/-
  Metrology.Proofs.Quantity.Addition

  Sums of exactly kept quantities in units of one dimension. A sum is worth what its two terms
  are worth, and the unit in which it is kept is as large whichever terms meet first. So neither
  the order nor the grouping of the terms changes the stored value.
-/
import Metrology.Proofs.Quantity.Conversion

namespace Metrology.Quantity

variable {r : Representation} {x y z p q : Quantity r} {a b c g : Ratio} {k : Power}

/-! ## Quantities that match -/

/-- The quantities have one value, in units of one dimension and one magnitude. -/
structure Matches (p q : Quantity r) : Prop where
  value : p.value = q.value
  compatible : p.unit.isCompatible q.unit = true
  magnitude : p.unit.magnitude = q.unit.magnitude

/-- Quantities in units of one magnitude match if they are worth the same. -/
theorem matches_of_worth (hr : r.IsExact) (h : MeasureUnit.Commensurable p.unit q.unit g g k)
    (hworth : r.number p.value * g = r.number q.value * g) : p.Matches q := by
  have hnumber : r.number p.value = r.number q.value := mul_right_cancel₀ h.left_ne_zero hworth
  exact ⟨Representation.number_injective hr hnumber, h.compatible, h.left.trans h.right.symm⟩

/-! ## Sums -/

/-- The sum is in the common unit and is worth what the terms are worth. It overflows unless
the number type holds both terms and their sum in that unit. -/
theorem add_overflowsUnless (hr : r.IsExact)
    (h : MeasureUnit.Commensurable x.unit y.unit a b k) :
    OverflowsUnless
      ((r.Holds (r.number x.value * (a / a.commonMeasure b)) ∧
          r.Holds (r.number y.value * (b / a.commonMeasure b))) ∧
        r.Holds (r.number x.value * (a / a.commonMeasure b) +
          r.number y.value * (b / a.commonMeasure b)))
      (x.add y)
      fun s => MeasureUnit.Commensurable x.unit s.unit a (a.commonMeasure b) k ∧
        r.number s.value * a.commonMeasure b = r.number x.value * a + r.number y.value * b := by
  refine (inCommonUnit_overflowsUnless hr h "add").bind fun t ht => ?_
  obtain ⟨hu, hv, hw⟩ := ht
  have hunit := h.to_common hu
  have hg : a.commonMeasure b ≠ 0 := hunit.right_ne_zero
  rw [← hv, ← hw]
  refine (Representation.add_overflowsUnless hr t.1.value t.2.value).bind_ok fun s hs =>
    ⟨_, rfl, hunit, ?_⟩
  calc r.number s * a.commonMeasure b
      = (r.number x.value * (a / a.commonMeasure b) +
          r.number y.value * (b / a.commonMeasure b)) * a.commonMeasure b := by rw [hs, hv, hw]
    _ = r.number x.value * a + r.number y.value * b := by
        rw [add_mul, mul_assoc, mul_assoc, div_mul_cancel₀ a hg, div_mul_cancel₀ b hg]

/-! ## Order of the terms -/

theorem add_comm_iff (hr : r.IsExact) (h : MeasureUnit.Commensurable x.unit y.unit a b k)
    (ha : 0 < a) (hb : 0 < b) : (∃ p, x.add y = .ok p) ↔ ∃ q, y.add x = .ok q := by
  rw [(add_overflowsUnless hr h).exists_ok_iff, (add_overflowsUnless hr h.symm).exists_ok_iff,
    Ratio.commonMeasure_comm_of_pos hb ha, and_comm (a := r.Holds (r.number y.value * _)),
    add_comm (r.number y.value * _)]

theorem add_comm_matches (hr : r.IsExact) (h : MeasureUnit.Commensurable x.unit y.unit a b k)
    (ha : 0 < a) (hb : 0 < b) (hp : x.add y = .ok p) (hq : y.add x = .ok q) : p.Matches q := by
  obtain ⟨hxp, hpworth⟩ := (add_overflowsUnless hr h).of_ok hp
  obtain ⟨hyq, hqworth⟩ := (add_overflowsUnless hr h.symm).of_ok hq
  rw [Ratio.commonMeasure_comm_of_pos hb ha] at hyq hqworth
  refine matches_of_worth hr (hxp.symm.trans (h.trans hyq)) ?_
  rw [hpworth, hqworth, add_comm]

/-! ## Grouping of the terms -/

theorem add_assoc_matches {s t : Quantity r} (hr : r.IsExact)
    (hxy : MeasureUnit.Commensurable x.unit y.unit a b k)
    (hyz : MeasureUnit.Commensurable y.unit z.unit b c k) (ha : 0 < a) (hb : 0 < b) (hc : 0 < c)
    (hs : (x.add y >>= (·.add z)) = .ok s) (ht : (y.add z >>= x.add) = .ok t) : s.Matches t := by
  obtain ⟨p, hp, hs⟩ := bind_eq_ok.1 hs
  obtain ⟨q, hq, ht⟩ := bind_eq_ok.1 ht
  obtain ⟨hxp, hpworth⟩ := (add_overflowsUnless hr hxy).of_ok hp
  obtain ⟨hyq, hqworth⟩ := (add_overflowsUnless hr hyz).of_ok hq
  obtain ⟨hps, hsworth⟩ :=
    (add_overflowsUnless hr (hxp.symm.trans (hxy.trans hyz))).of_ok hs
  obtain ⟨hxt, htworth⟩ := (add_overflowsUnless hr (hxy.trans hyq)).of_ok ht
  -- Both sums are kept in the common measure of all three magnitudes.
  rw [← Ratio.commonMeasure_assoc ha hb hc] at hxt htworth
  refine matches_of_worth hr (hps.symm.trans (hxp.symm.trans hxt)) ?_
  rw [hsworth, hpworth, htworth, hqworth, add_assoc]

/-- Sums of ratios have no obstacle. -/
theorem exists_add {x y : Quantity .exact} (h : MeasureUnit.Commensurable x.unit y.unit a b k) :
    ∃ p, x.add y = .ok p ∧ MeasureUnit.Commensurable x.unit p.unit a (a.commonMeasure b) k := by
  have hadd := add_overflowsUnless Representation.isExact_exact h
  obtain ⟨p, hp, hunit, -⟩ := hadd.ok
    ⟨⟨Representation.holds_exact _, Representation.holds_exact _⟩, Representation.holds_exact _⟩
  exact ⟨p, hp, hunit⟩

theorem exists_add_assoc {x y z : Quantity .exact}
    (hxy : MeasureUnit.Commensurable x.unit y.unit a b k)
    (hyz : MeasureUnit.Commensurable y.unit z.unit b c k) :
    (∃ s, (x.add y >>= (·.add z)) = .ok s) ∧ ∃ t, (y.add z >>= x.add) = .ok t := by
  obtain ⟨p, hp, hxp⟩ := exists_add hxy
  obtain ⟨q, hq, hyq⟩ := exists_add hyz
  obtain ⟨s, hs, -⟩ := exists_add (hxp.symm.trans (hxy.trans hyz))
  obtain ⟨t, ht, -⟩ := exists_add (hxy.trans hyq)
  exact ⟨⟨s, bind_eq_ok.2 ⟨p, hp, hs⟩⟩, t, bind_eq_ok.2 ⟨q, hq, ht⟩⟩

/-- Addition of exactly kept quantities in units of one dimension, of positive magnitude and with
one power of pi is commutative and associative down to the stored result. A sum exists in one
order exactly if it exists in the other, and then the values and the magnitudes of the units are
equal. Three quantities have sums of one value and one magnitude of the unit, whichever two are
added first, if both sums exist, which for ratios they always do. -/
theorem add_comm_and_assoc (hr : r.IsExact) (h : MeasureUnit.Commensurable x.unit y.unit a b k)
    (ha : 0 < a) (hb : 0 < b) :
    ((∃ p, x.add y = .ok p) ↔ ∃ q, y.add x = .ok q) ∧
    (∀ p q, x.add y = .ok p → y.add x = .ok q → p.Matches q) ∧
    ∀ z c, MeasureUnit.Commensurable y.unit z.unit b c k → 0 < c →
      (∀ s t, (x.add y >>= (·.add z)) = .ok s → (y.add z >>= x.add) = .ok t → s.Matches t) ∧
      (r = .exact → (∃ s, (x.add y >>= (·.add z)) = .ok s) ∧
        ∃ t, (y.add z >>= x.add) = .ok t) := by
  refine ⟨add_comm_iff hr h ha hb, fun p q hp hq => add_comm_matches hr h ha hb hp hq,
    fun z c hyz hc => ⟨fun s t hs ht => add_assoc_matches hr h hyz ha hb hc hs ht, ?_⟩⟩
  rintro rfl
  exact exists_add_assoc h hyz

/-- A kibibit, a kilobit and a megabit are 128, 125 and 125000 times eight bits. Their sum in 32
bits is kept as 125253, whichever two are added first. -/
theorem add_comm_and_assoc_bits :
    ∃ s t : Quantity (.integer .w32),
      (add ⟨1, .kibibit⟩ ⟨1, .kilobit⟩ >>= (·.add ⟨1, .megabit⟩)) = .ok s ∧
      (add ⟨1, .kilobit⟩ ⟨1, .megabit⟩ >>= add ⟨1, .kibibit⟩) = .ok t ∧
      s.Matches t ∧ s.value.val = 125253 := by
  have hunits : MeasureUnit.Commensurable .kibibit .kilobit 1024 1000 0 :=
    ⟨by decide, rfl, rfl, by norm_num, by norm_num⟩
  have hmega : MeasureUnit.Commensurable .kilobit .megabit 1000 1000000 0 :=
    ⟨by decide, rfl, rfl, by norm_num, by norm_num⟩
  obtain ⟨-, -, hassoc⟩ := add_comm_and_assoc
    (x := (⟨1, .kibibit⟩ : Quantity (.integer .w32))) (y := ⟨1, .kilobit⟩)
    (Representation.isExact_integer .w32) hunits (by norm_num) (by norm_num)
  obtain ⟨hmatches, -⟩ := hassoc ⟨1, .megabit⟩ 1000000 hmega (by norm_num)
  obtain ⟨s, hs, hvalue⟩ : ∃ s : Quantity (.integer .w32),
      (add ⟨1, .kibibit⟩ ⟨1, .kilobit⟩ >>= (·.add ⟨1, .megabit⟩)) = .ok s ∧
        s.value.val = 125253 :=
    ⟨_, by with_unfolding_all rfl, by with_unfolding_all rfl⟩
  obtain ⟨t, ht⟩ : ∃ t : Quantity (.integer .w32),
      (add ⟨1, .kilobit⟩ ⟨1, .megabit⟩ >>= add ⟨1, .kibibit⟩) = .ok t :=
    ⟨_, by with_unfolding_all rfl⟩
  exact ⟨s, t, hs, ht, hmatches s t hs ht, hvalue⟩

end Metrology.Quantity
