/-
  Metrology.Proofs.Dimension.Multiplication

  Products of canonical lists of exponents. A product is the canonical list of the sums of the
  degrees, and it exists exactly if all of these fit. Canonical lists are told apart by their
  degrees alone, so the laws of products are those of sums: neither the order nor the grouping
  of the factors matters, and the empty list changes nothing.
-/
import Metrology.Proofs.Dimension.Merge

namespace Metrology

namespace Exponents

variable {as bs cs xs ys : List Exponent}

/-! ## Products -/

/-- Powers that are multiplied by one stay in the range, so that only the sums can leave it. -/
theorem multiply_overflowsUnless (ha : IsCanonical as) (hb : IsCanonical bs) :
    OverflowsUnless (∀ e, Width.w32.Fits (degree as e + degree bs e)) (multiply as bs)
      fun zs => IsCanonical zs ∧ ∀ e, degree zs e = degree as e + degree bs e := by
  have hsign : (1 : Power).val ≠ 0 := one_ne_zero
  have hmerge := merge_overflowsUnless hsign ha hb
  simp only [FixedInt.val_one, mul_one] at hmerge
  have hpowers : ∀ y ∈ bs, Width.w32.Fits y.power.val := fun y _ => y.power.fits
  exact hmerge.congr (and_iff_right hpowers)

/-- The empty list on the left changes nothing. -/
@[simp] theorem nil_multiply (bs : List Exponent) : multiply [] bs = .ok bs := by
  rw [multiply, merge, mapM_eq_ok]
  refine List.forall₂_same.2 fun y _ => scale_eq_ok.2 ⟨rfl, ?_⟩
  rw [FixedInt.val_one, mul_one]

/-- The empty list on the right changes nothing. -/
@[simp] theorem multiply_nil (as : List Exponent) : multiply as [] = .ok as :=
  merge_nil_right 1 as

/-! ## Order and grouping -/

/-- The sums are the same in both orders, and with them the products and the failures. -/
theorem multiply_comm (ha : IsCanonical as) (hb : IsCanonical bs) :
    SameOutcome (fun x y => same x y = true) (multiply as bs) (multiply bs as) := by
  refine (multiply_overflowsUnless ha hb).sameOutcome (multiply_overflowsUnless hb ha) ?_ ?_
  · simp only [add_comm]
  · rintro x y ⟨hxcanonical, hx⟩ ⟨hycanonical, hy⟩
    refine same_of_degree hxcanonical hycanonical fun e => ?_
    rw [hx, hy, add_comm]

/-- If the first two factors have a product and the last two, then both groupings of all three
have the same sums. -/
theorem multiply_assoc (ha : IsCanonical as) (hb : IsCanonical bs) (hc : IsCanonical cs)
    (hxs : multiply as bs = .ok xs) (hys : multiply bs cs = .ok ys) :
    SameOutcome (fun x y => same x y = true) (multiply xs cs) (multiply as ys) := by
  obtain ⟨hxcanonical, hx⟩ := (multiply_overflowsUnless ha hb).of_ok hxs
  obtain ⟨hycanonical, hy⟩ := (multiply_overflowsUnless hb hc).of_ok hys
  have hleft := multiply_overflowsUnless hxcanonical hc
  have hright := multiply_overflowsUnless ha hycanonical
  simp only [hx] at hleft
  simp only [hy, ← add_assoc] at hright
  refine hleft.sameOutcome hright Iff.rfl ?_
  rintro u v ⟨hucanonical, hu⟩ ⟨hvcanonical, hv⟩
  refine same_of_degree hucanonical hvcanonical fun e => ?_
  rw [hu, hv]

/-- Canonical lists have a product exactly if the sum of the two powers of every base dimension
fits, and then it is the canonical list of these sums; otherwise the product overflows. Both
orders of two factors have the same outcome, the empty list changes nothing, and both groupings
of three factors whose neighbours have products have the same outcome. -/
theorem multiply_laws (ha : IsCanonical as) (hb : IsCanonical bs) (hc : IsCanonical cs) :
    OverflowsUnless (∀ e, Width.w32.Fits (degree as e + degree bs e)) (multiply as bs)
      (fun zs => IsCanonical zs ∧ ∀ e, degree zs e = degree as e + degree bs e) ∧
    SameOutcome (fun x y => same x y = true) (multiply as bs) (multiply bs as) ∧
    multiply as [] = .ok as ∧ multiply [] as = .ok as ∧
    ∀ xs ys, multiply as bs = .ok xs → multiply bs cs = .ok ys →
      SameOutcome (fun x y => same x y = true) (multiply xs cs) (multiply as ys) := by
  have hproduct := multiply_overflowsUnless ha hb
  have hcomm := multiply_comm ha hb
  exact ⟨hproduct, hcomm, multiply_nil as, nil_multiply as, fun xs ys => multiply_assoc ha hb hc⟩

/-- Time, as a list. -/
def justTime : List Exponent := [⟨Systems.time, 1⟩]

/-- One over the square of time, as a list. -/
def overTimeSquared : List Exponent := [⟨Systems.time, .lit (-2)⟩]

/-- A speed times time is a length, in which time has cancelled out; over the square of time that
is a speed over time, however the three are grouped. -/
theorem multiply_laws_speed :
    IsCanonical Dimension.speed.exponents ∧ IsCanonical justTime ∧ IsCanonical overTimeSquared ∧
      (∃ xs, multiply Dimension.speed.exponents justTime = .ok xs ∧ IsCanonical xs ∧
        degree xs Systems.time = 0) ∧
      SameOutcome (fun x y => same x y = true)
        (multiply [⟨Systems.length, 1⟩] overTimeSquared)
        (multiply Dimension.speed.exponents [⟨Systems.time, .lit (-1)⟩]) := by
  have hspeed : IsCanonical Dimension.speed.exponents := Dimension.isCanonical_speed
  have htime : IsCanonical justTime := by decide
  have hover : IsCanonical overTimeSquared := by decide
  have hlength : multiply Dimension.speed.exponents justTime = .ok [⟨Systems.length, 1⟩] := by cbv
  have hinverse : multiply justTime overTimeSquared = .ok [⟨Systems.time, .lit (-1)⟩] := by cbv
  obtain ⟨hproduct, -, -, -, hassoc⟩ := multiply_laws hspeed htime hover
  obtain ⟨hcanonical, hdegree⟩ := hproduct.of_ok hlength
  have hcancelled : degree [⟨Systems.length, 1⟩] Systems.time = 0 := by
    rw [hdegree]
    decide
  exact ⟨hspeed, htime, hover, ⟨_, hlength, hcanonical, hcancelled⟩, hassoc _ _ hlength hinverse⟩

end Exponents

end Metrology
