/-
  Metrology.Proofs.Binary.Order

  Rounding and multiplication keep the total order. A number is placed by its sign and its rank,
  and ranks grow with magnitudes, so the nearest number grows with the rational, and so does the
  product with a number that is not negative, as far as there is one.
-/
import Metrology.Binary.Arithmetic
import Metrology.Binary.Order
import Metrology.Proofs.Binary.Range
import Metrology.Proofs.Integer.Squaring
import Mathlib.Algebra.Group.PUnit

namespace Metrology.Binary

variable {f : Format} {x y z : Binary f} {p q : Rat} {s t : Bool}

/-! ## Signs and ranks -/

def isNegative : Binary f → Bool
  | .nan => false
  | .infinite negative => negative
  | .finite negative _ _ => negative

@[simp] theorem isNegative_infinite (s : Bool) : (infinite s : Binary f).isNegative = s := rfl

@[simp] theorem isNegative_finite (s : Bool) (r : Nat) (h : r < f.rankCount) :
    (finite s r h).isNegative = s := rfl

/-- The rank of the magnitude; infinity comes after all finite ranks. -/
def rank : Binary f → Nat
  | .nan => 0
  | .infinite _ => f.rankCount
  | .finite _ rank _ => rank

theorem rank_le (x : Binary f) : x.rank ≤ f.rankCount := by
  cases x with
  | nan => exact Nat.zero_le _
  | infinite negative => exact le_rfl
  | finite negative rank h => exact h.le

theorem exists_finite (hx : x ≠ .nan) (h : x.rank < f.rankCount) :
    ∃ s r hr, x = .finite s r hr := by
  cases x with
  | nan => exact absurd rfl hx
  | infinite negative => exact absurd h (lt_irrefl _)
  | finite negative rank hr => exact ⟨negative, rank, hr, rfl⟩

theorem totalPlace_eq (hx : x ≠ .nan) :
    x.totalPlace = if x.isNegative then -(x.rank : Int) - 1 else x.rank := by
  cases x with
  | nan => exact absurd rfl hx
  | infinite negative => rfl
  | finite negative rank h => rfl

/-- Numbers are placed by their signs and ranks, negative ones with greater ranks first. -/
theorem totalPlace_le_iff (hx : x ≠ .nan) (hy : y ≠ .nan) :
    x.totalPlace ≤ y.totalPlace ↔
      (x.isNegative = false → y.isNegative = false ∧ x.rank ≤ y.rank) ∧
        (y.isNegative = true → x.isNegative = true ∧ y.rank ≤ x.rank) := by
  rw [totalPlace_eq hx, totalPlace_eq hy]
  cases x.isNegative <;> cases y.isNegative <;> grind

theorem totalPlace_injective : Function.Injective (totalPlace : Binary f → Int) := by
  intro x y h
  rcases x with _ | s | ⟨s, a, ha⟩ <;> rcases y with _ | t | ⟨t, b, hb⟩ <;>
    simp only [totalPlace] at h <;> grind

/-! ## Rounding -/

theorem ofRank_ne_nan (s : Bool) (r : Nat) : (ofRank s r : Binary f) ≠ .nan := by
  rw [ofRank]
  split <;> simp

@[simp] theorem isNegative_ofRank (s : Bool) (r : Nat) :
    (ofRank s r : Binary f).isNegative = s := by
  rw [ofRank]
  split <;> rfl

theorem rank_ofRank (s : Bool) (r : Nat) :
    (ofRank s r : Binary f).rank = min r f.rankCount := by
  rw [ofRank]
  split
  · rename_i h
    exact (min_eq_left h.le).symm
  · rename_i h
    exact (min_eq_right (Nat.not_lt.1 h)).symm

@[simp] theorem isNegative_ofSigned (s : Bool) (q : Rat) :
    (ofSigned s q : Binary f).isNegative = s := isNegative_ofRank _ _

theorem rank_ofSigned_mono (h : |p| ≤ |q|) :
    (ofSigned s p : Binary f).rank ≤ (ofSigned t q : Binary f).rank := by
  rw [ofSigned, ofSigned, rank_ofRank, rank_ofRank]
  refine min_le_min_right _ (Format.nearestRank_mono p.den_pos q.den_pos ?_)
  rwa [Format.natAbs_num_div_den, Format.natAbs_num_div_den]

/-- Rounding keeps the order of rationals. -/
theorem totalPlace_ofRat_mono (h : p ≤ q) :
    (ofRat p : Binary f).totalPlace ≤ (ofRat q : Binary f).totalPlace := by
  have hne (r : Rat) : (ofRat r : Binary f) ≠ .nan := ofRank_ne_nan _ _
  have hnegative (r : Rat) : (ofRat r : Binary f).isNegative = decide (r < 0) :=
    isNegative_ofRank _ _
  rw [totalPlace_le_iff (hne p) (hne q), hnegative, hnegative, decide_eq_false_iff_not,
    decide_eq_false_iff_not, decide_eq_true_iff, decide_eq_true_iff, not_lt, not_lt]
  constructor
  · intro hp
    refine ⟨hp.trans h, rank_ofSigned_mono ?_⟩
    rwa [abs_of_nonneg hp, abs_of_nonneg (hp.trans h)]
  · intro hq
    refine ⟨h.trans_lt hq, rank_ofSigned_mono ?_⟩
    rwa [abs_of_neg hq, abs_of_neg (h.trans_lt hq), neg_le_neg_iff]

/-! ## Products -/

theorem ne_nan_of_mul (h : x.mul z ≠ .nan) : x ≠ .nan := by
  rintro rfl
  exact h rfl

theorem ne_nan_of_mul_right (h : x.mul z ≠ .nan) : z ≠ .nan := by
  rintro rfl
  cases x <;> exact h rfl

/-- With an infinite factor the product is infinite, if there is one. -/
theorem mul_of_infinite (h : x.mul z ≠ .nan)
    (hrank : x.rank = f.rankCount ∨ z.rank = f.rankCount) :
    x.mul z = .infinite (x.isNegative ^^ z.isNegative) := by
  rcases x with _ | s | ⟨s, a, ha⟩ <;> rcases z with _ | t | ⟨t, b, hb⟩
  case infinite.infinite => rfl
  case infinite.finite =>
    rw [mul] at h ⊢
    split at h
    · exact absurd rfl h
    · rename_i hb0
      rw [if_neg hb0, isNegative_infinite, isNegative_finite]
  case finite.infinite =>
    rw [mul] at h ⊢
    split at h
    · exact absurd rfl h
    · rename_i ha0
      rw [if_neg ha0, isNegative_infinite, isNegative_finite]
  case finite.finite => exact absurd hrank (not_or.2 ⟨ha.ne, hb.ne⟩)
  all_goals exact absurd rfl h

theorem isNegative_mul (h : x.mul z ≠ .nan) :
    (x.mul z).isNegative = (x.isNegative ^^ z.isNegative) := by
  by_cases hrank : x.rank = f.rankCount ∨ z.rank = f.rankCount
  · rw [mul_of_infinite h hrank, isNegative_infinite]
  · obtain ⟨hxrank, hzrank⟩ := not_or.1 hrank
    obtain ⟨s, a, ha, rfl⟩ := exists_finite (ne_nan_of_mul h) ((rank_le x).lt_of_ne hxrank)
    obtain ⟨t, b, hb, rfl⟩ := exists_finite (ne_nan_of_mul_right h) ((rank_le z).lt_of_ne hzrank)
    exact isNegative_ofSigned _ _

/-- Multiplication by one number keeps the order of ranks. -/
theorem rank_mul_mono (hx : x.mul z ≠ .nan) (hy : y.mul z ≠ .nan) (h : x.rank ≤ y.rank) :
    (x.mul z).rank ≤ (y.mul z).rank := by
  by_cases hrank : y.rank = f.rankCount ∨ z.rank = f.rankCount
  · rw [mul_of_infinite hy hrank]
    exact rank_le _
  · obtain ⟨hyrank, hzrank⟩ := not_or.1 hrank
    have hylt := (rank_le y).lt_of_ne hyrank
    obtain ⟨s, a, ha, rfl⟩ := exists_finite (ne_nan_of_mul hx) (h.trans_lt hylt)
    obtain ⟨t, b, hb, rfl⟩ := exists_finite (ne_nan_of_mul hy) hylt
    obtain ⟨u, c, hc, rfl⟩ := exists_finite (ne_nan_of_mul_right hx) ((rank_le z).lt_of_ne hzrank)
    refine rank_ofSigned_mono ?_
    rw [abs_mul, abs_mul, f.abs_magnitude a, f.abs_magnitude b]
    exact mul_le_mul_of_nonneg_right (f.strictMono_magnitude.monotone h) (abs_nonneg _)

/-- So does multiplication by a number that is not negative, for the total order. -/
theorem totalPlace_mul_mono (hz : z.isNegative = false) (hx : x.mul z ≠ .nan)
    (hy : y.mul z ≠ .nan) (h : x.totalPlace ≤ y.totalPlace) :
    (x.mul z).totalPlace ≤ (y.mul z).totalPlace := by
  rw [totalPlace_le_iff (ne_nan_of_mul hx) (ne_nan_of_mul hy)] at h
  rw [totalPlace_le_iff hx hy, isNegative_mul hx, isNegative_mul hy, hz, Bool.xor_false,
    Bool.xor_false]
  exact ⟨fun hs => ⟨(h.1 hs).1, rank_mul_mono hx hy (h.1 hs).2⟩,
    fun hs => ⟨(h.2 hs).1, rank_mul_mono hy hx (h.2 hs).2⟩⟩

/-! ## Powers -/

theorem isNegative_mul_eq_false (hx : x.isNegative = false) (hy : y.isNegative = false) :
    (x.mul y).isNegative = false := by
  by_cases h : x.mul y = .nan
  · rw [h]
    rfl
  · rw [isNegative_mul h, hx, hy]
    rfl

theorem isNegative_div_eq_false (hx : x.isNegative = false) (hy : y.isNegative = false) :
    (x.div y).isNegative = false := by
  rcases x with _ | s | ⟨s, a, ha⟩ <;> rcases y with _ | t | ⟨t, b, hb⟩
  case finite.infinite => simp_all [div, zero]
  case infinite.finite => simp_all [div]
  case finite.finite =>
    simp only [isNegative_finite] at hx hy
    rw [div, hx, hy]
    repeat' split
    · rfl
    · rfl
    · exact isNegative_ofSigned _ _
  all_goals rfl

/-- Powers of a number that is not negative are not negative. -/
theorem isNegative_pow (hx : x.isNegative = false) (n : Int) : (x.pow n).isNegative = false := by
  have hone : (one : Binary f).isNegative = false := isNegative_ofRank _ _
  -- The relation to a monoid of one element is a property that products keep.
  have hpower : (powerBySquaring mul one x n.natAbs).isNegative = false :=
    powerBySquaring_related (M := PUnit) (R := fun (a : Binary f) _ => a.isNegative = false)
      (x := 1) (y := 1) isNegative_mul_eq_false n.natAbs hone hx
  rw [pow]
  split
  · exact isNegative_div_eq_false hone hpower
  · exact hpower

end Metrology.Binary
