/-
  Metrology.Proofs.Dimension.Power

  Powers of dimensions, entry by entry. A power of a dimension has the bases of the dimension in
  the same places, so multiplying it by the dimension once more adds the powers place by place,
  which gives the next power. The smaller powers exist wherever a greater one does.
-/
import Metrology.Proofs.Dimension.Scaling

namespace Metrology

namespace Exponents

variable {es fs gs : List Exponent} {m n : Nat}

/-- The second list has the entries of the first one with every power multiplied by `n`. -/
def IsPower (es : List Exponent) (n : Nat) (fs : List Exponent) : Prop :=
  List.Forall₂ (fun e f => f.base = e.base ∧ f.power.val = e.power.val * (n : Int)) es fs

theorem isPower_iff : IsPower es n fs ↔ IsScaled n es fs := Iff.rfl

theorem isPower_one (es : List Exponent) : IsPower es 1 es := by
  rw [isPower_iff, Nat.cast_one]
  exact isScaled_one es

/-- With a power of a list the smaller powers exist. -/
theorem IsPower.exists_of_le (h : IsPower es n gs) (hmn : m ≤ n) : ∃ fs, IsPower es m fs := by
  induction h with
  | nil => exact ⟨[], .nil⟩
  | @cons e g es gs heg _ ih =>
    obtain ⟨fs, hfs⟩ := ih
    have hfits := g.power.fits
    rw [heg.2] at hfits
    exact ⟨⟨e.base, ⟨_, Width.fits_mul_of_le hfits hmn⟩⟩ :: fs, .cons ⟨rfl, rfl⟩ hfs⟩

/-- One more factor gives the next power. -/
theorem merge_power_eq_ok (hes : ∀ e ∈ es, e.power.val ≠ 0) (hf : IsPower es n fs) :
    merge 1 fs es = .ok gs ↔ IsPower es (n + 1) gs := by
  have hsum : (n : Int) + 1 ≠ 0 := by omega
  rw [merge_scaled_eq_ok hes hf (isScaled_one es), if_neg hsum, isPower_iff, Nat.cast_succ]

end Exponents

namespace Dimension

variable {c d p : Dimension} {m n : Nat} {k : Power}

/-- The dimension `c` is the dimension `d` with every power multiplied by `n`. -/
def IsPower (d : Dimension) (n : Nat) (c : Dimension) : Prop :=
  Exponents.IsPower d.exponents n c.exponents

theorem isPower_one (d : Dimension) : d.IsPower 1 d := Exponents.isPower_one _

theorem IsPower.unique (hc : d.IsPower n c) (hp : d.IsPower n p) : c = p :=
  congrArg mk (Exponents.IsScaled.unique hc hp)

theorem IsPower.exists_of_le (h : d.IsPower n c) (hmn : m ≤ n) : ∃ p, d.IsPower m p := by
  obtain ⟨es, hes⟩ := Exponents.IsPower.exists_of_le h hmn
  exact ⟨⟨es⟩, hes⟩

/-- The power with a positive exponent. -/
theorem power_overflowsUnless (d : Dimension) (hk : k.val = n) (hn : n ≠ 0) :
    OverflowsUnless (∃ c, d.IsPower n c) (d.power k) (d.IsPower n) := by
  refine (overflowsOnly_power d k).overflowsUnless_exists fun c => ?_
  have hk0 : k.val ≠ 0 := by omega
  rw [power, mk_eq_ok, Exponents.power_eq_ok hk0, hk]
  rfl

/-- One more factor gives the next power. -/
theorem IsPower.multiply_overflowsUnless (hd : d.IsCanonical) (hp : d.IsPower n p) :
    OverflowsUnless (∃ c, d.IsPower (n + 1) c) (p.multiply d) (d.IsPower (n + 1)) := by
  refine (overflowsOnly_multiply p d).overflowsUnless_exists fun c => ?_
  rw [multiply, mk_eq_ok, Exponents.multiply, Exponents.merge_power_eq_ok hd.nonzero hp]
  rfl

end Dimension

end Metrology
