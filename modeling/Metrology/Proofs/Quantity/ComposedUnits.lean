/-
  Metrology.Proofs.Quantity.ComposedUnits

  Quantities in units that are composed of the same units in different ways. Where each unit has
  the same net exponent, the composed units are equal in dimension and magnitude, so that values
  in them are compared as they are, in every number type.
-/
import Metrology.Proofs.MeasureUnit.Tree
import Metrology.Proofs.Quantity.Conversion
import Metrology.Systems.Mechanics

namespace Metrology

/-! ## Comparison of stored values -/

namespace Quantity

variable {r : Representation} {a b : MeasureUnit}

theorem tryEq_of_magnitude_eq (hab : a.isCompatible b = true)
    (hmagnitude : a.magnitude = b.magnitude) (ha : a.magnitude.IsProper) (v w : r.Value) :
    tryEq ⟨v, a⟩ ⟨w, b⟩ = .ok (r.valueEq v w) := by
  rw [tryEq, inCommonUnit_of_magnitude_eq _ hab hmagnitude ha]
  rfl

/-- Values that have no order are not comparable in their common unit either. -/
theorem tryCompare_of_magnitude_eq (hab : a.isCompatible b = true)
    (hmagnitude : a.magnitude = b.magnitude) (ha : a.magnitude.IsProper) (v w : r.Value) :
    tryCompare ⟨v, a⟩ ⟨w, b⟩ = (r.valueCompare? v w).elim
      (fail (.notComparable ((⟨v, a⟩ : Quantity r).text ++ " and " ++ (⟨w, a⟩ : Quantity r).text)))
      .ok := by
  rw [tryCompare, inCommonUnit_of_magnitude_eq _ hab hmagnitude ha, ok_bind]
  dsimp only
  cases r.valueCompare? v w <;> rfl

end Quantity

/-! ## Composed units -/

namespace UnitTree

variable {s t : UnitTree} {a b : MeasureUnit}

/-- Composition respects the free abelian group of the units: trees of regular units in which
every leaf has the same net exponent make units of the same dimension and magnitude, if both can
be evaluated. The factor between these is one, and in every number type quantities in them are
equal, ordered or not comparable as their stored values are. -/
theorem equal_of_exponents (hs : ∀ u ∈ s.leaves, u.IsRegular) (ht : ∀ u ∈ t.leaves, u.IsRegular)
    (hexponent : ∀ u ∈ s.leaves ++ t.leaves, s.exponent u = t.exponent u)
    (ha : s.eval = .ok a) (hb : t.eval = .ok b) :
    a.dimension.same b.dimension = true ∧ a.magnitude = b.magnitude ∧
      a.conversionFactor b = .ok .one ∧
      ∀ (r : Representation) (v w : r.Value),
        Quantity.tryEq ⟨v, a⟩ ⟨w, b⟩ = .ok (r.valueEq v w) ∧
        Quantity.tryCompare ⟨v, a⟩ ⟨w, b⟩ = (r.valueCompare? v w).elim
          (fail (.notComparable
            ((⟨v, a⟩ : Quantity r).text ++ " and " ++ (⟨w, a⟩ : Quantity r).text))) .ok := by
  obtain ⟨haregular, haextent⟩ := extent_of_eval hs ha
  obtain ⟨hbregular, hbextent⟩ := extent_of_eval ht hb
  have htotal : s.total MeasureUnit.extent = t.total MeasureUnit.extent :=
    total_eq (fun u hu => (hs u hu).magnitude.exact) (fun u hu => (ht u hu).magnitude.exact)
      hexponent MeasureUnit.extent_factorsThrough
  rw [← haextent, ← hbextent] at htotal
  obtain ⟨hcompatible, hmagnitude⟩ := haregular.eq_of_extent hbregular htotal
  have hproper := haregular.magnitude
  refine ⟨hcompatible, hmagnitude, ?_, fun r v w => ⟨?_, ?_⟩⟩
  · exact MeasureUnit.conversionFactor_of_magnitude_eq hcompatible hmagnitude hproper
  · exact Quantity.tryEq_of_magnitude_eq hcompatible hmagnitude hproper v w
  · exact Quantity.tryCompare_of_magnitude_eq hcompatible hmagnitude hproper v w

/-- The degree, an exact multiple of pi. -/
def arcDegree : MeasureUnit :=
  .mk "deg" "degree" (.ofBase Systems.angle) ⟨.exact (mkRat 1 180), 1⟩
    (.scaled (Systems.coherentUnit Systems.angle "radian"))

def minute : MeasureUnit :=
  .mk "min" "minute" (.ofBase Systems.time) (.integer 60)
    (.scaled (Systems.coherentUnit Systems.time "second"))

/-- Degrees by degrees, over the square of a minute. -/
def squareOverSquare : UnitTree :=
  .divide (.multiply (.leaf arcDegree) (.leaf arcDegree)) (.power (.leaf minute) (.lit 2))

/-- The inverse of the square of minutes per degree. -/
def inverseOfSquare : UnitTree :=
  .inverse (.power (.divide (.leaf minute) (.leaf arcDegree)) (.lit 2))

/-- The two trees make one unit under different symbols. -/
theorem equal_of_exponents_degree_minute :
    ∃ a b, squareOverSquare.eval = .ok a ∧ inverseOfSquare.eval = .ok b ∧
      a.symbol = "deg·deg/min^2" ∧ b.symbol = "1/min/deg^2" ∧
      a.magnitude = b.magnitude ∧ a.conversionFactor b = .ok .one ∧
      ∀ v w : Ratio, Quantity.tryEq (r := .exact) ⟨v, a⟩ ⟨w, b⟩ = .ok (decide (v = w)) := by
  have hdegree : arcDegree.IsRegular := ⟨⟨rfl, rfl⟩, by decide⟩
  have hminute : minute.IsRegular := ⟨⟨rfl, rfl⟩, by decide⟩
  obtain ⟨a, ha, hasymbol⟩ : ∃ a, squareOverSquare.eval = .ok a ∧ a.symbol = "deg·deg/min^2" :=
    ⟨_, by with_unfolding_all rfl, rfl⟩
  obtain ⟨b, hb, hbsymbol⟩ : ∃ b, inverseOfSquare.eval = .ok b ∧ b.symbol = "1/min/deg^2" :=
    ⟨_, by with_unfolding_all rfl, rfl⟩
  have hleaves : ∀ u ∈ squareOverSquare.leaves, u.IsRegular := by
    simp [squareOverSquare, leaves, hdegree, hminute]
  have hleaves' : ∀ u ∈ inverseOfSquare.leaves, u.IsRegular := by
    simp [inverseOfSquare, leaves, hdegree, hminute]
  obtain ⟨-, hmagnitude, hfactor, hcompare⟩ :=
    equal_of_exponents hleaves hleaves' (by decide) ha hb
  exact ⟨a, b, ha, hb, hasymbol, hbsymbol, hmagnitude, hfactor, fun v w =>
    (hcompare .exact v w).1⟩

end UnitTree

end Metrology
