/-
  Metrology.Quantity.Reference

  References: units that make quantities of the values they are applied to.
-/
import Metrology.Quantity.Basic

namespace Metrology

structure Reference where
  unit : MeasureUnit

namespace Reference

/-- The quantity of a value in the unit. -/
def quantity (u : Reference) {r : Representation} (value : r.Value) : Quantity r :=
  ⟨value, u.unit⟩

/-- The quantity of a natural number that must fit an integer of 64 bits. -/
def literal (u : Reference) (value : Nat) : Except Error (Quantity (.integer .w64)) :=
  match FixedInt.ofInt? .w64 value with
  | some n => .ok ⟨n, u.unit⟩
  | none => fail (.outOfRange (Integer.text value) "i64")

def times (a b : Reference) : Except Error Reference :=
  Reference.mk <$> a.unit.multiply b.unit

def per (a b : Reference) : Except Error Reference :=
  Reference.mk <$> a.unit.divide b.unit

/-- The reference with a serial number for its unit. -/
def numbered (serial : Nat) (u : Reference) : Reference := ⟨u.unit.numbered serial⟩

def same (a b : Reference) : Bool := a.unit.same b.unit

end Reference

end Metrology
