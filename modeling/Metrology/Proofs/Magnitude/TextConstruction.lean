/-
  Metrology.Proofs.Magnitude.TextConstruction

  Texts as constructions. Reading a text makes nothing that the constructors and operations of
  magnitudes do not make: each number in it is an exact or an approximate magnitude, each factor a
  quotient of one of these times a power of pi, and the whole their product from the left.
-/
import Metrology.Proofs.Magnitude.Finite
import Metrology.Proofs.Magnitude.Tilde

namespace Metrology.Construction

variable {m : Magnitude} {approximate : Bool} {s front : List Char} {p : Construction}

/-! ## Numbers -/

def ofNumber? (approximate : Bool) (s : List Char) : Option Construction :=
  if approximate then (Binary.read? .double (Text.trim s)).map approx
  else (Ratio.ofChars s).toOption.map exact

theorem readNumber_eq_ok :
    Magnitude.readNumber approximate s = .ok m ↔
      ∃ t, ofNumber? approximate s = some t ∧ t.eval = .ok m := by
  cases approximate with
  | true =>
    simp only [Magnitude.readNumber, ofNumber?, if_true]
    cases Binary.read? .double (Text.trim s) with
    | none => simp
    | some x => simp [eval]
  | false =>
    simp only [Magnitude.readNumber, ofNumber?, Bool.false_eq_true, if_false]
    cases Ratio.ofChars s with
    | error e => simp [Except.toOption]
    | ok q => simp [Except.toOption, eval]

/-! ## Factors -/

/-- What stands in front of `pi`. -/
def ofCoefficient? (approximate : Bool) (front : List Char) : Option Construction :=
  if front.isEmpty then some (exact 1) else ofNumber? approximate front

theorem readCoefficient_eq_ok :
    Magnitude.readCoefficient approximate front = .ok m ↔
      ∃ t, ofCoefficient? approximate front = some t ∧ t.eval = .ok m := by
  rw [Magnitude.readCoefficient, ofCoefficient?]
  split
  · simp [eval, Magnitude.one]
  · exact readNumber_eq_ok

/-- The numerator over what stands behind a slash. -/
def overDenominator? (approximate : Bool) (numerator : Construction) :
    Option (List Char) → Option Construction
  | none => some numerator
  | some s => (ofNumber? approximate s).map (div numerator)

theorem overDenominator_eq_ok {denominator : Option (List Char)} :
    (∃ x, p.eval = .ok x ∧ Magnitude.overDenominator approximate x denominator = .ok m) ↔
      ∃ t, overDenominator? approximate p denominator = some t ∧ t.eval = .ok m := by
  cases denominator with
  | none => simp [Magnitude.overDenominator, overDenominator?]
  | some s =>
    simp only [Magnitude.overDenominator, overDenominator?, bind_eq_ok, readNumber_eq_ok,
      Option.map_eq_some_iff]
    constructor
    · rintro ⟨x, hx, y, ⟨t, ht, hy⟩, hm⟩
      exact ⟨div p t, ⟨t, ht, rfl⟩, eval_div_eq_ok.2 ⟨x, hx, y, hy, hm⟩⟩
    · rintro ⟨_, ⟨t, ht, rfl⟩, hm⟩
      obtain ⟨x, hx, y, hy, hm⟩ := eval_div_eq_ok.1 hm
      exact ⟨x, hx, y, ⟨t, ht, hy⟩, hm⟩

def ofFactor? (approximate : Bool) (s : List Char) : Option Construction :=
  match Magnitude.cutPi (Text.trim s) with
  | none => ofNumber? approximate (Text.trim s)
  | some (front, rest) => do
    let coefficient ← ofCoefficient? approximate front
    let power ← Magnitude.readPower? (Magnitude.powerText rest)
    overDenominator? approximate (timesPi coefficient power) ((Text.cut ['/'] rest).map Prod.snd)

theorem readFactor_eq_ok :
    Magnitude.readFactor approximate s = .ok m ↔
      ∃ t, ofFactor? approximate s = some t ∧ t.eval = .ok m := by
  cases hcut : Magnitude.cutPi (Text.trim s) with
  | none =>
    simp only [Magnitude.readFactor, ofFactor?, hcut]
    exact readNumber_eq_ok
  | some cut =>
    obtain ⟨front, rest⟩ := cut
    rw [Magnitude.readFactor_eq_ok hcut]
    simp only [ofFactor?, hcut, readCoefficient_eq_ok, Option.bind_eq_bind,
      Option.bind_eq_some_iff]
    constructor
    · rintro ⟨x, power, y, ⟨t, ht, hx⟩, hpower, hy, hm⟩
      obtain ⟨u, hu, hm⟩ := overDenominator_eq_ok.1 ⟨y, eval_timesPi_eq_ok.2 ⟨x, hx, hy⟩, hm⟩
      exact ⟨u, ⟨t, ht, power, hpower, hu⟩, hm⟩
    · rintro ⟨u, ⟨t, ht, power, hpower, hu⟩, hm⟩
      obtain ⟨y, hy, hm⟩ := overDenominator_eq_ok.2 ⟨u, hu, hm⟩
      obtain ⟨x, hx, hy⟩ := eval_timesPi_eq_ok.1 hy
      exact ⟨x, power, y, ⟨t, ht, hx⟩, hpower, hy, hm⟩

/-! ## Products -/

/-- The product of the factors, from the left. -/
def ofFactors? (approximate : Bool) : Construction → List (List Char) → Option Construction
  | product, [] => some product
  | product, factor :: factors => do
    let t ← ofFactor? approximate factor
    ofFactors? approximate (mul product t) factors

theorem readProduct_eq_ok {factors : List (List Char)} :
    (∃ x, p.eval = .ok x ∧ Magnitude.readProduct approximate x factors = .ok m) ↔
      ∃ t, ofFactors? approximate p factors = some t ∧ t.eval = .ok m := by
  induction factors generalizing p with
  | nil => simp [Magnitude.readProduct, ofFactors?]
  | cons factor factors ih =>
    simp only [Magnitude.readProduct, ofFactors?, bind_eq_ok, readFactor_eq_ok,
      Option.bind_eq_bind, Option.bind_eq_some_iff]
    constructor
    · rintro ⟨x, hx, y, ⟨t, ht, hy⟩, z, hz, hm⟩
      obtain ⟨u, hu, hm⟩ := ih.1 ⟨z, eval_mul_eq_ok.2 ⟨x, hx, y, hy, hz⟩, hm⟩
      exact ⟨u, ⟨t, ht, hu⟩, hm⟩
    · rintro ⟨u, ⟨t, ht, hu⟩, hm⟩
      obtain ⟨z, hz, hm⟩ := ih.2 ⟨u, hu, hm⟩
      obtain ⟨x, hx, y, hy, hz⟩ := eval_mul_eq_ok.1 hz
      exact ⟨x, hx, y, ⟨t, ht, hy⟩, z, hz, hm⟩

/-- The construction that a text describes. -/
def ofText? (s : String) : Option Construction :=
  ofFactors? (decide (Magnitude.IsMarked s)) (exact 1)
    ((Magnitude.unmarked (Text.trim s.toList)).splitOn '*')

theorem readFactor_nil (approximate : Bool) :
    Magnitude.readFactor approximate [] = .error (.malformed "") := by
  cases approximate <;> rfl

/-- A text is read as the result of the construction that it describes. -/
theorem ofText_eq_ok {s : String} :
    Magnitude.ofText s = .ok m ↔ ∃ t, ofText? s = some t ∧ t.eval = .ok m := by
  have hone : (exact 1).eval = .ok .one := rfl
  rw [Magnitude.ofText_eq, ofText?, ← readProduct_eq_ok, hone]
  simp only [Except.ok.injEq, exists_eq_left']
  split
  · -- Nothing at all is one factor, which is no number.
    rename_i hempty
    rw [List.isEmpty_iff.1 hempty, List.splitOn_nil, Magnitude.readProduct, readFactor_nil]
    simp
  · rfl

end Metrology.Construction
