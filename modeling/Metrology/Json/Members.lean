/-
  Metrology.Json.Members

  Reading records from JSON. A record is an object with one member for each field; members
  under other keys are passed over, and a field given twice is refused. It may also be an
  array of its fields in order.
-/
import Metrology.Json.Reader
import Metrology.Integer.Width

namespace Metrology.Json

/-! ## Fields -/

def valuesOf (key : String) (members : List (String × Json)) : List Json :=
  (members.filter fun m => m.1 == key).map Prod.snd

/-- The value of each field of an object, absent where the object has no such member. A
field with two values is refused. -/
def pick? (fields : List String) (members : List (String × Json)) : Option (List (Option Json)) :=
  fields.mapM fun field =>
    match valuesOf field members with
    | [] => some none
    | [value] => some (some value)
    | _ => none

/-- The value of each field of a record, given as an object or as an array in which the
last fields may be missing. -/
def fields? (fields : List String) : Json → Option (List (Option Json))
  | object members => pick? fields members
  | array items =>
    if items.length ≤ fields.length then
      some (items.map some ++ List.replicate (fields.length - items.length) none)
    else none
  | _ => none

/-- The value of a field that must be present. -/
def required? {α : Type} (read : Json → Option α) (field : Option Json) : Option α :=
  field.bind read

/-- The value of a field that may be missing or null. -/
def optional? {α : Type} (read : Json → Option α) : Option Json → Option (Option α)
  | none => some none
  | some null => some none
  | some value => (read value).map some

def itemsOf? {α : Type} (read : Json → Option α) : Json → Option (List α)
  | array items => items.mapM read
  | _ => none

/-- The items of a field that may be missing but not null. -/
def listed? {α : Type} (read : Json → Option α) : Option Json → Option (List α)
  | none => some []
  | some value => itemsOf? read value

/-! ## Values -/

def asString? : Json → Option String
  | string value => some value
  | _ => none

/-- The integer that a number without point and exponent is; minus zero is none. -/
def asInt? : Json → Option Int
  | number literal => if literal = "-0" then none else Integer.read? literal.toList
  | _ => none

/-- A power. -/
def asPower? (j : Json) : Option Power := (asInt? j).bind (FixedInt.ofInt? .w32)

end Metrology.Json
