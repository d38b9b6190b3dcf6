/-
  Metrology.Json.Basic

  JSON values as data, and their compact text.
-/
import Metrology.Integer.Text

namespace Metrology

/-- A JSON value. Numbers keep the text they were written with, and objects keep repeated
keys in the order written. -/
inductive Json where
  | null
  | bool (value : Bool)
  | number (literal : String)
  | string (value : String)
  | array (items : List Json)
  | object (members : List (String × Json))
  /-- A value with correct syntax that denotes nothing, because an escape in one of its
  strings names half of a surrogate pair. -/
  | meaningless

namespace Json

/-! ## Construction -/

/-- The number that an integer is. -/
def ofInt (n : Int) : Json := number (Integer.text n)

def ofStrings (items : List String) : Json := array (items.map string)

/-- The object of the members that are present. -/
def ofMembers (members : List (String × Option Json)) : Json :=
  object (members.filterMap fun (key, value) => value.map (key, ·))

/-! ## Compact text -/

def hexDigit (n : Nat) : Char := Nat.digitChar n

/-- A character as it stands inside a string: quotes, backslashes and control characters
are escaped, all others stand for themselves. -/
def escape (c : Char) : List Char :=
  if c = '"' then ['\\', '"']
  else if c = '\\' then ['\\', '\\']
  else if c = '\n' then ['\\', 'n']
  else if c = '\r' then ['\\', 'r']
  else if c = '\t' then ['\\', 't']
  else if c.toNat = 8 then ['\\', 'b']
  else if c.toNat = 12 then ['\\', 'f']
  else if c.toNat < 32 then
    ['\\', 'u', '0', '0', hexDigit (c.toNat / 16), hexDigit (c.toNat % 16)]
  else [c]

def quote (s : String) : String :=
  "\"" ++ String.ofList (s.toList.flatMap escape) ++ "\""

mutual

/-- The text of a value without blanks. -/
def compact : Json → String
  | null => "null"
  | bool true => "true"
  | bool false => "false"
  | number literal => literal
  | string value => quote value
  | array items => "[" ++ compactItems items ++ "]"
  | object members => "\x7b" ++ compactMembers members ++ "\x7d"
  | meaningless => "null"

/-- The items of an array, separated by commas. -/
def compactItems : List Json → String
  | [] => ""
  | [item] => item.compact
  | item :: items => item.compact ++ "," ++ compactItems items

/-- The members of an object, separated by commas. -/
def compactMembers : List (String × Json) → String
  | [] => ""
  | [(key, value)] => quote key ++ ":" ++ value.compact
  | (key, value) :: members =>
    quote key ++ ":" ++ value.compact ++ "," ++ compactMembers members

end

end Json

end Metrology
