/-
  Metrology.Json.Reader

  Reads JSON text. The syntax is the strict one: no comments, no commas at an end, no zeros
  in front of a number, no control characters in a string, and only blanks after the value.
-/
import Metrology.Json.Basic

namespace Metrology.Json

/-! ## Blanks and numbers -/

/-- The four characters that may stand between tokens. -/
def isBlank (c : Char) : Bool := c == ' ' || c == '\n' || c == '\t' || c == '\r'

/-- What follows the blanks at the start. -/
def skipBlanks (s : List Char) : List Char := s.dropWhile isBlank

/-- At least one digit, and what follows the digits. -/
def readDigits? (s : List Char) : Option (List Char × List Char) :=
  let digits := s.takeWhile Char.isDigit
  if digits.isEmpty then none else some (digits, s.dropWhile Char.isDigit)

/-- The whole part of a number: a zero, or digits that do not start with one. -/
def readWhole? (s : List Char) : Option (List Char × List Char) :=
  match s with
  | '0' :: rest => some (['0'], rest)
  | _ => readDigits? s

/-- The digits after a point, with the point; nothing where no point stands. -/
def readPlaces? (s : List Char) : Option (List Char × List Char) :=
  match s with
  | '.' :: rest => (readDigits? rest).map fun (digits, rest) => ('.' :: digits, rest)
  | _ => some ([], s)

/-- An exponent with its mark and sign; nothing where no mark stands. -/
def readExponent? (s : List Char) : Option (List Char × List Char) :=
  match s with
  | c :: rest =>
    if c = 'e' ∨ c = 'E' then
      match rest with
      | '+' :: r => (readDigits? r).map fun (digits, r) => (c :: '+' :: digits, r)
      | '-' :: r => (readDigits? r).map fun (digits, r) => (c :: '-' :: digits, r)
      | r => (readDigits? r).map fun (digits, r) => (c :: digits, r)
    else some ([], s)
  | [] => some ([], [])

/-- A number, with the text it is written with. -/
def readNumber? (s : List Char) : Option (Json × List Char) := do
  let (sign, s) := match s with
    | '-' :: rest => (['-'], rest)
    | _ => ([], s)
  let (whole, s) ← readWhole? s
  let (places, s) ← readPlaces? s
  let (exponent, s) ← readExponent? s
  pure (number (String.ofList (sign ++ whole ++ places ++ exponent)), s)

/-! ## Strings -/

def hexValue? (c : Char) : Option Nat :=
  if c.isDigit then some (c.toNat - '0'.toNat)
  else if 'a' ≤ c ∧ c ≤ 'f' then some (c.toNat - 'a'.toNat + 10)
  else if 'A' ≤ c ∧ c ≤ 'F' then some (c.toNat - 'A'.toNat + 10)
  else none

/-- The code unit that four hexadecimal digits name. -/
def codeUnit? (a b c d : Char) : Option Nat := do
  let a ← hexValue? a
  let b ← hexValue? b
  let c ← hexValue? c
  let d ← hexValue? d
  pure (((a * 16 + b) * 16 + c) * 16 + d)

/-- The character that an escape of one letter stands for. -/
def shortEscape? (c : Char) : Option Char :=
  if c = '"' ∨ c = '\\' ∨ c = '/' then some c
  else if c = 'b' then some (Char.ofNat 8)
  else if c = 'f' then some (Char.ofNat 12)
  else if c = 'n' then some '\n'
  else if c = 'r' then some '\r'
  else if c = 't' then some '\t'
  else none

/-- The first half of a surrogate pair. -/
def isHighSurrogate (unit : Nat) : Bool := 0xD800 ≤ unit && unit ≤ 0xDBFF

/-- The second half of a surrogate pair. -/
def isLowSurrogate (unit : Nat) : Bool := 0xDC00 ≤ unit && unit ≤ 0xDFFF

/-- The second half that an escape at the start of the text names. -/
def lowSurrogate? : List Char → Option Nat
  | '\\' :: 'u' :: a :: b :: c :: d :: _ => (codeUnit? a b c d).filter isLowSurrogate
  | _ => none

/-- The character that two halves make. -/
def ofSurrogates (high low : Nat) : Char :=
  Char.ofNat (0x10000 + (high - 0xD800) * 0x400 + (low - 0xDC00))

/-- A string that has been read: its characters, whether all its escapes name characters,
and what follows its closing quote. -/
structure ReadString where
  chars : List Char
  sound : Bool
  rest : List Char

/-- The string with one more character in front. -/
def ReadString.cons (c : Char) (s : ReadString) : ReadString := { s with chars := c :: s.chars }

/-- The string marked as one that denotes nothing. -/
def ReadString.unsound (s : ReadString) : ReadString := { s with sound := false }

/-- Reads a string after its opening quote. The first half of a surrogate pair waits in
`high` until the escape of the second half has been read. -/
def readString? (high : Option Nat) : List Char → Option ReadString
  | [] => none
  | '"' :: s => some ⟨[], true, s⟩
  | '\\' :: 'u' :: a :: b :: c :: d :: s =>
    match codeUnit? a b c d with
    | none => none
    | some unit =>
      match high with
      | some first => (readString? none s).map (·.cons (ofSurrogates first unit))
      | none =>
        if isHighSurrogate unit then
          -- The first half waits only if the second one is already in sight.
          if (lowSurrogate? s).isSome then readString? (some unit) s
          else (readString? none s).map ReadString.unsound
        else if isLowSurrogate unit then (readString? none s).map ReadString.unsound
        else (readString? none s).map (·.cons (Char.ofNat unit))
  | '\\' :: c :: s =>
    match shortEscape? c with
    | none => none
    | some c => (readString? none s).map (·.cons c)
  | c :: s => if c.toNat < 32 ∨ c = '\\' then none else (readString? none s).map (·.cons c)

/-! ## Values -/

/-- Members that have been read: whether all keys denote strings comes with them. -/
structure ReadMembers where
  members : List (String × Json)
  sound : Bool
  rest : List Char

/-- The members with one more in front. -/
def ReadMembers.cons (key : ReadString) (value : Json) (m : ReadMembers) : ReadMembers where
  members := (String.ofList key.chars, value) :: m.members
  sound := key.sound && m.sound
  rest := m.rest

/-- A word at the start of the text. -/
def readWord? (word : String) (value : Json) (s : List Char) : Option (Json × List Char) :=
  if word.toList.isPrefixOf s then some (value, s.drop word.length) else none

mutual

/-- Reads a value at the start of the text. Every step into a value or on to the next item
takes one unit of fuel; twice the length of the text is enough. -/
def readValue? : Nat → List Char → Option (Json × List Char)
  | 0, _ => none
  | fuel + 1, s =>
    match skipBlanks s with
    | [] => none
    | '"' :: rest =>
      (readString? none rest).map fun r =>
        (if r.sound then string (String.ofList r.chars) else meaningless, r.rest)
    | '[' :: rest =>
      match skipBlanks rest with
      | ']' :: rest => some (array [], rest)
      | rest => (readItems? fuel rest).map fun (items, rest) => (array items, rest)
    | '\x7b' :: rest =>
      match skipBlanks rest with
      | '\x7d' :: rest => some (object [], rest)
      | rest =>
        (readMembers? fuel rest).map fun r =>
          (if r.sound then object r.members else meaningless, r.rest)
    | 't' :: rest => readWord? "true" (bool true) ('t' :: rest)
    | 'f' :: rest => readWord? "false" (bool false) ('f' :: rest)
    | 'n' :: rest => readWord? "null" null ('n' :: rest)
    | rest => readNumber? rest

/-- Reads the items of an array and its closing bracket. -/
def readItems? : Nat → List Char → Option (List Json × List Char)
  | 0, _ => none
  | fuel + 1, s => do
    let (item, rest) ← readValue? fuel s
    match skipBlanks rest with
    | ',' :: rest =>
      let (items, rest) ← readItems? fuel rest
      pure (item :: items, rest)
    | ']' :: rest => pure ([item], rest)
    | _ => none

/-- Reads the members of an object and its closing brace. -/
def readMembers? : Nat → List Char → Option ReadMembers
  | 0, _ => none
  | fuel + 1, s =>
    match skipBlanks s with
    | '"' :: rest => do
      let key ← readString? none rest
      match skipBlanks key.rest with
      | ':' :: rest =>
        let (value, rest) ← readValue? fuel rest
        match skipBlanks rest with
        | ',' :: rest => (readMembers? fuel rest).map (·.cons key value)
        | '\x7d' :: rest => pure (ReadMembers.cons key value ⟨[], true, rest⟩)
        | _ => none
      | _ => none
    | _ => none

end

/-- Reads a text that holds one value and nothing else but blanks. -/
def read? (text : String) : Option Json := do
  let s := text.toList
  -- A step into a value and one on to the next item for every character, and two at the end.
  let (value, rest) ← readValue? (2 * s.length + 2) s
  if (skipBlanks rest).isEmpty then pure value else none

end Metrology.Json
