/-
  Metrology.Error

  Errors as values. An error is a cause and notes on where it arose; its code, its wording
  and its advice follow from the cause and are written in one place.
-/
import Metrology.Ratio.NumberError

namespace Metrology

/-! ## Causes -/

/-- Numbers that leave the range they are kept in. -/
inductive Overflow where
  /-- The sum of two powers of one base dimension. -/
  | powerSum (a b : Int)
  /-- A power of a base dimension times a number. -/
  | powerProduct (a n : Int)
  /-- The result of an operation in a representation. -/
  | operation (expression representation : String)
  /-- A value that a representation does not hold. -/
  | outside (value representation : String)
  /-- A floating-point result that is infinite or no number. -/
  | notFinite (representation : String)
  /-- A floating-point number without an exact value. -/
  | nonFinite (value : Binary .double)
  /-- A magnitude out of range. -/
  | magnitude
  | other (details : String)

/-- Powers and roots of dimensions that do not exist. -/
inductive BadExponent where
  | rootIndex (n : Int)
  | noRoot (exponent : String) (n : Int)
  | other (details : String)

/-- Declarations that a catalog refuses, and flaws that checking a catalog finds. -/
inductive BadDeclaration where
  | baseName (name : String)
  | noReferenceUnit (base : String)
  | zeroReferenceMagnitude (base : String)
  /-- A name that several base dimensions share, where one of them is meant. -/
  | ambiguousBase (name : String)
  | baseTwice
  | emptyKey
  | zeroMagnitude (key : String)
  | zeroFactor (symbol : String)
  | hasZeroMagnitude (symbol : String)
  | otherMagnitude (symbol magnitude expected : String)
  | unknownPrefix (symbol : String)
  | alreadyPrefixed (symbol : String)
  | constituentCount (symbol : String) (needed : Nat) (dimension : String) (given : Nat)
  | constituentOf (symbol base : String)
  | emptyDimensionName
  | notDisplayName (name dimension : String)
  | other (details : String)

/-- Why an operation on units, quantities or catalogs has no result. -/
inductive Cause where
  | dimensionMismatch (operation left right : String)
  | referenceMismatch (operation left right : String)
  /-- A conversion that the representation cannot do without loss. -/
  | narrowing (source target factor : String)
  /-- An exact result that the representation does not hold. -/
  | inexact (expression representation : String)
  | overflow (what : Overflow)
  | divisionByZero
  | outOfRange (value target : String)
  | notComparable (details : String)
  | duplicate (kind name : String)
  | unknownUnit (key : String) (similar : List String)
  | unknownDimension (name : String)
  | badDeclaration (what : BadDeclaration)
  | badExponent (what : BadExponent)
  | malformed (details : String)

/-! ## Wording -/

def Overflow.details : Overflow → String
  | powerSum a b => "exponent " ++ Integer.text a ++ " + " ++ Integer.text b
  | powerProduct a n => "exponent " ++ Integer.text a ++ " * " ++ Integer.text n
  | operation expression representation => expression ++ " in " ++ representation
  | outside value representation => value ++ " does not fit " ++ representation
  | notFinite representation => "result is not a finite " ++ representation
  | nonFinite value => "non-finite value " ++ value.text
  | magnitude => "numeric result too large"
  | other details => details

/-- The details of a power or root that does not exist. -/
def BadExponent.details : BadExponent → String
  | rootIndex n => "root index must be positive, got " ++ Integer.text n
  | noRoot exponent n => exponent ++ " has no integral root of index " ++ Integer.text n
  | other details => details

def BadDeclaration.details : BadDeclaration → String
  | baseName name =>
    "base dimension name '" ++ name ++ "' must be non-empty without whitespace"
  | noReferenceUnit base => "base dimension '" ++ base ++ "' needs a reference unit"
  | zeroReferenceMagnitude base =>
    "base dimension '" ++ base ++ "' has a zero reference magnitude"
  | ambiguousBase name =>
    "base dimension '" ++ name ++ "' is declared in several unit systems"
  | baseTwice => "base dimension declared twice"
  | emptyKey => "unit key must be non-empty"
  | zeroMagnitude key => "unit " ++ key ++ " has zero magnitude"
  | zeroFactor symbol => "unit " ++ symbol ++ " has zero factor"
  | hasZeroMagnitude symbol => symbol ++ " has zero magnitude"
  | otherMagnitude symbol magnitude expected =>
    symbol ++ " has magnitude " ++ magnitude ++ " but its definition gives " ++ expected
  | unknownPrefix symbol => "unknown prefix '" ++ symbol ++ "'"
  | alreadyPrefixed symbol => "cannot prefix already prefixed unit " ++ symbol
  | constituentCount symbol needed dimension given =>
    symbol ++ " needs " ++ Integer.text needed ++ " constituent units for " ++ dimension ++
      ", got " ++ Integer.text given
  | constituentOf symbol base =>
    symbol ++ " needs exactly one constituent unit measuring " ++ base
  | emptyDimensionName => "dimension name must be non-empty"
  | notDisplayName name dimension =>
    "dimension '" ++ name ++ "' is not the display name of " ++ dimension
  | other details => details

/-! ## Codes -/

/-- The kinds of errors that callers tell apart. -/
inductive ErrorCode where
  | dimensionMismatch
  | referenceMismatch
  | narrowing
  | overflow
  | divisionByZero
  | outOfRange
  | notComparable
  | duplicate
  | unknownUnit
  | unknownDimension
  | invalidDeclaration
  | invalidExponent
  | malformed
  deriving DecidableEq, Repr

def ErrorCode.text : ErrorCode → String
  | dimensionMismatch => "DIMENSION_MISMATCH"
  | referenceMismatch => "REFERENCE_MISMATCH"
  | narrowing => "NARROWING"
  | overflow => "OVERFLOW"
  | divisionByZero => "DIV_ZERO"
  | outOfRange => "OUT_OF_RANGE"
  | notComparable => "NOT_COMPARABLE"
  | duplicate => "DUPLICATE"
  | unknownUnit => "UNKNOWN_UNIT"
  | unknownDimension => "UNKNOWN_DIMENSION"
  | invalidDeclaration => "INVALID_DECLARATION"
  | invalidExponent => "INVALID_EXPONENT"
  | malformed => "PARSE_ERROR"

namespace Cause

def code : Cause → ErrorCode
  | dimensionMismatch .. => .dimensionMismatch
  | referenceMismatch .. => .referenceMismatch
  | narrowing .. => .narrowing
  | inexact .. => .narrowing
  | overflow _ => .overflow
  | divisionByZero => .divisionByZero
  | outOfRange .. => .outOfRange
  | notComparable _ => .notComparable
  | duplicate .. => .duplicate
  | unknownUnit .. => .unknownUnit
  | unknownDimension _ => .unknownDimension
  | badDeclaration _ => .invalidDeclaration
  | badExponent _ => .invalidExponent
  | malformed _ => .malformed

def message : Cause → String
  | dimensionMismatch operation left right =>
    operation ++ ": incompatible dimensions " ++ left ++ " and " ++ right
  | referenceMismatch operation left right =>
    operation ++ ": " ++ left ++ " and " ++ right ++
      " share base dimension names but use different reference units"
  | narrowing source target factor =>
    "Converting " ++ source ++ " to " ++ target ++ " (factor " ++ factor ++
      ") would lose precision"
  | inexact expression representation =>
    expression ++ " has no exact " ++ representation ++ " result"
  | overflow what => "Overflow: " ++ what.details
  | divisionByZero => "Division by zero"
  | outOfRange value target => "Value " ++ value ++ " does not fit " ++ target
  | notComparable details => "Not comparable: " ++ details
  | duplicate kind name => kind ++ " '" ++ name ++ "' is already declared"
  | unknownUnit key _ => "Unknown unit: " ++ key
  | unknownDimension name => "Unknown dimension: " ++ name
  | badDeclaration what => "Invalid declaration: " ++ what.details
  | badExponent what => "Invalid exponent: " ++ what.details
  | malformed details => "Parse error: " ++ details

/-- The advice that a cause comes with. -/
def suggestion : Cause → Option String
  | dimensionMismatch .. =>
    some "Only quantities of the same dimension can be combined this way"
  | referenceMismatch .. => some "Use cast_to to bridge unit systems explicitly"
  | narrowing .. =>
    some ("Use cast_to for an explicit, truncating conversion or a floating " ++
      "representation")
  | inexact .. => some "Use a floating or exact representation"
  | divisionByZero => some "Ensure divisor is not zero"
  | unknownUnit _ (key :: keys) => some ("Similar: " ++ ", ".intercalate (key :: keys))
  | badDeclaration (.ambiguousBase _) => some "Give the reference_unit of the exponent"
  | _ => none

end Cause

/-! ## Errors -/

/-- A cause, with notes added on the way to the caller. -/
structure Error where
  cause : Cause
  notes : List String := []

namespace Error

def code (e : Error) : ErrorCode := e.cause.code

def note (e : Error) (text : String) : Error := { e with notes := e.notes ++ [text] }

/-- The error that a number error is for units and quantities. -/
def ofNumber : NumberError → Error
  | .malformed text => ⟨.malformed text, []⟩
  | .divisionByZero => ⟨.divisionByZero, []⟩
  | .overflow => ⟨.overflow .magnitude, []⟩
  | .notFinite value => ⟨.overflow (.nonFinite value), []⟩

/-- A result on numbers as a result on units and quantities. -/
def lift {α : Type} : Except NumberError α → Except Error α
  | .ok value => .ok value
  | .error e => .error (ofNumber e)

end Error

/-- The result that a cause prevents. -/
def fail {α : Type} (cause : Cause) : Except Error α := .error ⟨cause, []⟩

/-! ## Reports -/

/-- What a caller is told of an error, in a form that is also read back. -/
structure ErrorReport where
  code : String
  message : String
  suggestion : Option String := none
  notes : List String := []
  deriving DecidableEq, Repr

def Error.report (e : Error) : ErrorReport :=
  ⟨e.code.text, e.cause.message, e.cause.suggestion, e.notes⟩

namespace ErrorReport

def withSuggestion (r : ErrorReport) (text : String) : ErrorReport :=
  { r with suggestion := some text }

def withNote (r : ErrorReport) (text : String) : ErrorReport :=
  { r with notes := r.notes ++ [text] }

def is (r : ErrorReport) (code : String) : Bool := r.code == code

/-- The report on one line. -/
def text (r : ErrorReport) : String :=
  let advice :=
    match r.suggestion with
    | some suggestion => " (suggestion: " ++ suggestion ++ ")"
    | none => ""
  "[" ++ r.code ++ "] " ++ r.message ++ advice

end ErrorReport

end Metrology
