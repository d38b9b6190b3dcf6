/-
  Metrology.Ratio.NumberError

  What can go wrong with a number: its text, a division by zero, a result out of range, or
  a floating-point number that has no exact value.
-/
import Metrology.Binary.Text

namespace Metrology

/-- The causes for which an operation on numbers has no result. -/
inductive NumberError where
  /-- The text is not the text of a number. -/
  | malformed (text : String)
  | divisionByZero
  /-- A power of pi leaves its range, or an approximate power is not finite. -/
  | overflow
  /-- The floating-point number is infinite or no number. -/
  | notFinite (value : Binary .double)
  deriving DecidableEq

def NumberError.message : NumberError → String
  | .malformed text => "Invalid ratio format: " ++ text
  | .divisionByZero => "Division by zero"
  | .overflow => "Overflow: result does not fit the target representation"
  | .notFinite value => "Not a finite number: " ++ value.text

end Metrology
