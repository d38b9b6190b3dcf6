/-
  Metrology.Json.Report

  Error reports as JSON: the record that is stored and read back, and the short answer that
  a caller gets, whose text also orders listings of errors.
-/
import Metrology.Error
import Metrology.Json.Members

namespace Metrology.ErrorReport

/-! ## Writing -/

/-- The list of notes, left out when it is empty. -/
def notesJson? (r : ErrorReport) : Option Json :=
  if r.notes.isEmpty then none else some (Json.ofStrings r.notes)

def toJson (r : ErrorReport) : Json :=
  Json.ofMembers
    [("code", some (.string r.code)), ("message", some (.string r.message)),
      ("suggestion", r.suggestion.map .string), ("notes", r.notesJson?)]

/-- The answer for a report, with its keys in order. -/
def answer (r : ErrorReport) : Json :=
  Json.ofMembers
    [("error", some (.string r.code)), ("message", some (.string r.message)),
      ("notes", r.notesJson?), ("suggestion", r.suggestion.map .string)]

/-- Reports in the order of the texts of their answers. -/
def sort (reports : List ErrorReport) : List ErrorReport :=
  reports.mergeSort fun a b => (compare a.answer.compact b.answer.compact).isLE

/-! ## Reading -/

/-- Reads the record of a report. The suggestion may be null or, in an object, missing; the
notes may be missing. -/
def ofJson? (j : Json) : Option ErrorReport := do
  let (code, message, suggestion, notes) ←
    match j with
    | .array [code, message, suggestion] => some (some code, some message, some suggestion, none)
    | .array [code, message, suggestion, notes] =>
      some (some code, some message, some suggestion, some notes)
    | .object members =>
      match Json.pick? ["code", "message", "suggestion", "notes"] members with
      | some [code, message, suggestion, notes] => some (code, message, suggestion, notes)
      | _ => none
    | _ => none
  pure
    { code := ← Json.required? Json.asString? code
      message := ← Json.required? Json.asString? message
      suggestion := ← Json.optional? Json.asString? suggestion
      notes := ← Json.listed? Json.asString? notes }

end Metrology.ErrorReport
