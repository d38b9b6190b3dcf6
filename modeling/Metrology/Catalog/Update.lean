/-
  Metrology.Catalog.Update

  Changes of a catalog, step by step. A step that is refused ends the change and leaves the
  catalog as it then stands: nothing that was written before is taken back.
-/
import Metrology.Catalog.Basic

namespace Metrology.Catalog

/-- What a change gives, or the error that refused it, with the catalog that is left. -/
abbrev Outcome : Type → Type := EStateM.Result Error Catalog

/-- The catalog that is left, whether or not the change was refused. -/
def Outcome.catalog {α : Type} : Outcome α → Catalog
  | .ok _ c => c
  | .error _ c => c

/-- A change of the catalog. -/
abbrev Update : Type → Type := EStateM Error Catalog

namespace Update

def refuse {α : Type} (cause : Cause) : Update α := throw ⟨cause, []⟩

/-- What is only computed, or looked up, is a step that writes nothing. -/
instance : MonadLift (Except Error) Update := ⟨ofExcept⟩

end Update

end Metrology.Catalog
