/-
  Metrology.Catalog.Similar

  Suggestions for a key that no unit has. Keys and aliases are scored against it without
  regard to case: by the kind of match, then by shared characters and by length.
-/
import Metrology.Catalog.Basic
import Metrology.Quantity.Reference
import Metrology.Text.Lowercase
import Metrology.Text.Cut

namespace Metrology.Catalog

/-! ## Scores -/

/-- The score of the kind of match: equal, at the start, inside, or the other way round. -/
def matchScore (query candidate : List Char) : Nat :=
  if candidate = query then 200
  else if query.isPrefixOf candidate then 100
  else if Text.occursIn query candidate then 50
  else if Text.occursIn candidate query then 30
  else 0

/-- The number of different characters that occur in both texts. -/
def sharedCharacters (query candidate : List Char) : Nat :=
  (query.eraseDups.filter (candidate.contains ·)).length

def distance (a b : Nat) : Nat := (a - b) + (b - a)

/-- The score of a candidate for a query, both in lower case. -/
def similarity (query candidate : List Char) : Nat :=
  if query.isEmpty then 0
  else
    let kind := matchScore query candidate
    let shared := sharedCharacters query candidate
    -- Length counts only next to shared characters.
    if shared = 0 then kind
    else kind + shared * 2 + (5 - distance query.length candidate.length)

/-! ## Suggestions -/

/-- Keys and aliases with a positive score, the highest first and equal ones by name. -/
def similarKeys (c : Catalog) (key : String) : List String :=
  let query := Text.lowercase key.toList
  let candidates := c.units.map Prod.fst ++ c.aliases.map Prod.fst
  let scored := candidates.map fun name => (name, similarity query (Text.lowercase name.toList))
  let ranked := (scored.filter fun e => 0 < e.2).mergeSort fun a b =>
    ((compare b.2 a.2).then (compare a.1 b.1)).isLE
  ranked.map Prod.fst

/-- The unit under a key or alias; an unknown key is an error that names up to five similar
ones. -/
def require (c : Catalog) (key : String) : Except Error MeasureUnit :=
  match c.unit? key with
  | some u => .ok u
  | none => fail (.unknownUnit key ((c.similarKeys key).take 5))

/-- The reference of the unit under a key. -/
def reference (c : Catalog) (key : String) : Except Error Reference :=
  Reference.mk <$> c.require key

end Metrology.Catalog
