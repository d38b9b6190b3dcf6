/-
  Metrology.Proofs.Document.RoundTrip

  A document with exact magnitudes is read back from its JSON. Every record reads its fields by
  name, a unit by the kind that it is tagged with; absent fields are left out and read as absent;
  and aliases are put in order whatever order they come in. So the document comes back from every
  JSON value that has the same members in its objects.
-/
import Metrology.Document.Json
import Metrology.Proofs.Json.Rearranged
import Metrology.Proofs.Magnitude.RoundTrip

namespace Metrology

open Json (Rearranged ReadsBack)
open Catalog (lookup?)

/-! ## Exact documents -/

/-- The reference magnitude is exact where there is one. -/
def BaseEntry.IsExact (e : BaseEntry) : Prop :=
  ∀ m, e.referenceMagnitude = some m → m.isExact = true

/-- The factor of a scaled unit is exact. -/
def UnitEntry.IsExact : UnitEntry → Prop
  | scaled _ _ _ factor => factor.isExact = true
  | _ => True

/-- All magnitudes of the document are exact. -/
structure Document.IsExact (d : Document) : Prop where
  bases : ∀ e ∈ d.bases, e.IsExact
  units : ∀ e ∈ d.units, e.IsExact

theorem Magnitude.readsBack {m : Magnitude} (h : m.isExact = true) :
    ReadsBack Magnitude.ofJson? Magnitude.toJson m := by
  obtain ⟨r, k, rfl⟩ := Magnitude.isExact_iff.1 h
  rintro _ ⟨⟩
  rw [ofJson?, Json.asString?, Option.bind_some, ofText_text]
  rfl

/-! ## Base dimensions -/

theorem BaseEntry.readsBack {e : BaseEntry} (he : e.IsExact) :
    ReadsBack BaseEntry.ofJson? BaseEntry.toJson e := by
  intro j h
  obtain ⟨value?, hfields, hvalue⟩ := Rearranged.fields? _ h (by simp)
    ["name", "reference_unit", "unit_name", "reference_magnitude", "key"]
  have hname := (Json.readsBack_string e.name).required (hvalue "name")
  have hunit := (Json.readsBack_string e.referenceUnit).required (hvalue "reference_unit")
  have hunitName := (Json.readsBack_string e.unitName).required (hvalue "unit_name")
  have hmagnitude := ReadsBack.optional (o := e.referenceMagnitude)
    (fun m hm => Magnitude.readsBack (he m hm)) (fun m => Json.string_not_null m.text)
    (hvalue "reference_magnitude")
  have hkey := ReadsBack.optional (o := e.key) (fun s _ => Json.readsBack_string s)
    Json.string_not_null (hvalue "key")
  rw [ofJson?, hfields]
  simp only [List.map_cons, List.map_nil, Option.bind_eq_bind, Option.bind_some, hname, hunit,
    hunitName, hmagnitude, hkey]
  rfl

/-! ## Dimensions -/

theorem ExponentEntry.readsBack (e : ExponentEntry) :
    ReadsBack ExponentEntry.ofJson? ExponentEntry.toJson e := by
  intro j h
  obtain ⟨value?, hfields, hvalue⟩ := Rearranged.fields? _ h (by simp)
    ["base", "reference_unit", "power"]
  have hbase := (Json.readsBack_string e.base).required (hvalue "base")
  have hunit := ReadsBack.optional (o := e.referenceUnit) (fun s _ => Json.readsBack_string s)
    Json.string_not_null (hvalue "reference_unit")
  have hpower := (Json.readsBack_power e.power).required (hvalue "power")
  rw [ofJson?, hfields]
  simp only [List.map_cons, List.map_nil, Option.bind_eq_bind, Option.bind_some, hbase, hunit,
    hpower]
  rfl

theorem DimensionEntry.readsBack (e : DimensionEntry) :
    ReadsBack DimensionEntry.ofJson? DimensionEntry.toJson e := by
  intro j h
  obtain ⟨value?, hfields, hvalue⟩ := Rearranged.fields?
    [("name", some (.string e.name)),
      ("exponents", some (.array (e.exponents.map ExponentEntry.toJson)))]
    h (by simp)
    ["name", "exponents"]
  have hname := (Json.readsBack_string e.name).required (hvalue "name")
  have hexponents := (Json.readsBack_items fun x (_ : x ∈ e.exponents) =>
    ExponentEntry.readsBack x).required (hvalue "exponents")
  rw [ofJson?, hfields]
  simp only [List.map_cons, List.map_nil, Option.bind_eq_bind, Option.bind_some, hname,
    hexponents]
  rfl

/-! ## Units -/

namespace UnitEntry

/-- Whether a value can be kept aside does not depend on the order of members. -/
theorem canBeKept_of_rearranged {limit : Nat} {j j' : Json} (h : Rearranged j j')
    (hj : canBeKept limit j = true) : canBeKept limit j' = true := by
  induction limit generalizing j j' with
  | zero => cases h <;> simp_all [canBeKept]
  | succ limit ih =>
    cases h with
    | array hitems =>
      rw [canBeKept, List.all_eq_true] at hj ⊢
      intro item' hitem'
      obtain ⟨item, hitem, hrearranged⟩ := exists_mem_of_forall₂ hitems hitem'
      exact ih hrearranged (hj item hitem)
    | object hkeys hvalues hperm =>
      rw [canBeKept, List.all_eq_true] at hj ⊢
      intro m' hm'
      have hpaired := List.mem_map_of_mem (f := Prod.snd) (hperm.mem_iff.1 hm')
      obtain ⟨value, hvalue, hrearranged⟩ := exists_mem_of_forall₂ hvalues hpaired
      obtain ⟨m, hm, rfl⟩ := List.mem_map.1 hvalue
      exact ih hrearranged (hj m hm)
    | _ => exact hj

/-- A tagged record is read by its kind. -/
theorem ofJson?_of_rearranged {members : List (String × Json)} {kind : String} {j : Json}
    (h : Rearranged (.object members) j) (hkeys : (members.map Prod.fst).Nodup)
    (hkept : canBeKept (nestingLimit + 1) (.object members) = true)
    (hkind : lookup? members "kind" = some (.string kind)) : ofJson? j = ofKind? kind j := by
  obtain ⟨members', rfl⟩ := h.exists_object
  have hkept' := canBeKept_of_rearranged h hkept
  have hkind' : lookup? members' "kind" = some (.string kind) := by
    have hrel := h.rel_lookup? hkeys "kind"
    rw [hkind] at hrel
    generalize lookup? members' "kind" = value at hrel ⊢
    cases hrel with
    | some hvalue =>
      cases hvalue
      rfl
  rw [canBeKept] at hkept'
  rw [ofJson?, if_pos hkept', Json.pick?_eq (h.nodup_keys hkeys), List.map_singleton, hkind']

theorem canBeKept_ofStrings (limit : Nat) (items : List String) :
    canBeKept (limit + 1) (Json.ofStrings items) = true := by
  rw [Json.ofStrings, canBeKept, List.all_eq_true]
  intro item hitem
  obtain ⟨s, -, rfl⟩ := List.mem_map.1 hitem
  cases limit <;> rfl

theorem readsBack {e : UnitEntry} (he : e.IsExact) : ReadsBack ofJson? toJson e := by
  intro j h
  cases e with
  | scaled symbol name reference factor =>
    obtain ⟨value?, hfields, hvalue⟩ := Rearranged.fields?
      [("kind", some (.string "scaled")), ("symbol", some (.string symbol)),
        ("name", some (.string name)), ("reference", some (.string reference)),
        ("factor", some factor.toJson)]
      h (by simp) ["symbol", "name", "reference", "factor"]
    have hsymbol := (Json.readsBack_string symbol).required (hvalue "symbol")
    have hname := (Json.readsBack_string name).required (hvalue "name")
    have hreference := (Json.readsBack_string reference).required (hvalue "reference")
    have hfactor := (Magnitude.readsBack he).required (hvalue "factor")
    rw [ofJson?_of_rearranged h (by simp) rfl rfl, ofKind?, if_pos rfl, scaledOf?, hfields]
    simp only [List.map_cons, List.map_nil, Option.bind_eq_bind, Option.bind_some, hsymbol, hname,
      hreference, hfactor]
    rfl
  | prefixed symbol reference =>
    obtain ⟨value?, hfields, hvalue⟩ := Rearranged.fields?
      [("kind", some (.string "prefixed")), ("prefix", some (.string symbol)),
        ("reference", some (.string reference))]
      h (by simp) ["prefix", "reference"]
    have hsymbol := (Json.readsBack_string symbol).required (hvalue "prefix")
    have hreference := (Json.readsBack_string reference).required (hvalue "reference")
    rw [ofJson?_of_rearranged h (by simp) rfl rfl, ofKind?, if_neg (by decide), if_pos rfl,
      prefixedOf?, hfields]
    simp only [List.map_cons, List.map_nil, Option.bind_eq_bind, Option.bind_some, hsymbol,
      hreference]
    rfl
  | deduced symbol name dimension constituents =>
    obtain ⟨value?, hfields, hvalue⟩ := Rearranged.fields?
      [("kind", some (.string "deduced")), ("symbol", some (.string symbol)),
        ("name", some (.string name)), ("dimension", some (.string dimension)),
        ("constituents", some (Json.ofStrings constituents))]
      h (by simp)
      ["symbol", "name", "dimension", "constituents"]
    have hsymbol := (Json.readsBack_string symbol).required (hvalue "symbol")
    have hname := (Json.readsBack_string name).required (hvalue "name")
    have hdimension := (Json.readsBack_string dimension).required (hvalue "dimension")
    have hconstituents := (Json.readsBack_strings constituents).required (hvalue "constituents")
    have hkept : canBeKept (nestingLimit + 1) (toJson (.deduced symbol name dimension constituents))
        = true := by
      simp only [toJson, canBeKept, List.all_cons, List.all_nil, nestingLimit, canBeKept_ofStrings]
      rfl
    rw [ofJson?_of_rearranged h (by simp) hkept rfl, ofKind?, if_neg (by decide),
      if_neg (by decide), if_pos rfl, deducedOf?, hfields]
    simp only [List.map_cons, List.map_nil, Option.bind_eq_bind, Option.bind_some, hsymbol, hname,
      hdimension, hconstituents]
    rfl

end UnitEntry

/-! ## Aliases -/

namespace AliasMap

variable {es : List (String × String)}

/-- A new alias is put among the others. -/
theorem insertEntry_perm {other : String} (key : String) (h : other ∉ es.map Prod.fst) :
    (insertEntry other key es).Perm ((other, key) :: es) := by
  induction es with
  | nil => exact .refl _
  | cons e es ih =>
    rw [List.map_cons, List.mem_cons, not_or] at h
    obtain ⟨hne, hes⟩ := h
    rw [insertEntry]
    split
    · exact .refl _
    · rename_i heq
      exact absurd (Std.LawfulEqOrd.eq_of_compare heq) hne
    · exact ((ih hes).cons e).trans (.swap _ _ _)

/-- Entries of different aliases are all kept. -/
theorem foldl_insert_perm (m : AliasMap) (h : ((m.entries ++ es).map Prod.fst).Nodup) :
    (es.foldl (fun m e => m.insert e.1 e.2) m).entries.Perm (m.entries ++ es) := by
  induction es generalizing m with
  | nil => rw [List.append_nil]; exact .refl _
  | cons e es ih =>
    have hperm : ((e :: m.entries) ++ es).Perm (m.entries ++ e :: es) := List.perm_middle.symm
    have hnew : e.1 ∉ m.entries.map Prod.fst := by
      have hnodup := (hperm.map Prod.fst).nodup_iff.2 h
      rw [List.cons_append, List.map_cons, List.nodup_cons, List.map_append, List.mem_append,
        not_or] at hnodup
      exact hnodup.1.1
    have hinsert : (m.insert e.1 e.2).entries.Perm (e :: m.entries) := insertEntry_perm e.2 hnew
    have hstep : ((m.insert e.1 e.2).entries ++ es).Perm (m.entries ++ e :: es) :=
      (hinsert.append_right es).trans hperm
    exact (ih _ ((hstep.map Prod.fst).nodup_iff.2 h)).trans hstep

/-- A map has no alias twice. -/
theorem nodup_keys (m : AliasMap) : (m.entries.map Prod.fst).Nodup := by
  refine List.pairwise_map.2 (m.inOrder.imp fun {a b} hlt heq => ?_)
  have hself : compare b.1 b.1 = .eq := Std.ReflCmp.compare_self
  rw [heq, hself] at hlt
  cases hlt

/-- A map is put together from its entries in any order. -/
theorem ofEntries_of_perm {m : AliasMap} (h : es.Perm m.entries) : ofEntries es = m := by
  have hperm : (ofEntries es).entries.Perm m.entries :=
    (foldl_insert_perm empty ((h.map Prod.fst).nodup_iff.2 m.nodup_keys)).trans h
  refine ext (List.Perm.eq_of_pairwise (fun a b _ _ hab hba => ?_) (ofEntries es).inOrder m.inOrder
    hperm)
  have hswap : compare a.1 b.1 = (compare b.1 a.1).swap := Std.OrientedCmp.eq_swap
  rw [hab, hba] at hswap
  cases hswap

/-- Members that are strings are the same members in every rearrangement. -/
theorem eq_of_rearranged_strings {paired : List (String × Json)}
    (hkeys : (es.map fun e => (e.1, Json.string e.2)).map Prod.fst = paired.map Prod.fst)
    (hvalues : List.Forall₂ Rearranged ((es.map fun e => (e.1, Json.string e.2)).map Prod.snd)
      (paired.map Prod.snd)) : paired = es.map fun e => (e.1, Json.string e.2) := by
  induction es generalizing paired with
  | nil => exact List.map_eq_nil_iff.1 hkeys.symm
  | cons e es ih =>
    cases paired with
    | nil => cases hkeys
    | cons p paired =>
      obtain ⟨name, value⟩ := p
      obtain ⟨hkey, hkeysRest⟩ := List.cons.inj hkeys
      obtain ⟨hvalue, hvaluesRest⟩ := List.forall₂_cons.1 hvalues
      cases hkey
      cases hvalue
      rw [List.map_cons, ih hkeysRest hvaluesRest]

theorem mapM_asString? (es : List (String × String)) :
    (es.map fun e => (e.1, Json.string e.2)).mapM (fun m => (m.1, ·) <$> m.2.asString?) =
      some es := by
  rw [List.mapM_map]
  exact (List.mapM_pure (m := Option) (f := id)).trans (by rw [List.map_id]; rfl)

theorem readsBack (m : AliasMap) : ReadsBack ofJson? toJson m := by
  intro j h
  cases h with
  | @object _ members' paired hkeys hvalues hperm =>
    rw [eq_of_rearranged_strings hkeys hvalues] at hperm
    -- The members are written from the entries in some order.
    obtain ⟨es, hes, rfl⟩ : ∃ es : List (String × String), es.Perm m.entries ∧
        members' = es.map fun e => (e.1, Json.string e.2) := by
      refine ⟨members'.map fun x => (x.1, (Json.asString? x.2).getD ""), ?_, ?_⟩
      · simpa [Function.comp_def, Json.asString?] using
          hperm.map fun x : String × Json => (x.1, (Json.asString? x.2).getD "")
      · refine (List.map_id members').symm.trans ?_
        rw [List.map_map]
        refine List.map_congr_left fun x hx => ?_
        obtain ⟨e, -, rfl⟩ := List.mem_map.1 (hperm.mem_iff.1 hx)
        rfl
    rw [ofJson?, mapM_asString?]
    exact congrArg some (ofEntries_of_perm hes)

end AliasMap

/-! ## Documents -/

namespace Document

theorem readsBack {d : Document} (hd : d.IsExact) : ReadsBack ofJson? toJson d := by
  intro j h
  obtain ⟨value?, hfields, hvalue⟩ := Rearranged.fields?
    [("bases", some (.array (d.bases.map BaseEntry.toJson))),
      ("dimensions", some (.array (d.dimensions.map DimensionEntry.toJson))),
      ("units", some (.array (d.units.map UnitEntry.toJson))),
      ("aliases", some d.aliases.toJson)]
    h (by simp) ["bases", "dimensions", "units", "aliases"]
  have hbases := ReadsBack.listed (fun e he => BaseEntry.readsBack (hd.bases e he))
    (hvalue "bases")
  have hdimensions := ReadsBack.listed (fun e (_ : e ∈ d.dimensions) => DimensionEntry.readsBack e)
    (hvalue "dimensions")
  have hunits := ReadsBack.listed (fun e he => UnitEntry.readsBack (hd.units e he))
    (hvalue "units")
  have haliases : AliasMap.ofField? (value? "aliases") = some d.aliases := by
    have hfield := hvalue "aliases"
    generalize value? "aliases" = field at hfield ⊢
    cases hfield with
    | some hrearranged => exact AliasMap.readsBack d.aliases _ hrearranged
  rw [ofJson?, hfields]
  simp only [List.map_cons, List.map_nil, Option.bind_eq_bind, Option.bind_some, hbases,
    hdimensions, hunits, haliases]
  rfl

/-- A document with exact magnitudes comes back from the JSON value that it is written as, and from
every rearrangement of it. So what is read leads every catalog to the catalog and the error that
the document itself leads it to. -/
theorem json_roundTrip {d : Document} (hd : d.IsExact) :
    ofJson? d.toJson = some d ∧
      (∀ j, Rearranged d.toJson j → ofJson? j = some d) ∧
      ∀ (c : Catalog) (j : Json) (d' : Document), Rearranged d.toJson j → ofJson? j = some d' →
        c.load d' = c.load d := by
  refine ⟨readsBack hd _ (.refl _), readsBack hd, fun c j d' hj hd' => ?_⟩
  rw [readsBack hd j hj] at hd'
  cases hd'
  rfl

/-- Centimetres and bits: every kind of unit, a factor with pi, and optional fields present and
absent. -/
def centimetresAndBits : Document where
  bases :=
    [⟨"length", "cm", "centimetre", some (.exact (1 / 100)), some "cgs:cm"⟩,
      ⟨"information", "b", "bit", none, none⟩]
  dimensions :=
    [⟨"density", [⟨"information", none, 1⟩, ⟨"length", some "cm", .lit (-1)⟩]⟩]
  units :=
    [.scaled "turn" "circumference" "cgs:cm" ⟨.exact 2, 1⟩, .prefixed "Ki" "b",
      .deduced "Kib/turn" "kibibit per circumference" "density" ["Kib", "turn"]]
  aliases := .ofEntries [("cm", "cgs:cm"), ("bit", "b")]

/-- The document comes back also where its four lists are written last to first. -/
theorem json_roundTrip_centimetresAndBits :
    centimetresAndBits.IsExact ∧ ∃ members : List (String × Json),
      centimetresAndBits.toJson = .object members ∧
        ofJson? (.object members.reverse) = some centimetresAndBits := by
  have hexact : centimetresAndBits.IsExact := by
    constructor
    · intro e he m hm
      simp only [centimetresAndBits, List.mem_cons, List.not_mem_nil, or_false] at he
      rcases he with rfl | rfl
      · cases hm
        rfl
      · cases hm
    · simp [centimetresAndBits, UnitEntry.IsExact, Magnitude.isExact]
  exact ⟨hexact, _, rfl,
    (json_roundTrip hexact).2.1 _ (Json.rearranged_of_perm (List.reverse_perm _))⟩

end Document

end Metrology
