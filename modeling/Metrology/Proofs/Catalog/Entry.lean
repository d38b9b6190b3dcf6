/-
  Metrology.Proofs.Catalog.Entry

  What a declaration does to a catalog. Every declaration asks for one entry, which depends on
  the declaration and on what it looks up; the catalog accepts the entry or not; and the
  declaration succeeds exactly if its entry exists and is accepted, and then it adds that entry.
  Otherwise it is refused, always before its first write, so that the catalog stays as it was.
-/
import Metrology.Catalog.Declaration
import Metrology.Proofs.Catalog.Lookup
import Metrology.Proofs.Catalog.Update

namespace Metrology

namespace Catalog

/-! ## Entries -/

/-- What a declaration adds to a catalog. -/
inductive Entry where
  | base (b : BaseDimension)
  | unit (key : String) (u : MeasureUnit)
  /-- A name for a dimension. -/
  | name (name : String) (d : Dimension)
  | alias (other key : String)

/-- The catalog with one entry more. A base dimension takes its place in the order; a name goes
into both tables of names. -/
def add (c : Catalog) : Entry → Catalog
  | .base b => { c with bases := BaseDimension.sort (c.bases ++ [b]) }
  | .unit key u => { c with units := c.units ++ [(key, u)] }
  | .name name d =>
    { c with names := c.names ++ [(d, name)], dimensions := c.dimensions ++ [(name, d)] }
  | .alias other key => { c with aliases := c.aliases ++ [(other, key)] }

/-- The conditions under which a catalog takes an entry. -/
def Accepts (c : Catalog) : Entry → Prop
  | .base b =>
    ¬ (b.name.isEmpty ∨ b.name.toList.any Text.isBlank) ∧
      b.referenceUnit.toList.all Text.isBlank = false ∧ b.referenceMagnitude.isZero = false ∧
        c.base? b.name b.referenceUnit = none
  | .unit key u =>
    key.isEmpty = false ∧ c.isTaken key = false ∧ c.HasBases u.dimension ∧
      u.magnitude.isZero = false
  | .name name d =>
    name.toList.all Text.isBlank = false ∧ hasEntry c.dimensions name = false ∧
      c.dimensionName? d = none ∧ c.HasBases d
  | .alias other key => c.isTaken other = false ∧ hasEntry c.units key = true

variable {c c' : Catalog}

open Update

/-! ## One declaration at a time -/

theorem require_eq_ok {key : String} {u : MeasureUnit} :
    c.require key = .ok u ↔ c.unit? key = some u := by
  rw [require]
  cases c.unit? key <;> simp [fail]

theorem declareBase_eq_ok {name referenceUnit : String} {magnitude : Magnitude}
    {b : BaseDimension} :
    (declareBase name referenceUnit magnitude).run c = .ok b c' ↔
      b = ⟨name, referenceUnit, magnitude⟩ ∧ c.Accepts (.base b) ∧ c' = c.add (.base b) := by
  rw [declareBase, run_get_bind]
  simp only [run_check_eq_ok, run_modify_bind, EStateM.run_pure, EStateM.Result.ok.injEq,
    Bool.not_eq_true, Option.isSome_eq_false_iff, Option.isNone_iff_eq_none]
  constructor
  · rintro ⟨hname, hunit, hmagnitude, hnew, rfl, rfl⟩
    exact ⟨rfl, ⟨hname, hunit, hmagnitude, hnew⟩, rfl⟩
  · rintro ⟨rfl, ⟨hname, hunit, hmagnitude, hnew⟩, rfl⟩
    exact ⟨hname, hunit, hmagnitude, hnew, rfl, rfl⟩

theorem declareUnit_eq_ok {key : String} {u v : MeasureUnit} :
    (declareUnit key u).run c = .ok v c' ↔
      v = u ∧ c.Accepts (.unit key u) ∧ c' = c.add (.unit key u) := by
  rw [declareUnit, run_get_bind]
  simp only [run_check_eq_ok, Bool.not_eq_true]
  cases hbase : c.undeclaredBase? u.dimension with
  | some b =>
    simp only [run_throw, reduceCtorEq, and_false, false_iff]
    rintro ⟨-, ⟨-, -, hbases, -⟩, -⟩
    exact not_hasBases_of_undeclaredBase? hbase hbases
  | none =>
    have hbases := undeclaredBase?_eq_none_iff.1 hbase
    simp only [run_check_eq_ok, run_modify_bind, EStateM.run_pure, EStateM.Result.ok.injEq,
      Bool.not_eq_true]
    constructor
    · rintro ⟨hkey, hnew, hmagnitude, rfl, rfl⟩
      refine ⟨rfl, ⟨hkey, hnew, hbases, hmagnitude⟩, ?_⟩
      rw [add, put_of_hasEntry_eq_false (isTaken_eq_false_iff.1 hnew).1]
    · rintro ⟨rfl, ⟨hkey, hnew, -, hmagnitude⟩, rfl⟩
      refine ⟨hkey, hnew, hmagnitude, rfl, ?_⟩
      rw [add, put_of_hasEntry_eq_false (isTaken_eq_false_iff.1 hnew).1]

theorem nameDimension_eq_ok {name : String} {d : Dimension} :
    (nameDimension name d).run c = .ok () c' ↔
      c.Accepts (.name name d) ∧ c' = c.add (.name name d) := by
  rw [nameDimension, run_get_bind]
  simp only [run_check_eq_ok, Bool.not_eq_true]
  cases hname : c.dimensionName? d with
  | some existing =>
    simp only [run_throw, reduceCtorEq, and_false, false_iff]
    rintro ⟨⟨-, -, hunnamed, -⟩, -⟩
    rw [hname] at hunnamed
    cases hunnamed
  | none =>
    cases hbase : c.undeclaredBase? d with
    | some b =>
      simp only [run_refuse, reduceCtorEq, and_false, false_iff]
      rintro ⟨⟨-, -, -, hbases⟩, -⟩
      exact not_hasBases_of_undeclaredBase? hbase hbases
    | none =>
      have hbases := undeclaredBase?_eq_none_iff.1 hbase
      have hnames : put c.names (·.same d) d name = c.names ++ [(d, name)] :=
        put_of_absent (dimensionName?_eq_none_iff.1 hname) d name
      simp only [run_modify_bind, EStateM.run_modify, EStateM.Result.ok.injEq, true_and, hnames]
      constructor
      · rintro ⟨hblank, hnew, rfl⟩
        refine ⟨⟨hblank, hnew, hname, hbases⟩, ?_⟩
        rw [add, put_of_hasEntry_eq_false hnew]
      · rintro ⟨⟨hblank, hnew, -, -⟩, rfl⟩
        refine ⟨hblank, hnew, ?_⟩
        rw [add, put_of_hasEntry_eq_false hnew]

theorem declareAlias_eq_ok {other key : String} :
    (declareAlias other key).run c = .ok () c' ↔
      c.Accepts (.alias other key) ∧ c' = c.add (.alias other key) := by
  rw [declareAlias, run_get_bind]
  simp only [run_check_eq_ok, EStateM.run_modify, EStateM.Result.ok.injEq, true_and,
    Bool.not_eq_true, Bool.not_eq_false']
  constructor
  · rintro ⟨hnew, hkey, rfl⟩
    refine ⟨⟨hnew, hkey⟩, ?_⟩
    rw [add, put_of_hasEntry_eq_false (isTaken_eq_false_iff.1 hnew).2]
  · rintro ⟨⟨hnew, hkey⟩, rfl⟩
    refine ⟨hnew, hkey, ?_⟩
    rw [add, put_of_hasEntry_eq_false (isTaken_eq_false_iff.1 hnew).2]

theorem declareScaled_eq_ok {symbol name reference : String} {factor : Magnitude}
    {u : MeasureUnit} :
    (declareScaled symbol name reference factor).run c = .ok u c' ↔
      (factor.isZero = false ∧ ∃ r, c.unit? reference = some r ∧
        MeasureUnit.scaled symbol name r factor = .ok u) ∧
      c.Accepts (.unit symbol u) ∧ c' = c.add (.unit symbol u) := by
  simp only [declareScaled, run_check_eq_ok, Bool.not_eq_true, run_get_bind,
    run_lift_bind_eq_ok, require_eq_ok, declareUnit_eq_ok]
  constructor
  · rintro ⟨hfactor, r, hr, _, hu, rfl, haccepts, hc⟩
    exact ⟨⟨hfactor, r, hr, hu⟩, haccepts, hc⟩
  · rintro ⟨⟨hfactor, r, hr, hu⟩, haccepts, hc⟩
    exact ⟨hfactor, r, hr, u, hu, rfl, haccepts, hc⟩

theorem declarePrefixed_eq_ok {scale : UnitPrefix} {reference : String} {u : MeasureUnit} :
    (declarePrefixed scale reference).run c = .ok u c' ↔
      (∃ r, c.unit? reference = some r ∧ MeasureUnit.prefixed scale r = .ok u) ∧
      c.Accepts (.unit u.symbol u) ∧ c' = c.add (.unit u.symbol u) := by
  simp only [declarePrefixed, run_get_bind, run_lift_bind_eq_ok, require_eq_ok,
    declareUnit_eq_ok]
  constructor
  · rintro ⟨r, hr, _, hu, rfl, haccepts, hc⟩
    exact ⟨⟨r, hr, hu⟩, haccepts, hc⟩
  · rintro ⟨⟨r, hr, hu⟩, haccepts, hc⟩
    exact ⟨r, hr, u, hu, rfl, haccepts, hc⟩

theorem declareDeduced_eq_ok {symbol name dimension : String} {constituents : List String}
    {u : MeasureUnit} :
    (declareDeduced symbol name dimension constituents).run c = .ok u c' ↔
      (∃ d, c.dimension? dimension = some d ∧
        ∃ us, List.Forall₂ (fun key v => c.unit? key = some v) constituents us ∧
          MeasureUnit.deduced symbol name d us = .ok u) ∧
      c.Accepts (.unit symbol u) ∧ c' = c.add (.unit symbol u) := by
  rw [declareDeduced, run_get_bind]
  cases hd : c.dimension? dimension with
  | none => simp
  | some d =>
    simp only [run_lift_bind_eq_ok, mapM_eq_ok, require_eq_ok, declareUnit_eq_ok,
      Option.some.injEq]
    constructor
    · rintro ⟨us, hus, _, hu, rfl, haccepts, hc⟩
      exact ⟨⟨d, rfl, us, hus, hu⟩, haccepts, hc⟩
    · rintro ⟨⟨_, rfl, us, hus, hu⟩, haccepts, hc⟩
      exact ⟨us, hus, u, hu, rfl, haccepts, hc⟩

theorem declareDerived_eq_ok {name : String} {es : List Exponent} {d : Dimension} :
    (declareDerived name es).run c = .ok d c' ↔
      Dimension.ofExponents es = .ok d ∧ c.Accepts (.name name d) ∧
        c' = c.add (.name name d) := by
  rw [declareDerived, run_lift_bind_eq_ok]
  simp only [run_bind_eq_ok, EStateM.run_pure, EStateM.Result.ok.injEq]
  constructor
  · rintro ⟨_, hd, _, _, h, rfl, rfl⟩
    exact ⟨hd, nameDimension_eq_ok.1 h⟩
  · rintro ⟨hd, h⟩
    exact ⟨d, hd, (), c', nameDimension_eq_ok.2 h, rfl, rfl⟩

/-! ## Refused declarations -/

theorem declareBase_isAtomic (name referenceUnit : String) (magnitude : Magnitude) :
    (declareBase name referenceUnit magnitude).IsAtomic := by
  refine reads_get.bind_isAtomic fun c => .ite (isAtomic_refuse _) <|
    .ite (isAtomic_refuse _) <| .ite (isAtomic_refuse _) <| .ite (isAtomic_refuse _) ?_
  exact ((succeeds_modify _).bind fun _ => (succeeds_modify _).bind fun _ =>
    succeeds_pure _).isAtomic

theorem declareUnit_isAtomic (key : String) (u : MeasureUnit) :
    (declareUnit key u).IsAtomic := by
  refine reads_get.bind_isAtomic fun c => .ite (isAtomic_refuse _) <|
    .ite (isAtomic_refuse _) ?_
  split
  · exact isAtomic_throw _
  · refine .ite (isAtomic_refuse _) ?_
    exact ((succeeds_modify _).bind fun _ => succeeds_pure _).isAtomic

theorem declareScaled_isAtomic (symbol name reference : String) (factor : Magnitude) :
    (declareScaled symbol name reference factor).IsAtomic :=
  .ite (isAtomic_refuse _) <| reads_get.bind_isAtomic fun _ =>
    (reads_lift _).bind_isAtomic fun _ => (reads_lift _).bind_isAtomic fun u =>
      declareUnit_isAtomic symbol u

theorem declarePrefixed_isAtomic (scale : UnitPrefix) (reference : String) :
    (declarePrefixed scale reference).IsAtomic :=
  reads_get.bind_isAtomic fun _ => (reads_lift _).bind_isAtomic fun _ =>
    (reads_lift _).bind_isAtomic fun u => declareUnit_isAtomic u.symbol u

theorem declareDeduced_isAtomic (symbol name dimension : String) (constituents : List String) :
    (declareDeduced symbol name dimension constituents).IsAtomic := by
  refine reads_get.bind_isAtomic fun c => ?_
  split
  · exact isAtomic_refuse _
  · exact (reads_lift _).bind_isAtomic fun _ => (reads_lift _).bind_isAtomic fun u =>
      declareUnit_isAtomic symbol u

/-- The second table of names is written where nothing can be refused any more. -/
theorem nameDimension_isAtomic (name : String) (d : Dimension) :
    (nameDimension name d).IsAtomic := by
  refine reads_get.bind_isAtomic fun c => .ite (isAtomic_refuse _) <|
    .ite (isAtomic_refuse _) ?_
  split
  · exact isAtomic_throw _
  · split
    · exact isAtomic_refuse _
    · exact ((succeeds_modify _).bind fun _ => succeeds_modify _).isAtomic

theorem declareDerived_isAtomic (name : String) (es : List Exponent) :
    (declareDerived name es).IsAtomic :=
  (reads_lift _).bind_isAtomic fun d =>
    (nameDimension_isAtomic name d).bind fun _ => succeeds_pure d

theorem declareAlias_isAtomic (other key : String) : (declareAlias other key).IsAtomic :=
  reads_get.bind_isAtomic fun _ => .ite (isAtomic_refuse _) <| .ite (isAtomic_refuse _) <|
    (succeeds_modify _).isAtomic

/-! ## Every declaration -/

/-- The entry that a declaration asks for. Units and dimensions that it names are looked up in
the catalog. -/
inductive Asks (c : Catalog) : Declaration → Entry → Prop where
  | base {name referenceUnit : String} {magnitude : Magnitude} :
      Asks c (.base name referenceUnit magnitude) (.base ⟨name, referenceUnit, magnitude⟩)
  | unit {key : String} {u : MeasureUnit} : Asks c (.unit key u) (.unit key u)
  | scaled {symbol name reference : String} {factor : Magnitude} {r u : MeasureUnit}
      (hfactor : factor.isZero = false) (hr : c.unit? reference = some r)
      (hu : MeasureUnit.scaled symbol name r factor = .ok u) :
      Asks c (.scaled symbol name reference factor) (.unit symbol u)
  | prefixed {scale : UnitPrefix} {reference : String} {r u : MeasureUnit}
      (hr : c.unit? reference = some r) (hu : MeasureUnit.prefixed scale r = .ok u) :
      Asks c (.prefixed scale reference) (.unit u.symbol u)
  | prefixedBy {symbol reference : String} {scale : UnitPrefix} {r u : MeasureUnit}
      (hscale : UnitPrefix.find? symbol = some scale) (hr : c.unit? reference = some r)
      (hu : MeasureUnit.prefixed scale r = .ok u) :
      Asks c (.prefixedBy symbol reference) (.unit u.symbol u)
  | deduced {symbol name dimension : String} {constituents : List String} {d : Dimension}
      {us : List MeasureUnit} {u : MeasureUnit} (hd : c.dimension? dimension = some d)
      (hus : List.Forall₂ (fun key v => c.unit? key = some v) constituents us)
      (hu : MeasureUnit.deduced symbol name d us = .ok u) :
      Asks c (.deduced symbol name dimension constituents) (.unit symbol u)
  | composed {name : String} {parts : List (BaseName × Power)} {es : List Exponent}
      {d : Dimension} (hes : c.resolveParts parts = .ok es)
      (hd : Dimension.ofExponents es = .ok d) : Asks c (.composed name parts) (.name name d)
  | derived {name : String} {es : List Exponent} {d : Dimension}
      (hd : Dimension.ofExponents es = .ok d) : Asks c (.derived name es) (.name name d)
  | named {name : String} {d : Dimension} : Asks c (.named name d) (.name name d)
  | alias {other key : String} : Asks c (.alias other key) (.alias other key)

/-- The declaration only asks whether a base dimension has been declared. -/
inductive IsQuestion : Declaration → Prop where
  | needsBase (name referenceUnit : String) : IsQuestion (.needsBase name referenceUnit)

/-- A declaration that succeeds adds the entry that it asks for, which the catalog accepts. A
question leaves the catalog alone. -/
theorem added_of_apply {d : Declaration} (h : c.apply d = .ok () c') :
    (IsQuestion d ∧ c' = c) ∨ ∃ e, c.Asks d e ∧ c.Accepts e ∧ c' = c.add e := by
  rw [apply] at h
  cases d with
  | needsBase name referenceUnit =>
    left
    rw [declare, run_get_bind] at h
    split at h
    · cases h
      exact ⟨.needsBase _ _, rfl⟩
    · cases h
  | base name referenceUnit magnitude =>
    obtain ⟨b, h⟩ := run_discard_eq_ok.1 h
    obtain ⟨rfl, haccepts, hc⟩ := declareBase_eq_ok.1 h
    exact .inr ⟨_, .base, haccepts, hc⟩
  | unit key u =>
    obtain ⟨v, h⟩ := run_discard_eq_ok.1 h
    obtain ⟨-, haccepts, hc⟩ := declareUnit_eq_ok.1 h
    exact .inr ⟨_, .unit, haccepts, hc⟩
  | scaled symbol name reference factor =>
    obtain ⟨u, h⟩ := run_discard_eq_ok.1 h
    obtain ⟨⟨hfactor, r, hr, hu⟩, haccepts, hc⟩ := declareScaled_eq_ok.1 h
    exact .inr ⟨_, .scaled hfactor hr hu, haccepts, hc⟩
  | prefixed scale reference =>
    obtain ⟨u, h⟩ := run_discard_eq_ok.1 h
    obtain ⟨⟨r, hr, hu⟩, haccepts, hc⟩ := declarePrefixed_eq_ok.1 h
    exact .inr ⟨_, .prefixed hr hu, haccepts, hc⟩
  | prefixedBy symbol reference =>
    rw [declare] at h
    split at h
    · rename_i scale hscale
      obtain ⟨u, h⟩ := run_discard_eq_ok.1 h
      obtain ⟨⟨r, hr, hu⟩, haccepts, hc⟩ := declarePrefixed_eq_ok.1 h
      exact .inr ⟨_, .prefixedBy hscale hr hu, haccepts, hc⟩
    · cases h
  | deduced symbol name dimension constituents =>
    obtain ⟨u, h⟩ := run_discard_eq_ok.1 h
    obtain ⟨⟨d, hd, us, hus, hu⟩, haccepts, hc⟩ := declareDeduced_eq_ok.1 h
    exact .inr ⟨_, .deduced hd hus hu, haccepts, hc⟩
  | composed name parts =>
    rw [declare, run_get_bind, run_lift_bind_eq_ok] at h
    obtain ⟨es, hes, h⟩ := h
    obtain ⟨d, h⟩ := run_discard_eq_ok.1 h
    obtain ⟨hd, haccepts, hc⟩ := declareDerived_eq_ok.1 h
    exact .inr ⟨_, .composed hes hd, haccepts, hc⟩
  | derived name es =>
    obtain ⟨d, h⟩ := run_discard_eq_ok.1 h
    obtain ⟨hd, haccepts, hc⟩ := declareDerived_eq_ok.1 h
    exact .inr ⟨_, .derived hd, haccepts, hc⟩
  | named name d =>
    obtain ⟨haccepts, hc⟩ := nameDimension_eq_ok.1 h
    exact .inr ⟨_, .named, haccepts, hc⟩
  | «alias» other key =>
    obtain ⟨haccepts, hc⟩ := declareAlias_eq_ok.1 h
    exact .inr ⟨_, .alias, haccepts, hc⟩

/-- A declaration succeeds if the catalog accepts the entry that it asks for. -/
theorem apply_of_asks {d : Declaration} {e : Entry} (hasks : c.Asks d e)
    (haccepts : c.Accepts e) : c.apply d = .ok () (c.add e) := by
  rw [apply]
  cases hasks with
  | base => exact run_discard_eq_ok.2 ⟨_, declareBase_eq_ok.2 ⟨rfl, haccepts, rfl⟩⟩
  | unit => exact run_discard_eq_ok.2 ⟨_, declareUnit_eq_ok.2 ⟨rfl, haccepts, rfl⟩⟩
  | scaled hfactor hr hu =>
    exact run_discard_eq_ok.2 ⟨_, declareScaled_eq_ok.2 ⟨⟨hfactor, _, hr, hu⟩, haccepts, rfl⟩⟩
  | prefixed hr hu =>
    exact run_discard_eq_ok.2 ⟨_, declarePrefixed_eq_ok.2 ⟨⟨_, hr, hu⟩, haccepts, rfl⟩⟩
  | prefixedBy hscale hr hu =>
    rw [declare, hscale]
    exact run_discard_eq_ok.2 ⟨_, declarePrefixed_eq_ok.2 ⟨⟨_, hr, hu⟩, haccepts, rfl⟩⟩
  | deduced hd hus hu =>
    exact run_discard_eq_ok.2 ⟨_, declareDeduced_eq_ok.2 ⟨⟨_, hd, _, hus, hu⟩, haccepts, rfl⟩⟩
  | composed hes hd =>
    rw [declare, run_get_bind, run_lift_bind_eq_ok]
    exact ⟨_, hes, run_discard_eq_ok.2 ⟨_, declareDerived_eq_ok.2 ⟨hd, haccepts, rfl⟩⟩⟩
  | derived hd => exact run_discard_eq_ok.2 ⟨_, declareDerived_eq_ok.2 ⟨hd, haccepts, rfl⟩⟩
  | named => exact nameDimension_eq_ok.2 ⟨haccepts, rfl⟩
  | «alias» => exact declareAlias_eq_ok.2 ⟨haccepts, rfl⟩

theorem isAtomic_declare (d : Declaration) : (declare d).IsAtomic := by
  cases d with
  | base name referenceUnit magnitude =>
    exact (declareBase_isAtomic name referenceUnit magnitude).discard
  | needsBase name referenceUnit =>
    exact reads_get.bind_isAtomic fun c => .ite (succeeds_pure ()).isAtomic (isAtomic_refuse _)
  | unit key u => exact (declareUnit_isAtomic key u).discard
  | scaled symbol name reference factor =>
    exact (declareScaled_isAtomic symbol name reference factor).discard
  | prefixed scale reference => exact (declarePrefixed_isAtomic scale reference).discard
  | prefixedBy symbol reference =>
    rw [declare]
    split
    · exact (declarePrefixed_isAtomic _ reference).discard
    · exact isAtomic_refuse _
  | deduced symbol name dimension constituents =>
    exact (declareDeduced_isAtomic symbol name dimension constituents).discard
  | composed name parts =>
    exact reads_get.bind_isAtomic fun c => (reads_lift _).bind_isAtomic fun es =>
      (declareDerived_isAtomic name es).discard
  | derived name es => exact (declareDerived_isAtomic name es).discard
  | named name d => exact nameDimension_isAtomic name d
  | «alias» other key => exact declareAlias_isAtomic other key

/-- A declaration that is refused leaves the catalog as it was. -/
theorem eq_of_apply_eq_error {d : Declaration} {error : Error}
    (h : c.apply d = .error error c') : c' = c :=
  isAtomic_declare d c error c' h

end Catalog

end Metrology
