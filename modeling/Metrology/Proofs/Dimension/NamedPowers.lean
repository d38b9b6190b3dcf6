/-
  Metrology.Proofs.Dimension.NamedPowers

  Which dimensions are taken for one physical quantity in two unit systems. A canonical dimension
  has its base dimensions in the order of their names, and those of one name in the order of their
  reference units. So two dimensions have the same names and powers in the same places exactly if
  the powers of each name come in the same order, which depends on the reference units where a
  name has several powers.
-/
import Metrology.Proofs.Dimension.Bridging
import Metrology.Proofs.Dimension.Scaling

namespace Metrology

/-! ## Lists in the order of names -/

/-- The names do not decrease. -/
def InNameOrder (ps : List (String × Power)) : Prop :=
  ps.Pairwise fun x y => (compare x.1 y.1).isLE = true

namespace InNameOrder

variable {p q : String × Power} {ps qs : List (String × Power)}

theorem isLE_of_mem (h : InNameOrder (p :: ps)) (hq : q ∈ p :: ps) :
    (compare p.1 q.1).isLE = true := by
  rcases List.mem_cons.1 hq with rfl | hq
  · exact Std.ReflCmp.isLE_rfl
  · exact (List.pairwise_cons.1 h).1 q hq

/-- If the items of the first name are the same in both lists, the lists begin with one name. -/
theorem head_name_eq (hp : InNameOrder (p :: ps)) (hq : InNameOrder (q :: qs))
    (h : ∀ name, (p :: ps).filter (·.1 == name) = (q :: qs).filter (·.1 == name)) :
    p.1 = q.1 := by
  have hpmem : p ∈ (q :: qs).filter (·.1 == p.1) := by
    rw [← h, List.mem_filter]
    exact ⟨List.mem_cons_self, beq_self_eq_true p.1⟩
  have hqmem : q ∈ (p :: ps).filter (·.1 == q.1) := by
    rw [h, List.mem_filter]
    exact ⟨List.mem_cons_self, beq_self_eq_true q.1⟩
  have hqp := hq.isLE_of_mem (List.mem_filter.1 hpmem).1
  have hpq := hp.isLE_of_mem (List.mem_filter.1 hqmem).1
  have heq : compare p.1 q.1 = .eq := Std.OrientedCmp.isLE_antisymm hpq hqp
  exact Std.LawfulEqCmp.compare_eq_iff_eq.1 heq

/-- Lists in the order of names are equal if for each name they have the same items in the same
order. -/
theorem eq_of_filter (hp : InNameOrder ps) (hq : InNameOrder qs)
    (h : ∀ name, ps.filter (·.1 == name) = qs.filter (·.1 == name)) : ps = qs := by
  induction ps generalizing qs with
  | nil =>
    refine (List.eq_nil_iff_forall_not_mem.2 fun q hmem => ?_).symm
    have hq : q ∈ qs.filter (·.1 == q.1) := List.mem_filter.2 ⟨hmem, beq_self_eq_true q.1⟩
    rw [← h] at hq
    cases hq
  | cons p ps ih =>
    cases qs with
    | nil =>
      have hp : p ∈ (p :: ps).filter (·.1 == p.1) :=
        List.mem_filter.2 ⟨List.mem_cons_self, beq_self_eq_true p.1⟩
      rw [h] at hp
      cases hp
    | cons q qs =>
      have hname := hp.head_name_eq hq h
      have hhead := h p.1
      rw [List.filter_cons, List.filter_cons, if_pos (beq_self_eq_true p.1),
        if_pos (beq_iff_eq.2 hname.symm)] at hhead
      obtain ⟨rfl, hrest⟩ := List.cons.inj hhead
      have htail : ∀ name, ps.filter (·.1 == name) = qs.filter (·.1 == name) := by
        intro name
        by_cases hn : p.1 = name
        · rw [← hn]
          exact hrest
        · have hdrop := h name
          rwa [List.filter_cons, List.filter_cons, if_neg (by simpa using hn),
            if_neg (by simpa using hn)] at hdrop
      rw [ih (List.pairwise_cons.1 hp).2 (List.pairwise_cons.1 hq).2 htail]

end InNameOrder

/-! ## Powers of one name -/

namespace Dimension

variable {c d : Dimension}

/-- The powers of the base dimensions of one name, in the order of the dimension. In a canonical
dimension that is the order of their reference units. -/
def powersNamed (d : Dimension) (name : String) : List Power :=
  (d.exponents.filter fun e => e.base.name == name).map Exponent.power

theorem mem_powersNamed {name : String} {p : Power} :
    p ∈ d.powersNamed name ↔ ∃ e ∈ d.exponents, e.base.name = name ∧ e.power = p := by
  simp only [powersNamed, List.mem_map, List.mem_filter, beq_iff_eq, and_assoc]

theorem filter_namedPowers (d : Dimension) (name : String) :
    d.namedPowers.filter (·.1 == name) = (d.powersNamed name).map (name, ·) := by
  rw [namedPowers, powersNamed, List.filter_map, List.map_map]
  refine List.map_congr_left fun e he => ?_
  have hname : e.base.name = name := beq_iff_eq.1 (List.mem_filter.1 he).2
  rw [Function.comp_apply, hname]

/-- The strict order of base dimensions is by name first. -/
theorem inNameOrder_namedPowers (hd : d.IsCanonical) : InNameOrder d.namedPowers := by
  rw [InNameOrder, namedPowers, List.pairwise_map]
  refine hd.increasing.imp fun {x y} hlt => ?_
  rw [BaseDimension.compare, Ordering.then_eq_lt] at hlt
  rcases hlt with hname | ⟨hname, -⟩
  · rw [hname]
    rfl
  · rw [hname]
    rfl

/-- Canonical dimensions have the same names and powers in the same places exactly if the powers
of each name come in the same order. -/
theorem namedPowers_eq_iff (hc : c.IsCanonical) (hd : d.IsCanonical) :
    c.namedPowers = d.namedPowers ↔ ∀ name, c.powersNamed name = d.powersNamed name := by
  have hinjective (name : String) : Function.Injective fun p : Power => (name, p) :=
    Prod.mk_right_injective name
  constructor
  · intro h name
    have hfilter := congrArg (List.filter (·.1 == name)) h
    rwa [filter_namedPowers, filter_namedPowers, (hinjective name).list_map.eq_iff] at hfilter
  · intro h
    refine (inNameOrder_namedPowers hc).eq_of_filter (inNameOrder_namedPowers hd) fun name => ?_
    rw [filter_namedPowers, filter_namedPowers, h]

/-- If the names and powers are the same in any order, then so are the powers of each name. -/
theorem powersNamed_perm (h : c.namedPowers.Perm d.namedPowers) (name : String) :
    (c.powersNamed name).Perm (d.powersNamed name) := by
  have hfilter := (h.filter (·.1 == name)).map Prod.snd
  simpa only [filter_namedPowers, List.map_map, Function.comp_def, List.map_id'] using hfilter

/-! ## Names with several powers -/

/-- Two items of a list that change places. -/
theorem perm_exchange {α : Type} (s m t : List α) (a b : α) :
    (s ++ a :: (m ++ b :: t)).Perm (s ++ b :: (m ++ a :: t)) := by
  refine List.Perm.append_left s ?_
  calc
    (a :: (m ++ b :: t)).Perm (a :: b :: (m ++ t)) := List.perm_middle.cons a
    (a :: b :: (m ++ t)).Perm (b :: a :: (m ++ t)) := .swap b a (m ++ t)
    (b :: a :: (m ++ t)).Perm (b :: (m ++ a :: t)) := List.perm_middle.symm.cons b

/-- Where two entries of one name have different powers, these can be exchanged. -/
theorem exists_exchanged {e f : Exponent} {s m t : List Exponent} (hd : d.IsCanonical)
    (hexponents : d.exponents = s ++ e :: (m ++ f :: t)) (hname : e.base.name = f.base.name)
    (hne : e.power ≠ f.power) :
    ∃ c : Dimension, c.IsCanonical ∧ d.namedPowers.Perm c.namedPowers ∧
      d.namedPowers ≠ c.namedPowers := by
  have hnonzero := hd.nonzero
  have hincreasing := hd.increasing
  rw [hexponents] at hnonzero hincreasing
  simp only [List.forall_mem_append, List.forall_mem_cons] at hnonzero
  obtain ⟨hs, he, hm, hf, ht⟩ := hnonzero
  have hself (es : List Exponent) (hes : ∀ x ∈ es, x.power.val ≠ 0) :
      List.Forall₂ (fun x y : Exponent => y.base = x.base ∧ y.power.val ≠ 0) es es :=
    List.forall₂_same.2 fun x hx => ⟨rfl, hes x hx⟩
  refine ⟨⟨s ++ ⟨e.base, f.power⟩ :: (m ++ ⟨f.base, e.power⟩ :: t)⟩, ?_, ?_, ?_⟩
  · refine Exponents.isCanonical_of_forall₂ hincreasing ?_
    refine List.rel_append (hself s hs) (.cons ⟨rfl, hf⟩ ?_)
    exact List.rel_append (hself m hm) (.cons ⟨rfl, he⟩ (hself t ht))
  · simp only [namedPowers, hexponents, List.map_append, List.map_cons, hname]
    exact perm_exchange _ _ _ _ _
  · simp only [namedPowers, hexponents, List.map_append, List.map_cons, ne_eq,
      List.append_cancel_left_eq, List.cons.injEq, Prod.mk.injEq, not_and]
    intro h
    exact absurd h.2 hne

/-- A dimension whose names and powers can come in one order only has one power for each name. -/
theorem power_eq_of_forall_perm (hd : d.IsCanonical)
    (h : ∀ c : Dimension, c.IsCanonical → d.namedPowers.Perm c.namedPowers →
      d.namedPowers = c.namedPowers) {e f : Exponent} (he : e ∈ d.exponents)
    (hf : f ∈ d.exponents) (hname : e.base.name = f.base.name) : e.power = f.power := by
  by_contra hne
  obtain ⟨s, t, hst⟩ := List.append_of_mem he
  rw [hst, List.mem_append, List.mem_cons] at hf
  rcases hf with hs | rfl | ht
  · obtain ⟨s', m, rfl⟩ := List.append_of_mem hs
    rw [List.append_assoc, List.cons_append] at hst
    obtain ⟨c, hc, hperm, hother⟩ := exists_exchanged hd hst hname.symm (Ne.symm hne)
    exact hother (h c hc hperm)
  · exact hne rfl
  · obtain ⟨m, t', rfl⟩ := List.append_of_mem ht
    obtain ⟨c, hc, hperm, hother⟩ := exists_exchanged hd hst hname hne
    exact hother (h c hc hperm)

/-- Where each name has one power, the order of its powers cannot differ. -/
theorem powersNamed_eq_of_perm (h : d.namedPowers.Perm c.namedPowers) {name : String}
    (hone : ∀ p ∈ d.powersNamed name, ∀ q ∈ d.powersNamed name, p = q) :
    d.powersNamed name = c.powersNamed name := by
  have hperm := powersNamed_perm h name
  generalize d.powersNamed name = ps at hone hperm
  cases ps with
  | nil => exact (List.nil_perm.1 hperm).symm
  | cons p ps =>
    have hreplicate := List.eq_replicate_of_mem fun q hq => hone q hq p List.mem_cons_self
    rw [hreplicate, List.replicate_perm] at hperm
    rw [hreplicate, hperm]

/-- Canonical dimensions are bridgeable exactly if they differ and the powers of each name come in
the same order of the reference units. That is the same as having the same names and powers in any
order, exactly if the order of the powers of a name makes no difference where these are the same;
and for one dimension against all others, exactly if each of its names has one power. -/
theorem isBridgeable_correct_iff (hc : c.IsCanonical) (hd : d.IsCanonical) :
    (c.isBridgeable d = true ↔
      c.same d = false ∧ ∀ name, c.powersNamed name = d.powersNamed name) ∧
    ((c.isBridgeable d = true ↔ c.same d = false ∧ c.namedPowers.Perm d.namedPowers) ↔
      (c.namedPowers.Perm d.namedPowers → ∀ name, c.powersNamed name = d.powersNamed name)) ∧
    ((∀ b : Dimension, b.IsCanonical →
      (c.isBridgeable b = true ↔ c.same b = false ∧ c.namedPowers.Perm b.namedPowers)) ↔
      ∀ name, ∀ p ∈ c.powersNamed name, ∀ q ∈ c.powersNamed name, p = q) := by
  have hcorrect (b : Dimension) :
      (c.isBridgeable b = true ↔ c.same b = false ∧ c.namedPowers.Perm b.namedPowers) ↔
        (c.namedPowers.Perm b.namedPowers → c.namedPowers = b.namedPowers) := by
    rw [isBridgeable_iff, and_congr_right_iff]
    constructor
    · intro h hperm
      cases hsame : c.same b with
      | true => exact namedPowers_of_same hsame
      | false => exact (h hsame).2 hperm
    · intro h _
      exact ⟨fun heq => heq ▸ .refl _, h⟩
  refine ⟨?_, ?_, ?_⟩
  · rw [isBridgeable_iff, namedPowers_eq_iff hc hd]
  · rw [hcorrect, namedPowers_eq_iff hc hd]
  · simp only [hcorrect]
    constructor
    · intro h name p hp q hq
      obtain ⟨e, he, hename, rfl⟩ := mem_powersNamed.1 hp
      obtain ⟨f, hf, hfname, rfl⟩ := mem_powersNamed.1 hq
      exact power_eq_of_forall_perm hc h he hf (hename.trans hfname.symm)
    · intro hone b hb hperm
      rw [namedPowers_eq_iff hc hb]
      exact fun name => powersNamed_eq_of_perm hperm (hone name)

/-! ## Lengths in four units -/

def foot : BaseDimension := ⟨"length", "ft", .exact (mkRat 381 1250)⟩

def inch : BaseDimension := ⟨"length", "in", .exact (mkRat 127 5000)⟩

def yard : BaseDimension := ⟨"length", "yd", .exact (mkRat 1143 1250)⟩

/-- A length in centimetres times the square of one in metres. -/
def centimetreSquareMetre : Dimension :=
  ⟨[⟨Systems.cgsLength, 1⟩, ⟨Systems.length, .lit 2⟩]⟩

/-- The square of a length in feet times one in inches. -/
def squareFootInch : Dimension := ⟨[⟨foot, .lit 2⟩, ⟨inch, 1⟩]⟩

/-- A length in inches times the square of one in yards. -/
def inchSquareYard : Dimension := ⟨[⟨inch, 1⟩, ⟨yard, .lit 2⟩]⟩

theorem isCanonical_centimetreSquareMetre : centimetreSquareMetre.IsCanonical := by decide

/-- The two powers of length come in the same order with inches and yards, which makes the
dimensions bridgeable. With another dimension they come in another order. -/
theorem isBridgeable_correct_iff_inchSquareYard :
    centimetreSquareMetre.IsCanonical ∧ inchSquareYard.IsCanonical ∧
      centimetreSquareMetre.isBridgeable inchSquareYard = true ∧
      ¬ ∀ b : Dimension, b.IsCanonical → (centimetreSquareMetre.isBridgeable b = true ↔
        centimetreSquareMetre.same b = false ∧
          centimetreSquareMetre.namedPowers.Perm b.namedPowers) := by
  have hyard : inchSquareYard.IsCanonical := by decide
  have hdiffer : centimetreSquareMetre.same inchSquareYard = false := by decide
  have hpowers : centimetreSquareMetre.namedPowers = inchSquareYard.namedPowers := by decide
  obtain ⟨hbridgeable, -, hall⟩ :=
    isBridgeable_correct_iff isCanonical_centimetreSquareMetre hyard
  rw [namedPowers_eq_iff isCanonical_centimetreSquareMetre hyard] at hpowers
  refine ⟨isCanonical_centimetreSquareMetre, hyard, hbridgeable.2 ⟨hdiffer, hpowers⟩, ?_⟩
  rw [hall]
  intro hone
  exact absurd (hone "length" 1 (by decide) (.lit 2) (by decide)) (by decide)

/-- With feet and inches the dimension has the same names and powers and no reference unit in
common, but the square comes first. It is not bridgeable. -/
theorem not_isBridgeable_squareFootInch :
    centimetreSquareMetre.IsCanonical ∧ squareFootInch.IsCanonical ∧
      centimetreSquareMetre.same squareFootInch = false ∧
      centimetreSquareMetre.namedPowers.Perm squareFootInch.namedPowers ∧
      centimetreSquareMetre.isBridgeable squareFootInch = false := by
  refine ⟨isCanonical_centimetreSquareMetre, by decide, by decide, ?_, by decide⟩
  exact List.Perm.swap _ _ []

end Dimension

end Metrology
