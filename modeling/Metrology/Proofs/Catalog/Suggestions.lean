/-
  Metrology.Proofs.Catalog.Suggestions

  The names that an unknown key is answered with. A score is the kind of match, twice the number
  of shared characters and at most five for the length. All characters of the key are shared where
  it stands in the name, and elsewhere no more are, so the kinds of match are further apart than
  the rest of the score can bridge. Scores and names together are a linear order, so the ranking
  does not depend on the order of the tables.
-/
import Metrology.Proofs.Catalog.Listing
import Metrology.Proofs.Ratio.Basic
import Mathlib.Data.List.Infix
import Mathlib.Data.List.Sort
import Mathlib.Data.Prod.Lex
import Mathlib.Data.String.Basic

namespace Metrology.Catalog

variable {c : Catalog} {key name : String} {query candidate other : List Char}

/-! ## Kinds of match -/

/-- How a candidate matches: it is the query (0), properly starts with it (1), has it elsewhere
(2), or none of these (3). -/
def matchTier (query candidate : List Char) : Nat :=
  if candidate = query then 0
  else if query <+: candidate then 1
  else if query <:+: candidate then 2
  else 3

theorem matchTier_le_three (query candidate : List Char) : matchTier query candidate ≤ 3 := by
  rw [matchTier]
  split_ifs <;> omega

/-- The query stands in every candidate of the first three kinds. -/
theorem infix_of_matchTier_lt (h : matchTier query candidate < 3) : query <:+: candidate := by
  by_contra hinside
  have hequal : candidate ≠ query := by
    rintro rfl
    exact hinside List.infix_rfl
  have hstart : ¬ query <+: candidate := fun h => hinside h.isInfix
  rw [matchTier, if_neg hequal, if_neg hstart, if_neg hinside] at h
  exact lt_irrefl 3 h

/-- The scores of the four kinds of match are twenty apart. -/
theorem matchScore_of_matchTier_lt (h : matchTier query candidate < matchTier query other) :
    matchScore query other + 20 ≤ matchScore query candidate := by
  simp only [matchTier, matchScore, List.isPrefixOf_iff_prefix, Text.occursIn_iff] at h ⊢
  split_ifs at h ⊢ <;> omega

/-! ## Shared characters -/

theorem sharedCharacters_le (query candidate : List Char) :
    sharedCharacters query candidate ≤ query.eraseDups.length :=
  List.length_filter_le _ _

/-- Where the query stands in the candidate, all its characters are shared. -/
theorem sharedCharacters_of_infix (h : query <:+: candidate) :
    sharedCharacters query candidate = query.eraseDups.length := by
  have hshared : ∀ a ∈ query.eraseDups, candidate.contains a = true := by
    intro a ha
    exact List.contains_iff_mem.2 (h.subset (List.mem_eraseDups.1 ha))
  rw [sharedCharacters, List.filter_eq_self.2 hshared]

/-! ## Scores -/

theorem similarity_le (query candidate : List Char) :
    similarity query candidate ≤ matchScore query candidate + query.eraseDups.length * 2 + 5 := by
  have hshared := sharedCharacters_le query candidate
  rw [similarity]
  split
  · omega
  · dsimp only
    split <;> omega

theorem le_similarity_of_infix (hquery : query ≠ []) (h : query <:+: candidate) :
    matchScore query candidate + query.eraseDups.length * 2 ≤ similarity query candidate := by
  rw [similarity, if_neg (by rwa [List.isEmpty_iff]), ← sharedCharacters_of_infix h]
  dsimp only
  split <;> omega

/-- A better kind of match has the higher score, whatever else the two candidates share with the
query and however long they are. -/
theorem similarity_lt_of_matchTier_lt (hquery : query ≠ [])
    (h : matchTier query candidate < matchTier query other) :
    similarity query other < similarity query candidate := by
  have hinfix : query <:+: candidate :=
    infix_of_matchTier_lt (h.trans_le (matchTier_le_three query other))
  have hgap := matchScore_of_matchTier_lt h
  have hupper := similarity_le query other
  have hlower := le_similarity_of_infix hquery hinfix
  omega

/-- Every candidate in which the query stands has a score. -/
theorem similarity_pos_of_infix (hquery : query ≠ []) (h : query <:+: candidate) :
    0 < similarity query candidate := by
  have hlower := le_similarity_of_infix hquery h
  have hcharacters : 0 < query.eraseDups.length := by
    obtain ⟨a, ha⟩ := List.exists_mem_of_ne_nil query hquery
    exact List.length_pos_of_mem (List.mem_eraseDups.2 ha)
  omega

/-! ## Names -/

/-- The score of a name for a key, without regard to case. -/
def score (key name : String) : Nat :=
  similarity (Text.lowercase key.toList) (Text.lowercase name.toList)

/-- The kind of match of a name for a key, without regard to case. -/
def tier (key name : String) : Nat :=
  matchTier (Text.lowercase key.toList) (Text.lowercase name.toList)

theorem lowercase_toList_ne_nil (h : key ≠ "") : Text.lowercase key.toList ≠ [] :=
  Text.lowercase_ne_nil (mt String.toList_eq_nil_iff.1 h)

theorem score_lt_of_tier_lt (h : key ≠ "") {a b : String} (hlt : tier key a < tier key b) :
    score key b < score key a :=
  similarity_lt_of_matchTier_lt (lowercase_toList_ne_nil h) hlt

theorem score_pos_of_tier_lt (h : key ≠ "") (htier : tier key name < 3) : 0 < score key name :=
  similarity_pos_of_infix (lowercase_toList_ne_nil h) (infix_of_matchTier_lt htier)

/-! ## The ranking -/

/-- The keys and aliases of a catalog. -/
def registered (c : Catalog) : List String := c.units.map Prod.fst ++ c.aliases.map Prod.fst

theorem mem_registered_iff : name ∈ c.registered ↔ c.isTaken name = true := by
  rw [registered, List.mem_append, isTaken, Bool.or_eq_true, hasEntry_iff_mem, hasEntry_iff_mem]

theorem IsKeyed.nodup_registered (h : c.IsKeyed) : c.registered.Nodup := by
  refine List.nodup_append.2 ⟨h.unitKeys, h.aliasKeys, ?_⟩
  rintro name hkey _ halias rfl
  obtain ⟨e, he, rfl⟩ := List.mem_map.1 halias
  rw [← hasEntry_iff_mem, h.aliases e he] at hkey
  cases hkey

/-- What decides the place of a name in the ranking: the highest score first, then the name. -/
def standing (key name : String) : ℕᵒᵈ ×ₗ String := toLex (OrderDual.toDual (score key name), name)

theorem standing_injective (key : String) : Function.Injective (standing key) :=
  fun _ _ h => (Prod.mk.inj (toLex_inj.1 h)).2

theorem standing_le_iff {a b : String} :
    standing key a ≤ standing key b ↔
      score key b < score key a ∨ score key a = score key b ∧ a ≤ b := by
  rw [standing, standing, Prod.Lex.toLex_le_toLex, OrderDual.toDual_lt_toDual, OrderDual.toDual_inj]

/-- Names with their scores are compared by their standings. -/
theorem isLE_compareScores (key a b : String) :
    ((compare (score key b) (score key a)).then (compare a b)).isLE =
      decide (standing key a ≤ standing key b) := by
  rw [Bool.eq_iff_iff, decide_eq_true_iff, standing_le_iff, ← cmp_eq_compare, ← cmp_eq_compare]
  rcases lt_trichotomy (score key b) (score key a) with h | h | h
  · rw [h.cmp_eq_lt]
    exact iff_of_true rfl (.inl h)
  · rw [h, cmp_self_eq_eq, Ordering.eq_then, isLE_cmp_iff]
    simp
  · rw [h.cmp_eq_gt]
    exact iff_of_false Bool.false_ne_true (not_or.2 ⟨h.not_gt, fun heq => h.ne heq.1⟩)

/-- The ranking is the sorted list of the names that have a score. -/
theorem similarKeys_eq (c : Catalog) (key : String) :
    c.similarKeys key = (c.registered.filter fun name => decide (0 < score key name)).mergeSort
      fun a b => decide (standing key a ≤ standing key b) := by
  have hscored : ((c.registered.map fun name => (name, score key name)).filter fun e =>
      decide (0 < e.2)) = (c.registered.filter fun name => decide (0 < score key name)).map
        fun name => (name, score key name) :=
    List.filter_map
  change ((((c.registered.map fun name => (name, score key name)).filter fun e =>
    decide (0 < e.2)).mergeSort _).map Prod.fst) = _
  rw [hscored, ← List.map_mergeSort fun a _ b _ => (isLE_compareScores key a b).symm, List.map_map]
  exact List.map_id _

theorem similarKeys_perm (c : Catalog) (key : String) :
    (c.similarKeys key).Perm (c.registered.filter fun name => decide (0 < score key name)) := by
  rw [similarKeys_eq]
  exact List.mergeSort_perm _ _

theorem mem_similarKeys_iff :
    name ∈ c.similarKeys key ↔ c.isTaken name = true ∧ 0 < score key name := by
  rw [(similarKeys_perm c key).mem_iff, List.mem_filter, mem_registered_iff, decide_eq_true_iff]

theorem IsKeyed.nodup_similarKeys (h : c.IsKeyed) (key : String) : (c.similarKeys key).Nodup :=
  (similarKeys_perm c key).nodup_iff.2 (h.nodup_registered.filter _)

theorem pairwise_standing (c : Catalog) (key : String) :
    (c.similarKeys key).Pairwise fun a b => standing key a ≤ standing key b := by
  rw [similarKeys_eq]
  refine (List.pairwise_mergeSort ?_ ?_ _).imp decide_eq_true_iff.1
  · intro x y z hxy hyz
    rw [decide_eq_true_iff] at hxy hyz ⊢
    exact hxy.trans hyz
  · intro x y
    rw [Bool.or_eq_true, decide_eq_true_iff, decide_eq_true_iff]
    exact le_total _ _

/-- Names are ranked by their scores and equal scores by the names. -/
theorem IsKeyed.pairwise_similarKeys (h : c.IsKeyed) (key : String) :
    (c.similarKeys key).Pairwise fun a b =>
      score key b < score key a ∨ score key a = score key b ∧ a < b := by
  refine ((pairwise_standing c key).and (h.nodup_similarKeys key)).imp ?_
  rintro a b ⟨hle, hne⟩
  exact (standing_le_iff.1 hle).imp_right fun ⟨hscore, hname⟩ => ⟨hscore, hname.lt_of_ne hne⟩

/-- No name comes after one that matches in a worse way. -/
theorem pairwise_tier (h : key ≠ "") (c : Catalog) :
    (c.similarKeys key).Pairwise fun a b => tier key a ≤ tier key b := by
  refine (pairwise_standing c key).imp fun {a b} hle => ?_
  by_contra hlt
  have hscore := score_lt_of_tier_lt h (not_le.1 hlt)
  rcases standing_le_iff.1 hle with hlt | ⟨heq, -⟩ <;> omega

/-! ## Other orders of the tables -/

/-- The catalog with its units and aliases in other tables. -/
def withTables (c : Catalog) (units : List (String × MeasureUnit))
    (aliases : List (String × String)) : Catalog :=
  { c with units := units, aliases := aliases }

theorem similarKeys_of_perm {units : List (String × MeasureUnit)}
    {aliases : List (String × String)} (hunits : units.Perm c.units)
    (haliases : aliases.Perm c.aliases) (key : String) :
    (c.withTables units aliases).similarKeys key = c.similarKeys key := by
  have hregistered : (c.withTables units aliases).registered.Perm c.registered :=
    (hunits.map Prod.fst).append (haliases.map Prod.fst)
  refine List.Perm.eq_of_pairwise ?_ (pairwise_standing _ key) (pairwise_standing c key) ?_
  · exact fun a b _ _ hab hba => standing_injective key (hab.antisymm hba)
  · exact (similarKeys_perm _ key).trans
      ((hregistered.filter _).trans (similarKeys_perm c key).symm)

/-- Look-up and suggestions do not depend on the order of the tables. -/
theorem IsKeyed.require_of_perm (h : c.IsKeyed) {units : List (String × MeasureUnit)}
    {aliases : List (String × String)} (hunits : units.Perm c.units)
    (haliases : aliases.Perm c.aliases) (key : String) :
    (c.withTables units aliases).require key = c.require key := by
  have hunit : (c.withTables units aliases).unit? key = c.unit? key := by
    have hlookup : lookup? units = lookup? c.units :=
      funext fun key => lookup?_of_perm h.unitKeys hunits key
    simp only [unit?, withTables, hlookup, lookup?_of_perm h.aliasKeys haliases]
  rw [require, require, hunit, similarKeys_of_perm hunits haliases]

/-! ## The answer to an unknown key -/

/-- The advice of an unknown key lists the similar names, if there are any. -/
theorem suggestion_unknownUnit (key : String) (similar : List String) :
    (Cause.unknownUnit key similar).suggestion =
      if similar = [] then none else some ("Similar: " ++ ", ".intercalate similar) := by
  cases similar with
  | nil => rfl
  | cons name similar => rfl

/-- Whatever has been done to a catalog, a key that it does not resolve is answered with the first
five, or all if there are fewer, of a ranking. The ranking has every key and alias of positive
score once and nothing else, with the highest score first and equal scores by name. The answer is
the same for every order of the tables. For a key that is not empty, the names that are equal to it
but for case come before those that properly start with it, these before those that have it
elsewhere, and these before all others; none of the first three kinds is left out. -/
theorem require_suggests_ranked (h : Reachable c) (hkey : c.unit? key = none) :
    ∃ ranked : List String,
      c.require key = fail (.unknownUnit key (ranked.take 5)) ∧
      (Cause.unknownUnit key (ranked.take 5)).suggestion =
        (if ranked = [] then none
          else some ("Similar: " ++ ", ".intercalate (ranked.take 5))) ∧
      ranked.Nodup ∧
      (∀ name, name ∈ ranked ↔ c.isTaken name = true ∧ 0 < score key name) ∧
      (ranked.Pairwise fun a b =>
        score key b < score key a ∨ score key a = score key b ∧ a < b) ∧
      (∀ units aliases, units.Perm c.units → aliases.Perm c.aliases →
        (c.withTables units aliases).require key = c.require key) ∧
      (key ≠ "" → (∀ name, c.isTaken name = true → tier key name < 3 → name ∈ ranked) ∧
        ranked.Pairwise fun a b => tier key a ≤ tier key b) := by
  have hkeyed := h.isKeyed
  refine ⟨c.similarKeys key, ?_, ?_, hkeyed.nodup_similarKeys key, fun _ => mem_similarKeys_iff,
    hkeyed.pairwise_similarKeys key,
    fun units aliases hunits haliases => hkeyed.require_of_perm hunits haliases key,
    fun hne => ⟨fun name htaken htier => ?_, pairwise_tier hne c⟩⟩
  · rw [require, hkey]
  · rw [suggestion_unknownUnit]
    simp
  · exact mem_similarKeys_iff.2 ⟨htaken, score_pos_of_tier_lt hne htier⟩

/-- Next to the metre, which is equal to it but for case, the key `M` is answered with the alias
that starts with it and with the kilometre, which has it at the end. -/
theorem require_suggests_ranked_lengths :
    (Catalog.empty.run threeLengths).unit? "M" = none ∧
      (tier "M" "m" = 0 ∧ tier "M" "metre" = 1 ∧ tier "M" "km" = 2) ∧
      ∃ ranked : List String,
        (Catalog.empty.run threeLengths).require "M" = fail (.unknownUnit "M" (ranked.take 5)) ∧
        (∀ name ∈ ["m", "metre", "km"], name ∈ ranked) ∧
        ranked.Pairwise fun a b => tier "M" a ≤ tier "M" b := by
  have hkey : (Catalog.empty.run threeLengths).unit? "M" = none := by
    rw [threeLengths, run_cons, after_declare_length]
    with_unfolding_all rfl
  have htaken : ∀ name ∈ ["m", "metre", "km"],
      (Catalog.empty.run threeLengths).isTaken name = true := by
    rw [threeLengths, run_cons, after_declare_length]
    with_unfolding_all decide
  obtain ⟨ranked, herror, -, -, -, -, -, htiers⟩ :=
    require_suggests_ranked (Reachable.empty.run threeLengths) hkey
  obtain ⟨hmem, hpairwise⟩ := htiers (by decide)
  refine ⟨hkey, by decide +kernel, ranked, herror, fun name hname => ?_, hpairwise⟩
  have htier : ∀ name ∈ ["m", "metre", "km"], tier "M" name < 3 := by decide +kernel
  exact hmem name (htaken name hname) (htier name hname)

end Metrology.Catalog
