/-
  Metrology.Proofs.Ratio.Chain

  Texts with several slashes. The first number is divided by what the others make, so the quotient
  groups to the right: the second denominator divides the first one and ends up in the numerator,
  the third one in the denominator again. Division from left to right gives that number only where
  every second denominator cancels.
-/
import Metrology.Proofs.Ratio.Reading
import Mathlib.Algebra.BigOperators.Ring.List
import Mathlib.Tactic.FieldSimp
import Mathlib.Tactic.Ring

namespace Metrology.Ratio

variable {x v : Ratio} {ys : List Ratio}

/-! ## Quotients that group to the right -/

/-- The first number over what the others make. -/
def nestedQuotient (x : Ratio) : List Ratio → Ratio
  | [] => x
  | y :: ys => x / nestedQuotient y ys

/-- The second number, the fourth one, and so on. -/
def everySecond : List Ratio → List Ratio
  | [] => []
  | [_] => []
  | _ :: z :: ys => z :: everySecond ys

/-- Without zeros among the denominators the quotient is zero only for zero. -/
theorem nestedQuotient_eq_zero_iff (hys : 0 ∉ ys) : nestedQuotient x ys = 0 ↔ x = 0 := by
  induction ys generalizing x with
  | nil => rfl
  | cons y ys ih =>
    rw [List.mem_cons, not_or] at hys
    have hdenominator : nestedQuotient y ys ≠ 0 := mt (ih hys.2).1 (Ne.symm hys.1)
    rw [nestedQuotient, div_eq_zero_iff, or_iff_left hdenominator]

theorem foldl_div (x : Ratio) (ys : List Ratio) : ys.foldl (· / ·) x = x / ys.prod := by
  induction ys generalizing x with
  | nil => rw [List.foldl_nil, List.prod_nil, div_one]
  | cons y ys ih => rw [List.foldl_cons, ih, List.prod_cons, div_div]

/-- Every second denominator is in the numerator instead. -/
theorem nestedQuotient_eq (x : Ratio) (ys : List Ratio) :
    nestedQuotient x ys = x / ys.prod * (everySecond ys).prod ^ 2 := by
  induction ys using everySecond.induct generalizing x with
  | case1 => simp [nestedQuotient, everySecond]
  | case2 y => simp [nestedQuotient, everySecond]
  | case3 y z ys ih =>
    show x / (y / nestedQuotient z ys) = _
    rw [ih z, everySecond, List.prod_cons, List.prod_cons, List.prod_cons]
    by_cases hz : z = 0
    · simp [hz]
    · field_simp

/-- The two groupings give one number exactly if every second denominator cancels, or for zero. -/
theorem nestedQuotient_eq_foldl_iff (hys : 0 ∉ ys) :
    nestedQuotient x ys = ys.foldl (· / ·) x ↔
      x = 0 ∨ (everySecond ys).prod = 1 ∨ (everySecond ys).prod = -1 := by
  have hprod : ys.prod ≠ 0 := List.prod_ne_zero hys
  rw [nestedQuotient_eq, foldl_div, mul_right_eq_self₀, div_eq_zero_iff, or_iff_left hprod, sq,
    mul_self_eq_one_iff, or_comm]

/-! ## Reading a chain -/

/-- What the parts between the slashes make. -/
theorem readParts?_eq_some_iff {part : List Char} {parts : List (List Char)}
    (hpart : readPlain? (Text.trim part) = some x)
    (hparts : List.Forall₂ (fun p y => readPlain? (Text.trim p) = some y) parts ys) :
    readParts? (part :: parts) = some v ↔ 0 ∉ ys ∧ nestedQuotient x ys = v := by
  induction hparts generalizing part x v with
  | nil => simp [readParts?, hpart, nestedQuotient]
  | @cons q y qs ys hq hqs ih =>
    rw [readParts?_cons part (List.cons_ne_nil q qs), hpart, Option.bind_some,
      Option.bind_eq_some_iff]
    simp only [ih hq, Option.ite_none_left_eq_some, Option.some.injEq]
    constructor
    · rintro ⟨d, ⟨hys, rfl⟩, hd, rfl⟩
      have hy : y ≠ 0 := mt (nestedQuotient_eq_zero_iff hys).2 hd
      exact ⟨List.not_mem_cons_of_ne_of_not_mem hy.symm hys, rfl⟩
    · rintro ⟨hmem, rfl⟩
      rw [List.mem_cons, not_or] at hmem
      exact ⟨_, ⟨hmem.2, rfl⟩, mt (nestedQuotient_eq_zero_iff hmem.2).1 (Ne.symm hmem.1), rfl⟩

variable {a : String} {bs : List String}

/-- A text without a slash is one part. -/
theorem readPlain?_of_ofText (hslash : '/' ∉ a.toList) (ha : ofText a = .ok x) :
    readPlain? (Text.trim a.toList) = some x :=
  (ofChars_eq_ok_iff_of_not_mem hslash).1 ha

/-- A chain has the texts between its slashes as its parts. -/
theorem splitOn_chain (hslash : ∀ s ∈ a :: bs, '/' ∉ s.toList) :
    ("/".intercalate (a :: bs)).toList.splitOn '/' = (a :: bs).map String.toList := by
  have hparts : ∀ l ∈ (a :: bs).map String.toList, '/' ∉ l := List.forall_mem_map.2 hslash
  rw [String.toList_intercalate]
  exact List.splitOn_intercalate '/' hparts (by simp)

/-- A chain of denominators is read exactly if none of them is zero, and the quotient groups to the
right. So where it is read it is the quotient from left to right exactly if the first number is zero
or every second denominator cancels, and in particular with one denominator. -/
theorem chain_correct_iff (hslash : ∀ s ∈ a :: bs, '/' ∉ s.toList) (ha : ofText a = .ok x)
    (hbs : List.Forall₂ (fun b y => ofText b = .ok y) bs ys) :
    (∀ v, ofText ("/".intercalate (a :: bs)) = .ok v ↔ 0 ∉ ys ∧ nestedQuotient x ys = v) ∧
    ((∀ v, ofText ("/".intercalate (a :: bs)) = .ok v → v = ys.foldl (· / ·) x) ↔
      0 ∈ ys ∨ x = 0 ∨ (everySecond ys).prod = 1 ∨ (everySecond ys).prod = -1) := by
  obtain ⟨haslash, hbslash⟩ := List.forall_mem_cons.1 hslash
  have hread (v : Ratio) :
      ofText ("/".intercalate (a :: bs)) = .ok v ↔ 0 ∉ ys ∧ nestedQuotient x ys = v := by
    rw [ofText, ofChars_eq_ok_iff, splitOn_chain hslash, List.map_cons]
    refine readParts?_eq_some_iff (readPlain?_of_ofText haslash ha) ?_
    rw [List.forall₂_map_left_iff]
    refine ((List.forall₂_and_left _ _).2 ⟨hbslash, hbs⟩).imp ?_
    rintro b y ⟨hb, hy⟩
    exact readPlain?_of_ofText hb hy
  refine ⟨hread, ?_⟩
  simp only [hread]
  constructor
  · intro h
    by_cases hys : 0 ∈ ys
    · exact .inl hys
    · exact .inr ((nestedQuotient_eq_foldl_iff hys).1 (h _ ⟨hys, rfl⟩))
  · rintro h v ⟨hys, rfl⟩
    exact (nestedQuotient_eq_foldl_iff hys).2 (h.resolve_left hys)

/-- Two conversions by sixty cancel each other. -/
theorem chain_correct_iff_sixties :
    (∀ s ∈ ["1000", "60", "60"], '/' ∉ s.toList) ∧ ofText "1000" = .ok 1000 ∧
      List.Forall₂ (fun b y => ofText b = .ok y) ["60", "60"] [60, 60] ∧
      ofText "1000/60/60" = .ok 1000 := by
  have hslash : ∀ s ∈ ["1000", "60", "60"], '/' ∉ s.toList := by decide
  have hthousand : ofText "1000" = .ok 1000 := by decide +kernel
  have hsixty : ofText "60" = .ok 60 := by decide +kernel
  have hsixties : List.Forall₂ (fun b y => ofText b = .ok y) ["60", "60"] [60, 60] :=
    .cons hsixty (.cons hsixty .nil)
  obtain ⟨hread, -⟩ := chain_correct_iff hslash hthousand hsixties
  refine ⟨hslash, hthousand, hsixties, (hread 1000).2 ⟨by decide, ?_⟩⟩
  norm_num [nestedQuotient]

/-- From left to right the quotient would be one. -/
theorem ofText_eight_four_two :
    ofText "8" = .ok 8 ∧ ofText "4" = .ok 4 ∧ ofText "2" = .ok 2 ∧ ofText "8/4/2" = .ok 4 ∧
      [4, 2].foldl (· / ·) (8 : Ratio) = 1 := by
  refine ⟨by decide +kernel, by decide +kernel, by decide +kernel, by decide +kernel, ?_⟩
  rw [foldl_div]
  norm_num

end Metrology.Ratio
