/-
  Metrology.Proofs.Ratio.Decimal

  A decimal against the integer that its digits make without the point. The integer has at most
  one sign in front, which its own reader takes off. Of a decimal every sign in front is taken off,
  and the first one counts. What remains is read by one rule on both sides, so the two forms part
  exactly where several signs stand in front of digits: such a decimal is read and the integer is
  not.
-/
import Metrology.Proofs.Ratio.Power
import Metrology.Proofs.Ratio.Reading
import Mathlib.Tactic.NormNum

namespace Metrology

variable {c : Char} {s w p : List Char}

/-! ## Integers with signs in front -/

namespace Integer

/-- The number that grouped digits without a sign stand for. -/
def ofGrouped? (s : List Char) : Option Nat :=
  ofDigits? ((s.dropWhile (· == '0')).filter (· != '_'))

/-- A sign in front of a text is taken off. -/
theorem readGrouped?_of_isSign (hc : Ratio.isSign c = true) (hs : s ≠ []) :
    readGrouped? (c :: s) = (ofGrouped? s).map (signed (decide (c = '-'))) := by
  have hempty : s.isEmpty = false := List.isEmpty_eq_false_iff.2 hs
  have hsign : c = '-' ∨ c = '+' := by simpa [Ratio.isSign] using hc
  rcases hsign with rfl | rfl
  · simp [readGrouped?, splitSign, hempty, ofGrouped?]
  · simp [readGrouped?, splitSign, hempty, ofGrouped?]

/-- A text that does not start with a sign is not negative. -/
theorem readGrouped?_of_not_isSign (hc : Ratio.isSign c = false) (s : List Char) :
    readGrouped? (c :: s) = (ofGrouped? (c :: s)).map (signed false) := by
  have hsign : c ≠ '-' ∧ c ≠ '+' := by simpa [Ratio.isSign] using hc
  have hsplit : splitSign (c :: s) = (false, c :: s) := by
    unfold splitSign
    split
    · rename_i heq
      exact absurd (List.cons.inj heq).1 hsign.1
    · rename_i heq
      exact absurd (List.cons.inj heq).1 hsign.2
    · rfl
  rw [readGrouped?, hsplit]
  rfl

/-- A sign is neither a digit nor an underscore, so no number has one inside. -/
theorem ofGrouped?_of_isSign (hc : Ratio.isSign c = true) (s : List Char) :
    ofGrouped? (c :: s) = none := by
  have hsign : c = '-' ∨ c = '+' := by simpa [Ratio.isSign] using hc
  rcases hsign with rfl | rfl
  · simp [ofGrouped?, ofDigits?]
  · simp [ofGrouped?, ofDigits?]

theorem isSign_of_isDigit (h : c.isDigit = true) : Ratio.isSign c = false := by
  rw [Ratio.isSign, Bool.or_eq_false_iff, beq_eq_false_iff_ne, beq_eq_false_iff_ne]
  constructor
  · rintro rfl
    cases h
  · rintro rfl
    cases h

/-- In front of digits one sign is read and no second one. -/
theorem readGrouped?_append (hne : p ≠ []) (hp : ∀ c ∈ p, c.isDigit = true) (w : List Char) :
    readGrouped? (w ++ p) =
      if (w.takeWhile Ratio.isSign).length ≤ 1 then
        (ofGrouped? (w.dropWhile Ratio.isSign ++ p)).map (signed (decide (w.head? = some '-')))
      else none := by
  cases w with
  | nil =>
    obtain ⟨d, r, rfl⟩ := List.exists_cons_of_ne_nil hne
    exact readGrouped?_of_not_isSign (isSign_of_isDigit (hp d List.mem_cons_self)) r
  | cons c w =>
    by_cases hc : Ratio.isSign c = true
    · -- The first sign is taken off, and what follows is a number or starts with another sign.
      have hrest : w ++ p ≠ [] := List.append_ne_nil_of_right_ne_nil w hne
      rw [List.cons_append, readGrouped?_of_isSign hc hrest, List.takeWhile_cons_of_pos hc,
        List.dropWhile_cons_of_pos hc, List.head?_cons]
      cases w with
      | nil => simp
      | cons d w =>
        by_cases hd : Ratio.isSign d = true
        · rw [List.cons_append, ofGrouped?_of_isSign hd, List.takeWhile_cons_of_pos hd]
          simp
        · rw [List.takeWhile_cons_of_neg hd, List.dropWhile_cons_of_neg hd]
          simp
    · have hminus : ¬ c = '-' := by
        rintro rfl
        exact hc rfl
      rw [List.cons_append, readGrouped?_of_not_isSign (Bool.eq_false_iff.2 hc),
        List.takeWhile_cons_of_neg hc, List.dropWhile_cons_of_neg hc, List.head?_cons]
      simp [hminus]

/-- With all signs taken off, what remains stands for a number that is not negative. -/
theorem readGrouped?_dropWhile_isSign (hne : p ≠ []) (hp : ∀ c ∈ p, c.isDigit = true)
    (w : List Char) :
    readGrouped? (w.dropWhile Ratio.isSign ++ p) =
      (ofGrouped? (w.dropWhile Ratio.isSign ++ p)).map (signed false) := by
  cases hrest : w.dropWhile Ratio.isSign with
  | nil =>
    obtain ⟨d, r, rfl⟩ := List.exists_cons_of_ne_nil hne
    exact readGrouped?_of_not_isSign (isSign_of_isDigit (hp d List.mem_cons_self)) r
  | cons c r =>
    have hc := List.head?_dropWhile_not Ratio.isSign w
    rw [hrest, List.head?_cons] at hc
    exact readGrouped?_of_not_isSign hc (r ++ p)

end Integer

/-! ## Decimals -/

namespace Ratio

/-- Below `2 ^ 31` every place of a decimal is counted. -/
theorem scale?_of_lt {places : Nat} (h : places < 2 ^ 31) :
    scale? places = some (10 ^ places) := by
  have hmod : Int.bmod places 4294967296 = places := Int.bmod_eq_of_le_mul_two (by omega) (by omega)
  rw [scale?, hmod, pow_natCast]
  rfl

/-- A decimal is the number of its digits, with the first sign in front, over a power of ten. -/
theorem readPlain?_decimal (hpoint : '.' ∉ w) (hne : p ≠ []) (hp : ∀ c ∈ p, c.isDigit = true)
    (hlength : p.length < 2 ^ 31) :
    readPlain? (w ++ '.' :: p) =
      (Integer.ofGrouped? (w.dropWhile isSign ++ p)).map fun n =>
        (Integer.signed (decide (w.head? = some '-')) n : Ratio) / 10 ^ p.length := by
  have hempty : p.isEmpty = false := List.isEmpty_eq_false_iff.2 hne
  have hall : p.all Char.isDigit = true := List.all_eq_true.2 hp
  rw [readPlain?, Text.cut_append_cons hpoint]
  simp only [hempty, hall, Integer.readGrouped?_dropWhile_isSign hne hp, scale?_of_lt hlength]
  cases Integer.ofGrouped? (w.dropWhile isSign ++ p) with
  | none => rfl
  | some n =>
    by_cases hminus : w.head? = some '-'
    · simp [hminus, Integer.signed]
    · simp [hminus, Integer.signed]

/-- The same text without the point is read with one sign in front at most. -/
theorem readPlain?_integer (hpoint : '.' ∉ w) (hne : p ≠ []) (hp : ∀ c ∈ p, c.isDigit = true) :
    readPlain? (w ++ p) =
      if (w.takeWhile isSign).length ≤ 1 then
        (Integer.ofGrouped? (w.dropWhile isSign ++ p)).map fun n =>
          (Integer.signed (decide (w.head? = some '-')) n : Ratio)
      else none := by
  have hnone : '.' ∉ w ++ p := by
    rw [List.mem_append, not_or]
    exact ⟨hpoint, fun hmem => absurd (hp '.' hmem) (by decide)⟩
  rw [readPlain?, Text.cut_eq_none hnone]
  simp only [Integer.readGrouped?_append hne hp]
  split
  · rw [Option.map_map]
    rfl
  · rfl

/-! ## The two forms -/

/-- What stands in front of the point of a decimal, without blanks before it. -/
def wholePart (i : String) : List Char := Text.trimStart i.toList

/-- The signs in front. -/
def signs (i : String) : List Char := (wholePart i).takeWhile isSign

/-- The number of the digits on both sides of the point, where the signs in front do not count. -/
def digitsOf? (i f : String) : Option Nat :=
  Integer.ofGrouped? ((wholePart i).dropWhile isSign ++ f.toList)

/-- The number with the sign of the text, which the first character decides. -/
def withSign (i : String) (n : Nat) : Int :=
  Integer.signed (decide ((wholePart i).head? = some '-')) n

/-- The decimal is read exactly if the text without its point is, and is that number divided by ten
for every place. -/
def DecimalAgrees (i f : String) : Prop :=
  ((∃ x, ofText (i ++ "." ++ f) = .ok x) ↔ ∃ y, ofText (i ++ f) = .ok y) ∧
    ∀ x y, ofText (i ++ "." ++ f) = .ok x → ofText (i ++ f) = .ok y → x = y / 10 ^ f.length

variable {i f : String} {x : Ratio}

/-- Blanks before the digits of a text are no part of the number, and no blanks follow them. -/
theorem trim_append_digits (hf : f ≠ "") (hdigits : ∀ c ∈ f.toList, c.isDigit = true) :
    Text.trim (i.toList ++ f.toList) = wholePart i ++ f.toList :=
  Text.trim_append_of_forall (mt String.toList_eq_nil_iff.1 hf)
    (fun c hc => Text.isBlank_of_isDigit (hdigits c hc)) i.toList

theorem trim_append_point_digits (hdigits : ∀ c ∈ f.toList, c.isDigit = true) :
    Text.trim (i.toList ++ '.' :: f.toList) = wholePart i ++ '.' :: f.toList := by
  have hblank : ∀ c ∈ '.' :: f.toList, Text.isBlank c = false :=
    List.forall_mem_cons.2 ⟨by decide, fun c hc => Text.isBlank_of_isDigit (hdigits c hc)⟩
  exact Text.trim_append_of_forall (List.cons_ne_nil _ _) hblank i.toList

theorem not_mem_wholePart {c : Char} (h : c ∉ i.toList) : c ∉ wholePart i :=
  fun hmem => h ((List.dropWhile_sublist _).subset hmem)

theorem ofText_decimal_eq_ok (hpoint : '.' ∉ i.toList) (hslash : '/' ∉ i.toList) (hf : f ≠ "")
    (hdigits : ∀ c ∈ f.toList, c.isDigit = true) (hlength : f.length < 2 ^ 31) :
    ofText (i ++ "." ++ f) = .ok x ↔
      ∃ n, digitsOf? i f = some n ∧ (withSign i n : Ratio) / 10 ^ f.length = x := by
  have hchars : (i ++ "." ++ f).toList = i.toList ++ '.' :: f.toList := by simp
  have hnone : '/' ∉ i.toList ++ '.' :: f.toList := by
    rw [List.mem_append, List.mem_cons, not_or, not_or]
    exact ⟨hslash, by decide, fun hmem => absurd (hdigits '/' hmem) (by decide)⟩
  have hplaces : f.toList.length = f.length := String.length_toList
  rw [ofText, hchars, ofChars_eq_ok_iff_of_not_mem hnone, trim_append_point_digits hdigits,
    readPlain?_decimal (not_mem_wholePart hpoint) (mt String.toList_eq_nil_iff.1 hf) hdigits
      (by omega), Option.map_eq_some_iff, hplaces]
  rfl

theorem ofText_integer_eq_ok (hpoint : '.' ∉ i.toList) (hslash : '/' ∉ i.toList) (hf : f ≠ "")
    (hdigits : ∀ c ∈ f.toList, c.isDigit = true) :
    ofText (i ++ f) = .ok x ↔
      (signs i).length ≤ 1 ∧ ∃ n, digitsOf? i f = some n ∧ (withSign i n : Ratio) = x := by
  have hnone : '/' ∉ i.toList ++ f.toList := by
    rw [List.mem_append, not_or]
    exact ⟨hslash, fun hmem => absurd (hdigits '/' hmem) (by decide)⟩
  rw [ofText, String.toList_append, ofChars_eq_ok_iff_of_not_mem hnone,
    trim_append_digits hf hdigits, readPlain?_integer (not_mem_wholePart hpoint)
      (mt String.toList_eq_nil_iff.1 hf) hdigits, Option.ite_none_right_eq_some,
    Option.map_eq_some_iff]
  rfl

/-- A decimal is read exactly if the digits on both sides of its point make a number once all signs
in front are taken off, and the integer without the point exactly if in addition there is one sign
at most. So wherever the integer is read the decimal is that number divided by ten for every place,
and the two forms agree exactly unless several signs stand in front of such digits. -/
theorem decimal_correct_iff (hpoint : '.' ∉ i.toList) (hslash : '/' ∉ i.toList) (hf : f ≠ "")
    (hdigits : ∀ c ∈ f.toList, c.isDigit = true) (hlength : f.length < 2 ^ 31) :
    (∀ x, ofText (i ++ "." ++ f) = .ok x ↔
      ∃ n, digitsOf? i f = some n ∧ (withSign i n : Ratio) / 10 ^ f.length = x) ∧
    (∀ y, ofText (i ++ f) = .ok y → ofText (i ++ "." ++ f) = .ok (y / 10 ^ f.length)) ∧
    (DecimalAgrees i f ↔ ((signs i).length ≤ 1 ∨ digitsOf? i f = none)) := by
  have hdecimal {x : Ratio} := ofText_decimal_eq_ok (x := x) hpoint hslash hf hdigits hlength
  have hinteger {y : Ratio} := ofText_integer_eq_ok (x := y) hpoint hslash hf hdigits
  refine ⟨fun x => hdecimal, ?_, ?_, ?_⟩
  · intro y hy
    obtain ⟨-, n, hn, rfl⟩ := hinteger.1 hy
    exact hdecimal.2 ⟨n, hn, rfl⟩
  · -- A number of digits is a decimal, which must not be one of the decimals only.
    rintro ⟨hexists, -⟩
    cases hn : digitsOf? i f with
    | none => exact .inr rfl
    | some n =>
      obtain ⟨y, hy⟩ := hexists.1 ⟨_, hdecimal.2 ⟨n, hn, rfl⟩⟩
      exact .inl (hinteger.1 hy).1
  · intro hone
    refine ⟨?_, ?_⟩
    · simp only [hdecimal, hinteger]
      constructor
      · rintro ⟨x, n, hn, -⟩
        have hle : (signs i).length ≤ 1 := hone.resolve_right (by simp [hn])
        exact ⟨_, hle, n, hn, rfl⟩
      · rintro ⟨y, -, n, hn, -⟩
        exact ⟨_, n, hn, rfl⟩
    · intro x y hx hy
      obtain ⟨n, hn, rfl⟩ := hdecimal.1 hx
      obtain ⟨-, m, hm, rfl⟩ := hinteger.1 hy
      rw [hn, Option.some.injEq] at hm
      rw [hm]

/-- Blanks and a sign in front of grouped digits, and a place that is zero: `-1005` over a
hundred. -/
theorem decimal_correct_iff_grouped :
    '.' ∉ " -1_0".toList ∧ '/' ∉ " -1_0".toList ∧ "05" ≠ "" ∧
      (∀ c ∈ "05".toList, c.isDigit = true) ∧ "05".length < 2 ^ 31 ∧
      ofText " -1_0.05" = .ok (-1005 / 100) ∧ DecimalAgrees " -1_0" "05" := by
  have hdigits : ∀ c ∈ "05".toList, c.isDigit = true := List.all_eq_true.1 (by decide)
  obtain ⟨hread, -, hagrees⟩ := decimal_correct_iff (i := " -1_0") (f := "05") (by decide)
    (by decide) (by decide) hdigits (by decide)
  have hsign : withSign " -1_0" 1005 = -1005 := by decide
  have hplaces : "05".length = 2 := by decide
  have hvalue : ofText " -1_0.05" = .ok (-1005 / 100) :=
    (hread _).2 ⟨1005, by decide, by rw [hsign, hplaces]; norm_num⟩
  exact ⟨by decide, by decide, by decide, hdigits, by decide, hvalue, hagrees.2 (.inl (by decide))⟩

/-- Two minus signs are no sign of an integer, but the decimal is read, as a negative number. -/
theorem not_decimalAgrees_twoSigns :
    ofText "--1.5" = .ok (-3 / 2) ∧ ofText "--15" = .error (.malformed "--15") ∧
      ¬ DecimalAgrees "--1" "5" := by
  have hdecimal : ofText "--1.5" = .ok (-3 / 2) := by decide +kernel
  have hinteger : ofText "--15" = .error (.malformed "--15") := by decide +kernel
  refine ⟨hdecimal, hinteger, ?_⟩
  rintro ⟨hexists, -⟩
  obtain ⟨y, hy⟩ := hexists.1 ⟨_, hdecimal⟩
  have heq : ofText "--15" = .ok y := hy
  rw [hinteger] at heq
  cases heq

end Ratio

end Metrology
