/-
  Metrology.Proofs.Integer.Reading

  The decimal text of an integer is read back by the plain and by the grouped reader. It consists
  of digits after at most one minus sign, so it has neither blanks nor underscores, and a zero in
  front of other digits would not change what they stand for.
-/
import Metrology.Integer.Text
import Metrology.Text.Blank
import Metrology.Text.Cut
import Mathlib.Data.List.Basic

namespace Metrology

/-! ## Texts of some characters only -/

namespace Text

variable {s : List Char}

theorem not_mem_of_forall {P : Char → Prop} (h : ∀ c ∈ s, P c) {d : Char} (hd : ¬ P d) : d ∉ s :=
  fun hmem => hd (h d hmem)

/-- Text without blanks is its own trimming. -/
theorem trim_of_forall (h : ∀ c ∈ s, isBlank c = false) : trim s = s :=
  trim_eq_self (fun c hc => h c (List.mem_of_mem_head? hc))
    fun c hc => h c (List.mem_of_mem_getLast? hc)

/-- A pattern does not occur where its first character does not. -/
theorem cut_eq_none {c : Char} {pattern : List Char} (h : c ∉ s) : cut (c :: pattern) s = none := by
  induction s with
  | nil => rfl
  | cons d s ih =>
    rw [List.mem_cons, not_or] at h
    obtain ⟨hd, hs⟩ := h
    have hpattern : ¬ (c :: pattern).isPrefixOf (d :: s) = true := by
      simp [List.isPrefixOf, hd]
    rw [cut, if_neg hpattern, ih hs]
    rfl

/-- Digits are not blank. -/
theorem isBlank_of_isDigit {c : Char} (h : c.isDigit = true) : isBlank c = false := by
  obtain ⟨hzero, hnine⟩ := Char.isDigit_iff_toNat.1 h
  have hrange : 48 ≤ c.toNat ∧ c.toNat ≤ 57 := ⟨hzero, hnine⟩
  simp only [isBlank, Bool.or_eq_false_iff, Bool.and_eq_false_iff, decide_eq_false_iff_not,
    beq_eq_false_iff_ne]
  omega

end Text

namespace Integer

variable {s : List Char}

/-! ## Digits -/

theorem isDigit_of_mem_toDigits {n : Nat} {c : Char} (h : c ∈ Nat.toDigits 10 n) :
    c.isDigit = true :=
  Nat.isDigit_of_mem_toDigits (by decide) (by decide) h

theorem ofDigits?_of_forall (h : ∀ c ∈ s, c.isDigit = true) :
    ofDigits? s = some (Nat.ofDigitChars 10 s 0) :=
  if_pos (List.all_eq_true.2 h)

/-- Leading zeros add nothing to the number. -/
theorem ofDigitChars_dropWhile_zero (s : List Char) :
    Nat.ofDigitChars 10 (s.dropWhile (· == '0')) 0 = Nat.ofDigitChars 10 s 0 := by
  induction s with
  | nil => rfl
  | cons c s ih =>
    by_cases hc : c = '0'
    · subst hc
      rw [List.dropWhile_cons, if_pos (beq_self_eq_true '0'), ih, Nat.ofDigitChars_cons]
      rfl
    · rw [List.dropWhile_cons, if_neg (by simpa using hc)]

/-! ## Signs -/

/-- Text that starts with a digit has no sign. -/
theorem splitSign_of_isDigit {c : Char} (h : c.isDigit = true) (s : List Char) :
    splitSign (c :: s) = (false, c :: s) := by
  have hminus : c ≠ '-' := by
    rintro rfl
    cases h
  have hplus : c ≠ '+' := by
    rintro rfl
    cases h
  unfold splitSign
  split
  · rename_i heq
    exact absurd (List.cons.inj heq).1 hminus
  · rename_i heq
    exact absurd (List.cons.inj heq).1 hplus
  · rfl

/-- The sign of a text tells whether the integer is negative, and its digits are those of the
absolute value. -/
theorem splitSign_toChars (n : Int) :
    splitSign (toChars n) = (decide (n < 0), Nat.toDigits 10 n.natAbs) := by
  cases n with
  | negSucc n =>
    rw [decide_eq_true (Int.negSucc_lt_zero n)]
    rfl
  | ofNat n =>
    have hsign : decide (Int.ofNat n < 0) = false := decide_eq_false (by simp)
    obtain ⟨c, s, hdigits⟩ := List.exists_cons_of_ne_nil (Nat.toDigits_ne_nil (n := n) (b := 10))
    have hc : c.isDigit = true := isDigit_of_mem_toDigits (n := n) (by rw [hdigits]; simp)
    rw [toChars, hsign, hdigits, splitSign_of_isDigit hc]
    rw [← hdigits]
    rfl

theorem signed_natAbs (n : Int) : signed (decide (n < 0)) n.natAbs = n := by
  rw [signed]
  split
  · rename_i h
    have hneg := of_decide_eq_true h
    omega
  · rename_i h
    have hneg : ¬ n < 0 := fun hn => h (decide_eq_true hn)
    omega

/-- The text of an integer has digits and minus signs only. -/
theorem isDigit_or_minus_of_mem_toChars {n : Int} {c : Char} (h : c ∈ toChars n) :
    c.isDigit = true ∨ c = '-' := by
  cases n with
  | ofNat n => exact .inl (isDigit_of_mem_toDigits h)
  | negSucc n =>
    rcases List.mem_cons.1 h with rfl | h
    · exact .inr rfl
    · exact .inl (isDigit_of_mem_toDigits h)

theorem toChars_ne_nil (n : Int) : toChars n ≠ [] := by
  cases n with
  | ofNat n => exact Nat.toDigits_ne_nil
  | negSucc n => exact List.cons_ne_nil _ _

/-! ## Reading what is written -/

/-- The plain reader gives back every integer. -/
theorem read?_toChars (n : Int) : read? (toChars n) = some n := by
  have hempty : (Nat.toDigits 10 n.natAbs).isEmpty = false :=
    List.isEmpty_eq_false_iff.2 Nat.toDigits_ne_nil
  have hvalue := ofDigits?_of_forall fun c => isDigit_of_mem_toDigits (n := n.natAbs) (c := c)
  rw [read?, splitSign_toChars]
  simp only [hempty, hvalue, Nat.ofDigitChars_ten_toDigits, Option.map_some, signed_natAbs]
  rfl

/-- The grouped reader gives back every integer. -/
theorem readGrouped?_toChars (n : Int) : readGrouped? (toChars n) = some n := by
  have hempty : (Nat.toDigits 10 n.natAbs).isEmpty = false :=
    List.isEmpty_eq_false_iff.2 Nat.toDigits_ne_nil
  have hdigits : ∀ c ∈ (Nat.toDigits 10 n.natAbs).dropWhile (· == '0'), c.isDigit = true :=
    fun c hc => isDigit_of_mem_toDigits ((List.dropWhile_sublist _).subset hc)
  -- No digit is an underscore, so that the filter keeps all of them.
  have hfilter : ((Nat.toDigits 10 n.natAbs).dropWhile (· == '0')).filter (· != '_') =
      (Nat.toDigits 10 n.natAbs).dropWhile (· == '0') := by
    refine List.filter_eq_self.2 fun c hc => ?_
    rw [bne_iff_ne]
    rintro rfl
    cases hdigits _ hc
  rw [readGrouped?, splitSign_toChars]
  simp only [hempty, hfilter, ofDigits?_of_forall hdigits, ofDigitChars_dropWhile_zero,
    Nat.ofDigitChars_ten_toDigits, Option.map_some, signed_natAbs]
  rfl

end Integer

end Metrology
