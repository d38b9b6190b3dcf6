/-
  Metrology.Proofs.Magnitude.RoundTrip

  An exact magnitude is read back from its text, and so from the JSON string that holds it. The
  text is a ratio and, after a star, a power of pi. The star is the only one, so the reader finds
  these two factors; no `pi` stands in the ratio and no slash after the `pi`, so each factor is
  read by the rule it was written by. The powers of pi that are added up are zero and the written
  one, which fits.
-/
import Metrology.Magnitude.Json
import Metrology.Proofs.Magnitude.Exact
import Metrology.Proofs.Ratio.RoundTrip

namespace Metrology.Magnitude

variable {r : Ratio} {k : Power} {c : Char} {s : List Char}

/-! ## The text -/

/-- A power of pi as it stands after the star. -/
def piChars (k : Power) : List Char :=
  if k.val = 1 then "pi".toList else "pi^".toList ++ Integer.toChars k.val

theorem toChars_of_pi_eq_zero (hk : k.val = 0) : toChars ⟨.exact r, k⟩ = r.toChars := by
  simp only [toChars, coefficientChars, hk, if_pos, List.append_nil]

theorem toChars_of_pi_ne_zero (hk : k.val ≠ 0) :
    toChars ⟨.exact r, k⟩ = r.toChars ++ '*' :: piChars k := by
  simp only [toChars, coefficientChars, if_neg hk, piChars]
  split
  · rfl
  · rfl

/-- The characters that the text of an exact magnitude is made of. -/
def IsTextChar (c : Char) : Prop := Ratio.IsTextChar c ∨ c ∈ ['*', 'p', 'i', '^']

theorem isBlank_of_isTextChar (h : IsTextChar c) : Text.isBlank c = false := by
  rcases h with h | h
  · exact Ratio.isBlank_of_isTextChar h
  · simp only [List.mem_cons, List.not_mem_nil, or_false] at h
    rcases h with rfl | rfl | rfl | rfl <;> rfl

theorem mem_piChars (h : c ∈ piChars k) : c ∈ ['p', 'i', '^'] ∨ c ∈ Integer.toChars k.val := by
  rw [piChars] at h
  split at h
  · exact .inl (List.mem_append_left ['^'] h)
  · exact List.mem_append.1 h

theorem isTextChar_of_mem_piChars (h : c ∈ piChars k) : IsTextChar c := by
  rcases mem_piChars h with h | h
  · exact .inr (List.mem_cons_of_mem _ h)
  · exact .inl (Ratio.isTextChar_of_mem_integerToChars h)

theorem isTextChar_of_mem_toChars (h : c ∈ toChars ⟨.exact r, k⟩) : IsTextChar c := by
  by_cases hk : k.val = 0
  · rw [toChars_of_pi_eq_zero hk] at h
    exact .inl (Ratio.isTextChar_of_mem_toChars h)
  · rw [toChars_of_pi_ne_zero hk, List.mem_append, List.mem_cons] at h
    rcases h with h | rfl | h
    · exact .inl (Ratio.isTextChar_of_mem_toChars h)
    · exact .inr (List.mem_cons_self ..)
    · exact isTextChar_of_mem_piChars h

theorem toChars_ne_nil : toChars ⟨.exact r, k⟩ ≠ [] :=
  List.append_ne_nil_of_left_ne_nil r.toChars_ne_nil _

/-! ## Reading one factor -/

/-- The text of a ratio has no `pi`, so it is read as a number. -/
theorem readFactor_toChars (r : Ratio) : readFactor false r.toChars = .ok (exact r) := by
  have hpi {c : Char} (hc : ¬ Ratio.IsTextChar c) : c ∉ r.toChars :=
    Text.not_mem_of_forall (fun _ => Ratio.isTextChar_of_mem_toChars) hc
  have hcut : cutPi r.toChars = none := by
    rw [cutPi]
    change (Text.cut ['p', 'i'] _).or _ = _
    rw [Text.cut_eq_none (hpi (by simp [Ratio.IsTextChar])),
      Text.cut_eq_none (hpi (by simp [Ratio.IsTextChar]))]
    rfl
  simp only [readFactor, Ratio.trim_toChars, hcut, readNumber, Bool.false_eq_true, if_false,
    Ratio.ofChars_toChars]
  rfl

theorem timesPi_one (k : Power) : one.timesPi k = .ok ⟨.exact 1, k⟩ := by
  rw [timesPi, withPower_eq_ok, FixedInt.add?, FixedInt.ofInt?_eq_some_iff]
  exact ⟨rfl, (Int.zero_add k.val).symm⟩

/-- A factor that starts with `pi` and has no slash after it is a power of pi. -/
theorem readFactor_of_cutPi (htrim : Text.trim s = s) {rest : List Char}
    (hcut : cutPi s = some ([], rest)) (hrest : '/' ∉ rest) (hk : readPower? rest = some k) :
    readFactor false s = .ok ⟨.exact 1, k⟩ := by
  simp only [readFactor, htrim, hcut, Text.cut_eq_none hrest, hk, List.isEmpty_nil, if_true]
  change (one.timesPi k >>= pure) = _
  rw [timesPi_one]
  rfl

theorem readFactor_piChars (k : Power) : readFactor false (piChars k) = .ok ⟨.exact 1, k⟩ := by
  have htrim : Text.trim (piChars k) = piChars k :=
    Text.trim_of_forall fun _ hc => isBlank_of_isTextChar (isTextChar_of_mem_piChars hc)
  by_cases hk : k.val = 1
  · have hchars : piChars k = "pi".toList := if_pos hk
    have hone : k = 1 := FixedInt.ext hk
    rw [hone] at hchars htrim ⊢
    exact readFactor_of_cutPi htrim (by rw [hchars]; rfl) (List.not_mem_nil) rfl
  · have hchars : piChars k = "pi^".toList ++ Integer.toChars k.val := if_neg hk
    have hslash : '/' ∉ '^' :: Integer.toChars k.val := by
      rw [List.mem_cons, not_or]
      exact ⟨by decide,
        Text.not_mem_of_forall (fun _ => Integer.isDigit_or_minus_of_mem_toChars) (by decide)⟩
    have hpower : readPower? ('^' :: Integer.toChars k.val) = some k := by
      rw [readPower?, Ratio.trim_integerToChars, Integer.read?_toChars, Option.bind_some,
        FixedInt.ofInt?_val]
    exact readFactor_of_cutPi htrim (by rw [hchars]; rfl) hslash hpower

/-! ## Reading the product -/

theorem one_mul_exact (r : Ratio) (k : Power) : one.mul ⟨.exact r, k⟩ = .ok ⟨.exact r, k⟩ :=
  mul_exact_eq_ok.2 ⟨congrArg _ (one_mul r).symm, (Int.zero_add k.val).symm⟩

theorem exact_mul_pi (r : Ratio) (k : Power) :
    mul ⟨.exact r, 0⟩ ⟨.exact 1, k⟩ = .ok ⟨.exact r, k⟩ :=
  mul_exact_eq_ok.2 ⟨congrArg _ (mul_one r).symm, (Int.zero_add k.val).symm⟩

/-- One factor read and multiplied to the product. -/
theorem readProduct_cons {product factor next : Magnitude} {factors : List (List Char)}
    (hread : readFactor false s = .ok factor) (hmul : product.mul factor = .ok next) :
    readProduct false product (s :: factors) = readProduct false next factors := by
  rw [readProduct, hread]
  change (product.mul factor >>= _) = _
  rw [hmul]
  rfl

/-- Text without blanks and without a tilde is read as the product of its factors. -/
theorem ofChars_eq_readProduct (hs : s ≠ []) (hchars : ∀ c ∈ s, IsTextChar c) :
    ofChars s = readProduct false one (s.splitOn '*') := by
  have htrim : Text.trim s = s :=
    Text.trim_of_forall fun c hc => isBlank_of_isTextChar (hchars c hc)
  have htilde : '~' ∉ s := Text.not_mem_of_forall hchars (by simp [IsTextChar, Ratio.IsTextChar])
  rw [ofChars, htrim]
  split
  rename_i heq
  split at heq
  · exact absurd (List.mem_cons_self ..) htilde
  · cases heq
    rw [List.isEmpty_eq_false_iff.2 hs, if_neg Bool.false_ne_true]

/-- The reader gives back every exact magnitude. -/
theorem ofChars_toChars (r : Ratio) (k : Power) :
    ofChars (toChars ⟨.exact r, k⟩) = .ok ⟨.exact r, k⟩ := by
  have hstar : '*' ∉ r.toChars :=
    Text.not_mem_of_forall (fun _ => Ratio.isTextChar_of_mem_toChars) (by simp [Ratio.IsTextChar])
  rw [ofChars_eq_readProduct toChars_ne_nil fun _ => isTextChar_of_mem_toChars]
  by_cases hk : k.val = 0
  · -- The one factor is the ratio.
    have hzero : k = 0 := FixedInt.ext hk
    rw [toChars_of_pi_eq_zero hk, List.splitOn_eq_singleton hstar,
      readProduct_cons (readFactor_toChars r) (one_mul_exact r 0), hzero]
    rfl
  · -- The second factor is the power of pi, in which no star stands.
    have hpi : '*' ∉ piChars k := by
      intro h
      rcases mem_piChars h with h | h
      · exact absurd h (by decide)
      · exact absurd (Integer.isDigit_or_minus_of_mem_toChars h) (by decide)
    rw [toChars_of_pi_ne_zero hk, List.splitOn_append_cons_self_of_not_mem hstar,
      List.splitOn_eq_singleton hpi,
      readProduct_cons (readFactor_toChars r) (one_mul_exact r 0),
      readProduct_cons (readFactor_piChars k) (exact_mul_pi r k)]
    rfl

theorem ofText_text (r : Ratio) (k : Power) :
    ofText (text ⟨.exact r, k⟩) = .ok ⟨.exact r, k⟩ := by
  rw [ofText, text, String.toList_ofList, ofChars_toChars]

/-- Ratios and exact magnitudes come back from their texts and from the JSON strings that hold
these, whatever the ratio and the power of pi: zero coefficients and the least power included. -/
theorem exact_text_roundTrip (r : Ratio) (k : Power) :
    Ratio.ofText (Ratio.text r) = .ok r ∧
      Magnitude.ofText (Magnitude.text ⟨.exact r, k⟩) = .ok ⟨.exact r, k⟩ ∧
      Ratio.ofJson? (Ratio.toJson r) = some r ∧
      Magnitude.ofJson? (Magnitude.toJson ⟨.exact r, k⟩) = some ⟨.exact r, k⟩ := by
  refine ⟨Ratio.ofText_text r, ofText_text r k, ?_, ?_⟩
  · rw [Ratio.toJson, Ratio.ofJson?, Json.asString?, Option.bind_some, Ratio.ofText_text]
    rfl
  · rw [toJson, ofJson?, Json.asString?, Option.bind_some, ofText_text]
    rfl

end Metrology.Magnitude
