/-
  Metrology.Proofs.Magnitude.Tilde

  Which texts are read as exact magnitudes. A product or a quotient is exact if both of its parts
  are, so a text is exact if every number in it is. A tilde at the start makes all of these
  approximate. But a power of pi is no number: without one in front of it and without a denominator
  it is exact, tilde or not, and so is a product of nothing else.
-/
import Metrology.Magnitude.Text
import Metrology.Proofs.Magnitude.Exact
import Metrology.Proofs.Text.Trimming

namespace Metrology.Magnitude

variable {m numerator product : Magnitude} {approximate : Bool} {s front rest : List Char}

/-! ## Numbers -/

theorem isExact_readNumber (h : readNumber approximate s = .ok m) :
    m.isExact = true ↔ approximate = false := by
  cases approximate with
  | false =>
    obtain ⟨q, -, rfl⟩ := map_eq_ok.1 h
    exact iff_of_true rfl rfl
  | true =>
    rw [readNumber, if_pos rfl] at h
    split at h
    · rw [approx] at h
      split at h
      · cases h
        simp [isExact]
      · cases h
    · cases h

/-- No floating-point number starts with `π`. -/
theorem read?_pi (s : List Char) : Binary.read? .double ('π' :: s) = none := by
  have hsign : Integer.splitSign ('π' :: s) = (false, 'π' :: s) := rfl
  have hpoint : Binary.splitPoint ('π' :: s) = ([], [], 'π' :: s) := rfl
  have hdecimal : Binary.readDecimal? ('π' :: s) = none := by
    rw [Binary.readDecimal?, hpoint]
    rfl
  have hword : ('π' :: s).map Char.toLower = 'π' :: s.map Char.toLower := rfl
  rw [Binary.read?, hsign]
  simp only [hdecimal, hword]
  simp

theorem readNumber_pi (s : List Char) (m : Magnitude) : readNumber true ('π' :: s) ≠ .ok m := by
  have htrim : Text.trim ('π' :: s) = 'π' :: Text.trimEnd s :=
    Text.trim_append_cons (by decide) [] s
  rw [readNumber, if_pos rfl, htrim, read?_pi]
  intro h
  cases h

/-! ## Factors with `pi` -/

/-- The number in front of `pi`, which is one where nothing stands there. -/
def readCoefficient (approximate : Bool) (front : List Char) : Except NumberError Magnitude :=
  if front.isEmpty then .ok one else readNumber approximate front

/-- The numerator over what stands behind a slash. -/
def overDenominator (approximate : Bool) (numerator : Magnitude) :
    Option (List Char) → Except NumberError Magnitude
  | none => .ok numerator
  | some s => readNumber approximate s >>= numerator.div

/-- What stands behind `pi` up to a slash. -/
def powerText (rest : List Char) : List Char := ((Text.cut ['/'] rest).map Prod.fst).getD rest

/-- A factor with `pi` is what stands in front, times a power of pi, over a denominator. -/
theorem readFactor_eq_bind (hcut : cutPi (Text.trim s) = some (front, rest)) :
    readFactor approximate s = readCoefficient approximate front >>= fun coefficient =>
      (readPower? (powerText rest)).elim
        (.error (.malformed (String.ofList (Text.trim s)))) coefficient.timesPi >>= fun numerator =>
          overDenominator approximate numerator ((Text.cut ['/'] rest).map Prod.snd) := by
  simp only [readFactor, hcut, readCoefficient, powerText]
  cases Text.cut ['/'] rest with
  | none =>
    simp only [Option.map_none, Option.getD_none]
    cases readPower? rest <;> cases front <;> rfl
  | some p =>
    simp only [Option.map_some, Option.getD_some]
    cases readPower? p.1 <;> cases front <;> rfl

theorem readFactor_eq_ok (hcut : cutPi (Text.trim s) = some (front, rest)) :
    readFactor approximate s = .ok m ↔ ∃ coefficient power numerator,
      readCoefficient approximate front = .ok coefficient ∧
        readPower? (powerText rest) = some power ∧ coefficient.timesPi power = .ok numerator ∧
          overDenominator approximate numerator ((Text.cut ['/'] rest).map Prod.snd) = .ok m := by
  rw [readFactor_eq_bind hcut]
  cases readPower? (powerText rest) with
  | none => simp [bind_eq_ok]
  | some power => simp [bind_eq_ok]

theorem isExact_readCoefficient (h : readCoefficient approximate front = .ok m) :
    m.isExact = true ↔ approximate = false ∨ front = [] := by
  rw [readCoefficient] at h
  split at h
  · rename_i hempty
    cases h
    exact iff_of_true rfl (.inr (List.isEmpty_iff.1 hempty))
  · rename_i hempty
    rw [isExact_readNumber h, or_iff_left (mt List.isEmpty_iff.2 hempty)]

theorem isExact_overDenominator {denominator : Option (List Char)}
    (h : overDenominator approximate numerator denominator = .ok m) :
    m.isExact = true ↔
      numerator.isExact = true ∧ (approximate = false ∨ denominator = none) := by
  cases denominator with
  | none =>
    cases h
    simp
  | some s =>
    obtain ⟨d, hd, hdiv⟩ := bind_eq_ok.1 h
    rw [isExact_div_iff hdiv, isExact_readNumber hd]
    simp

/-! ## Powers of pi alone -/

/-- The text starts with `pi` or `π` and has no denominator. -/
def IsPowerOfPi (s : List Char) : Prop := ("pi".toList <+: s ∨ ['π'] <+: s) ∧ '/' ∉ s

theorem eq_append_of_cutPi (h : cutPi s = some (front, rest)) :
    s = front ++ "pi".toList ++ rest ∨ s = front ++ ['π'] ++ rest := by
  rcases Option.or_eq_some_iff.1 h with h | ⟨-, h⟩
  · exact .inl (Text.append_of_cut h).symm
  · exact .inr (Text.append_of_cut h).symm

theorem cutPi_pi (rest : List Char) : cutPi ("pi".toList ++ rest) = some ([], rest) := rfl

/-- Text that starts with `π` is cut there, or at a `pi` behind it. -/
theorem front_of_cutPi (h : cutPi ('π' :: s) = some (front, rest)) :
    front = [] ∨ ∃ r, front = 'π' :: r := by
  have hstep : Text.cut "pi".toList ('π' :: s) =
      (Text.cut "pi".toList s).map fun p => ('π' :: p.1, p.2) := rfl
  rw [cutPi, hstep] at h
  cases hcut : Text.cut "pi".toList s with
  | none =>
    rw [hcut] at h
    cases h
    exact .inl rfl
  | some p =>
    rw [hcut] at h
    cases h
    exact .inr ⟨_, rfl⟩

/-- A power of pi alone has nothing in front of its `pi` and no denominator behind it. -/
theorem isPowerOfPi_iff (hcut : cutPi s = some (front, rest))
    (hread : readCoefficient true front = .ok m) :
    IsPowerOfPi s ↔ front = [] ∧ Text.cut ['/'] rest = none := by
  rw [Text.cut_eq_none_iff]
  constructor
  · rintro ⟨hstart, hslash⟩
    have hfront : front = [] := by
      rcases hstart with ⟨r, rfl⟩ | ⟨r, rfl⟩
      · rw [cutPi_pi] at hcut
        cases hcut
        rfl
      · -- A `pi` behind the `π` would leave this in front, which is no number.
        rcases front_of_cutPi hcut with hfront | ⟨front', rfl⟩
        · exact hfront
        · exact absurd hread (readNumber_pi front' m)
    subst hfront
    refine ⟨rfl, fun hmem => hslash ?_⟩
    rcases eq_append_of_cutPi hcut with rfl | rfl
    · exact List.mem_append_right _ hmem
    · exact List.mem_append_right _ hmem
  · rintro ⟨rfl, hslash⟩
    rcases eq_append_of_cutPi hcut with rfl | rfl
    · exact ⟨.inl ⟨rest, rfl⟩, by simp [hslash]⟩
    · exact ⟨.inr ⟨rest, rfl⟩, by simp [hslash]⟩

theorem not_isPowerOfPi_of_cutPi (hcut : cutPi s = none) : ¬ IsPowerOfPi s := by
  rintro ⟨⟨r, rfl⟩ | ⟨r, rfl⟩, -⟩
  · rw [cutPi_pi] at hcut
    cases hcut
  · have hpi : Text.cut ['π'] ('π' :: r) = none := (Option.or_eq_none_iff.1 hcut).2
    exact Text.cut_eq_none_iff.1 hpi List.mem_cons_self

/-- A factor is exact if its numbers are not approximate or it is a power of pi alone. -/
theorem isExact_readFactor (h : readFactor approximate s = .ok m) :
    m.isExact = true ↔ approximate = false ∨ IsPowerOfPi (Text.trim s) := by
  cases hcut : cutPi (Text.trim s) with
  | none =>
    have hnumber : readNumber approximate (Text.trim s) = .ok m := by
      simpa only [readFactor, hcut] using h
    rw [isExact_readNumber hnumber, or_iff_left (not_isPowerOfPi_of_cutPi hcut)]
  | some p =>
    obtain ⟨front, rest⟩ := p
    obtain ⟨coefficient, power, numerator, hcoefficient, -, hnumerator, h⟩ :=
      (readFactor_eq_ok hcut).1 h
    rw [isExact_overDenominator h, isExact_timesPi hnumerator,
      isExact_readCoefficient hcoefficient, Option.map_eq_none_iff, ← or_and_left]
    cases approximate with
    | false => simp
    | true => rw [isPowerOfPi_iff hcut hcoefficient]

/-! ## Products -/

/-- A product is exact if what it starts with and all of its factors are. -/
theorem isExact_readProduct {parts : List (List Char)}
    (h : readProduct approximate product parts = .ok m) :
    m.isExact = true ↔
      product.isExact = true ∧ (approximate = false ∨ ∀ p ∈ parts, IsPowerOfPi (Text.trim p)) := by
  induction parts generalizing product with
  | nil =>
    cases h
    simp
  | cons p parts ih =>
    simp only [readProduct, bind_eq_ok] at h
    obtain ⟨factor, hfactor, next, hnext, h⟩ := h
    rw [ih h, isExact_mul_iff hnext, isExact_readFactor hfactor, List.forall_mem_cons, and_assoc,
      ← or_and_left]

/-- What stands after the tilde at the start of a text, if there is one. -/
def unmarked : List Char → List Char
  | '~' :: rest => rest
  | s => s

/-- A tilde is the first character of the text that is no blank. -/
def IsMarked (s : String) : Prop := (Text.trim s.toList).head? = some '~'

/-- The factors of a text, without the blanks around them. -/
def factors (s : String) : List (List Char) :=
  ((unmarked (Text.trim s.toList)).splitOn '*').map Text.trim

instance (s : String) : Decidable (IsMarked s) := inferInstanceAs (Decidable (_ = _))

/-- A text is read as the product of its factors, with approximate numbers after a tilde. -/
theorem ofText_eq (s : String) :
    ofText s = if (unmarked (Text.trim s.toList)).isEmpty then
        .error (.malformed (String.ofList (Text.trim s.toList)))
      else readProduct (decide (IsMarked s)) one
        ((unmarked (Text.trim s.toList)).splitOn '*') := by
  rw [ofText, ofChars]
  split
  rename_i approximate body hbody
  split at hbody
  · rename_i rest htrim
    cases hbody
    have hmarked : IsMarked s := by rw [IsMarked, htrim, List.head?_cons]
    rw [decide_eq_true hmarked, htrim]
    rfl
  · rename_i hother
    cases hbody
    have hmarked : ¬ IsMarked s := by
      intro hhead
      obtain ⟨rest, hrest⟩ := List.head?_eq_some_iff.1 hhead
      exact hother rest hrest
    have hunmarked : unmarked (Text.trim s.toList) = Text.trim s.toList := by
      unfold unmarked
      split
      · rename_i rest hrest
        exact absurd hrest (hother rest)
      · rfl
    rw [decide_eq_false hmarked, hunmarked]

theorem readProduct_of_ofText {s : String} (h : ofText s = .ok m) :
    readProduct (decide (IsMarked s)) one
      ((unmarked (Text.trim s.toList)).splitOn '*') = .ok m := by
  rw [ofText_eq] at h
  split at h
  · cases h
  · exact h

/-- A magnitude that is read from a text is exact exactly if the text has no tilde in front or has
no factors but powers of pi. So the tilde decides unless it stands before such a product. -/
theorem tilde_correct_iff {s : String} (h : ofText s = .ok m) :
    (m.isExact = true ↔ ¬ IsMarked s ∨ ∀ f ∈ factors s, IsPowerOfPi f) ∧
    ((m.isExact = true ↔ ¬ IsMarked s) ↔ ¬ (IsMarked s ∧ ∀ f ∈ factors s, IsPowerOfPi f)) := by
  have hexact : m.isExact = true ↔ ¬ IsMarked s ∨ ∀ f ∈ factors s, IsPowerOfPi f := by
    have hone : one.isExact = true := rfl
    rw [isExact_readProduct (readProduct_of_ofText h), and_iff_right hone, decide_eq_false_iff_not,
      factors, List.forall_mem_map]
  refine ⟨hexact, ?_⟩
  rw [hexact]
  constructor
  · rintro hdecides ⟨hmarked, hall⟩
    exact hdecides.1 (.inr hall) hmarked
  · intro hnot
    refine ⟨?_, .inl⟩
    rintro (hunmarked | hall) hmarked
    · exact hunmarked hmarked
    · exact hnot ⟨hmarked, hall⟩

/-- One half times pi, with an approximate coefficient. -/
def halfPi : Magnitude := ⟨.approx (.finite false 4602678819172646912 (by decide)), 1⟩

/-- With a number among its factors a text is as the tilde says. -/
theorem tilde_correct_iff_halfPi :
    ofText "~0.5*pi" = .ok halfPi ∧ (halfPi.isExact = true ↔ ¬ IsMarked "~0.5*pi") := by
  have hread : ofText "~0.5*pi" = .ok halfPi := by decide +kernel
  have hnumber : ¬ IsPowerOfPi "0.5".toList := by
    rintro ⟨hstart, -⟩
    exact absurd hstart (by decide)
  refine ⟨hread, (tilde_correct_iff hread).2.2 ?_⟩
  rintro ⟨-, hall⟩
  exact hnumber (hall _ (by decide))

/-- Pi after a tilde is exact. -/
theorem isExact_tilde_pi :
    IsMarked "~pi" ∧ ofText "~pi" = .ok ⟨.exact 1, 1⟩ ∧ isExact ⟨.exact 1, 1⟩ = true := by
  refine ⟨by decide, by decide +kernel, rfl⟩

end Metrology.Magnitude
