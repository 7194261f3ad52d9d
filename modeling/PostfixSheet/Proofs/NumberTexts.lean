import Mathlib.Data.List.TakeWhile
import PostfixSheet.Formula.Token
import PostfixSheet.Number.Text
import PostfixSheet.Proofs.Ranks

/-!
# Written numbers are read back

The written form of a finite number is a numeral, and the number that it stands for is the one that was
written, but for the sign of zero. It has no blanks, so it is one word and as the text of a cell a number.

Results:
* `exists_parse?_positional`: a decimal number in positional notation is a numeral, and stands for the
  same double.
* `exists_parse?_magnitudeText`: the digits that are written for a rank are read as the rank.
* `classify_numberText`, `numberText_reread`: so a finite number is read back from its text, and has that
  text again.
-/

namespace PostfixSheet

/-! ## Digits -/

namespace Decimal

variable {width n : Nat}

/-- Digits behind others make these count for as many places more. -/
theorem valueOf_append (ds es : List Char) :
    valueOf (ds ++ es) = valueOf ds * 10 ^ es.length + valueOf es := by
  unfold valueOf
  rw [Nat.ofDigitChars_append, Nat.ofDigitChars_eq_ofDigitChars_zero, Nat.mul_comm]

theorem isDigit_of_mem_padded {c : Char} (h : c ∈ padded width n) : c.isDigit = true := by
  rcases List.mem_append.mp h with h | h
  · rw [List.eq_of_mem_replicate h]
    rfl
  · exact isDigit_of_mem_digits h

/-- A fraction padded to its places has exactly those. -/
theorem length_padded_mod (n c : Nat) : (padded (n + 1) (c % 10 ^ (n + 1))).length = n + 1 :=
  length_padded ((Nat.length_toDigits_le_iff (by decide) (Nat.succ_pos n)).mpr
    (Nat.mod_lt _ (Nat.pow_pos (by decide))))

end Decimal

/-! ## Numerals -/

namespace Numeral

variable {whole places : List Char} {c : Char}

theorem ne_sign_of_isDigit (hc : c.isDigit = true) : c ≠ '-' ∧ c ≠ '+' := by
  constructor <;> rintro rfl <;> cases hc

/-- A sign in front of digits is split off. -/
theorem splitSign_sign (negative : Bool) (hne : whole ≠ []) (hwhole : ∀ c ∈ whole, c.isDigit = true)
    (rest : List Char) :
    splitSign ((if negative then ['-'] else []) ++ (whole ++ rest)) = (negative, whole ++ rest) := by
  cases negative with
  | true => rfl
  | false =>
    obtain ⟨c, more, rfl⟩ := List.exists_cons_of_ne_nil hne
    obtain ⟨hminus, hplus⟩ := ne_sign_of_isDigit (hwhole c List.mem_cons_self)
    show splitSign (c :: (more ++ rest)) = (false, c :: (more ++ rest))
    unfold splitSign
    split
    case h_1 heq => exact absurd (List.cons.inj heq).1 hminus
    case h_2 heq => exact absurd (List.cons.inj heq).1 hplus
    case h_3 => rfl

/-- Digits with a sign are a numeral. -/
theorem parse?_digits (negative : Bool) (hne : whole ≠ [])
    (hwhole : ∀ c ∈ whole, c.isDigit = true) :
    parse? ((if negative then ['-'] else []) ++ whole) =
      some ⟨negative, ⟨Decimal.valueOf whole, 0⟩⟩ := by
  have hsign := splitSign_sign negative hne hwhole []
  rw [List.append_nil] at hsign
  have htake : whole.takeWhile Char.isDigit = whole := List.takeWhile_eq_self_iff.mpr hwhole
  have hdrop : whole.dropWhile Char.isDigit = [] := List.dropWhile_eq_nil_iff.mpr hwhole
  rw [parse?, hsign]
  simp only [htake, hdrop]
  rw [show splitPlaces [] = ([], []) from rfl]
  simp [hne, exponent?]

/-- Digits with a sign, a point and places are a numeral. -/
theorem parse?_point (negative : Bool) (hne : whole ≠ [])
    (hwhole : ∀ c ∈ whole, c.isDigit = true) (hplaces : ∀ c ∈ places, c.isDigit = true) :
    parse? ((if negative then ['-'] else []) ++ (whole ++ '.' :: places)) =
      some ⟨negative, ⟨Decimal.valueOf (whole ++ places), -(places.length : Int)⟩⟩ := by
  have hsign := splitSign_sign negative hne hwhole ('.' :: places)
  have htake : (whole ++ '.' :: places).takeWhile Char.isDigit = whole := by
    rw [List.takeWhile_append_of_pos hwhole, List.takeWhile_cons_of_neg (by decide),
      List.append_nil]
  have hdrop : (whole ++ '.' :: places).dropWhile Char.isDigit = '.' :: places := by
    rw [List.dropWhile_append_of_pos hwhole, List.dropWhile_cons_of_neg (by decide)]
  have hsplit : splitPlaces ('.' :: places) = (places, []) := by
    rw [splitPlaces, List.takeWhile_eq_self_iff.mpr hplaces, List.dropWhile_eq_nil_iff.mpr hplaces]
  rw [parse?, hsign]
  simp only [htake, hdrop, hsplit]
  simp [hne, exponent?]

end Numeral

/-! ## Positional notation -/

namespace Binary64

variable {rank : Nat}

/-- Zeros behind the digits stand for the same double as an exponent, where it is not too large. -/
theorem rank_of_zeros {c zeros : Nat} (h : (⟨c, .ofNat zeros⟩ : Decimal).rank < infiniteRank) :
    (⟨c * Nat.pow 10 zeros, 0⟩ : Decimal).rank = (⟨c, .ofNat zeros⟩ : Decimal).rank := by
  rw [show (0 : Int) = .ofNat 0 from rfl, rank_ofNat, rank_ofNat]
  rw [rank_ofNat] at h
  by_cases hc : c = 0
  · rw [hc, Nat.zero_mul, if_pos rfl, if_pos rfl]
  · have hpos : 0 < Nat.pow 10 zeros := Nat.pow_pos (by decide)
    have hfew : ¬ 309 ≤ zeros := fun hmany => by
      rw [if_neg hc, if_pos hmany] at h
      exact Nat.lt_irrefl _ h
    rw [if_neg hc, if_neg hfew, if_neg (Nat.mul_ne_zero hc (Nat.ne_of_gt hpos)), if_neg (by decide)]
    exact congrArg (nearestRank · 1) (Nat.mul_one _)

/-- **A decimal number in positional notation is a numeral that stands for the same double**, whatever its
exponent is, unless the double is infinite. -/
theorem exists_parse?_positional (negative : Bool) {d : Decimal} (h : d.rank < infiniteRank) :
    ∃ m, Numeral.parse? ((if negative then ['-'] else []) ++ d.positional) = some ⟨negative, m⟩ ∧
      m.rank = d.rank := by
  obtain ⟨c, exponent⟩ := d
  unfold Decimal.positional
  cases exponent with
  | ofNat zeros =>
    refine ⟨_, Numeral.parse?_digits negative (Decimal.digits_ne_nil _)
      fun _ => Decimal.isDigit_of_mem_digits, ?_⟩
    rw [Decimal.valueOf_digits]
    exact rank_of_zeros h
  | negSucc n =>
    refine ⟨_, Numeral.parse?_point negative (Decimal.digits_ne_nil _)
      (fun _ => Decimal.isDigit_of_mem_digits) (fun _ => Decimal.isDigit_of_mem_padded), ?_⟩
    have hvalue : c / 10 ^ (n + 1) * 10 ^ (n + 1) + c % 10 ^ (n + 1) = c := Nat.div_add_mod' _ _
    rw [Nat.pow_eq, Decimal.valueOf_append, Decimal.length_padded_mod, Decimal.valueOf_digits,
      Decimal.valueOf_padded, hvalue]
    rfl

/-- **The digits that are written for a rank are a numeral that stands for the rank.** -/
theorem exists_parse?_magnitudeText (negative : Bool) (hrank : rank < infiniteRank) :
    ∃ m, Numeral.parse? ((if negative then ['-'] else []) ++ magnitudeText rank) =
        some ⟨negative, m⟩ ∧ m.rank = rank := by
  by_cases h : isSmallWhole rank = true
  · rw [magnitudeText, if_pos h]
    refine ⟨_, Numeral.parse?_digits negative (Decimal.digits_ne_nil _)
      fun _ => Decimal.isDigit_of_mem_digits, ?_⟩
    rw [isSmallWhole, Bool.and_eq_true, decide_eq_true_eq] at h
    rw [Decimal.valueOf_digits]
    refine rank_of_units (n := 0) hrank ?_
    rw [Nat.pow_zero, Nat.mul_one]
    exact Nat.div_mul_cancel (Nat.dvd_of_mod_eq_zero h.1)
  · have hshortest := rank_shortest hrank
    obtain ⟨m, hparse, hm⟩ := exists_parse?_positional negative (hshortest.symm ▸ hrank)
    rw [magnitudeText, if_neg h]
    exact ⟨m, hparse, hm.trans hshortest⟩

/-- The digits that are written for a rank may have a point among them. -/
theorem mem_magnitudeText {c : Char} (h : c ∈ magnitudeText rank) : c.isDigit = true ∨ c = '.' := by
  unfold magnitudeText at h
  split at h
  case isTrue => exact Or.inl (Decimal.isDigit_of_mem_digits h)
  case isFalse =>
    unfold Decimal.positional at h
    split at h
    case h_1 => exact Or.inl (Decimal.isDigit_of_mem_digits h)
    case h_2 =>
      rcases List.mem_append.mp h with h | h
      · exact Or.inl (Decimal.isDigit_of_mem_digits h)
      · rcases List.mem_cons.mp h with h | h
        · exact Or.inr h
        · exact Or.inl (Decimal.isDigit_of_mem_padded h)

end Binary64

/-! ## Texts of numbers -/

namespace Text

/-- A character that is ASCII and no blank. -/
def IsPlain (c : Char) : Prop := c.toNat < 0x80 ∧ isBlank c = false

theorem isPlain_of_isDigit {c : Char} (h : c.isDigit = true) : IsPlain c := by
  rw [Char.isDigit_iff_toNat, show '0'.toNat = 48 from rfl, show '9'.toNat = 57 from rfl] at h
  refine ⟨show c.toNat < 128 by omega, ?_⟩
  simp only [isBlank, blankRanges, List.any_cons, List.any_nil, Bool.or_eq_false_iff,
    Bool.and_eq_false_iff, decide_eq_false_iff_not, and_true]
  omega

/-- A text without blanks is one word. -/
theorem words_eq_singleton {text : List Char} (hne : text ≠ [])
    (h : ∀ c ∈ text, isBlank c = false) : words text = [text] := by
  rw [words, List.splitOnP_eq_singleton h]
  simp [hne]

end Text

open Binary64

section Finite

variable {x : Float} {negative : Bool} {rank : Nat}

theorem toList_numberText (h : Shape.of x = .finite negative rank) :
    (numberText x).toList =
      (if negative && rank != 0 then ['-'] else []) ++ magnitudeText rank := by
  rw [numberText, h, Shape.text, String.toList_ofList]

/-- The double that the written form of one is read as: the same one, but for the sign of zero. -/
def reread (x : Float) : Float :=
  match Shape.of x with
  | .finite negative rank => ofRank (negative && rank != 0) rank
  | _ => x

theorem reread_eq (h : Shape.of x = .finite negative rank) :
    reread x = ofRank (negative && rank != 0) rank := by rw [reread, h]

/-- **A finite number is read back from its text.** -/
theorem classify_numberText (hx : x.isFinite = true) :
    Token.classify (numberText x) = .number (reread x) := by
  obtain ⟨negative, rank, h⟩ := exists_shape_of_isFinite hx
  obtain ⟨m, hparse, hm⟩ := exists_parse?_magnitudeText (negative && rank != 0) (shape_rank_lt h)
  rw [← toList_numberText h] at hparse
  rw [Token.classify_of_parse? hparse, Numeral.toFloat, hm, reread_eq h]

/-- **A number that was read back has its text again.** -/
theorem numberText_reread (hx : x.isFinite = true) : numberText (reread x) = numberText x := by
  obtain ⟨negative, rank, h⟩ := exists_shape_of_isFinite hx
  have hreread : Shape.of (reread x) = .finite (negative && rank != 0) rank := by
    rw [reread_eq h, shape_ofRank (shape_rank_lt h)]
  apply String.toList_injective
  rw [toList_numberText hreread, toList_numberText h, Bool.and_assoc, Bool.and_self]

/-- The text of a finite number has characters, all of them ASCII and none of them blank. -/
theorem isPlain_numberText (hx : x.isFinite = true) :
    (numberText x).toList ≠ [] ∧ ∀ c ∈ (numberText x).toList, Text.IsPlain c := by
  obtain ⟨negative, rank, h⟩ := exists_shape_of_isFinite hx
  rw [toList_numberText h]
  constructor
  · obtain ⟨m, hparse, -⟩ := exists_parse?_magnitudeText (negative && rank != 0) (shape_rank_lt h)
    intro hnil
    rw [hnil] at hparse
    cases hparse
  · intro c hc
    rcases List.mem_append.mp hc with hc | hc
    · split at hc
      · rw [List.mem_singleton.mp hc]
        exact ⟨by decide, by decide⟩
      · cases hc
    · rcases mem_magnitudeText hc with hc | rfl
      · exact Text.isPlain_of_isDigit hc
      · exact ⟨by decide, by decide⟩

end Finite

end PostfixSheet
