import PostfixSheet.Proofs.Reevaluation
import PostfixSheet.Proofs.WholeNumbers

/-!
# What written outcomes tell

Where every error is written as its code, a file of results tells them apart: the text of a finite number
is a numeral without an exponent and is read as that number, but for the sign of zero, and no number has
the text of an error.

* `Positional` are the texts of digits with a point among them or not.
* `Outcome.unsigned` forgets the sign of zero, which is all that is lost.

Results:
* `positional_magnitudeText`: what is written for a rank is digits, or digits around a point.
* `reread_eq_unsignedZero`: a number is read back as itself, but for the sign of zero.
* `numberText_ne_code`: no number is written as an error.
* `outcomeText_detailed_inj`: outcomes that are written alike are equal, but for the sign of zero.
* `outcomeText_decodes`: all of it, and that the cast of a whole number is exact.
-/

namespace PostfixSheet

open Binary64 Csv

/-! ## The form of the text -/

/-- At least one digit and nothing else. -/
def IsDigits (text : List Char) : Prop := text ≠ [] ∧ ∀ c ∈ text, c.isDigit = true

/-- Digits, with a point and more digits behind them or not. -/
inductive Positional : List Char → Prop where
  | whole {ds : List Char} : IsDigits ds → Positional ds
  | point {ds es : List Char} : IsDigits ds → IsDigits es → Positional (ds ++ '.' :: es)

theorem isDigits_digits (n : Nat) : IsDigits (Decimal.digits n) :=
  ⟨Decimal.digits_ne_nil n, fun _ => Decimal.isDigit_of_mem_digits⟩

theorem isDigits_padded_mod (n c : Nat) : IsDigits (Decimal.padded (n + 1) (c % 10 ^ (n + 1))) := by
  refine ⟨fun hnil => ?_, fun _ => Decimal.isDigit_of_mem_padded⟩
  have hlength := Decimal.length_padded_mod n c
  rw [hnil] at hlength
  cases hlength

theorem positional_positional (d : Decimal) : Positional d.positional := by
  unfold Decimal.positional
  split
  · exact .whole (isDigits_digits _)
  · exact .point (isDigits_digits _) (isDigits_padded_mod _ _)

/-- What is written for a rank is digits, or digits around a point. -/
theorem positional_magnitudeText (rank : Nat) : Positional (magnitudeText rank) := by
  unfold magnitudeText
  split
  · exact .whole (isDigits_digits _)
  · exact positional_positional _

/-! ## Numbers -/

section Numbers

variable {x : Float}

/-- A number without the sign that a zero may have. -/
def unsignedZero (x : Float) : Float := if x = -0.0 then 0.0 else x

/-- **A number is read back as itself, but for the sign of zero.** -/
theorem reread_eq_unsignedZero (x : Float) : reread x = unsignedZero x := by
  have hzero : Shape.of (-0.0) = .finite true 0 := by decide +kernel
  unfold unsignedZero
  by_cases hx : x = -0.0
  · rw [if_pos hx, hx]
    decide +kernel
  · rw [if_neg hx]
    cases h : Shape.of x with
    | nan => rw [reread, h]
    | infinite negative => rw [reread, h]
    | finite negative rank =>
      have hsign : (negative && rank != 0) = negative := by
        cases negative with
        | false => rfl
        | true =>
          rw [Bool.true_and, bne_iff_ne]
          rintro rfl
          exact hx ((ofRank_of_shape h).symm.trans (ofRank_of_shape hzero))
      rw [reread_eq h, hsign, ofRank_of_shape h]

/-- The text of a finite number is digits around a point or without one, behind a sign if it is less than
zero. -/
theorem positional_numberText (hx : x.isFinite = true) :
    ∃ digits, Positional digits ∧
      ((numberText x).toList = digits ∨ (numberText x).toList = '-' :: digits) := by
  obtain ⟨negative, rank, h⟩ := exists_shape_of_isFinite hx
  refine ⟨magnitudeText rank, positional_magnitudeText rank, ?_⟩
  rw [toList_numberText h]
  split
  · exact Or.inr rfl
  · exact Or.inl rfl

/-- **The text of an infinity, or of what is no number, is no word of a formula.** -/
theorem classify_numberText_of_not_isFinite (hx : x.isFinite = false) :
    Token.classify (numberText x) = .invalid (numberText x) := by
  cases h : Shape.of x with
  | nan => rw [text_nan h]; decide
  | infinite negative =>
    rw [text_infinite h]
    cases negative <;> decide
  | finite negative rank => exact absurd (isFinite_of_shape h) (by rw [hx]; decide)

/-- No text of a number has the character that the codes of errors begin with. -/
theorem ne_sharp_of_mem_numberText {c : Char} (hc : c ∈ (numberText x).toList) : c ≠ '#' := by
  cases h : Shape.of x with
  | nan =>
    rw [text_nan h] at hc
    rintro rfl
    revert hc
    decide
  | infinite negative =>
    rw [text_infinite h] at hc
    rintro rfl
    revert hc
    cases negative <;> decide
  | finite negative rank =>
    rw [toList_numberText h] at hc
    rintro rfl
    rcases List.mem_append.mp hc with hc | hc
    · split at hc
      · exact absurd (List.mem_singleton.mp hc) (by decide)
      · cases hc
    · rcases mem_magnitudeText hc with hdigit | hpoint
      · exact absurd hdigit (by decide)
      · exact absurd hpoint (by decide)

/-- **No number is written as an error.** -/
theorem numberText_ne_code (x : Float) (kind : ErrorKind) : numberText x ≠ kind.code := by
  intro h
  have hsharp : '#' ∈ (numberText x).toList := by
    rw [h]
    cases kind <;> decide
  exact ne_sharp_of_mem_numberText hsharp rfl

end Numbers

/-! ## Outcomes -/

/-- An outcome without the sign that a zero may have. -/
def Outcome.unsigned : Outcome → Outcome
  | .number x => .number (unsignedZero x)
  | .error kind => .error kind

theorem code_injective {kind kind' : ErrorKind} (h : kind.code = kind'.code) : kind = kind' := by
  have hcode := ErrorKind.ofCode?_code kind
  rw [h, ErrorKind.ofCode?_code] at hcode
  exact (Option.some.inj hcode).symm

/-- **Finite outcomes are written alike, with the codes of errors, exactly if they are equal but for the
sign of zero.** -/
theorem outcomeText_detailed_inj {outcome outcome' : Outcome} (h : outcome.IsFinite)
    (h' : outcome'.IsFinite) :
    outcomeText .detailed outcome = outcomeText .detailed outcome' ↔
      outcome.unsigned = outcome'.unsigned := by
  cases outcome with
  | number x =>
    cases outcome' with
    | number y =>
      show numberText x = numberText y ↔ Outcome.number (unsignedZero x) = .number (unsignedZero y)
      rw [Outcome.number.injEq, ← reread_eq_unsignedZero, ← reread_eq_unsignedZero]
      constructor
      · intro htext
        have hclassify := classify_numberText h
        rw [htext, classify_numberText h', Token.number.injEq] at hclassify
        exact hclassify.symm
      · intro hreread
        rw [← numberText_reread h, hreread, numberText_reread h']
    | error kind =>
      refine ⟨fun htext => absurd htext (numberText_ne_code x kind), fun hequal => ?_⟩
      cases hequal
  | error kind =>
    cases outcome' with
    | number y =>
      refine ⟨fun htext => absurd htext.symm (numberText_ne_code y kind), fun hequal => ?_⟩
      cases hequal
    | error kind' =>
      show kind.code = kind'.code ↔ Outcome.error kind = .error kind'
      rw [Outcome.error.injEq]
      exact ⟨code_injective, congrArg ErrorKind.code⟩

/-! ## Decoding -/

/-- **What is written for an outcome can be decoded again.** The text of a finite number is digits around
a point or without one, with a minus in front or not, and is read as that number, but for the sign of
zero; the text of any other number is no word of a formula. With codes for the errors, the text of an error
is read as that error, and no number has it; so outcomes that are finite are written alike only if they are
equal, but for the sign of zero. And a double without a fraction below `10 ^ 15` is written as the number
of 64 bits that it is cast to, which has exactly its value. -/
theorem outcomeText_decodes :
    (∀ x : Float, x.isFinite = true →
      (∃ digits, Positional digits ∧
        ((numberText x).toList = digits ∨ (numberText x).toList = '-' :: digits)) ∧
      Token.classify (numberText x) = .number (if x = -0.0 then 0.0 else x)) ∧
    (∀ x : Float, x.isFinite = false →
      Token.classify (numberText x) = .invalid (numberText x)) ∧
    (∀ kind : ErrorKind, ErrorKind.ofCode? (outcomeText .detailed (.error kind)) = some kind ∧
      ∀ x : Float, outcomeText .detailed (.number x) ≠ outcomeText .detailed (.error kind)) ∧
    (∀ outcome outcome' : Outcome, outcome.IsFinite → outcome'.IsFinite →
      (outcomeText .detailed outcome = outcomeText .detailed outcome' ↔
        outcome.unsigned = outcome'.unsigned)) ∧
    (∀ x : Float, isWhole x = true → x.abs < 1e15 →
      numberText x = toString (castInt64 x) ∧
      (castInt64 x).toInt * unitsPerOne = signedUnits x) := by
  refine ⟨fun x hx => ⟨positional_numberText hx, ?_⟩, fun x => classify_numberText_of_not_isFinite,
    fun kind => ⟨ErrorKind.ofCode?_code kind, fun x => numberText_ne_code x kind⟩,
    fun _ _ => outcomeText_detailed_inj, fun x hwhole hsmall => ?_⟩
  · rw [classify_numberText hx, reread_eq_unsignedZero, unsignedZero]
  · obtain ⟨negative, rank, h⟩ := exists_shape_of_isWhole hwhole
    have hrank := (isSmallWhole_iff h).mpr ⟨hwhole, hsmall⟩
    exact ⟨numberText_of_isSmallWhole h hrank, castInt64_mul_unitsPerOne h hrank⟩

/-- Both zeros, the last whole number that is cast, infinity and a cycle. -/
theorem outcomeText_decodes_of_zeros :
    Token.classify (numberText (-0.0)) = .number 0.0 ∧
    Token.classify (numberText (1.0 / 0.0)) = .invalid "inf" ∧
    ErrorKind.ofCode? (outcomeText .detailed (.error .cycle)) = some .cycle ∧
    outcomeText .detailed (.number (-0.0)) = outcomeText .detailed (.number 0.0) ∧
    numberText (-999999999999999) = toString (castInt64 (-999999999999999)) := by
  obtain ⟨hfinite, hother, hkind, halike, hwhole⟩ := outcomeText_decodes
  have hinfinite : numberText (1.0 / 0.0) = "inf" := by decide +kernel
  refine ⟨?_, ?_, (hkind .cycle).1, ?_, ?_⟩
  · rw [(hfinite (-0.0) (by decide +kernel)).2, if_pos rfl]
  · rw [hother (1.0 / 0.0) (by decide +kernel), hinfinite]
  · exact (halike (.number (-0.0)) (.number 0.0) (by decide +kernel) (by decide +kernel)).mpr
      (by decide +kernel)
  · exact (hwhole (-999999999999999) (by decide +kernel) (by decide +kernel)).1

end PostfixSheet
