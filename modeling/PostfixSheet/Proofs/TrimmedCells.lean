import PostfixSheet.Calculation
import PostfixSheet.Csv.Writer
import PostfixSheet.Proofs.ReadRows
import PostfixSheet.Proofs.Spellings

/-!
# Cells without the blanks at their ends

Whether blanks are taken off the ends of fields makes no difference to what is evaluated. The blanks that
are taken off before the bytes are read as text are bytes of their own in UTF-8, so the same fields are
texts; those that are taken off behind stand at the ends of a text, where they belong to no word. So the
same inputs are read, and cell by cell the same tokens.

* `Together` says that two results fail together, or come to related values together.

Results:
* `tokenize_cellText`: a text has the same tokens without the blanks at its ends.
* `fieldText_together`, `fieldTexts_together`, `rowsFrom_together`: so have a field, a record and the rows
  of all records, if they are texts at all.
* `read_together`: an input is read as sheets with the same tokens, or not at all.
* `read_trim_together`: so the results, the counts and what is written are the same.
-/

namespace PostfixSheet

/-! ## Texts without the blanks at their ends -/

namespace Text

/-- Without the blanks at its ends a text has the same words. -/
theorem words_strip (text : List Char) : words (strip isBlank text) = words text := by
  obtain ⟨front, back, htext, hfront, hback⟩ := exists_strip isBlank text
  conv => rhs; rw [htext]
  rw [words_append_end hback, words_gap_append hfront]

end Text

namespace Csv

/-- **A text has the same tokens without the blanks at its ends.** -/
theorem tokenize_cellText (trim : Bool) (text : List Char) :
    tokenize (cellText trim text) = tokenize (String.ofList text) := by
  rw [tokenize, tokenize, cellText, String.toList_ofList, String.toList_ofList]
  cases trim with
  | true => rw [if_pos rfl, Text.words_strip]
  | false => rw [if_neg Bool.false_ne_true]

/-! ## Failing and succeeding together -/

/-- Both results are failures, or both are values, and these are related. -/
inductive Together {ε α β : Type} (rel : α → β → Prop) : Except ε α → Except ε β → Prop
  | ok {x : α} {y : β} (h : rel x y) : Together rel (.ok x) (.ok y)
  | error (e f : ε) : Together rel (.error e) (.error f)

theorem Together.map {ε α β α' β' : Type} {rel : α → β → Prop} {rel' : α' → β' → Prop}
    {r : Except ε α} {t : Except ε β} {f : α → α'} {g : β → β'} (h : Together rel r t)
    (hfg : ∀ x y, rel x y → rel' (f x) (g y)) : Together rel' (r.map f) (t.map g) := by
  cases h with
  | ok h => exact .ok (hfg _ _ h)
  | error e f => exact .error e f

/-- Texts with the same tokens. -/
def SameTokens (text text' : String) : Prop := tokenize text' = tokenize text

/-- Rows of texts with the same tokens. -/
def SameRow (row row' : List String) : Prop := row'.map tokenize = row.map tokenize

/-- Sheets of texts with the same tokens. -/
def SameRows (rows rows' : List (List String)) : Prop :=
  rows'.map (·.map tokenize) = rows.map (·.map tokenize)

/-- **A field is a text with and without the blanks at its ends**, with the same tokens, or in neither
way. -/
theorem fieldText_together (bytes : List UInt8) :
    Together SameTokens (fieldText false bytes) (fieldText true bytes) := by
  by_cases htext : Utf8.IsText bytes
  · obtain ⟨text, rfl⟩ := htext
    rw [fieldText_encode, fieldText_encode]
    exact .ok ((tokenize_cellText true text).trans (tokenize_cellText false text).symm)
  · have herror : ∀ {bytes}, ¬ Utf8.IsText bytes → ∃ n, Utf8.decode bytes = .error n := by
      intro bytes h
      cases hdecode : Utf8.decode bytes with
      | ok text => exact absurd ⟨text, Utf8.decode_eq_ok_iff.mp hdecode⟩ h
      | error n => exact ⟨n, rfl⟩
    obtain ⟨n, hn⟩ := herror htext
    obtain ⟨m, hm⟩ := herror (mt Utf8.isText_strip_iff.mp htext)
    rw [fieldText, fieldText, if_neg Bool.false_ne_true, if_pos rfl, hn, hm]
    exact .error n m

theorem fieldTexts_together (index : Nat) (fields : List (List UInt8)) :
    Together SameRow (fieldTexts false index fields) (fieldTexts true index fields) := by
  induction fields generalizing index with
  | nil => exact .ok rfl
  | cons field fields ih =>
    have hfield := fieldText_together field
    rw [fieldTexts, fieldTexts]
    generalize fieldText false field = r at hfield
    generalize fieldText true field = t at hfield
    cases hfield with
    | error n m => exact .error _ _
    | ok htext =>
      refine (ih (index + 1)).map fun row row' hrow => ?_
      rw [SameRow, List.map_cons, List.map_cons, hrow, htext]

theorem rowsFrom_together (d : Dialect) (input : List UInt8) (index : Nat)
    {done done' : List (List String)} (hdone : SameRows done done') (found : List Record) :
    Together SameRows (rowsFrom ⟨d, false⟩ input index done found)
      (rowsFrom ⟨d, true⟩ input index done' found) := by
  induction found generalizing index done done' with
  | nil =>
    refine .ok ?_
    rw [SameRows, List.map_reverse, List.map_reverse, hdone]
  | cons record found ih =>
    have hrecord := fieldTexts_together 0 record.fields
    rw [rowsFrom, rowsFrom]
    generalize fieldTexts false 0 record.fields = r at hrecord
    generalize fieldTexts true 0 record.fields = t at hrecord
    cases hrecord with
    | error e f => exact .error _ _
    | ok hrow =>
      refine ih (index + 1) ?_
      rw [SameRows, List.map_cons, List.map_cons, List.map_append, List.map_append, hdone, hrow]

/-- **An input is read with and without the blanks at the ends of its fields**, as sheets with the same
tokens, or in neither way. -/
theorem read_together (d : Dialect) (input : List UInt8) :
    Together (fun sheet trimmed => trimmed.tokens = sheet.tokens)
      (read ⟨d, false⟩ input) (read ⟨d, true⟩ input) :=
  (rowsFrom_together d input 0 rfl (records d input)).map fun _ _ h => h

-- The errors may differ: a blank in front of a byte that begins no text is counted unless it is taken off.
example : read ⟨.comma, false⟩ [0x20, 0xFF] = .error ⟨0, 1, 0, 0, 1⟩ ∧
    read ⟨.comma, true⟩ [0x20, 0xFF] = .error ⟨0, 1, 0, 0, 0⟩ := by
  decide +kernel

/-- **Taking the blanks off the ends of fields changes nothing that is evaluated or written.** In every
dialect an input is read in both ways or in neither. If it is read, the two sheets have the same shape, and
their results, counts and written bytes are the same under both policies and in every way of writing. -/
theorem read_trim_together (d : Dialect) (input : List UInt8) :
    Together
      (fun sheet trimmed =>
        trimmed.rows.map List.length = sheet.rows.map List.length ∧
          ∀ policy, calculate trimmed policy = calculate sheet policy ∧
            ∀ options, write options (calculate trimmed policy).results =
              write options (calculate sheet policy).results)
      (read ⟨d, false⟩ input) (read ⟨d, true⟩ input) := by
  have hread := read_together d input
  generalize read ⟨d, false⟩ input = r at hread ⊢
  generalize read ⟨d, true⟩ input = t at hread ⊢
  cases hread with
  | error e f => exact .error e f
  | ok htokens =>
    refine .ok ⟨Sheet.map_length_of_tokens htokens, fun policy => ?_⟩
    have hcalculate := calculate_of_tokens htokens policy
    exact ⟨hcalculate, fun options => by rw [hcalculate]⟩

end Csv

end PostfixSheet
