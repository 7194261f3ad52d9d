import PostfixSheet.Calculation
import PostfixSheet.Proofs.NumberTexts
import PostfixSheet.Proofs.SheetResults
import PostfixSheet.Proofs.WrittenRows

/-!
# Results that are read again

The results of a sheet, written and read again, are a sheet of numbers and markers. A number is read
back as itself, and the marker of an error is no formula and so has an error again. So this sheet has
the same results but for the signs of zeros and the kinds of errors, neither of which is written, and it
is written in the same way.

* `Outcome.again` is what the text of an outcome comes to.

Results:
* `evaluateCell_outcomeText`: the text of an outcome comes to the outcome again.
* `calculate_texts`: so do the texts of all results, in every sheet and with both policies.
* `writtenRows_texts`, `not_mark_write`: these texts are what is read of written results, of which none
  begin with a byte order mark.
* `reevaluate_written`: reading, evaluating and writing what was written gives the same bytes again.
-/

namespace PostfixSheet

/-! ## Finite outcomes -/

/-- An outcome that is an error or a finite number. -/
def Outcome.IsFinite : Outcome → Prop
  | .number x => x.isFinite = true
  | .error _ => True

instance (outcome : Outcome) : Decidable outcome.IsFinite :=
  match outcome with
  | .number x => inferInstanceAs (Decidable (x.isFinite = true))
  | .error _ => inferInstanceAs (Decidable True)

/-- Results whose numbers are finite. -/
def Results.IsFinite (results : Results) : Prop :=
  ∀ row ∈ results.rows, ∀ outcome ∈ row, outcome.IsFinite

instance (results : Results) : Decidable results.IsFinite :=
  inferInstanceAs (Decidable (∀ row ∈ results.rows, ∀ outcome ∈ row, outcome.IsFinite))

open Csv

/-- What the text of an outcome comes to. -/
def Outcome.again : Outcome → Outcome
  | .number x => .number (reread x)
  | .error _ => .error .token

variable {outcome : Outcome} {results : Results}

theorem outcomeText_error (kind : ErrorKind) : outcomeText .default (.error kind) = "#ERR" := rfl

/-- The text of a finite outcome has characters, all of them ASCII and none of them blank. -/
theorem isPlain_outcomeText (h : outcome.IsFinite) :
    (outcomeText .default outcome).toList ≠ [] ∧
      ∀ c ∈ (outcomeText .default outcome).toList, Text.IsPlain c := by
  cases outcome with
  | number x => exact isPlain_numberText h
  | error kind =>
    rw [outcomeText_error, show "#ERR".toList = ['#', 'E', 'R', 'R'] from rfl]
    refine ⟨List.cons_ne_nil _ _, fun c hc => ?_⟩
    simp only [List.mem_cons, List.not_mem_nil, or_false] at hc
    rcases hc with rfl | rfl | rfl | rfl <;> exact ⟨by decide, by decide⟩

/-- **The text of a finite outcome comes to the outcome again**, but for what is not written. -/
theorem evaluateCell_outcomeText (sheet : Sheet) (s : State) (h : outcome.IsFinite) :
    Outcome.ofResult (evaluateCell sheet (outcomeText .default outcome) s).1 = outcome.again := by
  cases outcome with
  | number x =>
    obtain ⟨hne, hplain⟩ := isPlain_numberText h
    have hwords : Text.words (numberText x).toList = [(numberText x).toList] :=
      Text.words_eq_singleton hne fun c hc => (hplain c hc).2
    have hclassify : Content.classify (numberText x) = .number (reread x) := by
      rw [Content.classify, tokenize, hwords]
      simp only [List.map_cons, List.map_nil, String.ofList_toList, classify_numberText h]
    rw [outcomeText, evaluateCell, hclassify]
    rfl
  | error kind =>
    have hclassify : Content.classify "#ERR" = .other := by decide
    have htokens : tokenize "#ERR" = [.invalid "#ERR"] := by decide
    rw [outcomeText_error, evaluateCell, hclassify, htokens]
    rfl

/-- An outcome that came again is written as before. -/
theorem outcomeText_again (h : outcome.IsFinite) :
    outcomeText .default outcome.again = outcomeText .default outcome := by
  cases outcome with
  | number x => exact numberText_reread h
  | error kind => rfl

theorem isError_again (outcome : Outcome) : outcome.again.isError = outcome.isError := by
  cases outcome <;> rfl

/-! ## Results -/

/-- What is alike for finite outcomes is alike for all outcomes of finite results. -/
theorem Results.IsFinite.map_congr {α : Type} {f g : Outcome → α} (h : results.IsFinite)
    (hfg : ∀ outcome : Outcome, outcome.IsFinite → f outcome = g outcome) :
    results.rows.map (·.map f) = results.rows.map (·.map g) :=
  List.map_congr_left fun row hrow =>
    List.map_congr_left fun outcome houtcome => hfg outcome (h row hrow outcome houtcome)

/-- The texts of results. -/
def Results.texts (results : Results) : Sheet := ⟨results.rows.map (·.map (outcomeText .default))⟩

/-- **The texts of finite results come to these results again**, but for what is not written. -/
theorem calculate_texts (h : results.IsFinite) (policy : Policy) :
    (calculate results.texts policy).results = ⟨results.rows.map (·.map Outcome.again)⟩ := by
  rw [calculate]
  simp only [Results.texts, List.map_map, Function.comp_def, Results.mk.injEq]
  exact h.map_congr fun _ => evaluateCell_outcomeText _ _

/-- The errors that are counted are those among the results. -/
theorem errors_calculate (sheet : Sheet) (policy : Policy) :
    (calculate sheet policy).statistics.errors = (calculate sheet policy).results.errorCount := by
  rw [statistics_calculate]

/-- Results that came again have as many errors. -/
theorem errorCount_again (results : Results) :
    Results.errorCount ⟨results.rows.map (·.map Outcome.again)⟩ = results.errorCount := by
  have hisError : Outcome.isError ∘ Outcome.again = Outcome.isError := funext isError_again
  rw [Results.errorCount, Results.errorCount]
  simp only
  rw [← List.map_flatten, List.countP_map, hisError]

/-- The texts of results are all that is written. -/
theorem write_eq_texts (d : Dialect) (lineEnd : LineEnd) (results : Results) :
    write ⟨d, lineEnd, .default⟩ results = results.texts.rows.flatMap fun row =>
      recordBytes d (row.map fun text => Utf8.encode text.toList) ++ lineEnd.bytes := by
  simp only [write, Results.texts, List.flatMap_map, List.map_map, Function.comp_def]

/-- Results that came again have the same texts. -/
theorem texts_again (h : results.IsFinite) :
    Results.texts ⟨results.rows.map (·.map Outcome.again)⟩ = results.texts := by
  simp only [Results.texts, List.map_map, Function.comp_def, Sheet.mk.injEq]
  exact h.map_congr fun _ => outcomeText_again

/-- The texts of results whose rows have cells are what is read back of them, with and without the blanks
at their ends. -/
theorem writtenRows_texts (h : results.IsFinite) (hrows : ∀ row ∈ results.rows, row ≠ [])
    (trim : Bool) :
    (writtenRows .default results).map (·.map fun text => cellText trim text.toList) =
      results.texts.rows := by
  rw [writtenRows, Results.texts, List.map_map]
  refine List.map_congr_left fun row hrow => ?_
  simp only [Function.comp_apply, if_neg (hrows row hrow), List.map_map]
  refine List.map_congr_left fun outcome houtcome => ?_
  have hblank : ∀ c ∈ (outcomeText .default outcome).toList, Text.isBlank c = false := fun c hc =>
    ((isPlain_outcomeText (h row hrow outcome houtcome)).2 c hc).2
  simp only [Function.comp_apply, cellText, Text.strip_eq_self hblank, ite_self,
    String.ofList_toList]

/-- **Results whose rows have cells are not written with a byte order mark at the front.** -/
theorem not_mark_write (d : Dialect) (lineEnd : LineEnd) (h : results.IsFinite)
    (hrows : ∀ row ∈ results.rows, row ≠ []) :
    ¬ byteOrderMark <+: write ⟨d, lineEnd, .default⟩ results := by
  obtain ⟨rows⟩ := results
  cases rows with
  | nil => exact fun hmark => absurd (List.prefix_nil.mp hmark) (by decide)
  | cons row others =>
    obtain ⟨outcome, outcomes, rfl⟩ := List.exists_cons_of_ne_nil (hrows row List.mem_cons_self)
    obtain ⟨hne, hplain⟩ :=
      isPlain_outcomeText (h (outcome :: outcomes) List.mem_cons_self outcome List.mem_cons_self)
    obtain ⟨c, text, htext⟩ := List.exists_cons_of_ne_nil hne
    obtain ⟨b, hb, hc⟩ := Utf8.encodeChar_of_lt (hplain c (htext ▸ List.mem_cons_self)).1
    rw [write]
    simp only [List.flatMap_cons, List.map_cons, htext, Utf8.encode_cons, hc, List.append_assoc]
    exact not_mark_recordBytes d hb _ _ _

/-! ## The whole run -/

/-- **Evaluating what was written changes nothing**: what is read, evaluated and written is read again,
evaluated and written as the same bytes, with as many errors, as long as all numbers are finite. -/
theorem reevaluate_written (d : Dialect) (hd : d.Proper) (trim : Bool) (policy : Policy)
    (lineEnd : LineEnd) (input : List UInt8) (sheet : Sheet)
    (hread : read ⟨d, trim⟩ input = .ok sheet)
    (hfinite : (calculate sheet policy).results.IsFinite) :
    ∃ again,
      read ⟨d, trim⟩ (write ⟨d, lineEnd, .default⟩ (calculate sheet policy).results) = .ok again ∧
      write ⟨d, lineEnd, .default⟩ (calculate again policy).results =
        write ⟨d, lineEnd, .default⟩ (calculate sheet policy).results ∧
      (calculate again policy).statistics.errors = (calculate sheet policy).statistics.errors := by
  have hrows : ∀ row ∈ (calculate sheet policy).results.rows, row ≠ [] := by
    intro row hrow
    obtain ⟨texts, htexts, rfl⟩ := List.mem_map.mp hrow
    exact fun hnil => row_ne_nil_of_read hread texts htexts (List.map_eq_nil_iff.mp hnil)
  have hmark := not_mark_write d lineEnd hfinite hrows
  have hcalculate := calculate_texts hfinite policy
  refine ⟨(calculate sheet policy).results.texts, ?_, ?_, ?_⟩
  · rw [read_write_trim hd hmark, writtenRows_texts hfinite hrows]
  · rw [hcalculate, write_eq_texts, texts_again hfinite, ← write_eq_texts]
  · rw [errors_calculate, hcalculate, errorCount_again, ← errors_calculate]

/-- A cycle, a zero with a sign, a fraction that is rounded, an empty line, a quoted line break that is
taken off with the blanks, and a division by zero. -/
theorem reevaluate_written_of_mixed_cells :
    ∃ again,
      read ⟨⟨0x3B, 0x27⟩, true⟩ (Utf8.encode
        "#ERR;0;0.3333333333333333\r\n#ERR\r\n#ERR;-2.5;#ERR\r\n".toList) = .ok again ∧
      write ⟨⟨0x3B, 0x27⟩, .crlf, .default⟩ (calculate again .rewalk).results = Utf8.encode
        "#ERR;0;0.3333333333333333\r\n#ERR\r\n#ERR;-2.5;#ERR\r\n".toList ∧
      (calculate again .rewalk).statistics.errors = 4 := by
  have hread : read ⟨⟨0x3B, 0x27⟩, true⟩
      (Utf8.encode " A1 2 /; 0 -1 *; 1 3 /\n\n'\né\n';-2.50;5 0 /\n".toList) =
        .ok ⟨[["A1 2 /", "0 -1 *", "1 3 /"], [""], ["é", "-2.50", "5 0 /"]]⟩ := by
    decide +kernel
  have hagain := reevaluate_written ⟨0x3B, 0x27⟩ ⟨by decide, by decide, by decide⟩ true .rewalk .crlf
    (Utf8.encode " A1 2 /; 0 -1 *; 1 3 /\n\n'\né\n';-2.50;5 0 /\n".toList)
    ⟨[["A1 2 /", "0 -1 *", "1 3 /"], [""], ["é", "-2.50", "5 0 /"]]⟩ hread (by decide +kernel)
  have hwrite : write ⟨⟨0x3B, 0x27⟩, .crlf, .default⟩
      (calculate ⟨[["A1 2 /", "0 -1 *", "1 3 /"], [""], ["é", "-2.50", "5 0 /"]]⟩ .rewalk).results =
        Utf8.encode "#ERR;0;0.3333333333333333\r\n#ERR\r\n#ERR;-2.5;#ERR\r\n".toList := by
    decide +kernel
  have herrors : (calculate ⟨[["A1 2 /", "0 -1 *", "1 3 /"], [""], ["é", "-2.50", "5 0 /"]]⟩
      .rewalk).statistics.errors = 4 := by
    decide +kernel
  rwa [hwrite, herrors] at hagain

end PostfixSheet
