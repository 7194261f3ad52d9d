import PostfixSheet.Csv.Writer
import PostfixSheet.Proofs.ReadRows

/-!
# What is written is read back

A written field is cut nowhere, whatever it holds: it has no byte with a role, or it stands in quotes
with its own quotes doubled. So a written row is one line, its cells are the written fields, and each of
them is the field again without its quotes. A row that would be an empty line, which the reader may drop,
is a quoted empty field instead.

* `writtenRows` are the texts that are written, row by row; a row of none counts as one empty cell.

Results:
* `quoteField_spans`: a written field is cut nowhere, and is the field without its quotes.
* `lines_recordBytes`, `lineRow_recordBytes`: a written row is one line, and the row of that line.
* `fileRows_flatMap_recordBytes`: so the rows of a written file are the rows that were written.
* `not_mark_recordBytes`: rows that begin with ASCII are not written with a byte order mark at the front.
* `read_written`: so they are read back, in all dialects of different bytes, with all markers and line
  ends.
-/

namespace PostfixSheet

namespace Csv

variable {d : Dialect} {field rest : List UInt8} {fields : List (List UInt8)}

/-- A place at which a cell may end. -/
def Place.Ends (p : Place) : Prop := p ≠ .quoted ∧ p ≠ .afterReturn

/-! ## Fields -/

/-- A field that holds no byte with a role is cut nowhere and has no quotes. -/
theorem plain_spans {p : Place} (hp : p = .start ∨ p = .plain) (h : needsQuotes d field = false) :
    ∃ q, (q = .start ∨ q = .plain) ∧ Spans d p field q ∧ unquoted d p field = field := by
  induction field generalizing p with
  | nil => exact ⟨p, hp, .nil p, rfl⟩
  | cons b field ih =>
    rw [needsQuotes, List.any_cons, Bool.or_eq_false_iff, Bool.or_eq_false_iff,
      Bool.or_eq_false_iff, beq_eq_false_iff_ne, beq_eq_false_iff_ne] at h
    obtain ⟨⟨⟨hdelimiter, hquote⟩, hbreak⟩, hfield⟩ := h
    have hnext : p.next d b = .plain := by
      rcases hp with rfl | rfl <;> simp [Place.next, hdelimiter, hquote]
    have hmark : p.isMark d b = false := by simp [Place.isMark, hquote]
    obtain ⟨q, hq, hspans, hunquoted⟩ := ih (Or.inr rfl) hfield
    refine ⟨q, hq, .cons (Or.inr ⟨hbreak, hdelimiter⟩) (hnext ▸ hspans), ?_⟩
    rw [unquoted, hmark, hnext, hunquoted]
    rfl

theorem doubleQuotes_cons (quote b : UInt8) (field : List UInt8) :
    doubleQuotes quote (b :: field) =
      (if b = quote then [b, b] else [b]) ++ doubleQuotes quote field := rfl

/-- Inside of quotes a field with its quotes doubled is cut nowhere, and is the field. -/
theorem doubleQuotes_spans (hd : d.Proper) (field : List UInt8) :
    Spans d .quoted (doubleQuotes d.quote field) .quoted ∧
      ∀ rest, unquoted d .quoted (doubleQuotes d.quote field ++ rest) =
        field ++ unquoted d .quoted rest := by
  induction field with
  | nil => exact ⟨.nil _, fun _ => rfl⟩
  | cons b field ih =>
    obtain ⟨hspans, hunquoted⟩ := ih
    rw [doubleQuotes_cons]
    by_cases hb : b = d.quote
    · subst hb
      rw [if_pos rfl]
      refine ⟨.cons (Or.inl rfl) (.cons (uncut_quote hd _) ?_), fun rest => ?_⟩
      · simpa [Place.next] using hspans
      · -- the first of the two would close the quotes, the second one is kept
        simp [unquoted, Place.isMark, Place.next, hunquoted]
    · rw [if_neg hb]
      refine ⟨.cons (Or.inl rfl) ?_, fun rest => ?_⟩
      · simpa [Place.next, hb] using hspans
      · simp [unquoted, Place.isMark, Place.next, hb, hunquoted]

/-- A field in quotes is cut nowhere, and is the field without them. -/
theorem quotes_spans (hd : d.Proper) (field : List UInt8) :
    Spans d .start (d.quote :: doubleQuotes d.quote field ++ [d.quote]) .closing ∧
      unquoted d .start (d.quote :: doubleQuotes d.quote field ++ [d.quote]) = field := by
  obtain ⟨hspans, hunquoted⟩ := doubleQuotes_spans hd field
  have hopen : Place.next d d.quote .start = .quoted := by simp [Place.next]
  have hclose : Place.next d d.quote .quoted = .closing := by simp [Place.next]
  refine ⟨.cons (uncut_quote hd _) (hopen ▸ hspans.append (.cons (Or.inl rfl) ?_)), ?_⟩
  · exact hclose ▸ .nil _
  · simp [unquoted, Place.isMark, hopen, hunquoted]

/-- **A written field is cut nowhere, and is the field without its quotes.** -/
theorem quoteField_spans (hd : d.Proper) (field : List UInt8) :
    (∃ q : Place, q.Ends ∧ Spans d .start (quoteField d field) q) ∧
      unquoted d .start (quoteField d field) = field := by
  unfold quoteField
  cases h : needsQuotes d field with
  | false =>
    obtain ⟨q, hq, hspans, hunquoted⟩ := plain_spans (Or.inl rfl) h
    refine ⟨⟨q, ?_, hspans⟩, hunquoted⟩
    rcases hq with rfl | rfl <;> exact ⟨by decide, by decide⟩
  | true =>
    obtain ⟨hspans, hunquoted⟩ := quotes_spans hd field
    exact ⟨⟨.closing, ⟨by decide, by decide⟩, hspans⟩, hunquoted⟩

/-! ## Rows -/

/-- Written fields with delimiters between them belong to one line, and are its cells. -/
theorem intercalate_spans (hd : d.Proper) (hne : fields ≠ []) :
    (∃ q : Place, q.Ends ∧ ∀ rest,
      lines d .start ([d.delimiter].intercalate (fields.map (quoteField d)) ++ rest) =
        (lines d q rest).modifyHead ([d.delimiter].intercalate (fields.map (quoteField d)) ++ ·)) ∧
      cells d .start ([d.delimiter].intercalate (fields.map (quoteField d))) =
        fields.map (quoteField d) := by
  induction fields with
  | nil => exact absurd rfl hne
  | cons field fields ih =>
    obtain ⟨⟨q, hq, hspans⟩, -⟩ := quoteField_spans hd field
    cases fields with
    | nil =>
      rw [List.map_singleton, List.intercalate_singleton]
      have hcells := hspans.cells []
      rw [List.append_nil] at hcells
      exact ⟨⟨q, hq, hspans.lines⟩, by simpa [cells] using hcells⟩
    | cons next fields =>
      obtain ⟨⟨q', hq', hlines⟩, hcells⟩ := ih (List.cons_ne_nil _ _)
      have hcut : [d.delimiter].intercalate ((field :: next :: fields).map (quoteField d)) =
          quoteField d field ++ (d.delimiter ::
            [d.delimiter].intercalate ((next :: fields).map (quoteField d))) := by
        simp [List.intercalate_cons_cons]
      rw [hcut]
      refine ⟨⟨q', hq', fun rest => ?_⟩, ?_⟩
      · rw [List.append_assoc, hspans.lines, List.cons_append, lines_cons_delimiter hd hq.1, hlines,
          List.modifyHead_modifyHead, List.modifyHead_modifyHead]
        simp [Function.comp_def]
      · rw [hspans.cells, cells_cons_delimiter hq.1, hcells]
        simp

/-- **A written row is one line.** -/
theorem lines_recordBytes (hd : d.Proper) (fields : List (List UInt8)) :
    ∃ q : Place, q.Ends ∧ ∀ rest,
      lines d .start (recordBytes d fields ++ rest) =
        (lines d q rest).modifyHead (recordBytes d fields ++ ·) := by
  unfold recordBytes
  simp only
  split_ifs with h
  · exact ⟨.closing, ⟨by decide, by decide⟩, (quotes_spans hd []).1.lines⟩
  · have hne : fields ≠ [] := by
      rintro rfl
      exact h rfl
    exact (intercalate_spans hd hne).1

/-- Two quotes are an empty cell. -/
theorem lineRow_quotes (hd : d.Proper) : lineRow d [d.quote, d.quote] = [[]] := by
  obtain ⟨hspans, hunquoted⟩ := quotes_spans hd []
  have hcells : cells d .start [d.quote, d.quote] = [[d.quote, d.quote]] := by
    simpa [cells, doubleQuotes] using hspans.cells []
  rw [lineRow, hcells, List.map_singleton]
  exact congrArg (fun field => [field]) hunquoted

/-- **A written row is the row of its line**; one of no fields is the row of an empty one. -/
theorem lineRow_recordBytes (hd : d.Proper) (fields : List (List UInt8)) :
    lineRow d (recordBytes d fields) = if fields = [] then [[]] else fields := by
  by_cases hne : fields = []
  · rw [if_pos hne, hne]
    exact lineRow_quotes hd
  · have hrow : lineRow d ([d.delimiter].intercalate (fields.map (quoteField d))) = fields := by
      rw [lineRow, (intercalate_spans hd hne).2, List.map_map]
      exact List.map_id'' (fun field => (quoteField_spans hd field).2) fields
    rw [if_neg hne]
    unfold recordBytes
    simp only
    split_ifs with h
    · -- the fields are those of an empty line, so they are one empty field
      rw [List.isEmpty_iff.mp h, lineRow_nil] at hrow
      rw [← hrow]
      exact lineRow_quotes hd
    · exact hrow

/-- The first byte of a field is the first or the second one that is written for it. -/
theorem quoteField_cons (d : Dialect) (b : UInt8) (field : List UInt8) :
    quoteField d (b :: field) = b :: field ∨
      ∃ behind, quoteField d (b :: field) = d.quote :: b :: behind := by
  unfold quoteField
  split
  case isTrue =>
    right
    rw [doubleQuotes_cons]
    by_cases hb : b = d.quote
    · exact ⟨_, by rw [if_pos hb]; rfl⟩
    · exact ⟨_, by rw [if_neg hb]; rfl⟩
  case isFalse => exact Or.inl rfl

/-- A written row begins with its first field, if that is not empty. -/
theorem quoteField_prefix_recordBytes (d : Dialect) (b : UInt8) (field : List UInt8)
    (fields : List (List UInt8)) :
    quoteField d (b :: field) <+: recordBytes d ((b :: field) :: fields) := by
  have hprefix : quoteField d (b :: field) <+:
      [d.delimiter].intercalate (((b :: field) :: fields).map (quoteField d)) := by
    cases fields with
    | nil => exact ⟨[], by simp⟩
    | cons next fields =>
      rw [List.map_cons, List.map_cons, List.intercalate_cons_cons, List.append_assoc]
      exact List.prefix_append _ _
  have hne : quoteField d (b :: field) ≠ [] := by
    rcases quoteField_cons d b field with h | ⟨behind, h⟩ <;> rw [h] <;> exact List.cons_ne_nil _ _
  rw [recordBytes, if_neg]
  · exact hprefix
  · intro hempty
    rw [List.isEmpty_iff.mp hempty, List.prefix_nil] at hprefix
    exact hne hprefix

/-- **A row whose first text begins with an ASCII character is not written with a byte order mark at the
front**, whatever the quote is. -/
theorem not_mark_recordBytes (d : Dialect) {b : UInt8} (hb : b.toNat < 0x80) (field : List UInt8)
    (fields : List (List UInt8)) (rest : List UInt8) :
    ¬ byteOrderMark <+: recordBytes d ((b :: field) :: fields) ++ rest := by
  obtain ⟨behind, hrow⟩ := quoteField_prefix_recordBytes d b field fields
  rw [← hrow]
  rintro ⟨after, hmark⟩
  rcases quoteField_cons d b field with h | ⟨inside, h⟩ <;> rw [h] at hmark
  · have hfirst : (0xEF : UInt8) = b := (List.cons.inj hmark).1
    rw [← hfirst] at hb
    exact absurd hb (by decide)
  · have hsecond : (0xBB : UInt8) = b := (List.cons.inj (List.cons.inj hmark).2).1
    rw [← hsecond] at hb
    exact absurd hb (by decide)

/-! ## Files -/

variable {lineEnd : LineEnd}

/-- The end of a written line ends it, and the next one is at its front. -/
theorem lines_lineEnd {p : Place} (hp : p.Ends) (rest : List UInt8) :
    lines d p (lineEnd.bytes ++ rest) = [] :: lines d .start rest := by
  cases lineEnd with
  | lf => exact lines_cons_break hp.1 hp.2 rfl
  | crlf =>
    have hreturn : lines d p (LineEnd.crlf.bytes ++ rest) =
        [] :: lines d .afterReturn (lineFeed :: rest) := lines_cons_break hp.1 hp.2 rfl
    -- the line feed completes the carriage return
    rw [hreturn, lines, if_pos ⟨rfl, rfl⟩]

/-- The lines of written rows are the rows as they are written, and behind the last one an empty line. -/
theorem lines_flatMap_recordBytes (hd : d.Proper) (rows : List (List (List UInt8))) :
    lines d .start (rows.flatMap fun fields => recordBytes d fields ++ lineEnd.bytes) =
      rows.map (recordBytes d) ++ [[]] := by
  induction rows with
  | nil => rfl
  | cons fields rows ih =>
    obtain ⟨q, hq, hlines⟩ := lines_recordBytes hd fields
    rw [List.flatMap_cons, List.append_assoc, hlines, lines_lineEnd hq, ih]
    simp

/-- **The rows of a written file** are the rows that were written; one of no fields has one that is
empty. -/
theorem fileRows_flatMap_recordBytes (hd : d.Proper) (rows : List (List (List UInt8))) :
    fileRows d (rows.flatMap fun fields => recordBytes d fields ++ lineEnd.bytes) =
      rows.map fun fields => if fields = [] then [[]] else fields := by
  have hkept : (rows.map (recordBytes d) ++ [[]]).rdropWhile List.isEmpty =
      rows.map (recordBytes d) := by
    rw [List.rdropWhile_concat_pos _ _ _ rfl, List.rdropWhile_eq_self_iff]
    intro hne hempty
    obtain ⟨fields, -, hline⟩ := List.mem_map.mp (List.getLast_mem hne)
    exact recordBytes_ne_nil d fields (hline.trans (List.isEmpty_iff.mp hempty))
  rw [fileRows, lines_flatMap_recordBytes hd, hkept, List.map_map]
  exact List.map_congr_left fun fields _ => lineRow_recordBytes hd fields

/-! ## Written results -/

/-- The texts that are written for results, row by row; a row of none is read back as an empty cell. -/
def writtenRows (marker : Marker) (results : Results) : List (List String) :=
  results.rows.map fun row => if row = [] then [""] else row.map (outcomeText marker)

variable {marker : Marker} {results : Results}

/-- The rows of written results are the written texts. -/
theorem fileRows_write (hd : d.Proper) :
    fileRows d (write ⟨d, lineEnd, marker⟩ results) =
      (writtenRows marker results).map (·.map fun text => Utf8.encode text.toList) := by
  have hwrite : write ⟨d, lineEnd, marker⟩ results =
      (results.rows.map fun row => row.map fun outcome =>
        Utf8.encode (outcomeText marker outcome).toList).flatMap fun fields =>
          recordBytes d fields ++ lineEnd.bytes := by
    rw [write, List.flatMap_map]
  rw [hwrite, fileRows_flatMap_recordBytes hd, List.map_map, writtenRows, List.map_map]
  refine List.map_congr_left fun row _ => ?_
  by_cases hrow : row = []
  · simp [hrow, Utf8.encode_nil]
  · simp [hrow]

/-- Written results are read as the written texts, with and without the blanks at their ends. -/
theorem read_write_trim (hd : d.Proper)
    (hmark : ¬ byteOrderMark <+: write ⟨d, lineEnd, marker⟩ results) (trim : Bool) :
    read ⟨d, trim⟩ (write ⟨d, lineEnd, marker⟩ results) =
      .ok ⟨(writtenRows marker results).map (·.map fun text => cellText trim text.toList)⟩ := by
  have hrows : fileRows d (write ⟨d, lineEnd, marker⟩ results) =
      ((writtenRows marker results).map (·.map String.toList)).map (·.map Utf8.encode) := by
    rw [fileRows_write hd]
    simp [List.map_map, Function.comp_def]
  rw [read_of_fileRows hd hmark hrows]
  simp [List.map_map, Function.comp_def]

/-- **What is written is read back**: the texts that were written, row by row, whatever the texts hold and
whatever the dialect is, as long as its bytes differ. A row of none is read back as an empty cell. -/
theorem read_written (d : Dialect) (hd : d.Proper) (lineEnd : LineEnd) (marker : Marker)
    (results : Results) (hmark : ¬ byteOrderMark <+: write ⟨d, lineEnd, marker⟩ results) :
    read (ReadOptions.of d) (write ⟨d, lineEnd, marker⟩ results) = .ok ⟨writtenRows marker results⟩ := by
  rw [ReadOptions.of, read_write_trim hd hmark]
  simp [cellText]

/-- Rows of none at both ends and in the middle, numbers with the delimiter in them, and a marker that
holds the delimiter, the quote and line breaks. -/
theorem read_written_of_digit_delimiter :
    read (ReadOptions.of ⟨0x31, 0x2D⟩)
      (write ⟨⟨0x31, 0x2D⟩, .crlf, .uniform "\n-1\r\n"⟩
        ⟨[[], [.number (-10.5), .error .cycle], [], [.error .token], []]⟩) =
      .ok ⟨[[""], ["-10.5", "\n-1\r\n"], [""], ["\n-1\r\n"], [""]]⟩ := by
  have hread := read_written ⟨0x31, 0x2D⟩ ⟨by decide, by decide, by decide⟩ .crlf
    (.uniform "\n-1\r\n") ⟨[[], [.number (-10.5), .error .cycle], [], [.error .token], []]⟩
    (by decide +kernel)
  have hrows : writtenRows (.uniform "\n-1\r\n")
      ⟨[[], [.number (-10.5), .error .cycle], [], [.error .token], []]⟩ =
      [[""], ["-10.5", "\n-1\r\n"], [""], ["\n-1\r\n"], [""]] := by
    decide +kernel
  rwa [hrows] at hread

end Csv

end PostfixSheet
