import Mathlib.Control.Monad.Basic
import PostfixSheet.Proofs.ReadRows

/-!
# Files with a byte order mark

A byte order mark is no part of the text, but its bytes are among those that were read for the first record.
The empty lines before that record are counted from the first of these bytes on, and that is the mark's and
breaks no line. So the empty lines at the front of a file with a mark are not counted: the file is read
without them, and its rows stand that much higher than its lines. All else is read as without the mark.

* `Record.behind` is a record of the same bytes with others in front of them.
* `gaps` is all that the rows of records depend on: their fields, and the empty lines before them.

Results:
* `recordsFrom_add`: records behind other bytes are the same records there.
* `emptyLines_behind`: bytes that do not end in a carriage return leave the empty lines behind them alone.
* `rowsFrom_of_gaps`: records with the same gaps and fields have the same rows.
* `emptyLines_first`: the empty lines before the first record are those at the front of the input.
* `read_mark_append`: with a mark in front, an input is read without the empty lines at its front, and
  exactly those without any are read the same.
-/

namespace PostfixSheet

namespace Csv

variable {d : Dialect} {options : ReadOptions} {input : List UInt8}

/-! ## Records behind other bytes -/

/-- The record with so many more bytes in front of all that was read. -/
def Record.behind (count : Nat) (record : Record) : Record :=
  ⟨record.offset + count, record.stop + count, record.fields⟩

/-- **Records behind other bytes are the same records there.** -/
theorem recordsFrom_add (d : Dialect) (count offset position : Nat) (bytes : List UInt8) :
    recordsFrom d (offset + count) (position + count) bytes =
      (recordsFrom d offset position bytes).map (Record.behind count) := by
  rw [recordsFrom, recordsFrom.eq_1 d offset position bytes]
  split
  · rfl
  · rename_i b body h
    have hlt : (takeRecord d .fieldStart (b :: body)).2.length < bytes.length :=
      Nat.lt_of_lt_of_le (length_takeRecord_lt d .fieldStart b body)
        (h ▸ (List.dropWhile_sublist isLineBreak).length_le)
    have hstop : position + count + (bytes.length - (takeRecord d .fieldStart (b :: body)).2.length) =
        position + (bytes.length - (takeRecord d .fieldStart (b :: body)).2.length) + count := by
      omega
    simp only [List.map_cons, Record.behind, hstop]
    rw [recordsFrom_add]
termination_by bytes.length

/-- **Bytes that do not end in a carriage return leave the empty lines behind them alone.** -/
theorem emptyLines_behind {before : List UInt8} (hbefore : before.getLast? ≠ some carriageReturn)
    (input : List UInt8) (record : Record) :
    emptyLines (before ++ input) (record.behind before.length) = emptyLines input record := by
  have htake : ∀ n, (before ++ input).take (n + before.length) = before ++ input.take n := by
    intro n
    rw [List.take_append, List.take_of_length_le (Nat.le_add_left _ _), Nat.add_sub_cancel]
  have hlast : ((before ++ input.take record.offset).getLast? == some carriageReturn) =
      ((input.take record.offset).getLast? == some carriageReturn) := by
    rw [List.getLast?_append]
    cases (input.take record.offset).getLast? with
    | none => simpa using hbefore
    | some b => rfl
  have hread : ((before ++ input).take (record.stop + before.length)).drop
      (record.offset + before.length) = (input.take record.stop).drop record.offset := by
    rw [htake, List.drop_append, List.drop_of_length_le (Nat.le_add_left _ _), Nat.add_sub_cancel,
      List.nil_append]
  simp only [emptyLines, Record.behind]
  rw [htake, hlast, hread]

/-! ## Rows -/

/-- What the rows of records depend on: the empty lines before each record, and its fields. -/
def gaps (input : List UInt8) (found : List Record) : List (Nat × List (List UInt8)) :=
  found.map fun record => (emptyLines input record, record.fields)

/-- **Records with the same gaps and fields have the same rows.** -/
theorem rowsFrom_of_gaps {input' : List UInt8} {found found' : List Record}
    {index : Nat} {done rows : List (List String)} (hgaps : gaps input' found' = gaps input found)
    (h : rowsFrom options input index done found = .ok rows) :
    rowsFrom options input' index done found' = .ok rows := by
  induction found generalizing index done found' with
  | nil =>
    rw [List.map_eq_nil_iff.mp hgaps]
    exact h
  | cons record found ih =>
    obtain ⟨record', rest, rfl, hrecord, hrest⟩ := List.map_eq_cons_iff.mp hgaps
    obtain ⟨hempty, hfields⟩ := Prod.mk.inj hrecord
    rw [rowsFrom] at h ⊢
    rw [hfields, hempty]
    split at h
    · cases h
    · exact ih hrest h

/-- The rows that are done stand in front of those of the records. -/
theorem rowsFrom_append_done (index : Nat) (done : List (List String)) (found : List Record) :
    rowsFrom options input index done found =
      (rowsFrom options input index [] found).map (done.reverse ++ ·) := by
  induction found generalizing index done with
  | nil => simp [rowsFrom, Except.map]
  | cons record found ih =>
    rw [rowsFrom, rowsFrom]
    split
    · rfl
    · rename_i row _
      rw [ih, ih _ (row :: (List.replicate (emptyLines input record) [""] ++ []))]
      cases rowsFrom options input (index + 1) [] found with
      | error e => rfl
      | ok rows => simp [Except.map]

/-- What is read of a record that is a row, behind those of the empty lines before it, and of the records
after it. -/
theorem exists_rows_of_cons {index : Nat} {record : Record} {found : List Record}
    {rows : List (List String)}
    (h : rowsFrom options input index [] (record :: found) = .ok rows) :
    ∃ row rest, fieldTexts options.trim 0 record.fields = .ok row ∧
      rowsFrom options input (index + 1) [] found = .ok rest ∧
      rows = List.replicate (emptyLines input record) [""] ++ row :: rest := by
  rw [rowsFrom] at h
  split at h
  · cases h
  · rename_i row hrow
    rw [rowsFrom_append_done] at h
    cases hrest : rowsFrom options input (index + 1) [] found with
    | error e =>
      rw [hrest] at h
      cases h
    | ok rest =>
      rw [hrest] at h
      cases h
      exact ⟨row, rest, hrow, rfl, by simp⟩

/-! ## The first record -/

/-- **The empty lines before the first record are those at the front of the input.** -/
theorem emptyLines_first {b : UInt8} {body : List UInt8} (h : input.dropWhile isLineBreak = b :: body)
    {stop : Nat} (hstop : (input.takeWhile isLineBreak).length < stop) (fields : List (List UInt8)) :
    emptyLines input ⟨0, stop, fields⟩ = leadingBreaks false input := by
  have hinput : input = input.takeWhile isLineBreak ++ b :: body := by
    rw [← h, List.takeWhile_append_dropWhile]
  have hmem : b ∈ input.take stop := by
    rw [hinput, List.take_append]
    refine List.mem_append_right _ ?_
    obtain ⟨n, hn⟩ := Nat.exists_eq_add_of_lt hstop
    have hleft : stop - (input.takeWhile isLineBreak).length = n + 1 := by omega
    rw [hleft]
    exact List.mem_cons_self
  have hcount := leadingBreaks_append false ⟨b, hmem, not_break_of_dropWhile h⟩ (input.drop stop)
  rw [List.take_append_drop] at hcount
  rw [hcount]
  rfl

/-- Behind a mark no empty lines are counted before the first record. -/
theorem emptyLines_mark (stop : Nat) (fields : List (List UInt8)) :
    emptyLines (byteOrderMark ++ input) ⟨0, stop, fields⟩ = 0 := by
  cases stop <;> rfl

/-- The records of an input with other bytes in front of it that were read for its first record: this one
ends behind them, and the records after it are wholly there. -/
theorem exists_first_record (d : Dialect) {b : UInt8} {body : List UInt8}
    (h : input.dropWhile isLineBreak = b :: body) :
    ∃ stop fields, ∃ later : List Record, (input.takeWhile isLineBreak).length < stop ∧
      ∀ count, recordsFrom d 0 count input =
        ⟨0, stop + count, fields⟩ :: later.map (Record.behind count) := by
  obtain ⟨fields, rest, htaken⟩ : ∃ fields rest, takeRecord d .fieldStart (b :: body) = (fields, rest) :=
    ⟨_, _, rfl⟩
  have hlt : rest.length < (b :: body).length := by
    have := length_takeRecord_lt d .fieldStart b body
    rwa [htaken] at this
  have hlength : input.length = (input.takeWhile isLineBreak).length + (b :: body).length := by
    rw [← h, ← List.length_append, List.takeWhile_append_dropWhile]
  refine ⟨input.length - rest.length, fields,
    recordsFrom d (input.length - rest.length) (input.length - rest.length) rest, by omega,
    fun count => ?_⟩
  rw [recordsFrom]
  split
  · rename_i hnil
    cases h.symm.trans hnil
  · rename_i b' body' hcons
    cases h.symm.trans hcons
    simp only [htaken, Nat.add_comm count]
    exact congrArg _ (recordsFrom_add d count _ _ _)

/-- The records behind a mark, of which the first was looked for in front of it. -/
theorem records_mark (d : Dialect) (input : List UInt8) :
    records d (byteOrderMark ++ input) = recordsFrom d 0 byteOrderMark.length input := by
  rw [records, dropMark_append, List.length_append, Nat.add_sub_cancel]

/-- **A file with a mark is read without the empty lines at its front.** -/
theorem read_mark_of_read {sheet : Sheet} (hmark : ¬ byteOrderMark <+: input)
    (h : read options input = .ok sheet) :
    read options (byteOrderMark ++ input) =
      .ok ⟨sheet.rows.drop (leadingBreaks false input)⟩ := by
  unfold read at h ⊢
  rw [records_of_no_mark options.dialect hmark] at h
  rw [records_mark]
  cases hbody : input.dropWhile isLineBreak with
  | nil =>
    have hnone : ∀ position, recordsFrom options.dialect 0 position input = [] := by
      intro position
      rw [recordsFrom]
      split
      · rfl
      · rename_i hcons
        cases hbody.symm.trans hcons
    rw [hnone] at h ⊢
    cases h
    simp [rowsFrom, Except.map]
  | cons b body =>
    obtain ⟨stop, fields, later, hstop, hrecords⟩ := exists_first_record options.dialect hbody
    rw [hrecords] at h ⊢
    cases hrows : rowsFrom options input 0 [] (⟨0, stop + 0, fields⟩ :: later.map (.behind 0)) with
    | error e =>
      rw [hrows] at h
      cases h
    | ok rows =>
      rw [hrows] at h
      cases h
      obtain ⟨row, rest, hrow, hrest, rfl⟩ := exists_rows_of_cons hrows
      have hgaps : gaps (byteOrderMark ++ input) (later.map (.behind byteOrderMark.length)) =
          gaps input (later.map (.behind 0)) := by
        simp only [gaps, List.map_map]
        refine List.map_congr_left fun record _ => ?_
        exact Prod.ext (emptyLines_behind (by decide) input record) rfl
      have hmarked : rowsFrom options (byteOrderMark ++ input) 0 []
          (⟨0, stop + byteOrderMark.length, fields⟩ :: later.map (.behind byteOrderMark.length)) =
            .ok (row :: rest) := by
        rw [rowsFrom, hrow]
        simp only [emptyLines_mark]
        rw [rowsFrom_append_done, rowsFrom_of_gaps hgaps hrest]
        rfl
      rw [hmarked, Nat.add_zero, emptyLines_first hbody hstop, List.drop_left' List.length_replicate]
      rfl

/-- **A byte order mark takes the empty lines at the front away.** An input that is read is read with a mark
in front as well, without the rows of the empty lines at its front. So it is read the same exactly if there
are none, or no rows at all. -/
theorem read_mark_append (options : ReadOptions) (input : List UInt8) (sheet : Sheet)
    (hmark : ¬ byteOrderMark <+: input) (h : read options input = .ok sheet) :
    read options (byteOrderMark ++ input) = .ok ⟨sheet.rows.drop (leadingBreaks false input)⟩ ∧
      (read options (byteOrderMark ++ input) = .ok sheet ↔
        leadingBreaks false input = 0 ∨ sheet.rows = []) := by
  have hread := read_mark_of_read hmark h
  refine ⟨hread, ?_⟩
  rw [hread]
  constructor
  · intro hsame
    have hrows : sheet.rows.drop (leadingBreaks false input) = sheet.rows :=
      congrArg Sheet.rows (Except.ok.inj hsame)
    have hlength := congrArg List.length hrows
    rw [List.length_drop] at hlength
    by_cases hzero : leadingBreaks false input = 0
    · exact Or.inl hzero
    · exact Or.inr (List.eq_nil_of_length_eq_zero (by omega))
  · rintro (hzero | hnil)
    · rw [hzero, List.drop_zero]
    · obtain ⟨rows⟩ := sheet
      cases hnil
      rw [List.drop_nil]

/-- Of two empty lines before the first record and one behind it, a mark leaves the last one. -/
theorem read_mark_append_of_empty_lines :
    read ⟨.comma, false⟩ (byteOrderMark ++ Utf8.encode "\n\n1,2\n\nA1".toList) =
      .ok ⟨[["1", "2"], [""], ["A1"]]⟩ := by
  have hmark : ¬ byteOrderMark <+: Utf8.encode "\n\n1,2\n\nA1".toList := by decide
  have hread : read ⟨.comma, false⟩ (Utf8.encode "\n\n1,2\n\nA1".toList) =
      .ok ⟨[[""], [""], ["1", "2"], [""], ["A1"]]⟩ := by decide +kernel
  have hbreaks : leadingBreaks false (Utf8.encode "\n\n1,2\n\nA1".toList) = 2 := by decide
  have hmarked := (read_mark_append ⟨.comma, false⟩ _ _ hmark hread).1
  rw [hbreaks] at hmarked
  exact hmarked

/-- **A mark is not invisible**: the empty line in front of the record is a row only without one. -/
theorem read_mark_ne_of_empty_line :
    ¬ ∀ (input : List UInt8) (sheet : Sheet), ¬ byteOrderMark <+: input →
      read (.of .comma) input = .ok sheet → read (.of .comma) (byteOrderMark ++ input) = .ok sheet := by
  intro h
  have hsame := h [lineFeed, 0x31] ⟨[[""], ["1"]]⟩ (by decide) (by decide +kernel)
  have hmarked : read (.of .comma) (byteOrderMark ++ [lineFeed, 0x31]) = .ok ⟨[["1"]]⟩ := by
    decide +kernel
  exact absurd (hmarked.symm.trans hsame) (by decide)

end Csv

end PostfixSheet
