import Mathlib.Data.Set.List
import PostfixSheet.Csv.Reader
import PostfixSheet.Proofs.FileLines

/-!
# Reading gives the rows of the file

The reader takes one record after the other, each with the line breaks before it, and finds out how many
empty lines there were from the bytes that it has gone past. A record is the first line that is not
empty, without the line feed of a CR LF; this is then the first byte of the next stretch, and completes
the line break rather than being one.

* `restRow` is the row of what is left of a line, from a place in its first cell on.
* `Acts` says what a byte does by its place, and `FirstLine` what is taken of bytes for a record.
* `recordRows` are the rows of records with the empty lines before them, as bytes.

Results:
* `acts_step`: a byte ends the record at a line break, ends the field at a delimiter, or goes on to the
  place behind it.
* `firstLine_takeRecord`: a record is the first line.
* `lines_eq_replicate_append`: the line breaks in front are so many empty lines.
* `recordRows_recordsFrom`: the records with the empty lines before them are the rows of the file.
* `row_ne_nil_of_read`: no row of a sheet that was read is empty.
* `fieldText_encode`: the bytes of a text are read as the text.
* `read_eq_fileRows`: so reading a text succeeds with the rows of the file.
-/

namespace PostfixSheet

namespace Csv

/-- The place at which a scan stands. -/
def Mode.place : Mode → Place
  | .fieldStart => .start
  | .plain => .plain
  | .quoted => .quoted
  | .quoteSeen => .closing

theorem Mode.place_ne_afterReturn (mode : Mode) : mode.place ≠ .afterReturn := by
  cases mode <;> decide

/-- The row of what is left of a line, from a place in its first cell on. -/
def restRow (d : Dialect) (p : Place) (line : List UInt8) : List (List UInt8) :=
  match cells d p line with
  | [] => []
  | first :: others => unquoted d p first :: others.map (unquoted d .start)

section Rest

variable {d : Dialect} {p : Place} {b : UInt8} {line : List UInt8}

theorem restRow_start (d : Dialect) (line : List UInt8) : restRow d .start line = lineRow d line := by
  rw [restRow, lineRow]
  cases cells d .start line <;> rfl

/-- A byte that opens or closes quotes is not part of the row. -/
theorem restRow_cons_of_mark (h : Uncut d p b) (hb : p.isMark d b = true) :
    restRow d p (b :: line) = restRow d (p.next d b) line := by
  rw [restRow, restRow, h.cells_cons]
  cases cells d (p.next d b) line with
  | nil => rfl
  | cons first others => simp only [List.modifyHead_cons, unquoted, hb, if_true]

/-- Any other byte at which nothing is cut is part of the first cell. -/
theorem restRow_cons (h : Uncut d p b) (hb : p.isMark d b = false) :
    restRow d p (b :: line) = (restRow d (p.next d b) line).modifyHead (b :: ·) := by
  rw [restRow, restRow, h.cells_cons]
  cases cells d (p.next d b) line with
  | nil => rfl
  | cons first others => simp only [List.modifyHead_cons, unquoted, hb, Bool.false_eq_true, if_false]

theorem restRow_delimiter (hp : p ≠ .quoted) :
    restRow d p (d.delimiter :: line) = [] :: restRow d .start line := by
  rw [restRow_start, restRow, cells_cons_delimiter hp]
  rfl

end Rest

variable {d : Dialect}

/-! ## One byte -/

/-- How a byte acts in a mode, by its place. -/
inductive Acts (d : Dialect) (mode : Mode) (b : UInt8) : Action → Prop
  | endRecord (hp : mode.place ≠ .quoted) (hb : isLineBreak b = true) : Acts d mode b .endRecord
  | endField (hp : mode.place ≠ .quoted) (hb : b = d.delimiter) : Acts d mode b .endField
  | pass {next : Mode} (hb : Uncut d mode.place b) (hnext : mode.place.next d b = next.place)
      (hmark : mode.place.isMark d b = true) : Acts d mode b (.pass next)
  | put {next : Mode} (hb : Uncut d mode.place b) (hnext : mode.place.next d b = next.place)
      (hmark : mode.place.isMark d b = false) : Acts d mode b (.put next)

theorem acts_continueField {mode : Mode} {b : UInt8} (hp : mode.place ≠ .quoted)
    (hnext : mode.place.next d b = if b = d.delimiter then .start else .plain)
    (hmark : mode.place.isMark d b = false) : Acts d mode b (continueField d b) := by
  unfold continueField
  split_ifs with hdelimiter hbreak
  · exact .endField hp hdelimiter
  · exact .endRecord hp hbreak
  · rw [if_neg hdelimiter] at hnext
    exact .put (Or.inr ⟨by simpa using hbreak, hdelimiter⟩) hnext hmark

/-- **What a byte does**: it ends the record at a line break, ends the field at a delimiter, or nothing is
cut at it and the scan goes on to the place behind it. -/
theorem acts_step (hd : d.Proper) (mode : Mode) (b : UInt8) : Acts d mode b (mode.step d b) := by
  have huncut : ∀ p, b = d.quote → Uncut d p b := fun p hb => hb ▸ uncut_quote hd p
  cases mode with
  | fieldStart =>
    by_cases hb : b = d.quote
    · rw [Mode.step, if_pos hb]
      exact .pass (huncut _ hb) (if_pos hb) (by simp [Place.isMark, Mode.place, hb])
    · rw [Mode.step, if_neg hb]
      exact acts_continueField (by decide) (if_neg hb) (by simp [Place.isMark, hb])
  | plain => exact acts_continueField (by decide) rfl (by simp [Place.isMark, Mode.place])
  | quoted =>
    by_cases hb : b = d.quote
    · rw [Mode.step, if_pos hb]
      exact .pass (Or.inl rfl) (if_pos hb) (by simp [Place.isMark, Mode.place, hb])
    · rw [Mode.step, if_neg hb]
      exact .put (Or.inl rfl) (if_neg hb) (by simp [Place.isMark, hb])
  | quoteSeen =>
    by_cases hb : b = d.quote
    · rw [Mode.step, if_pos hb]
      exact .put (huncut _ hb) (if_pos hb) (by simp [Place.isMark, Mode.place])
    · rw [Mode.step, if_neg hb]
      exact acts_continueField (by decide) (if_neg hb) (by simp [Place.isMark, hb])

/-! ## One record -/

/-- What is taken of the bytes from a place on is the first line: either all of them, or what stands
before a line break. -/
inductive FirstLine (d : Dialect) (p : Place) :
    List UInt8 → List (List UInt8) × List UInt8 → Prop
  | all {bytes : List UInt8} (h : lines d p bytes = [bytes]) :
      FirstLine d p bytes (restRow d p bytes, [])
  | broken (line : List UInt8) {behind : List UInt8} {b : UInt8} (hb : isLineBreak b = true)
      (h : lines d p (line ++ b :: behind) =
        line :: lines d (lineStart (b == carriageReturn)) behind) :
      FirstLine d p (line ++ b :: behind) (restRow d p line, behind)

/-- A byte before the bytes belongs to the first line, if lines are not cut at it. -/
theorem FirstLine.cons {p q : Place} {b : UInt8} {bytes : List UInt8}
    {taken : List (List UInt8) × List UInt8} (act : List (List UInt8) → List (List UInt8))
    (h : FirstLine d q bytes taken)
    (hlines : ∀ rest, lines d p (b :: rest) = (lines d q rest).modifyHead (b :: ·))
    (hrow : ∀ line, restRow d p (b :: line) = act (restRow d q line)) :
    FirstLine d p (b :: bytes) (act taken.1, taken.2) := by
  cases h with
  | all h =>
    rw [← hrow]
    exact .all (by rw [hlines, h]; rfl)
  | broken line hc h =>
    rw [← hrow]
    exact .broken (b :: line) hc (by rw [List.cons_append, hlines, h]; rfl)

/-- **A record is the first line.** -/
theorem firstLine_takeRecord (hd : d.Proper) (mode : Mode) (bytes : List UInt8) :
    FirstLine d mode.place bytes (takeRecord d mode bytes) := by
  induction bytes generalizing mode with
  | nil => exact .all rfl
  | cons b rest ih =>
    have hacts := acts_step hd mode b
    rw [takeRecord]
    generalize mode.step d b = action at hacts
    cases hacts with
    | endRecord hp hb =>
      exact .broken [] hb (lines_cons_break hp mode.place_ne_afterReturn hb)
    | endField hp hb =>
      subst hb
      exact (ih .fieldStart).cons _ (fun _ => lines_cons_delimiter hd hp)
        fun _ => restRow_delimiter hp
    | @pass next hb hnext hmark =>
      exact (ih next).cons id (fun _ => hnext ▸ hb.lines_cons)
        fun _ => hnext ▸ restRow_cons_of_mark hb hmark
    | @put next hb hnext hmark =>
      exact (ih next).cons _ (fun _ => hnext ▸ hb.lines_cons)
        fun _ => hnext ▸ restRow_cons hb hmark

/-! ## Empty lines -/

/-- **The line breaks in front are so many empty lines.** -/
theorem lines_eq_replicate_append (d : Dialect) (afterReturn : Bool) (bytes : List UInt8) :
    lines d (lineStart afterReturn) bytes =
      List.replicate (leadingBreaks afterReturn bytes) [] ++
        lines d .start (bytes.dropWhile isLineBreak) := by
  induction bytes generalizing afterReturn with
  | nil => rfl
  | cons b rest ih =>
    cases hb : isLineBreak b with
    | true =>
      rw [List.dropWhile_cons_of_pos hb, lines, leadingBreaks]
      by_cases hcompletes : afterReturn = true ∧ b = lineFeed
      · obtain ⟨rfl, rfl⟩ := hcompletes
        exact ih false
      · have hplace : ¬ (lineStart afterReturn = .afterReturn ∧ b = lineFeed) := by
          rintro ⟨hp, rfl⟩
          cases afterReturn with
          | true => exact hcompletes ⟨rfl, rfl⟩
          | false => cases hp
        have hflag : (afterReturn && b == lineFeed) = false := by simpa using hcompletes
        rw [if_neg hplace, if_pos ⟨lineStart_ne_quoted afterReturn, hb⟩, hflag, hb, ih]
        rfl
    | false =>
      have hne : b ≠ lineFeed := by
        rintro rfl
        cases hb
      have hcount : leadingBreaks afterReturn (b :: rest) = 0 := by
        simp [leadingBreaks, hne, hb]
      have hstart : lines d (lineStart afterReturn) (b :: rest) = lines d .start (b :: rest) := by
        cases afterReturn with
        | true => simp [lineStart, lines, hne, hb, Place.next]
        | false => rfl
      rw [List.dropWhile_cons_of_neg (by simp [hb]), hcount, hstart]
      rfl

/-- What stands behind the first byte that breaks no line is not counted. -/
theorem leadingBreaks_append (afterReturn : Bool) {first : List UInt8}
    (h : ∃ b ∈ first, isLineBreak b = false) (behind : List UInt8) :
    leadingBreaks afterReturn (first ++ behind) = leadingBreaks afterReturn first := by
  induction first generalizing afterReturn with
  | nil => simp at h
  | cons c first ih =>
    rw [List.cons_append, leadingBreaks, leadingBreaks]
    cases hc : isLineBreak c with
    | true =>
      have hfirst : ∃ b ∈ first, isLineBreak b = false := by
        obtain ⟨b, hmem, hb⟩ := h
        rcases List.mem_cons.mp hmem with rfl | hmem
        · rw [hc] at hb
          cases hb
        · exact ⟨b, hmem, hb⟩
      rw [ih _ hfirst, ih _ hfirst]
    | false =>
      have hne : c ≠ lineFeed := by
        rintro rfl
        cases hc
      simp [hne]

/-! ## All records -/

/-- The rows of records of an input, with the empty lines before them. -/
def recordRows (input : List UInt8) (records : List Record) : List (List (List UInt8)) :=
  records.flatMap fun record => List.replicate (emptyLines input record) [[]] ++ [record.fields]

/-- An element that fails the test keeps all that stands before it. -/
theorem rdropWhile_append_cons {α : Type} {p : α → Bool} {a : α} (ha : p a = false)
    (first second : List α) :
    (first ++ a :: second).rdropWhile p = first ++ a :: second.rdropWhile p := by
  rw [List.rdropWhile, List.rdropWhile, List.reverse_append, List.reverse_cons, List.append_assoc,
    List.dropWhile_append]
  split
  · rename_i h
    rw [List.isEmpty_iff.mp h]
    simp [ha]
  · simp

/-- The empty lines before a record are counted in the bytes that were read for it. -/
theorem emptyLines_eq (before bytes : List UInt8) (n : Nat) (fields : List (List UInt8)) :
    emptyLines (before ++ bytes) ⟨before.length, before.length + n, fields⟩ =
      leadingBreaks (before.getLast? == some carriageReturn) (bytes.take n) := by
  simp [emptyLines, List.take_append]

/-- Nothing but line breaks are empty lines at the end. -/
theorem rdropWhile_lines_of_breaks (afterReturn : Bool) {bytes : List UInt8}
    (h : bytes.dropWhile isLineBreak = []) :
    (lines d (lineStart afterReturn) bytes).rdropWhile List.isEmpty = [] := by
  rw [lines_eq_replicate_append, h, List.rdropWhile_eq_nil_iff]
  intro line hline
  rcases List.mem_append.mp hline with hline | hline
  · rw [List.eq_of_mem_replicate hline]
    rfl
  · rw [List.mem_singleton.mp hline]
    rfl

/-- The row of the first line that is not empty, behind those of the empty lines before it. -/
theorem rows_of_lines_eq {afterReturn : Bool} {bytes line : List UInt8} {others : List (List UInt8)}
    (h : lines d .start (bytes.dropWhile isLineBreak) = line :: others) (hne : line ≠ []) :
    ((lines d (lineStart afterReturn) bytes).rdropWhile List.isEmpty).map (lineRow d) =
      List.replicate (leadingBreaks afterReturn bytes) [[]] ++
        restRow d .start line :: (others.rdropWhile List.isEmpty).map (lineRow d) := by
  rw [lines_eq_replicate_append, h, rdropWhile_append_cons (by simpa using hne), List.map_append,
    List.map_replicate, lineRow_nil, List.map_cons, restRow_start]

/-- What is behind line breaks does not begin with one. -/
theorem not_break_of_dropWhile {bytes body : List UInt8} {b : UInt8}
    (h : bytes.dropWhile isLineBreak = b :: body) : isLineBreak b = false := by
  have := List.head?_dropWhile_not isLineBreak bytes
  rw [h] at this
  simpa using this

/-- A line break that ends a record is not its first byte, and the last one that was read for it. -/
theorem exists_read_of_broken {bytes line behind : List UInt8} {b c : UInt8}
    (h : bytes.dropWhile isLineBreak = line ++ c :: behind) (hc : isLineBreak c = true)
    (hb : (line ++ c :: behind).head? = some b) :
    b ∈ line ∧ ∃ read, bytes = read ++ behind ∧ read.getLast? = some c ∧ b ∈ read := by
  have hmem : b ∈ line := by
    cases line with
    | nil => exact absurd hc (by rw [not_break_of_dropWhile h]; exact Bool.false_ne_true)
    | cons b' line =>
      cases hb
      exact List.mem_cons_self
  have hbytes : bytes = bytes.takeWhile isLineBreak ++ (line ++ c :: behind) := by
    rw [← h, List.takeWhile_append_dropWhile]
  exact ⟨hmem, bytes.takeWhile isLineBreak ++ line ++ [c], by simpa using hbytes, by simp,
    by simp [hmem]⟩

/-- **The records with the empty lines before them are the rows of the file.** -/
theorem recordRows_recordsFrom (hd : d.Proper) (before bytes : List UInt8) :
    recordRows (before ++ bytes) (recordsFrom d before.length before.length bytes) =
      ((lines d (lineStart (before.getLast? == some carriageReturn)) bytes).rdropWhile
        List.isEmpty).map (lineRow d) := by
  rw [recordsFrom]
  split
  · rename_i h
    rw [rdropWhile_lines_of_breaks _ h]
    rfl
  · rename_i b body h
    have hb : isLineBreak b = false := not_break_of_dropWhile h
    have hfirst : FirstLine d .start (b :: body) (takeRecord d .fieldStart (b :: body)) :=
      firstLine_takeRecord hd .fieldStart (b :: body)
    simp only [recordRows, List.flatMap_cons, emptyLines_eq]
    generalize takeRecord d .fieldStart (b :: body) = taken at hfirst ⊢
    generalize hrest : b :: body = rest at hfirst ⊢
    cases hfirst with
    | all hline =>
      -- the last line, which no line break ends
      rw [← hrest, ← h] at hline
      rw [rows_of_lines_eq hline (by simp [h]), recordsFrom]
      simp [h, hrest]
    | @broken line behind c hc hline =>
      obtain ⟨hmem, read, hread, hlast, hbread⟩ :=
        exists_read_of_broken (h.trans hrest) hc (by rw [← hrest, List.head?_cons])
      have hlt : behind.length < bytes.length := by
        rw [hread, List.length_append]
        have := List.length_pos_of_mem hbread
        omega
      have ih := recordRows_recordsFrom hd (before ++ read) behind
      rw [← hrest, ← h] at hline
      rw [rows_of_lines_eq hline (List.ne_nil_of_mem hmem)]
      subst hread
      have hstop : (read ++ behind).length - behind.length = read.length := by simp
      rw [hstop, List.take_left, leadingBreaks_append _ ⟨b, hbread, hb⟩]
      rw [List.append_assoc, List.length_append, recordRows] at ih
      rw [ih]
      simp [List.getLast?_append, hlast]
termination_by bytes.length

/-! ## Rows that are read -/

/-- Fields that are read are as many texts. -/
theorem length_fieldTexts {trim : Bool} {index : Nat} {fields : List (List UInt8)}
    {row : List String} (h : fieldTexts trim index fields = .ok row) :
    row.length = fields.length := by
  induction fields generalizing index row with
  | nil =>
    cases h
    rfl
  | cons field fields ih =>
    rw [fieldTexts] at h
    split at h
    case h_1 => cases h
    case h_2 =>
      cases hrest : fieldTexts trim (index + 1) fields with
      | error e =>
        rw [hrest] at h
        cases h
      | ok texts =>
        rw [hrest] at h
        cases h
        rw [List.length_cons, List.length_cons, ih hrest]

/-- Every record has a field. -/
theorem fields_ne_nil_of_mem_recordsFrom {d : Dialect} {offset position : Nat} {bytes : List UInt8}
    {record : Record} (h : record ∈ recordsFrom d offset position bytes) : record.fields ≠ [] := by
  rw [recordsFrom] at h
  split at h
  · cases h
  · rename_i b body hbody
    have hlt : (takeRecord d .fieldStart (b :: body)).2.length < bytes.length :=
      Nat.lt_of_lt_of_le (length_takeRecord_lt d .fieldStart b body)
        (hbody ▸ (List.dropWhile_sublist isLineBreak).length_le)
    rcases List.mem_cons.mp h with rfl | h
    · exact takeRecord_ne_nil d .fieldStart (b :: body)
    · exact fields_ne_nil_of_mem_recordsFrom h
termination_by bytes.length

/-- Rows of records that have fields have cells. -/
theorem row_ne_nil_of_rowsFrom {options : ReadOptions} {input : List UInt8} {index : Nat}
    {done rows : List (List String)} {found : List Record}
    (h : rowsFrom options input index done found = .ok rows)
    (hfound : ∀ record ∈ found, record.fields ≠ []) (hdone : ∀ row ∈ done, row ≠ []) :
    ∀ row ∈ rows, row ≠ [] := by
  induction found generalizing index done with
  | nil =>
    cases h
    exact fun row hrow => hdone row (List.mem_reverse.mp hrow)
  | cons record found ih =>
    rw [rowsFrom] at h
    split at h
    case h_1 => cases h
    case h_2 row hrow =>
      have hlength := length_fieldTexts hrow
      have hfields := hfound record List.mem_cons_self
      refine ih h (fun other hother => hfound other (List.mem_cons_of_mem _ hother)) ?_
      intro other hother
      rcases List.mem_cons.mp hother with rfl | hother
      · rintro rfl
        exact hfields (List.length_eq_zero_iff.mp hlength.symm)
      · rcases List.mem_append.mp hother with hother | hother
        · rw [List.eq_of_mem_replicate hother]
          exact List.cons_ne_nil _ _
        · exact hdone other hother

/-- **No row of a sheet that was read is empty.** -/
theorem row_ne_nil_of_read {options : ReadOptions} {input : List UInt8} {sheet : Sheet}
    (h : read options input = .ok sheet) : ∀ row ∈ sheet.rows, row ≠ [] := by
  unfold read at h
  cases hrows : rowsFrom options input 0 [] (records options.dialect input) with
  | error e =>
    rw [hrows] at h
    cases h
  | ok rows =>
    rw [hrows] at h
    cases h
    exact row_ne_nil_of_rowsFrom hrows (fun _ => fields_ne_nil_of_mem_recordsFrom)
      fun row hrow => absurd hrow List.not_mem_nil

/-! ## Texts of cells -/

/-- The text of a cell as it is read. -/
def cellText (trim : Bool) (cell : List Char) : String :=
  String.ofList (if trim then Text.strip Text.isBlank cell else cell)

/-- **The bytes of a text are read as the text**, without the blanks at its ends if these are taken
off. -/
theorem fieldText_encode (trim : Bool) (cell : List Char) :
    fieldText trim (Utf8.encode cell) = .ok (cellText trim cell) := by
  cases trim with
  | true =>
    rw [fieldText, if_pos rfl, Utf8.strip_encode, Utf8.decode_encode, cellText, if_pos rfl,
      ← Text.strip_strip (fun _ => Utf8.isBlank_of_isBlankAscii) cell]
    rfl
  | false =>
    rw [fieldText, if_neg Bool.false_ne_true, Utf8.decode_encode]
    rfl

theorem fieldTexts_encode (trim : Bool) (index : Nat) (cells : List (List Char)) :
    fieldTexts trim index (cells.map Utf8.encode) = .ok (cells.map (cellText trim)) := by
  induction cells generalizing index with
  | nil => rfl
  | cons cell cells ih =>
    rw [List.map_cons, fieldTexts, fieldText_encode, ih]
    rfl

theorem cellText_nil (trim : Bool) : cellText trim [] = "" := by cases trim <;> rfl

/-- Records whose rows are texts are read as those texts. -/
theorem rowsFrom_of_recordRows {options : ReadOptions} {input : List UInt8} (index : Nat)
    (done : List (List String)) {found : List Record} {rows : List (List (List Char))}
    (h : recordRows input found = rows.map (·.map Utf8.encode)) :
    rowsFrom options input index done found =
      .ok (done.reverse ++ rows.map (·.map (cellText options.trim))) := by
  induction found generalizing index done rows with
  | nil =>
    have hrows : rows = [] := by simpa [recordRows, eq_comm] using h
    simp [rowsFrom, hrows]
  | cons record found ih =>
    rw [recordRows, List.flatMap_cons, List.append_assoc, eq_comm, List.map_eq_append_iff] at h
    obtain ⟨empty, rows, rfl, hempty, h⟩ := h
    obtain ⟨row, others, rfl, hrow, hothers⟩ := List.map_eq_cons_iff.mp h
    have hempty' : empty.map (·.map (cellText options.trim)) =
        List.replicate (emptyLines input record) [""] := by
      refine List.eq_replicate_iff.mpr ⟨by simpa using congrArg List.length hempty, ?_⟩
      rintro _ htext
      obtain ⟨row, hmem, rfl⟩ := List.mem_map.mp htext
      have hrow : row.map Utf8.encode ∈ empty.map (·.map Utf8.encode) := List.mem_map_of_mem hmem
      rw [hempty] at hrow
      obtain ⟨cell, rfl, hcell⟩ := List.map_eq_singleton_iff.mp (List.eq_of_mem_replicate hrow)
      rw [Utf8.encode_injective (hcell.trans Utf8.encode_nil.symm), List.map_singleton, cellText_nil]
    rw [rowsFrom, ← hrow, fieldTexts_encode]
    simp only
    rw [ih _ _ hothers.symm]
    simp [hempty']

/-- Without a byte order mark the records are those of all bytes. -/
theorem records_of_no_mark (d : Dialect) {input : List UInt8} (h : ¬ byteOrderMark <+: input) :
    records d input = recordsFrom d 0 0 input := by
  have hmark : byteOrderMark.isPrefixOf input = false := by
    rw [Bool.eq_false_iff, ne_eq, List.isPrefixOf_iff_prefix]
    exact h
  simp [records, dropMark, hmark]

/-- **Where the rows of a file are texts, they are read**, with and without the blanks at their ends. -/
theorem read_of_fileRows (hd : d.Proper) {input : List UInt8} {rows : List (List (List Char))}
    (hmark : ¬ byteOrderMark <+: input) (h : fileRows d input = rows.map (·.map Utf8.encode))
    (trim : Bool) : read ⟨d, trim⟩ input = .ok ⟨rows.map (·.map (cellText trim))⟩ := by
  have hrows : recordRows input (records d input) = rows.map (·.map Utf8.encode) := by
    rw [records_of_no_mark d hmark, ← h]
    exact recordRows_recordsFrom hd [] input
  rw [read, rowsFrom_of_recordRows 0 [] hrows]
  rfl

/-- Lists of lists of texts are encoded texts. -/
theorem exists_encoded {rows : List (List (List UInt8))}
    (h : ∀ row ∈ rows, ∀ cell ∈ row, Utf8.IsText cell) :
    ∃ texts : List (List (List Char)), texts.map (·.map Utf8.encode) = rows := by
  have hrow : ∀ row ∈ rows, row ∈ Set.range (List.map Utf8.encode) := fun row hrow => by
    rw [Set.range_list_map]
    exact h row hrow
  have hrows : rows ∈ Set.range (List.map (List.map Utf8.encode)) := by
    rw [Set.range_list_map]
    exact hrow
  exact hrows

/-- **The rows of a sheet that is read are the lines of the file**: a text in UTF-8 without a byte order
mark is always read, in every dialect of ASCII bytes that differ, and its rows are those of the file. With
`trim` the sheet is the same but for the blanks at both ends of the cells. -/
theorem read_eq_fileRows (d : Dialect) (hd : d.Proper) (hascii : d.Ascii) (text : List Char)
    (hmark : ¬ byteOrderMark <+: Utf8.encode text) :
    ∃ rows : List (List (List Char)),
      rows.map (·.map Utf8.encode) = fileRows d (Utf8.encode text) ∧
      read ⟨d, false⟩ (Utf8.encode text) = .ok ⟨rows.map (·.map String.ofList)⟩ ∧
      read ⟨d, true⟩ (Utf8.encode text) =
        .ok ⟨rows.map (·.map fun cell => String.ofList (Text.strip Text.isBlank cell))⟩ := by
  obtain ⟨rows, hrows⟩ := exists_encoded (fileRows_isText hascii text)
  exact ⟨rows, hrows, read_of_fileRows hd hmark hrows.symm false,
    read_of_fileRows hd hmark hrows.symm true⟩

/-- An empty line at the front, a doubled quote and a line break inside of quotes, text behind them, line
breaks of all three kinds, a quote that is no field's first byte, and one that is never closed. -/
theorem read_eq_fileRows_of_mixed_breaks :
    read ⟨.comma, true⟩ (Utf8.encode "\r\n1, \"a,\"\"\"\n\"é \r\n\n\r2\"\r\"x\n\n".toList) =
      .ok ⟨[[""], ["1", "\"a", "\"\né"], [""], [""], ["2\""], ["x"]]⟩ := by
  obtain ⟨rows, hrows, -, hread⟩ := read_eq_fileRows .comma Dialect.proper_comma Dialect.ascii_comma
    "\r\n1, \"a,\"\"\"\n\"é \r\n\n\r2\"\r\"x\n\n".toList (by decide)
  have hfile : fileRows .comma (Utf8.encode "\r\n1, \"a,\"\"\"\n\"é \r\n\n\r2\"\r\"x\n\n".toList) =
      [[""], ["1", " \"a", "\"\né "], [""], [""], ["2\""], ["x\n\n"]].map
        (·.map fun cell => Utf8.encode cell.toList) := by decide
  have hrows' : rows = [[""], ["1", " \"a", "\"\né "], [""], [""], ["2\""], ["x\n\n"]].map
      (·.map String.toList) := by
    have hinjective : Function.Injective Utf8.encode := fun _ _ => Utf8.encode_injective
    refine List.map_injective_iff.mpr (List.map_injective_iff.mpr hinjective) ?_
    rw [hrows, hfile, List.map_map]
    simp only [List.map_map, Function.comp_def]
  rw [hrows'] at hread
  exact hread

end Csv

end PostfixSheet
