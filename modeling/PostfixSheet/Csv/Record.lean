import PostfixSheet.Csv.Dialect

/-!
# Records

Stands for the reader of the library `csv`, which is not part of the source: for the calls of
`read_record` and `position` that the `read` of `CsvReader` makes, with a delimiter and a quote,
without headers, and with records of different lengths.

Bytes are cut into records and these into fields, one byte at a time. Taken as given of `csv` are

* `Mode.step`: a field that begins with a quote is quoted. It goes on to the next quote that is not
  doubled, or to the end of the bytes. What then follows up to a delimiter or a line break is added
  as it is. A quote elsewhere is a byte like others.
* `takeRecord`: a line break ends a record, unless it stands in the quoted part of a field. It is
  one byte: the line feed of a CR LF is left behind.
* `recordsFrom`: line breaks before a record are skipped, so a line that is empty is no record.
  Their bytes are read for the record behind them.
* `records`: a byte order mark at the front is left out. Its three bytes are read for the first
  record, and so are line breaks right behind it.

Where one byte has two roles, it is a line break before anything else at the start of a record, and
elsewhere a quote, then a delimiter, and then a line break. A record says where in the input it was
looked for and where it ended, and what was skipped can be told from that.

Results:
* `length_takeRecord_lt`: a record takes at least one byte.
* `takeRecord_ne_nil`: a record has a field.
* `dropMark_append`: a byte order mark in front is dropped.
-/

namespace PostfixSheet

namespace Csv

/-- A record with its place in the input. -/
structure Record where
  /-- How many bytes were read before the reader came to look for this record. -/
  offset : Nat
  /-- How many bytes were read when it had the record. -/
  stop : Nat
  fields : List (List UInt8)
  deriving Repr, DecidableEq

/-! ## One byte -/

/-- Where a scan stands between two bytes of a record. -/
inductive Mode where
  /-- Before a field. -/
  | fieldStart
  /-- In a field, outside of quotes. -/
  | plain
  /-- In the quoted part of a field. -/
  | quoted
  /-- Behind a quote that was met in the quoted part of a field. -/
  | quoteSeen
  deriving Repr, DecidableEq

/-- What a byte does to the record that is being read. -/
inductive Action where
  /-- It is not part of the field. -/
  | pass (next : Mode)
  /-- It is added to the field. -/
  | put (next : Mode)
  /-- It ends the field. -/
  | endField
  /-- It ends the record. -/
  | endRecord
  deriving Repr, DecidableEq

/-- What a byte outside of quotes does. -/
def continueField (d : Dialect) (b : UInt8) : Action :=
  if b = d.delimiter then .endField
  else if isLineBreak b then .endRecord
  else .put .plain

/-- What a byte does. -/
def Mode.step (d : Dialect) (b : UInt8) : Mode → Action
  | .fieldStart => if b = d.quote then .pass .quoted else continueField d b
  | .plain => continueField d b
  | .quoted => if b = d.quote then .pass .quoteSeen else .put .quoted
  | .quoteSeen => if b = d.quote then .put .quoted else continueField d b

/-! ## One record -/

/-- The fields of the record at the front of the bytes, the first one without what was read of it
before, and the bytes behind the record. -/
def takeRecord (d : Dialect) : Mode → List UInt8 → List (List UInt8) × List UInt8
  | _, [] => ([[]], [])
  | mode, b :: rest =>
    match mode.step d b with
    | .pass next => takeRecord d next rest
    | .put next =>
      let (fields, behind) := takeRecord d next rest
      (fields.modifyHead (b :: ·), behind)
    | .endField =>
      let (fields, behind) := takeRecord d .fieldStart rest
      ([] :: fields, behind)
    | .endRecord => ([[]], rest)

theorem length_takeRecord_le (d : Dialect) (mode : Mode) (bytes : List UInt8) :
    (takeRecord d mode bytes).2.length ≤ bytes.length := by
  induction bytes generalizing mode with
  | nil => exact Nat.le_refl _
  | cons b rest ih =>
    rw [takeRecord]
    cases mode.step d b with
    | pass next => exact Nat.le_succ_of_le (ih next)
    | put next => exact Nat.le_succ_of_le (ih next)
    | endField => exact Nat.le_succ_of_le (ih .fieldStart)
    | endRecord => exact Nat.le_succ _

/-- A record takes at least one byte. -/
theorem length_takeRecord_lt (d : Dialect) (mode : Mode) (b : UInt8) (rest : List UInt8) :
    (takeRecord d mode (b :: rest)).2.length < (b :: rest).length := by
  rw [takeRecord]
  cases mode.step d b with
  | pass next => exact Nat.lt_succ_of_le (length_takeRecord_le d next rest)
  | put next => exact Nat.lt_succ_of_le (length_takeRecord_le d next rest)
  | endField => exact Nat.lt_succ_of_le (length_takeRecord_le d .fieldStart rest)
  | endRecord => exact Nat.lt_succ_self _

/-- A record has a field. -/
theorem takeRecord_ne_nil (d : Dialect) (mode : Mode) (bytes : List UInt8) :
    (takeRecord d mode bytes).1 ≠ [] := by
  induction bytes generalizing mode with
  | nil => simp [takeRecord]
  | cons b rest ih =>
    rw [takeRecord]
    cases mode.step d b with
    | pass next => exact ih next
    | put next =>
      obtain ⟨field, fields, h⟩ := List.exists_cons_of_ne_nil (ih next)
      simp [h]
    | endField => exact List.cons_ne_nil _ _
    | endRecord => exact List.cons_ne_nil _ _

/-! ## Whole inputs -/

/-- The records of the bytes, of which the first is looked for when `offset` bytes were read. Before
the bytes there are `position` others. -/
def recordsFrom (d : Dialect) (offset position : Nat) (bytes : List UInt8) : List Record :=
  match _h : bytes.dropWhile isLineBreak with
  | [] => []
  | b :: body =>
    let record := takeRecord d .fieldStart (b :: body)
    let stop := position + (bytes.length - record.2.length)
    ⟨offset, stop, record.1⟩ :: recordsFrom d stop stop record.2
termination_by bytes.length
decreasing_by
  exact Nat.lt_of_lt_of_le (length_takeRecord_lt d .fieldStart b body)
    (_h ▸ (List.dropWhile_sublist isLineBreak).length_le)

/-- The byte order mark of UTF-8. -/
def byteOrderMark : List UInt8 := [0xEF, 0xBB, 0xBF]

/-- The bytes without a byte order mark at the front. -/
def dropMark (bytes : List UInt8) : List UInt8 :=
  if byteOrderMark.isPrefixOf bytes then bytes.drop byteOrderMark.length else bytes

/-- The records of an input. A byte order mark is left out when the first record has already been
looked for. -/
def records (d : Dialect) (input : List UInt8) : List Record :=
  let body := dropMark input
  recordsFrom d 0 (input.length - body.length) body

theorem dropMark_append (bytes : List UInt8) : dropMark (byteOrderMark ++ bytes) = bytes := by
  simp [dropMark, byteOrderMark]

end Csv

end PostfixSheet
