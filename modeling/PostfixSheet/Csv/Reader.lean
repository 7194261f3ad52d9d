import PostfixSheet.Csv.Record
import PostfixSheet.Sheet
import PostfixSheet.Text.Blank
import PostfixSheet.Text.Utf8

/-!
# Reading sheets

Model of the `read` of `CsvReader` (`rowsFrom`, `read`) and of `leading_blank_lines`
(`leadingBreaks`, at the places that `emptyLines` takes from a record).

Every record becomes a row of a sheet, and every empty line before it a row of one empty cell, so
that the rows of the sheet are the lines of the text as long as no field holds a line break. Records
know nothing of empty lines: these are counted in the bytes that were read for a record. Empty lines
behind the last record are dropped. The fields must be UTF-8; the first one that is not makes
reading fail, and is told by its place.

With `trim`, blanks are taken off both ends of each field: the blanks of ASCII before the bytes are
read as text, and the others after.

The records are those of the library `csv`, see `Csv/Record`. Taken as given of it here are

* `fieldText`: the two steps in which it takes blanks off, and the text between them;
* `BadText`, `lineAt`: what it says of a field that is not UTF-8, the line counted by line feeds up
  to where it came to look for the record.
-/

namespace PostfixSheet

namespace Csv

/-- The place of a field that is not UTF-8. -/
structure BadText where
  /-- The number of records before the one with the field. -/
  record : Nat
  /-- The number of the line at which the reader came to look for the record. -/
  line : Nat
  /-- The number of fields before this one. -/
  field : Nat
  /-- The number of bytes before the reader came to look for the record. -/
  byte : Nat
  /-- The length of the part of the field that is UTF-8. -/
  validLength : Nat
  deriving Repr, DecidableEq

/-- The wording of a field that is not UTF-8. -/
def BadText.message (e : BadText) : String :=
  "CSV parse error: record " ++ toString e.record ++ " (line " ++ toString e.line ++ ", field: "
    ++ toString e.field ++ ", byte: " ++ toString e.byte
    ++ "): invalid utf-8: invalid UTF-8 in field " ++ toString e.field ++ " near byte index "
    ++ toString e.validLength

/-- The text of a field, or the length of the part of it that is UTF-8. -/
def fieldText (trim : Bool) (bytes : List UInt8) : Except Nat String :=
  if trim then
    (Utf8.decode (Text.strip Text.isBlankByte bytes)).map fun text =>
      String.ofList (Text.strip Text.isBlank text)
  else (Utf8.decode bytes).map String.ofList

/-- The texts of fields, or the number of the first one that is not UTF-8 and the length of the
part of it that is. -/
def fieldTexts (trim : Bool) : (index : Nat) → List (List UInt8) → Except (Nat × Nat) (List String)
  | _, [] => .ok []
  | index, field :: rest =>
    match fieldText trim field with
    | .error validLength => .error (index, validLength)
    | .ok text => (fieldTexts trim (index + 1) rest).map (text :: ·)

/-- The number of the line on which the byte at a position stands, counting line feeds. -/
def lineAt (input : List UInt8) (position : Nat) : Nat := 1 + (input.take position).count lineFeed

/-- The number of line breaks at the front of bytes. CR LF is one line break, and with `afterReturn`
its first byte stands before the bytes. -/
def leadingBreaks : (afterReturn : Bool) → List UInt8 → Nat
  | _, [] => 0
  | afterReturn, b :: rest =>
    if afterReturn && b == lineFeed then leadingBreaks false rest
    else if isLineBreak b then leadingBreaks (b == carriageReturn) rest + 1
    else 0

/-- The number of empty lines before a record, by the bytes that were read for it. -/
def emptyLines (input : List UInt8) (record : Record) : Nat :=
  leadingBreaks ((input.take record.offset).getLast? == some carriageReturn)
    ((input.take record.stop).drop record.offset)

/-- The rows of the records from number `index` on; `done` are the rows before them, the last one
first. -/
def rowsFrom (options : ReadOptions) (input : List UInt8) :
    (index : Nat) → (done : List (List String)) → List Record → Except BadText (List (List String))
  | _, done, [] => .ok done.reverse
  | index, done, record :: rest =>
    match fieldTexts options.trim 0 record.fields with
    | .error (field, validLength) =>
      .error ⟨index, lineAt input record.offset, field, record.offset, validLength⟩
    | .ok row =>
      rowsFrom options input (index + 1)
        (row :: (List.replicate (emptyLines input record) [""] ++ done)) rest

/-- Reads bytes as a sheet. -/
def read (options : ReadOptions) (input : List UInt8) : Except BadText Sheet :=
  (rowsFrom options input 0 [] (records options.dialect input)).map Sheet.mk

end Csv

end PostfixSheet
