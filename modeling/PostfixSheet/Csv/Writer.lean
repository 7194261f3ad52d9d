import PostfixSheet.Csv.Dialect
import PostfixSheet.Number.Text
import PostfixSheet.Sheet
import PostfixSheet.Text.Utf8

/-!
# Writing results

Model of the `write` of `CsvWriter` and of `format_outcome` (`outcomeText`).

Every row of results becomes a line of its own length. A field is quoted exactly when it holds the
delimiter, the quote or a byte of a line break, and the quotes in it are then doubled. A line that
would be empty is written as two quotes, so that it is read back as a row.

How a record is written is left to the library `csv`, which is not part of the source. Taken as
given of it are

* `needsQuotes`: the four bytes for which it quotes a field, whatever the line end is;
* `doubleQuotes`: it doubles quotes and escapes nothing else;
* `recordBytes`: it writes two quotes where a line would be empty, as for a record without fields
  and for one empty field;
* `write`: every record ends in a line end, the last one too.

Results:
* `recordBytes_ne_nil`: no line is empty.
-/

namespace PostfixSheet

namespace Csv

/-- Whether a field must be quoted. -/
def needsQuotes (d : Dialect) (field : List UInt8) : Bool :=
  field.any fun b => b == d.delimiter || b == d.quote || isLineBreak b

/-- The bytes of a field, with each quote doubled. -/
def doubleQuotes (quote : UInt8) (field : List UInt8) : List UInt8 :=
  field.flatMap fun b => if b = quote then [b, b] else [b]

/-- A field as it is written. -/
def quoteField (d : Dialect) (field : List UInt8) : List UInt8 :=
  if needsQuotes d field then d.quote :: doubleQuotes d.quote field ++ [d.quote] else field

/-- A record as it is written, without the end of its line. -/
def recordBytes (d : Dialect) (fields : List (List UInt8)) : List UInt8 :=
  let line := [d.delimiter].intercalate (fields.map (quoteField d))
  if line.isEmpty then [d.quote, d.quote] else line

theorem recordBytes_ne_nil (d : Dialect) (fields : List (List UInt8)) :
    recordBytes d fields ≠ [] := by
  unfold recordBytes
  simp only
  split
  · simp
  · rename_i h
    simpa using h

/-- The text that is written for an outcome. -/
def outcomeText (marker : Marker) : Outcome → String
  | .number x => numberText x
  | .error kind =>
    match marker with
    | .uniform text => text
    | .detailed => kind.code

/-- Writes results as bytes. -/
def write (options : WriteOptions) (results : Results) : List UInt8 :=
  results.rows.flatMap fun row =>
    let fields := row.map fun outcome => Utf8.encode (outcomeText options.marker outcome).toList
    recordBytes options.dialect fields ++ options.lineEnd.bytes

end Csv

end PostfixSheet
