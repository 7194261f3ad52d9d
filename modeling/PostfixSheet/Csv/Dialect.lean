/-!
# Dialects of separated values

Model of `CsvReadOptions`, `CsvWriteOptions`, `LineTerminator` and `ErrorMarker` with their
defaults, and of the two `tsv`.

A table is written line by line, its fields separated by a **delimiter** byte; a **quote** byte at
both ends of a field keeps delimiters, quotes and line breaks in it from counting as such.

* `Dialect.comma` and `Dialect.tab` are the two usual dialects.
* `ReadOptions` and `WriteOptions` add to a dialect what only a reader or a writer needs to know.
-/

namespace PostfixSheet

namespace Csv

/-- The bytes with a meaning of their own. -/
structure Dialect where
  delimiter : UInt8
  quote : UInt8
  deriving Repr, DecidableEq

/-- Fields between commas. -/
def Dialect.comma : Dialect := ⟨0x2C, 0x22⟩

/-- Fields between tabs. -/
def Dialect.tab : Dialect := ⟨0x09, 0x22⟩

/-- The line feed. -/
def lineFeed : UInt8 := 0x0A

/-- The carriage return. -/
def carriageReturn : UInt8 := 0x0D

/-- Whether a byte breaks a line. -/
def isLineBreak (b : UInt8) : Bool := b == lineFeed || b == carriageReturn

/-- How a table is read. -/
structure ReadOptions where
  dialect : Dialect
  /-- Whether blanks are taken off the ends of fields. -/
  trim : Bool
  deriving Repr, DecidableEq

/-- Reading with a dialect and without taking blanks off. -/
def ReadOptions.of (dialect : Dialect) : ReadOptions := ⟨dialect, false⟩

/-- What ends a line that is written. -/
inductive LineEnd where
  | lf
  | crlf
  deriving Repr, DecidableEq

/-- The bytes that end a line. -/
def LineEnd.bytes : LineEnd → List UInt8
  | .lf => [lineFeed]
  | .crlf => [carriageReturn, lineFeed]

/-- What is written for a cell that has an error. -/
inductive Marker where
  /-- The same text for every error. -/
  | uniform (text : String)
  /-- The code of the kind of error. -/
  | detailed
  deriving Repr, DecidableEq

/-- The marker that is written where none is asked for. -/
def Marker.default : Marker := .uniform "#ERR"

/-- How a table is written. -/
structure WriteOptions where
  dialect : Dialect
  lineEnd : LineEnd
  marker : Marker
  deriving Repr, DecidableEq

/-- Writing with a dialect, line feeds and the usual marker. -/
def WriteOptions.of (dialect : Dialect) : WriteOptions := ⟨dialect, .lf, .default⟩

end Csv

end PostfixSheet
