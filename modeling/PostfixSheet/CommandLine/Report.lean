import PostfixSheet.Calculation
import PostfixSheet.CommandLine.Request
import PostfixSheet.Storage.SheetFile
import PostfixSheet.Text.Terminal
import PostfixSheet.Text.Utf8

/-!
# Reports

Model of `delimiter_byte` (`dialectFor`), `load`, `eval` and `show_info`, and of what `main` shows
of their errors.

A report is all that a run of the program shows apart from the files that it writes: its exit
status, its standard output, its warnings and its error text. The status is 0 if the request was
fulfilled, 1 if it could not be, and 2 if the arguments make no request.

* `Report.run` fulfils the request of the arguments.

How a failure and its causes are laid out (`failure`, `causeLines`) is the library `anyhow`'s, which
is not part of the source, and so is taken as given. The usage and what it says of a mistake are
worded here: of a run that makes no request only the status is the program's. Messages below the
level of a warning are left out.
-/

namespace PostfixSheet

/-- What a run of the program shows. -/
structure Report where
  status : Nat
  stdout : List UInt8
  warnings : List String
  stderr : String
  deriving Repr, DecidableEq

namespace Report

/-- The name of the program. -/
def programName : String := "rpn"

/-- The version of the program. -/
def programVersion : String := "0.1.0"

/-- How the program is used. -/
def usage : String :=
  "Usage: rpn [-v]... eval <INPUT> [-o <OUTPUT>] [-d <CHAR>] [--error-marker <TEXT>]\n"
    ++ "                    [--detailed-errors] [--cache]\n"
    ++ "       rpn [-v]... info <INPUT> [-d <CHAR>]\n"
    ++ "       rpn --version\n"

/-- A fulfilled request that shows bytes. -/
def shown (bytes : List UInt8) (warnings : List String) : Report := ⟨0, bytes, warnings, ""⟩

/-- A fulfilled request that shows a text. -/
def told (text : String) : Report := shown (Utf8.encode text.toList) []

/-- The lines with the causes of a failure, numbered from `0`. -/
def causeLines (causes : List String) : String :=
  String.join (causes.zipIdx.map fun (cause, i) => "    " ++ toString i ++ ": " ++ cause ++ "\n")

/-- A request that could not be fulfilled: what failed, and its causes from the outermost one on. -/
def failure (failed : String) (causes : List String) (warnings : List String) : Report :=
  let reasons := if causes.isEmpty then "" else "\nCaused by:\n" ++ causeLines causes
  ⟨1, [], warnings, "Error: " ++ failed ++ "\n" ++ reasons⟩

/-- Arguments that make no request. -/
def refusal (misuse : Misuse) : Report :=
  ⟨2, [], [], "error: " ++ misuse.message ++ "\n\n" ++ usage⟩

/-! ## Delimiters -/

/-- The dialect for a file: the delimiter that was asked for, which must be ASCII, or else the one
that goes with the extension. A character that is not ASCII is given back. -/
def dialectFor (delimiter : Option Char) (input : String) : Except Char Csv.Dialect :=
  match delimiter with
  | none => .ok (SheetFile.dialectOf input)
  | some c =>
    if c.toNat < 128 then .ok { Csv.Dialect.comma with delimiter := UInt8.ofNat c.toNat }
    else .error c

/-- The report on a delimiter that is not ASCII. -/
def badDelimiter (c : Char) : Report :=
  failure ("Delimiter must be an ASCII character, got '" ++ c.toString ++ "'") [] []

/-- The report on a file that could not be read or written. -/
def storageFailure (failed path : String) (fault : StorageFault) (warnings : List String) :
    Report :=
  failure (failed ++ " '" ++ path ++ "'") [fault.message, fault.cause] warnings

/-- The warning that the sheet in a file is empty, as a terminal may show it. -/
def emptyWarning (path : String) : String :=
  Terminal.spellOut ("Grid in '" ++ path ++ "' appears to be empty")

/-! ## Descriptions -/

/-- Of how many cells of each kind a sheet is made. -/
structure Census where
  numbers : Nat
  references : Nat
  expressions : Nat
  other : Nat
  deriving Repr, DecidableEq

/-- The counts with one text more. -/
def Census.add (census : Census) (raw : String) : Census :=
  match Content.classify raw with
  | .number _ => { census with numbers := census.numbers + 1 }
  | .reference _ => { census with references := census.references + 1 }
  | .expression _ => { census with expressions := census.expressions + 1 }
  | .other => { census with other := census.other + 1 }

/-- The counts of a sheet. -/
def Census.ofSheet (sheet : Sheet) : Census :=
  (sheet.cells.map Prod.snd).foldl Census.add ⟨0, 0, 0, 0⟩

/-- The description of a sheet from the given file. -/
def description (path : String) (sheet : Sheet) : String :=
  let census := Census.ofSheet sheet
  "File: " ++ path ++ "\n"
    ++ "Grid: " ++ toString sheet.rowCount ++ " rows x " ++ toString sheet.width
    ++ " columns (widest row)\n"
    ++ "Cells: " ++ toString sheet.cellCount ++ "\n"
    ++ "  Numbers:     " ++ toString census.numbers ++ "\n"
    ++ "  References:  " ++ toString census.references ++ "\n"
    ++ "  Expressions: " ++ toString census.expressions ++ "\n"
    ++ "  Other:       " ++ toString census.other ++ "\n"

/-! ## Runs -/

section Runs

variable {m : Type → Type} [Monad m] [Files m]

/-- Evaluates the sheet in a file, and writes the results to a file or shows them. -/
def evaluate (input : String) (output : Option String) (delimiter : Option Char)
    (marker : Csv.Marker) (policy : Policy) : m Report :=
  match dialectFor delimiter input with
  | .error c => return badDelimiter c
  | .ok dialect => do
    match ← SheetFile.readWith (.of dialect) input with
    | .error fault => return storageFailure "Failed to open" input fault []
    | .ok sheet =>
      let warnings := if sheet.isEmpty then [emptyWarning input] else []
      let results := (calculate sheet policy).results
      let options : Csv.WriteOptions := { Csv.WriteOptions.of dialect with marker := marker }
      match output with
      | none => return shown (Csv.write options results) warnings
      | some path =>
        match ← SheetFile.writeWith options path results with
        | .error fault => return storageFailure "Failed to write" path fault warnings
        | .ok () => return shown [] warnings

/-- Describes the sheet in a file. -/
def describe (input : String) (delimiter : Option Char) : m Report :=
  match dialectFor delimiter input with
  | .error c => return badDelimiter c
  | .ok dialect => do
    match ← SheetFile.readWith (.of dialect) input with
    | .error fault => return storageFailure "Failed to open" input fault []
    | .ok sheet => return told (description input sheet)

/-- Fulfils a request. -/
def fulfil : Request → m Report
  | .help => return told usage
  | .version => return told (programName ++ " " ++ programVersion ++ "\n")
  | .evaluate input output delimiter marker policy =>
    evaluate input output delimiter marker policy
  | .describe input delimiter => describe input delimiter

/-- Fulfils the request that the arguments make. -/
def run (arguments : List String) : m Report :=
  match Request.parse arguments with
  | .error misuse => return refusal misuse
  | .ok request => fulfil request

end Runs

end Report

end PostfixSheet
