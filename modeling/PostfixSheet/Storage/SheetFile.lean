import PostfixSheet.Csv.Reader
import PostfixSheet.Csv.Writer
import PostfixSheet.Storage.Files
import PostfixSheet.Storage.Path

/-!
# Sheets in files

Model of `read_file` (`readWith`) and `write_file` (`writeWith`), of the `open` of `GridExt`
(`load`) and the `save` of `EvaluatedGridExt`, and of `CsvError` with its wordings (`StorageFault`).

A sheet is read from a file of separated values, and the results of one are written to such a file.
The extension `tsv` asks for tabs between the fields, any other extension for commas.

* `readWith` and `writeWith` take the options of the format, `load` and `save` go by the extension.
* `StorageFault` says why a sheet is not there.
-/

namespace PostfixSheet

/-- Why a sheet cannot be read or its results cannot be written. -/
inductive StorageFault where
  /-- The file cannot be read or written. -/
  | file (fault : FileFault)
  /-- The bytes of the file are no text. -/
  | text (place : Csv.BadText)
  deriving Repr, DecidableEq

namespace StorageFault

/-- What went wrong, by itself. -/
def cause : StorageFault → String
  | .file fault => fault.message
  | .text place => place.message

/-- The wording of a fault, which tells files from texts. -/
def message : StorageFault → String
  | .file fault => "IO error: " ++ fault.message
  | .text place => "CSV error: " ++ place.message

end StorageFault

namespace SheetFile

/-- The dialect that goes with the extension of a path. -/
def dialectOf (path : String) : Csv.Dialect := if Path.isTabbed path then .tab else .comma

section Access

variable {m : Type → Type} [Monad m] [Files m]

/-- Reads the sheet in a file. -/
def readWith (options : Csv.ReadOptions) (path : String) : m (Except StorageFault Sheet) := do
  match ← Files.read path with
  | .error fault => return .error (.file fault)
  | .ok bytes => return (Csv.read options bytes).mapError .text

/-- Writes results to a file. -/
def writeWith (options : Csv.WriteOptions) (path : String) (results : Results) :
    m (Except StorageFault Unit) := do
  match ← Files.write path (Csv.write options results) with
  | .error fault => return .error (.file fault)
  | .ok () => return .ok ()

/-- Reads the sheet in a file by its extension. -/
def load (path : String) : m (Except StorageFault Sheet) := readWith (.of (dialectOf path)) path

/-- Writes results to a file by its extension. -/
def save (path : String) (results : Results) : m (Except StorageFault Unit) :=
  writeWith (.of (dialectOf path)) path results

end Access

end SheetFile

end PostfixSheet
