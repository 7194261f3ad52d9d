import PostfixSheet.CommandLine.Report

/-!
# The program

Model of `main`: runs a request on the files of the system and shows its report. `init_logging` has
no counterpart, because warnings are all that is shown of the messages on the way.
-/

namespace PostfixSheet

/-- The number that the system gives to an error, which may be negated, and the reason in words. -/
def numberAndReason : IO.Error → UInt32 × String
  | .noFileOrDirectory _ number reason => (number, reason)
  | .noSuchThing _ number reason => (number, reason)
  | .inappropriateType _ number reason => (number, reason)
  | .invalidArgument _ number reason => (number, reason)
  | .permissionDenied _ number reason => (number, reason)
  | .resourceExhausted _ number reason => (number, reason)
  | .alreadyExists _ number reason => (number, reason)
  | .resourceBusy number reason => (number, reason)
  | .hardwareFault number reason => (number, reason)
  | .otherError number reason => (number, reason)
  | error => (0, toString error)

/-- The fault that an error of the system is. -/
def FileFault.ofError (error : IO.Error) : FileFault :=
  let (signed, reason) := numberAndReason error
  let number := if signed < 0x80000000 then signed.toNat else (0 - signed).toNat
  match number with
  | 2 => .notFound
  | 20 => .notADirectory
  | 21 => .isDirectory
  | 36 => .nameTooLong
  | _ => .other reason number

/-- Runs an action on the file at a path. A path that the system would cut short is refused. -/
def onFile {α : Type} (path : String) (action : IO α) : IO (Except FileFault α) := do
  if path.toList.contains (Char.ofNat 0) then return .error .nulInPath
  try return .ok (← action)
  catch error => return .error (FileFault.ofError error)

instance : Files IO where
  read path := onFile path do return (← IO.FS.readBinFile path).toList
  write path bytes := onFile path (IO.FS.writeBinFile path ⟨bytes.toArray⟩)

end PostfixSheet

/-- Shows the report on the arguments and ends with its status. -/
def main (arguments : List String) : IO UInt32 := do
  let report ← PostfixSheet.Report.run arguments
  let stderr ← IO.getStderr
  for warning in report.warnings do
    stderr.putStrLn ("WARN " ++ warning)
  let stdout ← IO.getStdout
  stdout.write ⟨report.stdout.toArray⟩
  stdout.flush
  stderr.putStr report.stderr
  return report.status.toUInt32
