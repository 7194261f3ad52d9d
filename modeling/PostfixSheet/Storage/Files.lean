/-!
# Files

Stands for the two operations of the system on files that `read_file` and `write_file` need: to read
a whole file and to write a whole file. A monad that offers the two is an instance of `Files`; each
of them may fail with a `FileFault`, which is worded as the system words it.
-/

namespace PostfixSheet

/-- Why a file cannot be read or written. -/
inductive FileFault where
  /-- The path holds the character that ends a path for the system. -/
  | nulInPath
  | notFound
  | notADirectory
  | isDirectory
  | nameTooLong
  /-- Any other reason, in words and with its number in the system. -/
  | other (reason : String) (code : Nat)
  deriving Repr, DecidableEq

/-- A reason that the system gives, with its number. -/
def FileFault.systemMessage (reason : String) (code : Nat) : String :=
  reason ++ " (os error " ++ toString code ++ ")"

/-- The wording of a fault. -/
def FileFault.message : FileFault → String
  | .nulInPath => "file name contained an unexpected NUL byte"
  | .notFound => systemMessage "No such file or directory" 2
  | .notADirectory => systemMessage "Not a directory" 20
  | .isDirectory => systemMessage "Is a directory" 21
  | .nameTooLong => systemMessage "File name too long" 36
  | .other reason code => systemMessage reason code

/-- A monad in which files are read and written. -/
class Files (m : Type → Type) where
  /-- The bytes of the file at a path. -/
  read (path : String) : m (Except FileFault (List UInt8))
  /-- Makes the bytes the whole content of the file at a path, which need not exist before. -/
  write (path : String) (bytes : List UInt8) : m (Except FileFault Unit)

end PostfixSheet
