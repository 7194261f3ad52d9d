/-!
# Paths

Model of `is_tsv` (`isTabbed`), with the reading of paths in the standard library that it calls.

A path is a text of names with slashes between them. Empty names say nothing, `.` stands for the
directory itself and `..` for the one above it.

* `Path.steps` are the names to follow from the directory in which the path begins.
* `Path.extension?` is what stands behind the last dot of the last name, and `Path.isTabbed` says
  whether that is `tsv` in any case.
-/

namespace PostfixSheet

namespace Path

/-- The names of a path that are not empty. -/
def steps (path : String) : List String :=
  ((path.toList.splitOnP (· == '/')).filter fun name => !name.isEmpty).map String.ofList

/-- Whether a path begins at the top of all directories. -/
def isAbsolute (path : String) : Bool := path.toList.head? == some '/'

/-- Whether a path ends in a slash and so can only name a directory. -/
def endsInSlash (path : String) : Bool := path.toList.getLast? == some '/'

/-- The name that a path ends in, if it is that of something in a directory. -/
def fileName? (path : String) : Option String :=
  match ((steps path).filter (· != ".")).getLast? with
  | none => none
  | some name => if name = ".." then none else some name

/-- What stands behind the last dot of a name, unless the name begins with that dot. -/
def extensionOf? (name : List Char) : Option (List Char) :=
  match name.reverse.dropWhile (· != '.') with
  | _ :: _ :: _ => some (name.reverse.takeWhile (· != '.')).reverse
  | _ => none

/-- The extension of the name that a path ends in. -/
def extension? (path : String) : Option (List Char) :=
  (fileName? path).bind fun name => extensionOf? name.toList

/-- Whether a path has the extension `tsv`, in any case. -/
def isTabbed (path : String) : Bool :=
  (extension? path).map (·.map Char.toLower) == some ['t', 's', 'v']

end Path

end PostfixSheet
