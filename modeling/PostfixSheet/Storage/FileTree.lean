import PostfixSheet.Storage.Files
import PostfixSheet.Storage.Path

/-!
# File trees

Stands for the files of the system, which are not part of the source: for how `read_file` opens a
file and `write_file` makes one. How the system follows paths, and the faults that it gives, are
taken as given.

A file tree holds directories and files, each at its place, which is the list of the names that lead
to it from the top. Paths that are not absolute begin in the tree's working directory. A path is
followed name by name, and each name but the last must be that of a directory. A slash at the end of
a path says that the last one names a directory, too, so that nothing can be written there.

* `FileTree.entryAt?` is what stands at a place, and `FileTree.follow` finds the place of a path.
* `FileTree.read` and `FileTree.write` are the two operations on files.

Results:
* `entryAt?_put`: putting a file at a place changes what stands there and nothing else.
* `follow_put`: paths that can be followed lead to the same places after a file was put somewhere.
* `read_write`: what was written to a path is read from it.
-/

namespace PostfixSheet

/-- What stands at a place. -/
inductive FileTree.Entry where
  | directory
  | file (bytes : List UInt8)
  deriving Repr, DecidableEq

/-- Directories and files at their places, and the place where paths begin. The top and the working
directory are directories in any case. -/
structure FileTree where
  workingDirectory : List String
  entries : List (List String × FileTree.Entry)
  deriving Repr, DecidableEq

namespace FileTree

/-- The tree of a working directory that is empty. -/
def empty (workingDirectory : List String) : FileTree := ⟨workingDirectory, []⟩

/-- What stands at a place, if anything. -/
def entryAt? (tree : FileTree) (place : List String) : Option Entry :=
  if place.isPrefixOf tree.workingDirectory then some .directory else tree.entries.lookup place

/-- The tree with an entry at a place in front of all others. -/
def put (tree : FileTree) (place : List String) (entry : Entry) : FileTree :=
  { tree with entries := (place, entry) :: tree.entries }

theorem entryAt?_put {tree : FileTree} {place : List String} {entry : Entry}
    (h : tree.entryAt? place ≠ some .directory) (other : List String) :
    (tree.put place entry).entryAt? other =
      if other = place then some entry else tree.entryAt? other := by
  have hp : place.isPrefixOf tree.workingDirectory = false := by
    cases hb : place.isPrefixOf tree.workingDirectory
    · rfl
    · simp [entryAt?, hb] at h
  by_cases ho : other = place
  · subst ho
    simp [entryAt?, put, hp]
  · have hb : (other == place) = false := by simpa using ho
    simp [entryAt?, put, List.lookup_cons, ho, hb]

/-! ## Following paths -/

/-- The most bytes that a name may have. -/
def longestName : Nat := 255

/-- The most bytes that a path may have. -/
def longestPath : Nat := 4095

/-- The place that a name leads to from the place of a directory. -/
def place (directory : List String) (name : String) : List String :=
  if name = "." then directory
  else if name = ".." then directory.dropLast
  else directory ++ [name]

/-- The place that names lead to. Something must stand at each place on the way, and it must be a
directory; at the last place there may be nothing. -/
def follow (tree : FileTree) : (start : List String) → List String → Except FileFault (List String)
  | start, [] => .ok start
  | start, name :: rest =>
    match tree.entryAt? start with
    | none => .error .notFound
    | some (.file _) => .error .notADirectory
    | some .directory =>
      if longestName < name.utf8ByteSize then .error .nameTooLong
      else tree.follow (place start name) rest

/-- The place where a path begins, if the path can be looked up at all. -/
def start (tree : FileTree) (path : String) : Except FileFault (List String) :=
  if path.toList.contains (Char.ofNat 0) then .error .nulInPath
  else if path = "" then .error .notFound
  else if longestPath < path.utf8ByteSize then .error .nameTooLong
  else .ok (if Path.isAbsolute path then [] else tree.workingDirectory)

/-- The place of a path. -/
def locate (tree : FileTree) (path : String) : Except FileFault (List String) :=
  match tree.start path with
  | .error fault => .error fault
  | .ok first => tree.follow first (Path.steps path)

/-! ## Reading and writing -/

/-- The bytes of the file at a path. -/
def read (tree : FileTree) (path : String) : Except FileFault (List UInt8) :=
  match tree.locate path with
  | .error fault => .error fault
  | .ok found =>
    match tree.entryAt? found with
    | none => .error .notFound
    | some .directory => .error .isDirectory
    | some (.file bytes) => if Path.endsInSlash path then .error .notADirectory else .ok bytes

/-- What keeps bytes from a path that names a directory by a slash at its end. All names but the
last are followed; the last is not looked at. -/
def directoryFault (tree : FileTree) (path : String) : FileFault :=
  match tree.start path with
  | .error fault => fault
  | .ok first =>
    match tree.follow first (Path.steps path).dropLast with
    | .error fault => fault
    | .ok above =>
      match tree.entryAt? above with
      | none => .notFound
      | some (.file _) => .notADirectory
      | some .directory => .isDirectory

/-- The tree in which the file at a path has the given bytes. A slash at the end names a directory,
which is no place for bytes. -/
def write (tree : FileTree) (path : String) (bytes : List UInt8) : Except FileFault FileTree :=
  if Path.endsInSlash path then .error (tree.directoryFault path)
  else
    match tree.locate path with
    | .error fault => .error fault
    | .ok found =>
      match tree.entryAt? found with
      | some .directory => .error .isDirectory
      | _ => .ok (tree.put found (.file bytes))

theorem follow_put {tree : FileTree} {found : List String} {entry : Entry}
    (h : tree.entryAt? found ≠ some .directory) {start : List String} {names : List String}
    {last : List String} (hf : tree.follow start names = .ok last) :
    (tree.put found entry).follow start names = .ok last := by
  induction names generalizing start with
  | nil => exact hf
  | cons name rest ih =>
    have hs : tree.entryAt? start = some .directory := by
      unfold follow at hf
      split at hf <;> simp_all
    have hne : start ≠ found := fun he => h (he ▸ hs)
    have hput : (tree.put found entry).entryAt? start = some .directory := by
      rw [entryAt?_put h, if_neg hne, hs]
    unfold follow at hf ⊢
    rw [hs] at hf
    rw [hput]
    simp only at hf ⊢
    split at hf
    · cases hf
    · rename_i hlen
      rw [if_neg hlen]
      exact ih hf

theorem start_put (tree : FileTree) (found : List String) (entry : Entry) (path : String) :
    (tree.put found entry).start path = tree.start path := rfl

theorem locate_put {tree : FileTree} {found : List String} {entry : Entry}
    (h : tree.entryAt? found ≠ some .directory) {path : String} {last : List String}
    (hl : tree.locate path = .ok last) : (tree.put found entry).locate path = .ok last := by
  unfold locate at hl ⊢
  rw [start_put]
  split at hl
  · cases hl
  · exact follow_put h hl

theorem write_eq_ok {tree written : FileTree} {path : String} {bytes : List UInt8}
    (h : tree.write path bytes = .ok written) :
    ∃ found, tree.locate path = .ok found ∧ tree.entryAt? found ≠ some .directory ∧
      Path.endsInSlash path = false ∧ written = tree.put found (.file bytes) := by
  unfold write at h
  split at h
  · cases h
  rename_i hslash
  split at h
  · cases h
  rename_i found hl
  refine ⟨found, hl, ?_⟩
  split at h <;> simp_all

/-- **What was written to a path is read from it.** -/
theorem read_write {tree written : FileTree} {path : String} {bytes : List UInt8}
    (h : tree.write path bytes = .ok written) : written.read path = .ok bytes := by
  obtain ⟨found, hl, hd, hslash, rfl⟩ := write_eq_ok h
  simp [read, locate_put hd hl, entryAt?_put hd, hslash]

instance : Files (StateM FileTree) where
  read path := fun tree => (tree.read path, tree)
  write path bytes := fun tree =>
    match tree.write path bytes with
    | .error fault => (.error fault, tree)
    | .ok written => (.ok (), written)

end FileTree

end PostfixSheet
