/-!
# Files by path

A path leads from a place in a tree of folders to another place, one name after the other. A file
is read at the place that its path leads to; a path that leads nowhere, or not to a file, has a
fault.

`Place.read_name` says that a plain name is looked up in the folder itself, and
`Place.enter_file` that nothing lies below a file.
-/

namespace Markup.CommandLine

/-! ## Faults -/

/-- Why a file gave no bytes. -/
inductive FileFault where
  /-- There is no such file. -/
  | missing
  /-- The path goes on after a file. -/
  | notDirectory
  /-- The path leads to a folder. -/
  | isDirectory
  /-- A name of the path, or the path itself, is too long. -/
  | nameTooLong
  /-- Any other cause, in the words of the system. -/
  | other (message : String)
  deriving DecidableEq, Repr

/-- The wording of a fault. -/
def FileFault.message : FileFault → String
  | .missing => "No such file or directory (os error 2)"
  | .notDirectory => "Not a directory (os error 20)"
  | .isDirectory => "Is a directory (os error 21)"
  | .nameTooLong => "File name too long (os error 36)"
  | .other message => message

/-- The most bytes of a name. -/
def maxNameBytes : Nat := 255

/-- The most bytes of a path. -/
def maxPathBytes : Nat := 4095

/-! ## Trees -/

/-- What stands in a folder under a name. -/
inductive FileTree where
  /-- A file and its bytes. -/
  | file (bytes : List UInt8)
  /-- A folder and what stands in it, by name. -/
  | folder (entries : List (String × FileTree))

/-- The entries of a folder; a file has none. -/
def FileTree.entries : FileTree → List (String × FileTree)
  | file _ => []
  | folder entries => entries

/-- A folder with one more file, at the end of a path of names. The folders on the way are made
where they are not there yet. -/
def FileTree.addFile (bytes : List UInt8) : List String → FileTree → FileTree
  | [], _ => file bytes
  | name :: names, tree =>
    let below := (tree.entries.lookup name).getD (folder [])
    folder ((name, addFile bytes names below) :: tree.entries)

/-! ## Paths -/

/-- The texts between the slashes of a text. -/
def splitSlashes : List Char → List (List Char)
  | [] => [[]]
  | c :: cs =>
    if c = '/' then [] :: splitSlashes cs else (splitSlashes cs).modifyHead (c :: ·)

/-- The names of a path. Two slashes in a row, or one at an end, have an empty name beside them. -/
def pathNames (path : String) : List String :=
  (splitSlashes path.toList).map String.ofList

/-- A text without a slash is one name. -/
theorem splitSlashes_of_not_mem {cs : List Char} (h : '/' ∉ cs) : splitSlashes cs = [cs] := by
  induction cs with
  | nil => rfl
  | cons c cs ih =>
    simp only [List.mem_cons, not_or] at h
    simp [splitSlashes, Ne.symm h.1, ih h.2]

/-- A path without a slash is one name. -/
theorem pathNames_of_not_mem {path : String} (h : '/' ∉ path.toList) : pathNames path = [path] := by
  simp [pathNames, splitSlashes_of_not_mem h]

/-! ## Places -/

/-- A place in a tree, with the folders that it lies in, the innermost first. -/
structure Place where
  /-- What stands at the place. -/
  here : FileTree
  /-- The folders around it. -/
  above : List FileTree

namespace Place

/-- The folder around a place; the outermost one is its own. -/
def parent : Place → Place
  | ⟨_, folder :: above⟩ => ⟨folder, above⟩
  | ⟨here, []⟩ => ⟨here, []⟩

/-- The outermost folder. -/
def root (p : Place) : Place :=
  ⟨p.above.getLast?.getD p.here, []⟩

/-- The place that one name leads to. An empty name and a dot lead nowhere else, but only a folder
has them. -/
def enter (p : Place) (name : String) : Except FileFault Place :=
  match p.here with
  | .file _ => .error .notDirectory
  | .folder entries =>
    if name = "" ∨ name = "." then .ok p
    else if name = ".." then .ok p.parent
    else if maxNameBytes < name.utf8ByteSize then .error .nameTooLong
    else
      match entries.lookup name with
      | some tree => .ok ⟨tree, p.here :: p.above⟩
      | none => .error .missing

/-- The place that a path leads to; a path with a slash in front begins at the outermost folder. -/
def follow (p : Place) (path : String) : Except FileFault Place :=
  if path = "" then .error .missing
  else if maxPathBytes < path.utf8ByteSize then .error .nameTooLong
  else (pathNames path).foldlM enter (if path.toList.head? = some '/' then p.root else p)

/-- The bytes of the file that a path leads to. -/
def read (p : Place) (path : String) : Except FileFault (List UInt8) :=
  match p.follow path with
  | .error fault => .error fault
  | .ok ⟨.folder _, _⟩ => .error .isDirectory
  | .ok ⟨.file bytes, _⟩ => .ok bytes

/-- Nothing lies below a file, not even the file itself. -/
theorem enter_file (bytes : List UInt8) (above : List FileTree) (name : String) :
    enter ⟨.file bytes, above⟩ name = .error .notDirectory := rfl

/-- A name of a file in a folder leads to the file. -/
theorem read_name {entries : List (String × FileTree)} {above : List FileTree} {name : String}
    {bytes : List UInt8} (slash : '/' ∉ name.toList) (short : name.utf8ByteSize ≤ maxNameBytes)
    (plain : name ≠ "" ∧ name ≠ "." ∧ name ≠ "..")
    (found : entries.lookup name = some (.file bytes)) :
    read ⟨.folder entries, above⟩ name = .ok bytes := by
  have head : name.toList.head? ≠ some '/' := fun h => slash (List.mem_of_head? h)
  have fits : ¬ maxPathBytes < name.utf8ByteSize := by
    simp only [maxNameBytes, maxPathBytes] at *; omega
  have step : enter ⟨.folder entries, above⟩ name
      = .ok ⟨.file bytes, .folder entries :: above⟩ := by
    simp [enter, plain, Nat.not_lt.2 short, found]
  simp [read, follow, plain.1, fits, head, pathNames_of_not_mem slash, step]

end Place

end Markup.CommandLine
