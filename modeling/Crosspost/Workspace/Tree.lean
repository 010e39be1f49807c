/-
  Files and directories.

  A tree holds the entries of a file system by their locations. Operations take
  the names of a path and the location where its way starts, and answer like the
  file system of an operating system, with its errors.

  * `Tree.get?` looks an entry up; `Tree.set`, `Tree.remove` and `Tree.move` change
    entries; `Tree.below` and `Tree.mount` take a part out and put it in;
  * `Tree.walk` follows a path, `Tree.read`, `Tree.write`, `Tree.append`,
    `Tree.copy` and `Tree.makeDirs` are the operations on paths.
-/
import Crosspost.Text.Quoted
import Crosspost.Workspace.Path

namespace Crosspost

/-- Why an operation on files fails. -/
inductive FsError where
  /-- There is nothing at the path. -/
  | noEntry
  /-- There is something at the path already. -/
  | alreadyExists
  /-- A file stands where a directory is needed. -/
  | notDirectory
  /-- A directory stands where a file is needed. -/
  | isDirectory
  /-- A name, or the whole path, is too long. -/
  | nameTooLong
  /-- The file is no program that may be run. -/
  | accessDenied
  /-- The directory is in use by the system. -/
  | busy
  /-- The path, which was given as `role`, holds a null character. -/
  | nullCharacter (role path : String)
  deriving DecidableEq, Repr

/-- The code of an error. -/
def FsError.code : FsError → String
  | noEntry => "ENOENT"
  | alreadyExists => "EEXIST"
  | notDirectory => "ENOTDIR"
  | isDirectory => "EISDIR"
  | nameTooLong => "ENAMETOOLONG"
  | accessDenied => "EACCES"
  | busy => "EBUSY"
  | nullCharacter _ _ => "ERR_INVALID_ARG_VALUE"

/-- What there is to tell about an error beside its code. -/
def FsError.message? : FsError → Option String
  | nullCharacter role path => some ("The argument '" ++ role ++
      "' must be a string, Uint8Array, or URL without null bytes. Received " ++ Text.shown path)
  | _ => none

/-- What stands at a location. -/
inductive Entry where
  | file (content : String)
  | directory
  deriving DecidableEq, Repr

/-- A place in a file system, as the names that lead there from its root. -/
abbrev Location := List String

/-- The location with the part `source` at its front, if it is there, replaced
    by `target`. -/
def Location.shift (source target l : Location) : Location :=
  if source.isPrefixOf l then target ++ l.drop source.length else l

/-- The entries of a file system. -/
structure Tree where
  entries : List (Location × Entry)
  deriving Repr

namespace Tree

/-- The tree without entries. -/
def empty : Tree := ⟨[]⟩

/-- What stands at a location. The root is always there. -/
def get? (t : Tree) : Location → Option Entry
  | [] => some .directory
  | l => t.entries.lookup l

/-- The tree with an entry put at a location. -/
def set (t : Tree) (l : Location) (e : Entry) : Tree :=
  ⟨t.entries.filter (·.1 != l) ++ [(l, e)]⟩

/-- The tree without a location and all that is below it. -/
def remove (t : Tree) (l : Location) : Tree := ⟨t.entries.filter fun e => !l.isPrefixOf e.1⟩

/-- The tree with all that is at a location and below it moved to another
    one. -/
def move (t : Tree) (source target : Location) : Tree :=
  ⟨t.entries.map fun e => (Location.shift source target e.1, e.2)⟩

/-- The entries below a location, as a tree of their own. -/
def below (t : Tree) (l : Location) : Tree :=
  ⟨(t.entries.filter fun e => l.isPrefixOf e.1 && e.1 != l).map fun e =>
    (e.1.drop l.length, e.2)⟩

/-- The tree whose entries stand below a directory, with the directories that
    lead there. -/
def mount (t : Tree) (l : Location) : Tree :=
  ⟨(List.range l.length).map (fun n => (l.take (n + 1), .directory)) ++
    t.entries.map fun e => (l ++ e.1, e.2)⟩

/-! ## Paths -/

/-- The location of what is there at the end of a way through some names. -/
def walk (t : Tree) (here : Location) : List String → Except FsError Location
  | [] => if (t.get? here).isSome then .ok here else .error .noEntry
  | name :: names =>
    match t.get? here with
    | none => .error .noEntry
    | some (.file _) => .error .notDirectory
    | some .directory =>
      if name = "" || name = "." then t.walk here names
      else if name = ".." then t.walk here.dropLast names
      else if Path.isNameTooLong name then .error .nameTooLong
      else t.walk (here ++ [name]) names

/-- What stands at the end of a way. -/
def find (t : Tree) (here : Location) (names : List String) : Except FsError Entry := do
  match t.get? (← t.walk here names) with
  | some e => .ok e
  | none => .error .noEntry

/-- The location for a file at the end of a way, in a directory that is there.
    A way that ends with a slash leads to no file. -/
def fileLocation (t : Tree) (here : Location) (names : List String) :
    Except FsError Location := do
  let written := (names.reverse.dropWhile (· == "")).reverse
  match written.getLast? with
  | none => throw .isDirectory
  | some name =>
    let directory ← t.walk here written.dropLast
    if t.get? directory ≠ some .directory then throw .notDirectory
    else if name = "." || name = ".." || names.getLast? = some "" then throw .isDirectory
    else if Path.isNameTooLong name then throw .nameTooLong
    else if t.get? (directory ++ [name]) = some .directory then throw .isDirectory
    else return directory ++ [name]

/-! ## Operations -/

/-- The content of a file. -/
def read (t : Tree) (here : Location) (names : List String) : Except FsError String := do
  match ← t.find here names with
  | .file content => .ok content
  | .directory => .error .isDirectory

/-- The tree with a file written. -/
def write (t : Tree) (here : Location) (names : List String) (content : String) :
    Except FsError Tree := do
  let l ← t.fileLocation here names
  .ok (t.set l (.file content))

/-- The tree with text added at the end of a file, which need not be there. -/
def append (t : Tree) (here : Location) (names : List String) (content : String) :
    Except FsError Tree := do
  let l ← t.fileLocation here names
  match t.get? l with
  | some (.file before) => .ok (t.set l (.file (before ++ content)))
  | _ => .ok (t.set l (.file content))

/-- The tree after copying an entry to a location for a file, and whether the
    copy succeeded. A directory cannot be copied, but the target is opened, and so
    removed, before this shows. -/
def copy (t : Tree) (e : Entry) (target : Location) : Except FsError Unit × Tree :=
  match e with
  | .file content => (.ok (), t.set target (.file content))
  | .directory => (.error .isDirectory, t.remove target)

/-- The tree with the directories of a way made where they are missing, and
    whether all of them are there then. -/
def makeDirs (t : Tree) (here : Location) : List String → Except FsError Unit × Tree
  | [] => (.ok (), t)
  | name :: names =>
    if name = "" || name = "." then t.makeDirs here names
    else if name = ".." then t.makeDirs here.dropLast names
    else if Path.isNameTooLong name then (.error .nameTooLong, t)
    else
      match t.get? (here ++ [name]) with
      | some .directory => t.makeDirs (here ++ [name]) names
      | some (.file _) => (.error (if names.isEmpty then .alreadyExists else .notDirectory), t)
      | none => (t.set (here ++ [name]) .directory).makeDirs (here ++ [name]) names

/-- A name that nothing in the tree has: longer than all names in it. -/
def freshName (t : Tree) (start : String) : String :=
  start ++ String.join (t.entries.flatMap (·.1)) ++ "x"

/-- All paths in ascending order, directories with a slash at the end, each
    file with its content. -/
def listing (t : Tree) : List (String × Option String) :=
  let lines := t.entries.map fun
    | (l, .file content) => ("/".intercalate l, some content)
    | (l, .directory) => ("/".intercalate l ++ "/", none)
  lines.mergeSort fun a b => Text.before a.1 b.1

end Tree

end Crosspost
