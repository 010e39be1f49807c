/-
  Path texts.

  Names are separated by `/`; `.` stands for the directory itself and `..` for
  the one around it.

  * `Path.normalize` resolves `.` and `..` in the text alone, `Path.join` puts a
    name below a directory, `Path.resolve` makes a path absolute, and
    `Path.relative` tells the way from a directory to a path;
  * `Path.basename` is the last name of a path, `Path.dirname` the path around it,
    and `Path.extension` what follows the last dot;
  * `Path.isTooLong` and `Path.isNameTooLong` are the limits of the file system.
-/
import Crosspost.Text.Lines

namespace Crosspost.Path

/-- The names of a path, in order; some may be empty. -/
def names (path : String) : List String := Text.splitOn '/' path

/-- The names left when `.` and `..` are resolved; above the start, `..` stays
    in a relative path and vanishes in an absolute one. -/
def resolveNames (absolute : Bool) (path : String) : List String :=
  (names path).foldl (fun done name =>
    if name = "" || name = "." then done
    else if name = ".." then
      match done.getLast? with
      | none => if absolute then [] else [".."]
      | some last => if last = ".." then done ++ [".."] else done.dropLast
    else done ++ [name]) []

/-- Whether a path starts at the root of the file system. -/
def isAbsolute (path : String) : Bool := path.toList.head? == some '/'

/-- The path with `.` and `..` resolved. A slash at its end stays. -/
def normalize (path : String) : String :=
  let absolute := isAbsolute path
  let text := "/".intercalate (resolveNames absolute path)
  let closed := path.toList.getLast? == some '/'
  let text := if text = "" && !absolute then "." else text
  let text := if closed && text != "" then text ++ "/" else text
  if absolute then "/" ++ text else text

/-- A name, or a relative path, below a directory. -/
def join (directory name : String) : String :=
  if directory = "" && name = "" then "."
  else if directory = "" then normalize name
  else if name = "" then normalize directory
  else normalize (directory ++ "/" ++ name)

/-- The absolute path of a path that starts at the directory `root`. -/
def resolve (root path : String) : String :=
  let whole := if isAbsolute path then path else root ++ "/" ++ path
  "/" ++ "/".intercalate (resolveNames true whole)

/-- The names after those that two lists of names start with, of each list. -/
def afterCommon : List String → List String → List String × List String
  | a :: as, b :: bs => if a = b then afterCommon as bs else (a :: as, b :: bs)
  | as, bs => (as, bs)

/-- The way from the directory `root` to a path. -/
def relative (root path : String) : String :=
  let (up, down) := afterCommon (resolveNames true root) (resolveNames true (resolve root path))
  "/".intercalate (up.map (fun _ => "..") ++ down)

/-- The last name of a path. -/
def basename (path : String) : String := ((names path).filter (· != "")).getLast?.getD ""

/-- The path of the directory around the last name of a path. -/
def dirname (path : String) : String :=
  match (path.toList.reverse.dropWhile (· == '/')).dropWhile (· != '/') with
  | [] => if isAbsolute path then "/" else "."
  | [_] => "/"
  | _ :: around => .ofList around.reverse

/-- The part of a last name from its last dot on; nothing when that dot opens
    the name, and for `..`. -/
def extension (path : String) : String :=
  let name := basename path
  let after := (name.toList.reverse.takeWhile (· != '.')).reverse
  let before := name.toList.length - after.length - 1
  if name = ".." || before = 0 then "" else .ofList ('.' :: after)

/-- The part of a last name before its first dot. -/
def stem (path : String) : String := .ofList ((basename path).toList.takeWhile (· != '.'))

/-- Whether a path has more bytes than the file system takes. -/
def isTooLong (path : String) : Bool := 4096 ≤ path.utf8ByteSize

/-- Whether a name has more bytes than the file system takes. -/
def isNameTooLong (name : String) : Bool := 255 < name.utf8ByteSize

end Crosspost.Path
