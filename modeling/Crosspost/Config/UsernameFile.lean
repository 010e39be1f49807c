/-
  User names given by a JSON object from aliases of sites to names.

  * `UsernameFile.validate` checks a JSON value: first that it is an object of
    non-blank texts, then that every key which names a site names another one and
    holds a name that the site accepts; all problems of a stage are reported;
  * keys that name no site are reported as ignored.
-/
import Crosspost.Config.Usernames
import Crosspost.Json.Value

namespace Crosspost

/-- A problem as it is shown: where it is, what it is, and its code. -/
structure Issue where
  path : List String
  message : String
  code : String
  deriving DecidableEq, Repr

/-- A problem of a configuration of user names. -/
inductive UsernameIssue where
  /-- The value is no object but of the named kind. -/
  | notAnObject (found : String)
  | notAText (key : String)
  | blankName (key : String)
  /-- An earlier key names the same site. -/
  | duplicateSite (key site earlier : String)
  | refusedName (key reason : String)
  /-- No key names a site. -/
  | noSites
  /-- The file cannot be read or holds no JSON text. -/
  | unreadable
  deriving DecidableEq, Repr

namespace UsernameIssue

/-- The key at fault. -/
def path : UsernameIssue → List String
  | notAText key | blankName key | duplicateSite key _ _ | refusedName key _ => [key]
  | notAnObject _ | noSites | unreadable => []

/-- The text of a problem. Why a file cannot be read is left open. -/
def message : UsernameIssue → String
  | notAnObject found => "Expected object, received " ++ found
  | notAText _ => "Username must be a string"
  | blankName _ => "Username must not be blank"
  | duplicateSite _ site earlier =>
    "Duplicate entry for website \"" ++ site ++ "\": collides with key \"" ++ earlier ++ "\""
  | refusedName _ reason => reason
  | noSites => "No valid websites found"
  | unreadable => "<unreadable>"

/-- The code of a problem. -/
def code : UsernameIssue → String
  | notAnObject _ | notAText _ => "invalid_type"
  | blankName _ => "too_small"
  | duplicateSite _ _ _ => "duplicate_site"
  | refusedName _ _ => "invalid_username"
  | noSites => "no_sites"
  | unreadable => "unreadable"

/-- A problem as it is shown. -/
def issue (i : UsernameIssue) : Issue := ⟨i.path, i.message, i.code⟩

end UsernameIssue

/-- Why there are no user names. -/
inductive UsernameError where
  | invalid (issues : List UsernameIssue)
  | unreadable (file : String)
  deriving DecidableEq, Repr

namespace UsernameError

/-- The problems behind an error. -/
def issues : UsernameError → List UsernameIssue
  | invalid issues => issues
  | unreadable _ => [.unreadable]

/-- The text of an error. -/
def message : UsernameError → String
  | invalid issues =>
    "Invalid username configuration: " ++ toString issues.length ++ " validation error(s)"
  | unreadable file => "Cannot read configuration file \"" ++ file ++ "\""

end UsernameError

/-- User names, and the keys that name no site. -/
structure LoadedUsernames where
  usernames : Usernames
  ignoredKeys : List String
  deriving DecidableEq, Repr

namespace UsernameFile

/-- What is wrong with the form of a field. -/
def formIssue? : CodePoints × Json → Option UsernameIssue
  | (key, .string name) => if name.isBlank then some (.blankName key.text) else none
  | (key, _) => some (.notAText key.text)

/-- The key that never holds a name, neither in a file nor as the id of a site. -/
def emptyKey : String := Member.baseName

/-- The names of well-formed fields, trimmed. -/
def names (fields : List (CodePoints × Json)) : List (CodePoints × CodePoints) :=
  fields.filterMap fun
    | (key, .string name) => if key.plain? = some emptyKey then none else some (key, name.trim)
    | _ => none

/-- What is known of a configuration when some keys are read. -/
structure Progress where
  /-- The sites found, each with its key and user name. -/
  found : List (String × String × CodePoints) := []
  ignored : List String := []
  issues : List UsernameIssue := []

/-- The progress after one more field. A key that is no plain text names no
    site. -/
def Progress.add (registry : Registry) (p : Progress) (field : CodePoints × CodePoints) :
    Progress :=
  let (points, name) := field
  let key := points.text
  match points.plain?.bind registry.resolve? with
  | none => { p with ignored := p.ignored ++ [key] }
  | some site =>
    match p.found.lookup site.id with
    | some (earlier, _) =>
      { p with issues := p.issues ++ [.duplicateSite key site.id earlier] }
    | none =>
      match site.refusal? name.text with
      | some reason => { p with issues := p.issues ++ [.refusedName key reason] }
      | none => { p with found := p.found ++ [(site.id, key, name)] }

/-- The user names of all fields, unless there is a problem. -/
def Progress.result (p : Progress) : Except (List UsernameIssue) LoadedUsernames :=
  if !p.issues.isEmpty then .error p.issues
  else if p.found.isEmpty then .error [.noSites]
  else
    let found := p.found.filter (·.1 != emptyKey)
    .ok ⟨found.map fun (id, _, name) => (id, name), p.ignored⟩

/-- The user names that a JSON value gives. -/
def validate (registry : Registry) : Json → Except (List UsernameIssue) LoadedUsernames
  | .object entries =>
    let fields := Fields.ofEntries entries
    match fields.filterMap formIssue? with
    | [] => ((names fields).foldl (Progress.add registry) {}).result
    | issues => .error issues
  | value => .error [.notAnObject value.kindName]

/-- The user names that a JSON value gives, or the error to report. -/
def load (registry : Registry) (value : Json) : Except UsernameError LoadedUsernames :=
  (validate registry value).mapError .invalid

end UsernameFile

end Crosspost
