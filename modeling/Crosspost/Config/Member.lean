/-
  What a table holds under a name.

  A table of variables or of user names has members of its own. A name under
  which nothing was put into the table may still be the name of a member.

  * `Member.ofName?` finds a member, and `Member.text` is how one is written out;
  * `Held.find?` looks a name up: what was put into the table comes first.
-/
namespace Crosspost

/-- A member that every table has. -/
inductive Member where
  /-- An operation on tables. -/
  | operation (name : String)
  /-- The table behind all tables. -/
  | base
  deriving DecidableEq, Repr

namespace Member

/-- The names of the operations. -/
def operations : List String :=
  ["constructor", "hasOwnProperty", "isPrototypeOf", "propertyIsEnumerable", "toLocaleString",
    "toString", "valueOf", "__defineGetter__", "__defineSetter__", "__lookupGetter__",
    "__lookupSetter__"]

/-- The name of the table behind all tables. -/
def baseName : String := "__proto__"

/-- The member with a name. -/
def ofName? (name : String) : Option Member :=
  if name = baseName then some base
  else if operations.contains name then some (operation name)
  else none

/-- A member written out. -/
def text : Member → String
  | operation name =>
    "function " ++ (if name = "constructor" then "Object" else name) ++ "() \x7b [native code] \x7d"
  | base => "[object Object]"

end Member

/-- What a table holds under a name. -/
inductive Held (α : Type) where
  /-- What was put into it. -/
  | own (value : α)
  | member (m : Member)
  deriving DecidableEq, Repr

/-- What a table holds under a name, where `found` was put into it. -/
def Held.find? {α : Type} (found : Option α) (name : String) : Option (Held α) :=
  (found.map own).or ((Member.ofName? name).map member)

end Crosspost
