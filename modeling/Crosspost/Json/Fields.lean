/-
  The fields of objects.

  An object may be given by entries in which keys repeat; its fields are walked
  in a fixed order.

  * `Fields.put` sets one field: a key that is there keeps its place and takes
    the new value, another one goes to the end;
  * `Fields.ofEntries` sets all entries in turn and walks integer-like keys first
    (`index?`), ascending, then the other keys in order of first appearance.
-/
import Crosspost.Text.CodePoints

namespace Crosspost

/-- The decimal digits of a key, when it holds nothing else. -/
def digits? (key : List Char) : Option Nat :=
  if key.isEmpty || !key.all Char.isDigit then none
  else some (key.foldl (fun n c => 10 * n + (c.toNat - '0'.toNat)) 0)

namespace Fields

/-- The number that an integer-like key stands for: 0 to 4294967294, written
    without leading zeros. -/
def index? (key : CodePoints) : Option Nat := do
  let written ← key.plain?
  let n ← digits? written.toList
  if n < 4294967295 && toString n == written then some n else none

/-- The fields with one of them set. -/
def put {κ α : Type} [DecidableEq κ] (key : κ) (value : α) : List (κ × α) → List (κ × α)
  | [] => [(key, value)]
  | (k, v) :: fields => if k = key then (key, value) :: fields else (k, v) :: put key value fields

/-- The fields that come from setting the entries in turn, in order of first
    appearance. -/
def putAll {κ α : Type} [DecidableEq κ] (fields entries : List (κ × α)) : List (κ × α) :=
  entries.foldl (fun fields entry => put entry.1 entry.2 fields) fields

/-- The fields with integer-like keys first, ascending. -/
def inOrder {α : Type} (fields : List (CodePoints × α)) : List (CodePoints × α) :=
  let indexed := fields.filterMap fun f => (index? f.1).map fun n => (n, f)
  (indexed.mergeSort fun a b => a.1 ≤ b.1).map (·.2) ++ fields.filter fun f => (index? f.1).isNone

/-- The fields of the object that the entries build. -/
def ofEntries {α : Type} (entries : List (CodePoints × α)) : List (CodePoints × α) :=
  inOrder (putAll [] entries)

end Fields

end Crosspost
