/-
  The flags defined for a run.

  * `Flags.ofOptions` checks the options all together and keeps each flag once.
-/
import Crosspost.Description.Condition

namespace Crosspost

/-- The options that name no flag, in the order given. -/
structure FlagError where
  invalid : List String
  deriving DecidableEq, Repr

/-- The text of the error. -/
def FlagError.message (e : FlagError) : String :=
  "Invalid define option(s): " ++ ", ".intercalate e.invalid ++
    ". Options may only contain letters, digits, dashes and underscores."

/-- The defined flags, and those that were given more than once. -/
structure Flags where
  names : List String
  duplicates : List String
  deriving DecidableEq, Repr

namespace Flags

/-- The flags with one more option. -/
def add (flags : Flags) (option : String) : Flags :=
  if flags.names.contains option then
    if flags.duplicates.contains option then flags
    else { flags with duplicates := flags.duplicates ++ [option] }
  else { flags with names := flags.names ++ [option] }

/-- The flags of a list of options. -/
def ofOptions (options : List String) : Except FlagError Flags :=
  match options.filter (!isIdentifier ·) with
  | [] => .ok (options.foldl add ⟨[], []⟩)
  | invalid => .error ⟨invalid⟩

end Flags

end Crosspost
