/-
  JSON values and their compact text.

  * `Json` is the type of values; an object keeps its entries as given, and
    `Fields.ofEntries` tells which fields they build;
  * `Json.render` writes a value without spaces.
-/
import Crosspost.Json.Fields
import Crosspost.Number.Binary64
import Crosspost.Text.Hex

namespace Crosspost

/-- A JSON value. A number is kept as it was written. -/
inductive Json where
  | null
  | bool (value : Bool)
  | number (literal : String)
  | string (value : CodePoints)
  | array (items : List Json)
  | object (entries : List (CodePoints × Json))
deriving Inhabited

namespace Json

/-- A natural number as a value. -/
def nat (n : Nat) : Json := .number (toString n)

/-- An integer as a value. -/
def int (n : Int) : Json := .number (toString n)

/-- A text as a value. -/
def text (s : String) : Json := .string s

/-- What a value is called where another kind was expected. -/
def kindName : Json → String
  | null => "null"
  | bool _ => "boolean"
  | number _ => "number"
  | string _ => "string"
  | array _ => "array"
  | object _ => "object"

/-- The value of a field. -/
def field? (key : String) : Json → Option Json
  | object entries => (Fields.ofEntries entries).lookup (CodePoints.ofString key)
  | _ => none

/-! ## Text -/

/-- A character inside a quoted text. -/
def escapeChar (c : Char) : List Char :=
  if c = '"' then ['\\', '"']
  else if c = '\\' then ['\\', '\\']
  else if c = '\x08' then ['\\', 'b']
  else if c = '\x0c' then ['\\', 'f']
  else if c = '\n' then ['\\', 'n']
  else if c = '\r' then ['\\', 'r']
  else if c = '\t' then ['\\', 't']
  else if c.toNat < 0x20 then ['\\', 'u', '0', '0'] ++ Chars.hexPair c.toNat
  else [c]

/-- A code point inside a quoted text. -/
def escapePoint : CodePoint → List Char
  | .char c => escapeChar c
  | .surrogate unit => ['\\', 'u'] ++ Chars.hexPair (unit / 0x100) ++ Chars.hexPair (unit % 0x100)

/-- A quoted text. -/
def quote (ps : CodePoints) : String :=
  .ofList (['"'] ++ (CodePoints.join ps).flatMap escapePoint ++ ['"'])

/-- A number's text. An integer is written as the double nearest to it; other
    numbers stay as they are. -/
def numberText (literal : String) : String :=
  match literal.toInt? with
  | some n => (Binary64.textOf? n).getD "null"
  | none => literal

/-- The written fields of an object. -/
def braces (fields : List (CodePoints × String)) : String :=
  "\x7b" ++ ",".intercalate (fields.map fun f => quote f.1 ++ ":" ++ f.2) ++ "\x7d"

mutual
/-- The text of a value. -/
def render : Json → String
  | null => "null"
  | bool true => "true"
  | bool false => "false"
  | number literal => numberText literal
  | string value => quote value
  | array items => "[" ++ ",".intercalate (renderItems items) ++ "]"
  | object entries => braces (Fields.ofEntries (renderEntries entries))

/-- The texts of the items of an array. -/
def renderItems : List Json → List String
  | [] => []
  | item :: items => render item :: renderItems items

/-- The entries of an object, each value written. -/
def renderEntries : List (CodePoints × Json) → List (CodePoints × String)
  | [] => []
  | entry :: entries => renderEntry entry :: renderEntries entries

/-- An entry with its value written. -/
def renderEntry : CodePoints × Json → CodePoints × String
  | (key, value) => (key, render value)
end

end Json

end Crosspost
