/-
  Tags and the text between them.

  A tag is `[name]`, `[name=attribute]` or `[/name]`, where the name is a letter
  followed by letters, digits and underscores and the attribute holds no
  bracket. Any other `[` is ordinary text.

  * `Tag` keeps what is written; `Tag.name` is in lower case, `Tag.attr` is the
    trimmed attribute, and `Tag.raw` is the written tag;
  * `Tag.read?` reads the tag at the front of a text;
  * `Lexeme.scan` cuts a text into tags and maximal runs of text, and
    `Token.ofSource` gives each lexeme its position.
-/
import Crosspost.Description.Position
import Crosspost.Text.Blank
import Crosspost.Text.LowerCase

namespace Crosspost

/-! ## Tags -/

/-- A tag as it is written. -/
structure Tag where
  closing : Bool
  writtenName : List Char
  writtenAttr : Option (List Char)
  deriving DecidableEq, Repr

namespace Tag

/-- The name of a tag, in lower case. -/
def name (t : Tag) : String := .ofList (Chars.lower t.writtenName)

/-- The trimmed attribute of a tag; nothing when no `=` is written. -/
def attr (t : Tag) : Option String :=
  t.writtenAttr.map fun cs => .ofList (Chars.trim cs)

/-- The attribute of a tag, where it is not empty. -/
def value? (t : Tag) : Option String := t.attr.filter (· != "")

/-- The characters of the written tag. -/
def chars (t : Tag) : List Char :=
  '[' :: (if t.closing then ['/'] else []) ++ t.writtenName ++
    (match t.writtenAttr with
      | some cs => '=' :: cs
      | none => []) ++ [']']

/-- The written tag. -/
def raw (t : Tag) : String := .ofList t.chars

/-- Whether a character may stand in a tag's name after the first letter. -/
def isNameChar (c : Char) : Bool := c.isAlphanum || c == '_'

/-- Whether a character may stand in a tag's attribute. -/
def isAttrChar (c : Char) : Bool := c != '[' && c != ']'

/-- The tag whose text after the `[`, and after the `/` of a closing tag, is at
    the front of `cs`. -/
def readBody? (closing : Bool) (cs : List Char) : Option Tag :=
  match cs with
  | [] => none
  | c :: _ =>
    if c.isAlpha then
      let written := cs.takeWhile isNameChar
      match cs.dropWhile isNameChar with
      | ']' :: _ => some ⟨closing, written, none⟩
      | '=' :: rest =>
        match rest.dropWhile isAttrChar with
        | ']' :: _ => some ⟨closing, written, some (rest.takeWhile isAttrChar)⟩
        | _ => none
      | _ => none
    else none

/-- The tag at the front of a text. -/
def read? : List Char → Option Tag
  | '[' :: '/' :: cs => readBody? true cs
  | '[' :: cs => readBody? false cs
  | _ => none

end Tag

/-! ## Lexemes -/

/-- A tag, or a run of text between tags. -/
inductive Lexeme where
  | text (chars : List Char)
  | tag (tag : Tag)
  deriving DecidableEq, Repr

namespace Lexeme

/-- The characters of a lexeme. -/
def chars : Lexeme → List Char
  | text cs => cs
  | tag t => t.chars

/-- The lexeme of a run of text, given from its last character backwards; an
    empty run makes none. -/
def flush : List Char → List Lexeme
  | [] => []
  | c :: cs => [text (c :: cs).reverse]

/-- The lexemes of a text: `run` is the text since the last tag, last character
    first, and `skip` characters of the last tag are still to be passed over. -/
def scanFrom (run : List Char) : (skip : Nat) → List Char → List Lexeme
  | _, [] => flush run
  | skip + 1, _ :: cs => scanFrom run skip cs
  | 0, c :: cs =>
    match Tag.read? (c :: cs) with
    | some t => flush run ++ tag t :: scanFrom [] (t.chars.length - 1) cs
    | none => scanFrom (c :: run) 0 cs

/-- The lexemes of a text. -/
def scan (cs : List Char) : List Lexeme := scanFrom [] 0 cs

end Lexeme

/-! ## Tokens -/

/-- A lexeme at its position. -/
structure Token where
  lexeme : Lexeme
  position : Position
  deriving DecidableEq, Repr

namespace Token

/-- The offset of the first code unit of a token. -/
def start (t : Token) : Int := t.position.offset

/-- The offset after the last code unit of a token. -/
def stop (t : Token) : Int := t.start + Chars.width t.lexeme.chars

/-- Lexemes placed one after another from a cursor on. -/
def place (k : Cursor) : List Lexeme → List Token
  | [] => []
  | l :: ls => ⟨l, k.position⟩ :: place (k.passAll l.chars) ls

/-- The tokens of a source text. -/
def ofSource (source : String) : List Token := place .start (Lexeme.scan source.toList)

end Token

end Crosspost
