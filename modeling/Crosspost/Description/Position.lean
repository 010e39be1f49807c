/-
  Positions in a source text.

  Offsets and columns count UTF-16 code units, offsets from 0, lines and columns
  from 1. Only a line feed ends a line. An offset may lie before or after the text.

  * `Cursor` is a place reached by passing over characters;
  * `locate source offset` is the position of an offset, and `locateDouble` that of
    an offset held as a double.
-/
import Crosspost.Number.Binary64
import Crosspost.Text.Units

namespace Crosspost

/-- A place in a source text. -/
structure Position where
  offset : Int
  line : Int
  column : Int
  deriving DecidableEq, Repr

/-! ## Cursors -/

/-- A place that is reached from the start of a text. -/
structure Cursor where
  offset : Nat
  line : Nat
  /-- The offset at which the line starts. -/
  lineStart : Nat
  deriving DecidableEq, Repr

namespace Cursor

/-- The start of a text. -/
def start : Cursor := ⟨0, 1, 0⟩

/-- The place after one more character. -/
def pass (k : Cursor) (c : Char) : Cursor :=
  if c = '\n' then ⟨k.offset + 1, k.line + 1, k.offset + 1⟩
  else { k with offset := k.offset + Chars.unitsOf c }

/-- The place after some more characters. -/
def passAll (k : Cursor) (cs : List Char) : Cursor := cs.foldl pass k

/-- The position of an offset in the line of a cursor. -/
def positionOf (k : Cursor) (offset : Int) : Position := ⟨offset, k.line, offset - k.lineStart + 1⟩

/-- The position of a cursor. -/
def position (k : Cursor) : Position := k.positionOf k.offset

/-- The first place, from a cursor on, that an offset does not lie behind. -/
def seek (offset : Int) (k : Cursor) : List Char → Cursor
  | [] => k
  | c :: cs => if offset ≤ k.offset then k else (k.pass c).seek offset cs

end Cursor

/-! ## Offsets -/

/-- The position of an offset of a source text. -/
def locate (source : String) (offset : Int) : Position :=
  (Cursor.start.seek offset source.toList).positionOf offset

/-- The position of an offset that is held as a double, as is every result on
    the way to its column. -/
def locateDouble (source : String) (offset : Int) : Position :=
  let k := Cursor.start.seek offset source.toList
  ⟨offset, k.line, Binary64.nearest (Binary64.nearest (offset - k.lineStart) + 1)⟩

end Crosspost
