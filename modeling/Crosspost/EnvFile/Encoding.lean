/-
  Encodings of texts as bytes.

  * `Encoding.ofName?` finds an encoding by a name, in any letter case;
  * `Encoding.bytes` are the bytes of a text in UTF-8, and `Encoding.decodeUtf8`
    reads bytes back, with the replacement character for what is no text;
  * `Encoding.reread` is a text written in UTF-8 and read in an encoding.
-/
import Crosspost.EnvFile.Base64
import Crosspost.Text.CodePoints
import Crosspost.Text.Hex
import Crosspost.Text.LowerCase

namespace Crosspost

/-- An encoding in which bytes are read. -/
inductive Encoding where
  | utf8
  /-- Every byte is a character. -/
  | latin1
  /-- The lower seven bits of every byte are a character. -/
  | ascii
  /-- Two bytes, the lower one first, are a code unit. -/
  | utf16
  /-- Every byte is two hexadecimal digits. -/
  | hex
  /-- Three bytes are four digits in base 64. -/
  | base64
  /-- Base 64 in the alphabet for addresses, without filling signs. -/
  | base64Url
  deriving DecidableEq, Repr

namespace Encoding

/-- The names of an encoding. -/
def names : Encoding → List String
  | utf8 => ["utf8", "utf-8"]
  | latin1 => ["latin1", "binary"]
  | ascii => ["ascii"]
  | utf16 => ["utf16le", "utf-16le", "ucs2", "ucs-2"]
  | hex => ["hex"]
  | base64 => ["base64"]
  | base64Url => ["base64url"]

/-- The encoding with a name. -/
def ofName? (name : String) : Option Encoding :=
  [utf8, latin1, ascii, utf16, hex, base64, base64Url].find? (·.names.contains (Text.lower name))

/-! ## UTF-8 -/

/-- The bytes of a text. -/
def bytes (cs : List Char) : List UInt8 := cs.flatMap String.utf8EncodeChar

/-- The front of a character of several bytes. -/
structure Started where
  /-- The value of the bits so far. -/
  value : Nat
  /-- How many bytes are still to come. -/
  needed : Nat
  /-- The least value of the next byte. -/
  least : Nat := 0x80
  /-- The greatest value of the next byte. -/
  most : Nat := 0xbf

/-- What a byte makes where a character may start. -/
def start (b : UInt8) : List Char × Option Started :=
  let n := b.toNat
  if n < 0x80 then ([Char.ofNat n], none)
  else if n < 0xc2 || 0xf4 < n then (['\ufffd'], none)
  else if n < 0xe0 then ([], some ⟨n - 0xc0, 1, 0x80, 0xbf⟩)
  else if n < 0xf0 then
    ([], some ⟨n - 0xe0, 2, if n = 0xe0 then 0xa0 else 0x80, if n = 0xed then 0x9f else 0xbf⟩)
  else ([], some ⟨n - 0xf0, 3, if n = 0xf0 then 0x90 else 0x80, if n = 0xf4 then 0x8f else 0xbf⟩)

/-- The characters of bytes after the front of one. A front that does not go on
    is one replacement character. -/
def decodeFrom : Option Started → List UInt8 → List Char
  | none, [] => []
  | some _, [] => ['\ufffd']
  | none, b :: bs =>
    let (done, next) := start b
    done ++ decodeFrom next bs
  | some s, b :: bs =>
    if s.least ≤ b.toNat && b.toNat ≤ s.most then
      let value := s.value * 0x40 + (b.toNat - 0x80)
      if s.needed = 1 then Char.ofNat value :: decodeFrom none bs
      else decodeFrom (some ⟨value, s.needed - 1, 0x80, 0xbf⟩) bs
    else
      let (done, next) := start b
      '\ufffd' :: done ++ decodeFrom next bs

/-- The characters of bytes, with the replacement character for every part that
    is none. -/
def decodeUtf8 (bs : List UInt8) : List Char := decodeFrom none bs

/-! ## Reading -/

/-- The code units of bytes, two by two; a last single byte makes none. -/
def units : List UInt8 → List Nat
  | low :: high :: bs => (low.toNat + 0x100 * high.toNat) :: units bs
  | _ => []

/-- A text written in UTF-8 and read in an encoding. -/
def reread (encoding : Encoding) (s : String) : String :=
  let bs := bytes s.toList
  match encoding with
  | utf8 => s
  | latin1 => .ofList (bs.map fun b => Char.ofNat b.toNat)
  | ascii => .ofList (bs.map fun b => Char.ofNat (b.toNat % 0x80))
  | utf16 => CodePoints.text ((units bs).map .ofUnit)
  | hex => .ofList (bs.flatMap fun b => Chars.hexPair b.toNat)
  | base64 => .ofList (Base64.encodeFilled Base64.standard bs)
  | base64Url => .ofList (Base64.encode Base64.urlSafe bs)

end Encoding

end Crosspost
