/-
  Authenticated encryption: AES-256 in Galois/counter mode.

  A sealed text is a nonce, the encrypted bytes, and a tag that depends on all of
  them.

  * `Gcm.hash` is the hash of blocks in the field of 128 bits;
  * `Gcm.open?` are the bytes that were sealed, if the tag is right.
-/
import Crosspost.EnvFile.Aes

namespace Crosspost.Gcm

/-! ## The field of blocks

A block is a number of 128 bits, the first byte on top. Its highest bit is the
coefficient of the lowest power.
-/

/-- The number of bytes, the first one on top. -/
def ofBytes (bytes : List UInt8) : Nat := bytes.foldl (fun n b => n * 0x100 + b.toNat) 0

/-- The last `count` bytes of a number. -/
def toBytes (count n : Nat) : List UInt8 :=
  (List.range count).map fun i => UInt8.ofNat (n >>> (8 * (count - 1 - i)) % 0x100)

/-- A block multiplied by the first power. -/
def shift (block : Nat) : Nat :=
  if block % 2 = 0 then block / 2 else (block / 2) ^^^ (0xe1 <<< 120)

/-- The product of two blocks, where the bits of the first one from `bits` on
    downwards are left. -/
def productFrom : (bits : Nat) → Nat → Nat → Nat
  | 0, _, _ => 0
  | bits + 1, a, b =>
    (if a.testBit bits then b else 0) ^^^ productFrom bits a (shift b)

/-- The product of two blocks. -/
def product (a b : Nat) : Nat := productFrom 128 a b

/-- Bytes in blocks, the last one filled up with noughts. -/
def blocks (bytes : List UInt8) : List Nat :=
  (Aes.groups 16 bytes).map fun group => ofBytes group <<< (8 * (16 - group.length))

/-- The hash of blocks under a key. -/
def hash (key : Nat) (data : List Nat) : Nat :=
  data.foldl (fun sum block => product (sum ^^^ block) key) 0

/-! ## Sealed texts -/

/-- What a text is sealed with. -/
structure Key where
  /-- The words of the expanded cipher key. -/
  words : List Aes.Word

namespace Key

/-- The key of 32 bytes. -/
def ofBytes? (bytes : List UInt8) : Option Key :=
  if bytes.length = 32 then some ⟨Aes.expand bytes⟩ else none

/-- A block encrypted. -/
def encrypt (key : Key) (block : Nat) : Nat :=
  Gcm.ofBytes (Aes.encrypt key.words (toBytes 16 block))

/-- The key for hashes. -/
def hashKey (key : Key) : Nat := key.encrypt 0

/-- The number of values that the lower 32 bits of a counter take. -/
def period : Nat := 0x100000000

/-- The first counter of a nonce. -/
def counter (key : Key) (nonce : List UInt8) : Nat :=
  if nonce.length = 12 then Gcm.ofBytes nonce * period + 1
  else hash key.hashKey (blocks nonce ++ [8 * nonce.length])

/-- The counter some steps on; its lower 32 bits are counted. -/
def advance (counter steps : Nat) : Nat :=
  counter / period * period + (counter + steps) % period

/-- Bytes added to those that the cipher makes of a counter. -/
def apply (key : Key) (counter : Nat) (bytes : List UInt8) : List UInt8 :=
  ((Aes.groups 16 bytes).zipIdx 1).flatMap fun (group, steps) =>
    Aes.add group (toBytes 16 (key.encrypt (advance counter steps)))

/-- The tag of encrypted bytes. -/
def tag (key : Key) (counter : Nat) (bytes : List UInt8) : List UInt8 :=
  toBytes 16 (key.encrypt counter ^^^ hash key.hashKey (blocks bytes ++ [8 * bytes.length]))

end Key

/-- Whether tags may have a length. -/
def isTagLength (length : Nat) : Bool := length = 4 || length = 8 || (12 ≤ length && length ≤ 16)

/-- The bytes that were sealed with a key, if the tag is right. -/
def open? (key : Key) (nonce bytes tag : List UInt8) : Option (List UInt8) :=
  let counter := key.counter nonce
  if !nonce.isEmpty && isTagLength tag.length && (key.tag counter bytes).take tag.length = tag then
    some (key.apply counter bytes)
  else none

end Crosspost.Gcm
