/-
  The block cipher AES with keys of 256 bits.

  A block is sixteen bytes, four to a word. It is mixed with a part of the
  expanded key, and then passes fourteen rounds.

  * `Aes.substitute` is the substitution of bytes, made from inverses in the
    field of bytes;
  * `Aes.expand` makes the words of an expanded key, and `Aes.encrypt` encrypts a
    block with them.
-/
namespace Crosspost.Aes

/-! ## Bytes -/

/-- A byte multiplied by `x` in the field of bytes. -/
def double (b : UInt8) : UInt8 :=
  UInt8.ofNat (b.toNat * 2) ^^^ (if b.toNat < 0x80 then 0 else 0x1b)

/-- The product of two bytes, where `steps` bits of the first one are left. -/
def productFrom : (steps : Nat) → UInt8 → UInt8 → UInt8
  | 0, _, _ => 0
  | steps + 1, a, b =>
    (if a.toNat % 2 = 1 then b else 0) ^^^
      productFrom steps (UInt8.ofNat (a.toNat / 2)) (double b)

/-- The product of two bytes in the field of bytes. -/
def product (a b : UInt8) : UInt8 := productFrom 8 a b

/-- The inverse of a byte, which is its power 254; nought is its own inverse. -/
def inverse (b : UInt8) : UInt8 :=
  ((List.range 7).foldl (fun (power, result) _ =>
    let power := product power power
    (power, product result power)) (b, (1 : UInt8))).2

/-- A byte turned to the left by some bits. -/
def turn (b : UInt8) (bits : Nat) : UInt8 :=
  UInt8.ofNat (b.toNat <<< bits % 0x100 + b.toNat >>> (8 - bits))

/-- The byte that stands for another one. -/
def substitution (b : UInt8) : UInt8 :=
  let i := inverse b
  i ^^^ turn i 1 ^^^ turn i 2 ^^^ turn i 3 ^^^ turn i 4 ^^^ 0x63

/-- The substitutions of all bytes. -/
def substitutions : Array UInt8 := ((List.range 256).map fun n => substitution (.ofNat n)).toArray

/-- The byte that stands for another one, looked up. -/
def substitute (b : UInt8) : UInt8 := substitutions.getD b.toNat 0

/-! ## Words -/

/-- Four bytes. -/
abbrev Word := List UInt8

/-- The bytes of two lists, added in the field. -/
def add (a b : List UInt8) : List UInt8 := List.zipWith (· ^^^ ·) a b

/-- The bytes of a list in groups of `n`. -/
def groups (n : Nat) (bytes : List UInt8) : List (List UInt8) :=
  (List.range ((bytes.length + n - 1) / n)).map fun i => (bytes.drop (n * i)).take n

/-- The first byte of the round constant of a round. -/
def roundConstant : (round : Nat) → UInt8
  | 0 => 0
  | 1 => 1
  | round + 1 => double (roundConstant round)

/-- What is added to the word eight places before, to make the word at a place. -/
def mixed (place : Nat) (previous : Word) : Word :=
  if place % 8 = 0 then
    add ((previous.drop 1 ++ previous.take 1).map substitute) [roundConstant (place / 8), 0, 0, 0]
  else if place % 8 = 4 then previous.map substitute
  else previous

/-- The words of a key and those made from them, last one first; `count` words
    are still to be made. -/
def expandFrom : (count : Nat) → List Word → List Word
  | 0, words => words
  | count + 1, words =>
    expandFrom count
      (add (words.getD 7 []) (mixed words.length (words.headD [])) :: words)

/-- The sixty words of the expanded form of a key of 32 bytes. -/
def expand (key : List UInt8) : List Word := (expandFrom 52 (groups 4 key).reverse).reverse

/-! ## Blocks -/

/-- A block with the bytes of every row moved along. -/
def shiftRows (block : List UInt8) : List UInt8 :=
  (List.range 16).map fun i => block.getD ((i + 4 * (i % 4)) % 16) 0

/-- A word with its bytes mixed. -/
def mixColumn (word : Word) : Word :=
  (List.range 4).map fun i =>
    let byte (k : Nat) : UInt8 := word.getD ((i + k) % 4) 0
    double (byte 0) ^^^ (double (byte 1) ^^^ byte 1) ^^^ byte 2 ^^^ byte 3

/-- A block after a round; the words of the last round are not mixed. -/
def round (last : Bool) (roundKey block : List UInt8) : List UInt8 :=
  let moved := shiftRows (block.map substitute)
  add (if last then moved else (groups 4 moved).flatMap mixColumn) roundKey

/-- A block after the rounds with some round keys. -/
def rounds : (roundKeys : List (List UInt8)) → List UInt8 → List UInt8
  | [], block => block
  | roundKey :: roundKeys, block => rounds roundKeys (round roundKeys.isEmpty roundKey block)

/-- A block encrypted with an expanded key. -/
def encrypt (words : List Word) (block : List UInt8) : List UInt8 :=
  match groups 16 words.flatten with
  | [] => block
  | first :: roundKeys => rounds roundKeys (add block first)

end Crosspost.Aes
