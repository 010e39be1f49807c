/-
  Lower-case forms of texts, after the full mapping of Unicode.

  * `lowerSimple` is the one-to-one mapping of a character;
  * `Chars.lower` also writes `İ` as an `i` with a dot above, and a capital
    sigma at the end of a word as `ς` (`endsWord`).
-/
import Crosspost.Text.CaseTable

namespace Crosspost

/-- The lower-case form of a single character. -/
def lowerSimple (c : Char) : Char :=
  if c.toNat < 0x80 then c.toLower
  else match CaseTable.lowerRuns.find? (·.contains c.toNat) with
    | some run => Char.ofNat (c.toNat + run.shift).toNat
    | none => c

/-- Whether a character is a letter with case. -/
def isCased (c : Char) : Bool := CaseTable.inRanges CaseTable.casedRanges c.toNat

/-- Whether a character does not count where the end of a word is looked for. -/
def isCaseIgnorable (c : Char) : Bool := CaseTable.inRanges CaseTable.ignorableRanges c.toNat

namespace Chars

/-- Whether the first character that counts is a letter with case. -/
def meetsLetter (cs : List Char) : Bool :=
  match cs.dropWhile isCaseIgnorable with
  | [] => false
  | c :: _ => isCased c

/-- Whether a word ends between `before`, given from its last character
    backwards, and `after`. -/
def endsWord (before after : List Char) : Bool := meetsLetter before && !meetsLetter after

/-- The lower-case form of `cs`, where `before` precedes it, last character
    first. -/
def lowerAfter (before : List Char) : List Char → List Char
  | [] => []
  | c :: cs =>
    let form :=
      if c = 'Σ' then (if endsWord before cs then ['ς'] else ['σ'])
      else if c = 'İ' then ['i', '\u0307']
      else [lowerSimple c]
    form ++ lowerAfter (c :: before) cs

/-- The lower-case form of a text. -/
def lower (cs : List Char) : List Char := lowerAfter [] cs

end Chars

namespace Text

/-- The lower-case form of a text. -/
def lower (s : String) : String := .ofList (Chars.lower s.toList)

@[simp] theorem toList_lower (s : String) : (lower s).toList = Chars.lower s.toList := by
  simp [lower]

end Text

end Crosspost
