/-
  White space.

  * `isBlank` is the set of white space characters: the ASCII controls from tab
    to carriage return, the Unicode space separators, the two line separators
    and the byte order mark;
  * `Chars.trim` and `Text.trim` remove white space at both ends, and
    `Text.isBlank` says that nothing else is there (`Text.trim_eq_empty_iff`).
-/
namespace Crosspost

/-- White space: U+0009 to U+000D, U+0020, U+00A0, U+1680, U+2000 to U+200A,
    U+2028, U+2029, U+202F, U+205F, U+3000 and U+FEFF. -/
def isBlank (c : Char) : Bool :=
  ('\x09' ≤ c && c ≤ '\x0d') || c == ' ' || c == '\u00a0' || c == '\u1680' ||
    ('\u2000' ≤ c && c ≤ '\u200a') || c == '\u2028' || c == '\u2029' || c == '\u202f' ||
    c == '\u205f' || c == '\u3000' || c == '\ufeff'

/-- The byte order mark, which may open a text. -/
def byteOrderMark : Char := '\ufeff'

namespace Chars

/-- The text without its leading white space. -/
def trimStart (cs : List Char) : List Char := cs.dropWhile isBlank

/-- The text without its trailing white space. -/
def trimEnd (cs : List Char) : List Char := (trimStart cs.reverse).reverse

/-- The text without white space at either end. -/
def trim (cs : List Char) : List Char := trimEnd (trimStart cs)

/-- The text without one byte order mark at its start. -/
def dropMark : List Char → List Char
  | [] => []
  | c :: cs => if c = byteOrderMark then cs else c :: cs

theorem trimStart_cons_of_blank {c : Char} (h : isBlank c = true) (cs : List Char) :
    trimStart (c :: cs) = trimStart cs := List.dropWhile_cons_of_pos h

theorem trimStart_cons_of_not_blank {c : Char} (h : ¬ isBlank c = true) (cs : List Char) :
    trimStart (c :: cs) = c :: cs := List.dropWhile_cons_of_neg h

theorem trimStart_eq_nil_iff (cs : List Char) :
    trimStart cs = [] ↔ cs.all isBlank = true := by
  induction cs with
  | nil => exact iff_of_true rfl rfl
  | cons c cs ih =>
    by_cases h : isBlank c = true
    · rw [trimStart_cons_of_blank h, List.all_cons, h, Bool.true_and, ih]
    · rw [trimStart_cons_of_not_blank h, List.all_cons]
      simp [h]

theorem all_trimStart (cs : List Char) : (trimStart cs).all isBlank = cs.all isBlank := by
  induction cs with
  | nil => rfl
  | cons c cs ih =>
    by_cases h : isBlank c = true
    · rw [trimStart_cons_of_blank h, List.all_cons, h, Bool.true_and, ih]
    · rw [trimStart_cons_of_not_blank h]

theorem trimEnd_eq_nil_iff (cs : List Char) : trimEnd cs = [] ↔ cs.all isBlank = true := by
  rw [trimEnd, List.reverse_eq_nil_iff, trimStart_eq_nil_iff, List.all_reverse]

theorem trim_eq_nil_iff (cs : List Char) : trim cs = [] ↔ cs.all isBlank = true := by
  rw [trim, trimEnd_eq_nil_iff, all_trimStart]

end Chars

namespace Text

/-- The text without its leading white space. -/
def trimStart (s : String) : String := .ofList (Chars.trimStart s.toList)

/-- The text without its trailing white space. -/
def trimEnd (s : String) : String := .ofList (Chars.trimEnd s.toList)

/-- The text without white space at either end. -/
def trim (s : String) : String := .ofList (Chars.trim s.toList)

/-- The text without one byte order mark at its start. -/
def dropMark (s : String) : String := .ofList (Chars.dropMark s.toList)

/-- Whether the text is empty or holds white space only. -/
def isBlank (s : String) : Bool := s.toList.all Crosspost.isBlank

@[simp] theorem toList_trimStart (s : String) :
    (trimStart s).toList = Chars.trimStart s.toList := by
  simp [trimStart]

@[simp] theorem toList_trimEnd (s : String) : (trimEnd s).toList = Chars.trimEnd s.toList := by
  simp [trimEnd]

@[simp] theorem toList_trim (s : String) : (trim s).toList = Chars.trim s.toList := by
  simp [trim]

@[simp] theorem toList_dropMark (s : String) : (dropMark s).toList = Chars.dropMark s.toList := by
  simp [dropMark]

theorem trim_eq_empty_iff (s : String) : trim s = "" ↔ isBlank s = true := by
  rw [isBlank, ← Chars.trim_eq_nil_iff, ← toList_trim, String.toList_eq_nil_iff]

end Text

end Crosspost
