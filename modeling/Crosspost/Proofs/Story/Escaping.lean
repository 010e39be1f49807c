/-
  Stories in Markdown.

  A star gets a backslash before it, and two equals signs a space between them.

  * `Story.escapeChars_append`: a text is escaped part by part, but for the space between two
    equals signs that meet;
  * `Story.Escapes`: what becomes of a text that is escaped; `Story.markdown_eq_escape`: **a story
    in Markdown is its plain text, escaped**;
  * `Story.backslashes`: the run of backslashes at the end of a text, by which a reader of Markdown
    takes the next character as it is or not (`Story.takesNext_iff`);
  * `Story.stars_escape`: **each star gets one more backslash**, so all of them are literal just if
    none was before.
-/
import Mathlib.Algebra.Ring.Parity
import Mathlib.Data.List.Induction
import Crosspost.Story.Format

namespace Crosspost.Story

variable {c : Char} {cs front back : List Char}

/-! ## Parts of a text -/

/-- What is put before a character. -/
def shield (c : Char) : List Char := if c = '*' then ['\\'] else []

/-- What is put between two parts of a text. -/
def seam (front back : List Char) : List Char :=
  if front.getLast? = some '=' ∧ back.head? = some '=' then [' '] else []

theorem seam_of_getLast?_ne (h : front.getLast? ≠ some '=') (back : List Char) :
    seam front back = [] := if_neg fun hboth => h hboth.1

theorem seam_of_head?_ne (front : List Char) (h : back.head? ≠ some '=') :
    seam front back = [] := if_neg fun hboth => h hboth.2

theorem seam_cons (c : Char) (h : cs ≠ []) (back : List Char) :
    seam (c :: cs) back = seam cs back := by
  obtain ⟨d, cs, rfl⟩ := List.exists_cons_of_ne_nil h
  rw [seam, List.getLast?_cons_cons, seam]

/-- Only the start of the second part counts. -/
theorem seam_append (front : List Char) (h : cs ≠ []) (back : List Char) :
    seam front (cs ++ back) = seam front cs := by
  obtain ⟨d, cs, rfl⟩ := List.exists_cons_of_ne_nil h
  rfl

theorem escapeChars_cons (c : Char) (cs : List Char) :
    escapeChars (c :: cs) = shield c ++ c :: (seam [c] cs ++ escapeChars cs) := by
  by_cases hstar : c = '*'
  · simp [escapeChars, shield, seam, hstar]
  · by_cases heq : c = '='
    · by_cases hnext : cs.head? = some '=' <;> simp [escapeChars, shield, seam, heq, hnext]
    · simp [escapeChars, shield, seam, hstar, heq]

/-- **A text is escaped part by part.** -/
theorem escapeChars_append (front back : List Char) :
    escapeChars (front ++ back) = escapeChars front ++ (seam front back ++ escapeChars back) := by
  induction front with
  | nil => rfl
  | cons c cs ih =>
    rw [List.cons_append, escapeChars_cons, escapeChars_cons, ih]
    cases cs with
    | nil => simp [escapeChars, seam]
    | cons d cs =>
      rw [seam_append [c] (List.cons_ne_nil d cs), seam_cons c (List.cons_ne_nil d cs)]
      simp only [List.append_assoc, List.cons_append]

theorem escapeChars_star_cons (cs : List Char) :
    escapeChars ('*' :: cs) = '\\' :: '*' :: escapeChars cs := by
  rw [escapeChars_cons, seam_of_getLast?_ne (by decide)]
  rfl

theorem escapeChars_append_star (front back : List Char) :
    escapeChars (front ++ '*' :: back) = escapeChars front ++ '\\' :: '*' :: escapeChars back := by
  rw [escapeChars_append, seam_of_head?_ne front (by simp), escapeChars_star_cons, List.nil_append]

theorem toList_escape (line : String) : (escape line).toList = escapeChars line.toList :=
  String.toList_ofList

/-! ## What is put in -/

/-- An escaped text starts with an equals sign just if the text does. -/
theorem head?_escapeChars : (escapeChars cs).head? = some '=' ↔ cs.head? = some '=' := by
  cases cs with
  | nil => rfl
  | cons c cs =>
    rw [escapeChars_cons, shield]
    split_ifs with hstar <;> simp [hstar]

/-- No two equals signs meet. -/
theorem not_pair_infix_escapeChars (cs : List Char) : ¬ ['=', '='] <:+: escapeChars cs := by
  induction cs with
  | nil => simp [escapeChars]
  | cons c cs ih =>
    by_cases hstar : c = '*'
    · rw [hstar, escapeChars_star_cons]
      simpa [List.infix_cons_iff] using ih
    · have hcons : escapeChars (c :: cs) = c :: (seam [c] cs ++ escapeChars cs) := by
        rw [escapeChars_cons, shield, if_neg hstar, List.nil_append]
      rw [hcons, List.infix_cons_iff, seam]
      split_ifs with hseam
      · simpa [List.infix_cons_iff] using ih
      · rw [List.nil_append, List.cons_prefix_cons]
        rintro (⟨rfl, hnext⟩ | hrest)
        · refine hseam ⟨rfl, head?_escapeChars.1 ?_⟩
          obtain ⟨rest, hrest⟩ := hnext
          rw [← hrest]
          rfl
        · exact ih hrest

theorem sublist_escapeChars (cs : List Char) : cs.Sublist (escapeChars cs) := by
  induction cs with
  | nil => exact List.Sublist.refl _
  | cons c cs ih =>
    rw [escapeChars_cons]
    refine List.sublist_append_of_sublist_right (List.Sublist.cons_cons c ?_)
    exact List.sublist_append_of_sublist_right ih

/-- Whether a character is never put in. -/
def isOwn (c : Char) : Bool := c != '\\' && c != ' '

theorem filter_escapeChars (cs : List Char) : (escapeChars cs).filter isOwn = cs.filter isOwn := by
  induction cs with
  | nil => rfl
  | cons c cs ih =>
    have hshield : (shield c).filter isOwn = [] := by
      rw [shield]
      split_ifs <;> rfl
    have hseam : (seam [c] cs).filter isOwn = [] := by
      rw [seam]
      split_ifs <;> rfl
    rw [escapeChars_cons, List.filter_append, hshield, List.nil_append, List.filter_cons,
      List.filter_cons, List.filter_append, hseam, List.nil_append, ih]

/-! ## Stars -/

/-- A star stands after the text `front`. -/
def StarAfter (cs front : List Char) : Prop := front ++ ['*'] <+: cs

instance (cs front : List Char) : Decidable (StarAfter cs front) :=
  inferInstanceAs (Decidable (_ <+: _))

/-- No star stands in what has none. -/
theorem starAfter_of_append {pad : List Char} (hpad : '*' ∉ pad) (h : StarAfter (cs ++ pad) front) :
    StarAfter cs front := by
  induction pad using List.reverseRecOn with
  | nil => rwa [List.append_nil] at h
  | append_singleton pad c ih =>
    rw [List.mem_append, List.mem_singleton, not_or] at hpad
    rw [StarAfter, ← List.append_assoc, List.prefix_concat_iff] at h
    refine ih hpad.1 (h.resolve_left fun hend => hpad.2 ?_)
    exact (List.cons.inj (List.append_inj_right' hend rfl)).1

theorem escapeChars_concat (cs : List Char) (c : Char) :
    escapeChars (cs ++ [c]) = escapeChars cs ++ (seam cs [c] ++ shield c) ++ [c] := by
  rw [escapeChars_append, escapeChars_cons, seam_of_head?_ne [c] (by simp)]
  simp [escapeChars]

/-- **The stars of an escaped text are those of the text**, each after a backslash of its own. -/
theorem starAfter_escapeChars_iff : StarAfter (escapeChars cs) front ↔
    ∃ before, StarAfter cs before ∧ front = escapeChars before ++ ['\\'] := by
  constructor
  · intro h
    induction cs using List.reverseRecOn with
    | nil => simp [StarAfter, escapeChars] at h
    | append_singleton cs c ih =>
      rw [StarAfter, escapeChars_concat, List.prefix_concat_iff] at h
      rcases h with hend | hfront
      · obtain ⟨rfl, hc⟩ := List.append_inj' hend rfl
        obtain rfl : '*' = c := (List.cons.inj hc).1
        refine ⟨cs, List.prefix_rfl, ?_⟩
        rw [seam_of_head?_ne cs (by simp)]
        rfl
      · have hpad : '*' ∉ seam cs [c] ++ shield c := by
          rw [seam, shield]
          split_ifs <;> simp
        obtain ⟨before, hbefore, rfl⟩ := ih (starAfter_of_append hpad hfront)
        exact ⟨before, hbefore.trans (List.prefix_append cs [c]), rfl⟩
  · rintro ⟨before, ⟨after, rfl⟩, rfl⟩
    refine ⟨escapeChars after, ?_⟩
    rw [List.append_assoc before, List.singleton_append, escapeChars_append_star]
    simp

/-! ### Backslashes before them -/

/-- The number of backslashes at the end of a text. -/
def backslashes (cs : List Char) : Nat := (cs.reverse.takeWhile (· == '\\')).length

theorem backslashes_concat_self (cs : List Char) :
    backslashes (cs ++ ['\\']) = backslashes cs + 1 := by
  simp [backslashes]

theorem backslashes_concat_of_ne (cs : List Char) (h : c ≠ '\\') : backslashes (cs ++ [c]) = 0 := by
  simp [backslashes, h]

/-- Escaping puts no backslash before one. -/
theorem backslashes_escapeChars (cs : List Char) :
    backslashes (escapeChars cs) = backslashes cs := by
  induction cs using List.reverseRecOn with
  | nil => rfl
  | append_singleton cs c ih =>
    rw [escapeChars_concat]
    by_cases hc : c = '\\'
    · rw [hc, seam_of_head?_ne cs (by simp), backslashes_concat_self, backslashes_concat_self]
      simpa [shield] using ih
    · rw [backslashes_concat_of_ne _ hc, backslashes_concat_of_ne _ hc]

/-- Whether a reader of Markdown takes the character after a text as it is, since a backslash stands
    there that was not taken so itself. -/
def takesNext (cs : List Char) : Bool := cs.foldl (fun taken c => c == '\\' && !taken) false

/-- That is told by the number of backslashes at the end. -/
theorem takesNext_iff : takesNext cs = true ↔ Odd (backslashes cs) := by
  induction cs using List.reverseRecOn with
  | nil => decide
  | append_singleton cs c ih =>
    rw [takesNext, List.foldl_append, ← takesNext]
    by_cases hc : c = '\\'
    · rw [hc, backslashes_concat_self, Nat.odd_add_one, ← ih]
      simp
    · rw [backslashes_concat_of_ne _ hc]
      simp [hc]

/-- Every star of a text is literal: an odd number of backslashes stands before it. -/
def StarsLiteral (cs : List Char) : Prop := ∀ front, StarAfter cs front → Odd (backslashes front)

/-- Every star of a text is active. -/
def StarsActive (cs : List Char) : Prop := ∀ front, StarAfter cs front → Even (backslashes front)

/-- **Each star of a line gets one more backslash.** So all of them are literal, also to a reader
    of Markdown, just if all of them were active before. -/
theorem stars_escape (line : String) :
    (∀ front, StarAfter (escape line).toList front ↔ ∃ before, StarAfter line.toList before ∧
      front = escapeChars before ++ ['\\'] ∧ backslashes front = backslashes before + 1) ∧
    (StarsLiteral (escape line).toList ↔ StarsActive line.toList) ∧
    (StarsLiteral (escape line).toList ↔
      ∀ front, StarAfter (escape line).toList front → takesNext front = true) := by
  have hcount : ∀ before, backslashes (escapeChars before ++ ['\\']) = backslashes before + 1 := by
    intro before
    rw [backslashes_concat_self, backslashes_escapeChars]
  rw [toList_escape]
  refine ⟨fun front => ?_, ⟨fun h before hbefore => ?_, fun h front hfront => ?_⟩, ?_⟩
  · rw [starAfter_escapeChars_iff]
    refine exists_congr fun before => and_congr_right fun _ => ?_
    exact (and_iff_left_of_imp fun hfront => hfront ▸ hcount before).symm
  · have hodd := h _ (starAfter_escapeChars_iff.2 ⟨before, hbefore, rfl⟩)
    rwa [hcount, Nat.odd_add_one, Nat.not_odd_iff_even] at hodd
  · obtain ⟨before, hbefore, rfl⟩ := starAfter_escapeChars_iff.1 hfront
    rw [hcount]
    exact (h before hbefore).add_one
  · exact forall₂_congr fun front _ => takesNext_iff.symm

/-- A star after a backslash of the author's is active once it is escaped. -/
theorem not_starsLiteral_of_backslash : ¬ ∀ line : String, StarsLiteral (escape line).toList := by
  intro h
  have hodd := h "\\*" ['\\', '\\'] (by decide)
  exact absurd hodd (by decide)

/-! ## Stories -/

theorem escape_append (front back : String) : escape (front ++ back) =
    escape front ++ (String.ofList (seam front.toList back.toList) ++ escape back) := by
  apply String.toList_injective
  simp [toList_escape, escapeChars_append]

/-- What becomes of a text that is escaped. -/
structure Escapes (text : String) : Prop where
  /-- No two equals signs meet. -/
  unpaired : ¬ "==".toList <:+: (escape text).toList
  /-- A backslash stands before each star. -/
  shielded : ∀ front, StarAfter (escape text).toList front → front.getLast? = some '\\'
  /-- An equals sign that stands alone is left as it is. -/
  lone : ∀ front back : String, text = front ++ "=" ++ back → front.toList.getLast? ≠ some '=' →
    back.toList.head? ≠ some '=' → escape text = escape front ++ "=" ++ escape back
  /-- Nothing is taken away, -/
  sublist : text.toList.Sublist (escape text).toList
  /-- and only backslashes and spaces are put in. -/
  kept : (escape text).toList.filter isOwn = text.toList.filter isOwn

theorem escapes (text : String) : Escapes text where
  unpaired := by
    rw [toList_escape]
    exact not_pair_infix_escapeChars text.toList
  shielded front h := by
    rw [toList_escape, starAfter_escapeChars_iff] at h
    obtain ⟨before, -, rfl⟩ := h
    exact List.getLast?_concat
  lone front back htext hfront hback := by
    have hbefore : seam front.toList ("=" ++ back).toList = [] := seam_of_getLast?_ne hfront _
    have hafter : seam "=".toList back.toList = [] := seam_of_head?_ne _ hback
    have hequals : escape "=" = "=" := by decide
    rw [htext, String.append_assoc, escape_append, escape_append, hbefore, hafter, hequals]
    simp only [String.ofList_nil, String.empty_append, String.append_assoc]
  sublist := by
    rw [toList_escape]
    exact sublist_escapeChars text.toList
  kept := by
    rw [toList_escape]
    exact filter_escapeChars text.toList

example : escape "a * b == c ===" = "a \\* b = = c = = =" := by decide

/-- Line ends are left as they are. -/
theorem escape_append_break (line rest : String) :
    escape (line ++ "\r\n" ++ rest) = escape line ++ "\r\n" ++ escape rest := by
  have hbefore : seam line.toList ("\r\n" ++ rest).toList = [] := seam_of_head?_ne _ (by simp)
  have hafter : seam "\r\n".toList rest.toList = [] := seam_of_getLast?_ne (by decide) _
  have hbreak : escape "\r\n" = "\r\n" := by decide
  rw [String.append_assoc, escape_append, escape_append, hbefore, hafter, hbreak]
  simp only [String.ofList_nil, String.empty_append, String.append_assoc]

theorem escape_intercalate (lines : List String) :
    escape ("\r\n".intercalate lines) = "\r\n".intercalate (lines.map escape) := by
  induction lines with
  | nil => rfl
  | cons line lines ih =>
    cases lines with
    | nil => rw [List.map_singleton, String.intercalate_singleton, String.intercalate_singleton]
    | cons next lines =>
      rw [List.map_cons] at ih
      rw [String.intercalate_cons_cons, escape_append_break, ih, List.map_cons, List.map_cons,
        String.intercalate_cons_cons]

/-- **A story in Markdown is its plain text, escaped**, and this is what escaping does. -/
theorem markdown_eq_escape :
    (∀ lines, markdown lines = escape (plainText lines)) ∧ ∀ text, Escapes text := by
  refine ⟨fun lines => ?_, escapes⟩
  have hend : ∀ text, escape (text ++ "\r\n") = escape text ++ "\r\n" := by
    intro text
    have hbreak := escape_append_break text ""
    rwa [show escape "" = "" from rfl, String.append_empty, String.append_empty] at hbreak
  rw [markdown, plainText, plainText, hend, escape_intercalate]

end Crosspost.Story
