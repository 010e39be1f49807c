/-
  Tags and texts are found where they are written.

  * `Lexeme.Apart`: of some lexemes no text is empty, and no two texts stand next
    to each other; the lexemes of a source are apart (`Lexeme.apart_scan`);
  * `Tag.Written`: the characters of a tag are those that a tag may have;
  * `Lexeme.scan_flatMap`: **lexemes that are written properly and apart are found
    again in the text that they make**.
-/
import Mathlib.Data.List.Chain
import Mathlib.Tactic.Common
import Crosspost.Description.Token
import Crosspost.Proofs.Text.Runs

namespace Crosspost

namespace Lexeme

/-- Whether a lexeme is a run of text. -/
def isText : Lexeme → Bool
  | text _ => true
  | tag _ => false

/-- No text is empty, and no two texts are next to each other. -/
structure Apart (ls : List Lexeme) : Prop where
  nonempty : text [] ∉ ls
  separate : ls.IsChain fun a b => ¬ (a.isText = true ∧ b.isText = true)

theorem apart_nil : Apart [] := ⟨by simp, .nil⟩

theorem Apart.part {ks ls : List Lexeme} (h : Apart ls) (hk : ks <:+: ls) : Apart ks :=
  ⟨fun hm => h.nonempty (hk.subset hm), List.IsChain.infix h.separate hk⟩

theorem Apart.tail {l : Lexeme} {ls : List Lexeme} (h : Apart (l :: ls)) : Apart ls :=
  h.part (List.suffix_cons l ls).isInfix

theorem Apart.cons_tag {t : Tag} {ls : List Lexeme} (h : Apart ls) : Apart (tag t :: ls) := by
  refine ⟨by simpa using h.nonempty, ?_⟩
  cases ls with
  | nil => exact .singleton _
  | cons l ls => exact List.isChain_cons_cons.2 ⟨by simp [isText], h.separate⟩

theorem apart_flush (run : List Char) : Apart (flush run) := by
  cases run with
  | nil => exact apart_nil
  | cons c cs => exact ⟨by simp [flush], .singleton _⟩

/-- A run of text before a tag. -/
theorem Apart.flush_tag {run : List Char} {t : Tag} {ls : List Lexeme} (h : Apart ls) :
    Apart (flush run ++ tag t :: ls) := by
  have ht : Apart (tag t :: ls) := h.cons_tag
  cases run with
  | nil => exact ht
  | cons c cs =>
    refine ⟨by simpa [flush] using ht.nonempty, ?_⟩
    exact List.isChain_cons_cons.2 ⟨by simp [isText], ht.separate⟩

theorem apart_scanFrom (run : List Char) (skip : Nat) (cs : List Char) :
    Apart (scanFrom run skip cs) := by
  fun_induction scanFrom run skip cs with
  | case1 run => exact apart_flush run
  | case2 _ _ _ _ ih => exact ih
  | case3 _ _ _ _ _ ih => exact ih.flush_tag
  | case4 _ _ _ _ ih => exact ih

theorem apart_scan (cs : List Char) : Apart (scan cs) := apart_scanFrom [] 0 cs

end Lexeme

/-! ## Written tags -/

/-- The characters of a tag are those that a tag may have. -/
structure Tag.Written (t : Tag) : Prop where
  name_start : ∀ c ∈ t.writtenName.head?, c.isAlpha = true
  name_ne_nil : t.writtenName ≠ []
  name : ∀ c ∈ t.writtenName, Tag.isNameChar c = true
  attr : ∀ cs ∈ t.writtenAttr, ∀ c ∈ cs, Tag.isAttrChar c = true

namespace Tag

theorem written_iff {t : Tag} : t.Written ↔
    (t.writtenName.head?.any Char.isAlpha = true ∧ t.writtenName.all isNameChar = true) ∧
      t.writtenAttr.all (·.all isAttrChar) = true := by
  constructor
  · rintro ⟨hs, hne, hn, ha⟩
    refine ⟨⟨?_, List.all_eq_true.2 hn⟩, ?_⟩
    · obtain ⟨c, cs, hname⟩ := List.exists_cons_of_ne_nil hne
      rw [hname] at hs ⊢
      exact hs c rfl
    · rw [Option.all_eq_true]
      exact fun cs hcs => List.all_eq_true.2 (ha cs hcs)
  · rintro ⟨⟨hs, hn⟩, ha⟩
    rw [Option.all_eq_true] at ha
    obtain ⟨c, hc, hstart⟩ := (Option.any_eq_true _ _).1 hs
    refine ⟨fun d hd => ?_, ?_, List.all_eq_true.1 hn, fun cs hcs => List.all_eq_true.1 (ha cs hcs)⟩
    · rwa [Option.mem_unique hd hc]
    · exact List.ne_nil_of_mem (List.mem_of_head? hc)

instance (t : Tag) : Decidable t.Written := decidable_of_iff _ written_iff.symm

/-- What follows the name of a tag. -/
def ending (t : Tag) : List Char :=
  match t.writtenAttr with
  | some cs => '=' :: (cs ++ [']'])
  | none => [']']

theorem readBody?_append {t : Tag} (h : t.Written) (rest : List Char) :
    readBody? t.closing (t.writtenName ++ (t.ending ++ rest)) = some t := by
  obtain ⟨closing, written, attr⟩ := t
  obtain ⟨hs, hne, hn, ha⟩ := h
  cases written with
  | nil => exact absurd rfl hne
  | cons c cs =>
    have hc : c.isAlpha = true := hs c rfl
    cases attr with
    | none =>
      have hstop : Chars.Stops isNameChar (']' :: rest) := Chars.stops_cons (by decide) rest
      simp only [ending, List.cons_append, List.nil_append, readBody?, hc, if_true]
      rw [← List.cons_append, hstop.takeWhile_append hn, hstop.dropWhile_append hn]
      rfl
    | some as =>
      have has : ∀ a ∈ as, isAttrChar a = true := ha as rfl
      have hstop : Chars.Stops isNameChar ('=' :: (as ++ ']' :: rest)) :=
        Chars.stops_cons (by decide) _
      have hclose : Chars.Stops isAttrChar (']' :: rest) := Chars.stops_cons (by decide) rest
      simp only [ending, List.cons_append, List.append_assoc, List.nil_append, readBody?, hc,
        if_true]
      rw [← List.cons_append, hstop.takeWhile_append hn, hstop.dropWhile_append hn]
      simp only [hclose.dropWhile_append has, hclose.takeWhile_append has]

theorem Written.ne_slash {t : Tag} (h : t.Written) : t.writtenName.head? ≠ some '/' := by
  intro hs
  have := h.name_start '/' hs
  exact absurd this (by decide)

theorem chars_eq (t : Tag) :
    t.chars = '[' :: ((if t.closing then ['/'] else []) ++ (t.writtenName ++ t.ending)) := by
  unfold chars ending
  cases t.writtenAttr <;> simp

theorem read?_append {t : Tag} (h : t.Written) (rest : List Char) :
    read? (t.chars ++ rest) = some t := by
  have hb := readBody?_append h rest
  rw [chars_eq]
  cases hc : t.closing with
  | true =>
    rw [hc] at hb
    simpa [read?] using hb
  | false =>
    rw [hc] at hb
    -- a name that started with a slash would make this a closing tag
    have hs := h.ne_slash
    cases hw : t.writtenName with
    | nil => exact absurd hw h.name_ne_nil
    | cons c cs =>
      rw [hw] at hs hb
      have hcs : c ≠ '/' := fun he => hs (he ▸ rfl)
      simpa [read?, hcs] using hb

theorem read?_of_ne_bracket {c : Char} (h : c ≠ '[') (cs : List Char) : read? (c :: cs) = none := by
  unfold read?
  split <;> simp_all

end Tag

/-! ## Written lexemes -/

namespace Lexeme

/-- A tag that is written properly, or a text in which no tag opens. -/
def Written : Lexeme → Prop
  | text cs => '[' ∉ cs
  | tag t => t.Written

theorem scanFrom_skip (run pre cs : List Char) :
    scanFrom run pre.length (pre ++ cs) = scanFrom run 0 cs := by
  induction pre with
  | nil => rfl
  | cons _ pre ih => exact ih

theorem scanFrom_text {cs : List Char} (h : '[' ∉ cs) (run rest : List Char) :
    scanFrom run 0 (cs ++ rest) = scanFrom (cs.reverse ++ run) 0 rest := by
  induction cs generalizing run with
  | nil => rfl
  | cons c cs ih =>
    rw [List.mem_cons, not_or] at h
    rw [List.cons_append, scanFrom, Tag.read?_of_ne_bracket (Ne.symm h.1)]
    simp only [ih h.2, List.reverse_cons, List.append_assoc, List.singleton_append]

theorem scanFrom_tag {t : Tag} (h : t.Written) (run rest : List Char) :
    scanFrom run 0 (t.chars ++ rest) = flush run ++ tag t :: scanFrom [] 0 rest := by
  have hr := Tag.read?_append h rest
  cases hc : t.chars with
  | nil => simp [Tag.chars] at hc
  | cons c cs =>
    rw [hc, List.cons_append] at hr
    rw [List.cons_append, scanFrom, hr]
    -- the rest of the tag is passed over
    simp only [hc, List.length_cons, Nat.add_sub_cancel, scanFrom_skip]

theorem flush_reverse {cs : List Char} (h : cs ≠ []) : flush cs.reverse = [text cs] := by
  have hr : cs.reverse ≠ [] := by simpa using h
  obtain ⟨d, ds, hd⟩ := List.exists_cons_of_ne_nil hr
  rw [hd, flush, ← hd, List.reverse_reverse]

/-- **Lexemes that are written properly and apart are found again.** -/
theorem scan_flatMap {ls : List Lexeme} (hw : ∀ l ∈ ls, l.Written) (ha : Apart ls) :
    scan (ls.flatMap chars) = ls := by
  unfold scan
  induction ls with
  | nil => rfl
  | cons l ls ih =>
    have ih := ih (fun l hl => hw l (List.mem_cons_of_mem _ hl)) ha.tail
    have hl : l.Written := hw l List.mem_cons_self
    rw [List.flatMap_cons]
    cases l with
    | tag t =>
      rw [chars, scanFrom_tag hl, ih]
      rfl
    | text cs =>
      have hne : cs ≠ [] := by
        rintro rfl
        exact ha.nonempty List.mem_cons_self
      rw [chars, scanFrom_text hl, List.append_nil]
      -- a text ends at the tag after it, for no other text may follow
      cases ls with
      | nil => exact flush_reverse hne
      | cons l ls =>
        cases l with
        | text ds => exact absurd ⟨rfl, rfl⟩ (List.isChain_cons_cons.1 ha.separate).1
        | tag t =>
          have ht : t.Written := hw (tag t) (by simp)
          rw [List.flatMap_cons, chars, scanFrom_tag ht] at ih ⊢
          rw [flush_reverse hne, List.singleton_append]
          exact congrArg _ ih

end Lexeme

namespace Token

theorem map_lexeme_place (k : Cursor) (ls : List Lexeme) :
    (place k ls).map (·.lexeme) = ls := by
  induction ls generalizing k with
  | nil => rfl
  | cons l ls ih => rw [place, List.map_cons, ih]

theorem apart_ofSource (source : String) :
    Lexeme.Apart ((ofSource source).map (·.lexeme)) := by
  rw [ofSource, map_lexeme_place]
  exact Lexeme.apart_scan _

end Token

end Crosspost
