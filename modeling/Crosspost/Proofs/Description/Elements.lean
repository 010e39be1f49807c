/-
  What the tags of a description enclose.

  * `Lexeme.Encloses ls o body`: among the lexemes `ls` the tag `o` and one that closes it
    enclose `body`, in which every tag is closed again;
  * `Lexeme.elements` lists what each tag encloses (`Lexeme.mem_elements`);
  * `Grammar.Derives.nests`: **what is open before the tokens of a phrase is open after
    them**, so a tag of a phrase and the one that closes it enclose what the grammar puts
    between them (`Grammar.mem_elements_of_closes`).
-/
import Mathlib.Data.List.Infix
import Crosspost.Proofs.Description.Grammar

namespace Crosspost

namespace Lexeme

/-! ## Elements -/

/-- The names of the tags that are open after one more lexeme, innermost first. A closing
    tag closes the innermost one. -/
def nest (names : List String) : Lexeme → Option (List String)
  | text _ => some names
  | tag t =>
    if t.closing = false then some (t.name :: names)
    else if names.head? = some t.name then some names.tail
    else none

/-- Every tag among some lexemes is closed there by one of its name. -/
def Balanced (ls : List Lexeme) : Prop := ls.foldlM nest [] = some []

instance (ls : List Lexeme) : Decidable (Balanced ls) :=
  inferInstanceAs (Decidable (ls.foldlM nest [] = some []))

/-- Among some lexemes, the tag `o` and one that closes it enclose `body`. -/
def Encloses (ls : List Lexeme) (o : Tag) (body : List Lexeme) : Prop :=
  ∃ before c after, ls = before ++ tag o :: (body ++ tag c :: after) ∧ o.closing = false ∧
    c.closing = true ∧ c.name = o.name ∧ Balanced body

/-- Whether some lexemes start with a closing tag of a name. -/
def startsClosing (name : String) : List Lexeme → Bool
  | tag c :: _ => c.closing && c.name == name
  | _ => false

/-- The opening tags among some lexemes, each with what it encloses. -/
def elements : List Lexeme → List (Tag × List Lexeme)
  | [] => []
  | text _ :: rest => elements rest
  | tag o :: rest =>
    (rest.inits.filter fun body => o.closing = false ∧ Balanced body ∧
      startsClosing o.name (rest.drop body.length)).map (o, ·) ++ elements rest

theorem encloses_cons {l : Lexeme} {ls body : List Lexeme} {o : Tag} :
    Encloses (l :: ls) o body ↔
      (l = tag o ∧ body <+: ls ∧ o.closing = false ∧ Balanced body ∧
        startsClosing o.name (ls.drop body.length)) ∨ Encloses ls o body := by
  constructor
  · rintro ⟨before, c, after, h, ho, hc, hn, hb⟩
    obtain ⟨rfl, h⟩ | ⟨before, rfl, rfl⟩ := List.cons_eq_append_iff.1 h
    · cases h
      exact .inl ⟨rfl, List.prefix_append .., ho, hb, by simp [startsClosing, hc, hn]⟩
    · exact .inr ⟨before, c, after, rfl, ho, hc, hn, hb⟩
  · rintro (⟨rfl, ⟨rest, rfl⟩, ho, hb, h⟩ | ⟨before, c, after, rfl, h⟩)
    · rw [List.drop_left] at h
      match rest, h with
      | tag c :: after, h =>
        rw [startsClosing, Bool.and_eq_true, beq_iff_eq] at h
        exact ⟨[], c, after, rfl, ho, h.1, h.2, hb⟩
    · exact ⟨l :: before, c, after, rfl, h⟩

theorem mem_elements {ls body : List Lexeme} {o : Tag} :
    (o, body) ∈ elements ls ↔ Encloses ls o body := by
  induction ls with
  | nil => simp [elements, Encloses]
  | cons l ls ih =>
    rw [encloses_cons, ← ih]
    cases l with
    | text cs => simp [elements]
    | tag t =>
      simp only [elements, List.mem_append, List.mem_map, List.mem_filter, List.mem_inits,
        Prod.mk.injEq, tag.injEq, decide_eq_true_eq]
      grind

/-- What is enclosed in a part is enclosed in the whole. -/
theorem Encloses.of_part {part ls body : List Lexeme} {o : Tag} (h : Encloses part o body)
    (hp : part <:+: ls) : Encloses ls o body := by
  obtain ⟨before, c, after, rfl, hrest⟩ := h
  obtain ⟨front, back, rfl⟩ := hp
  exact ⟨front ++ before, c, after ++ back, by simp, hrest⟩

/-! ## Parts of elements -/

/-- The tags among some lexemes. -/
def tags (ls : List Lexeme) : List Tag :=
  ls.filterMap fun
    | text _ => none
    | tag t => some t

@[simp] theorem mem_tags {ls : List Lexeme} {t : Tag} : t ∈ tags ls ↔ tag t ∈ ls := by
  simp only [tags, List.mem_filterMap]
  constructor
  · rintro ⟨_ | t, hl, h⟩ <;> cases h
    exact hl
  · exact fun h => ⟨_, h, rfl⟩

/-- Whether a lexeme is text that is not blank. -/
def isShown : Lexeme → Bool
  | text cs => !cs.all isBlank
  | tag _ => false

/-- Whether a lexeme is a tag of a link. -/
def isLink : Lexeme → Bool
  | text _ => false
  | tag t => t.name == "url"

theorem not_isBlank_of_isShown {ls : List Lexeme} (h : ls.any isShown) :
    (ls.flatMap chars).all isBlank = false := by
  obtain ⟨l, hl, hshown⟩ := List.any_eq_true.1 h
  match l, hshown with
  | text cs, hshown =>
    rw [isShown, Bool.not_eq_true', List.all_eq_false] at hshown
    obtain ⟨c, hc, hblank⟩ := hshown
    exact List.all_eq_false.2 ⟨c, List.mem_flatMap.2 ⟨_, hl, hc⟩, hblank⟩

theorem not_isBlank_of_isLink {ls : List Lexeme} (h : ls.any isLink) :
    (ls.flatMap chars).all isBlank = false := by
  obtain ⟨l, hl, hlink⟩ := List.any_eq_true.1 h
  match l, hlink with
  | tag t, _ =>
    exact List.all_eq_false.2 ⟨'[', List.mem_flatMap.2 ⟨_, hl, by simp [chars, Tag.chars]⟩,
      by decide⟩

/-- Some lexemes are one text, without white space around it. -/
def IsTrimmed : List Lexeme → Prop
  | [text cs] => Chars.trim cs = cs
  | _ => False

instance : DecidablePred IsTrimmed := fun ls => by
  unfold IsTrimmed
  split <;> infer_instance

theorem IsTrimmed.exists_text {ls : List Lexeme} (h : IsTrimmed ls) :
    ∃ cs, ls = [text cs] ∧ Chars.trim cs = cs := by
  match ls, h with
  | [text cs], h => exact ⟨cs, rfl, h⟩

end Lexeme

namespace Grammar

/-! ## Elements of phrases -/

/-- Whatever is open before some tokens is open after them. -/
def Nests (ts : List Token) : Prop :=
  ∀ names, (ts.map (·.lexeme)).foldlM Lexeme.nest names = some names

theorem nests_nil : Nests [] := fun _ => rfl

theorem Nests.append {ts us : List Token} (ht : Nests ts) (hu : Nests us) : Nests (ts ++ us) := by
  intro names
  rw [List.map_append, List.foldlM_append, ht names]
  exact hu names

theorem Nests.enclosed {o : OpenTag} {c : Token} {body : List Token} (h : Nests body)
    (ho : o.tag.closing = false) (hc : Closes o c) : Nests (o.token :: (body ++ [c])) := by
  intro names
  obtain ⟨tag, hc, hclosing, hn, -⟩ := hc
  simp [OpenTag.token, Lexeme.nest, ho, h _, hc, hclosing, hn]

/-- **What is open before the tokens of a phrase is open after them.** -/
theorem Derives.nests {R : Registry} {p : Phrase} {ts : List Token} (h : Derives R p ts) :
    Nests ts := by
  induction h with
  | text => exact fun _ => rfl
  | format ho _ _ hc ih => exact ih.enclosed ho.1 hc
  | link ho _ _ hc ih => exact ih.enclosed ho.1 hc
  | address ho _ _ hc _ ih => exact ih.enclosed ho.1 hc
  | self ho _ hc => exact nests_nil.enclosed ho.1 hc
  | wrapper ho _ _ hc ih => exact ih.enclosed ho.1 hc
  | switch _ _ ih => exact ih
  | whenOnly ho _ _ _ hc ih => exact ih.enclosed ho.1 hc
  | whenElse ho _ _ _ hc he _ _ hd ih ih' =>
    simpa using (ih.enclosed ho.1 hc).append (ih'.enclosed he.1 hd)
  | nil => exact nests_nil
  | cons _ _ ih ih' => exact ih.append ih'
  | leaf ho _ _ hc _ _ ih => exact ih.enclosed ho.1 hc
  | nested ho _ _ _ hc ih => exact ih.enclosed ho.1 hc

/-- What stands between the tags of a phrase is enclosed by them. -/
theorem mem_elements_of_closes {R : Registry} {p : Phrase} {o : OpenTag} {c : Token}
    {body : List Token} (ho : o.tag.closing = false) (hc : Closes o c) (h : Derives R p body) :
    (o.tag, body.map (·.lexeme)) ∈
      Lexeme.elements ((o.token :: (body ++ [c])).map (·.lexeme)) := by
  obtain ⟨_, p⟩ := c
  obtain ⟨tag, rfl, hclosing, hn, -⟩ := hc
  exact Lexeme.mem_elements.2
    ⟨[], tag, [], by simp [OpenTag.token], ho, hclosing, hn, h.nests []⟩

end Grammar

end Crosspost
