/-
  Texts of nested elements.

  * `Lexeme.WellNested leads ls`: every tag among some lexemes is closed there, by one of its
    name without attribute, and the address of each link, in its tag or alone between its two
    tags, satisfies `leads`;
  * `Lexeme.Marked leads ls` is how such lexemes are put together, from texts without brackets
    and elements with tags around;
  * `Lexeme.scanFrom_flatMap`: written lexemes are found again, with texts that meet joined;
  * `Marks leads s`: a text is made of such lexemes, and `Marks.wellNested`: **then its lexemes
    are well nested**; it may be put together from such texts (`Marks.append`,
    `Marks.element`, `Marks.link`).
-/
import Crosspost.Proofs.Description.Elements
import Crosspost.Proofs.Description.Switches
import Crosspost.Proofs.Description.Verbatim

namespace Crosspost

/-! ## Putting lexemes together -/

namespace Lexeme

/-- Texts without brackets, and elements with tags around them. An address in the tag of a
    link, or alone between two of them, satisfies `leads`. -/
inductive Marked (leads : String → Prop) : List Lexeme → Prop
  | nil : Marked leads []
  | text {cs : List Char} {ls : List Lexeme} : (∀ c ∈ cs, Tag.isAttrChar c = true) →
      Marked leads ls → Marked leads (text cs :: ls)
  | element {name : List Char} {attr : Option (List Char)} {body ls : List Lexeme} :
      Tag.Written ⟨false, name, attr⟩ →
      (Tag.name ⟨false, name, attr⟩ = "url" → ∃ cs ∈ attr, leads (.ofList cs)) →
      Marked leads body → Marked leads ls →
      Marked leads (tag ⟨false, name, attr⟩ :: (body ++ tag ⟨true, name, none⟩ :: ls))
  | address {url : String} {ls : List Lexeme} : Unbracketed url → leads url → Marked leads ls →
      Marked leads (tag ⟨false, "url".toList, none⟩ :: text url.toList ::
        tag ⟨true, "url".toList, none⟩ :: ls)

variable {leads : String → Prop} {ls ms : List Lexeme}

namespace Marked

theorem append (h : Marked leads ls) (h' : Marked leads ms) : Marked leads (ls ++ ms) := by
  induction h with
  | nil => exact h'
  | text hcs _ ih => exact .text hcs ih
  | element hw ha hbody _ _ ih =>
    rw [List.cons_append, List.append_assoc]
    exact .element hw ha hbody ih
  | address hurl hl _ ih => exact .address hurl hl ih

theorem written (h : Marked leads ls) : ∀ l ∈ ls, l.Written := by
  have htext : ∀ {cs : List Char}, (∀ c ∈ cs, Tag.isAttrChar c = true) → Written (.text cs) :=
    fun h hm => absurd (h _ hm) (by decide)
  induction h with
  | nil => nofun
  | text hcs _ ih => exact List.forall_mem_cons.2 ⟨htext hcs, ih⟩
  | element hw _ _ _ ihbody ih =>
    exact List.forall_mem_cons.2
      ⟨hw, List.forall_mem_append.2 ⟨ihbody, List.forall_mem_cons.2 ⟨hw.closed rfl, ih⟩⟩⟩
  | address hurl _ _ ih =>
    have hw : Tag.Written ⟨false, "url".toList, none⟩ := by decide
    exact List.forall_mem_cons.2 ⟨hw, List.forall_mem_cons.2
      ⟨htext hurl, List.forall_mem_cons.2 ⟨hw.closed rfl, ih⟩⟩⟩

/-- What is open before such lexemes is open after them. -/
theorem foldlM_nest (h : Marked leads ls) (names : List String) :
    ls.foldlM nest names = some names := by
  induction h generalizing names with
  | nil => rfl
  | text _ _ ih => exact ih names
  | @element name attr body ls _ _ _ _ ihbody ih =>
    have hname : Tag.name ⟨true, name, none⟩ = Tag.name ⟨false, name, attr⟩ := rfl
    simp [nest, ihbody, ih, hname]
  | address _ _ _ ih => simp [nest, ih, Tag.name]

/-- What holds of each tag. -/
theorem tag_of_mem (h : Marked leads ls) {t : Tag} (ht : tag t ∈ ls) :
    (t.closing = true → t.writtenAttr = none) ∧
      (t.closing = false → t.name = "url" → ∀ cs ∈ t.writtenAttr, leads (.ofList cs)) := by
  induction h with
  | nil => cases ht
  | text _ _ ih => exact ih (by simpa using ht)
  | element _ ha _ _ ihbody ih =>
    rw [List.mem_cons, List.mem_append, List.mem_cons] at ht
    obtain ⟨⟨⟩⟩ | ht | ⟨⟨⟩⟩ | ht := ht
    · refine ⟨nofun, fun _ hn cs hcs => ?_⟩
      obtain ⟨cs', hcs', hl⟩ := ha hn
      rwa [Option.mem_unique hcs hcs']
    · exact ihbody ht
    · exact ⟨fun _ => rfl, nofun⟩
    · exact ih ht
  | address _ _ _ ih =>
    rw [List.mem_cons, List.mem_cons, List.mem_cons] at ht
    obtain ⟨⟨⟩⟩ | ⟨⟨⟩⟩ | ⟨⟨⟩⟩ | ht := ht
    · exact ⟨nofun, fun _ _ => nofun⟩
    · exact ⟨fun _ => rfl, nofun⟩
    · exact ih ht

end Marked

/-! ## Joined texts -/

/-- Some lexemes with texts that meet joined, after a text that is given from its last
    character backwards. -/
def joined : (run : List Char) → List Lexeme → List Lexeme
  | run, [] => flush run
  | run, text cs :: ls => joined (cs.reverse ++ run) ls
  | run, tag t :: ls => flush run ++ tag t :: joined [] ls

/-- Written lexemes are found again. -/
theorem scanFrom_flatMap (hw : ∀ l ∈ ls, l.Written) (run : List Char) :
    scanFrom run 0 (ls.flatMap chars) = joined run ls := by
  induction ls generalizing run with
  | nil => rfl
  | cons l ls ih =>
    have hl : l.Written := hw l List.mem_cons_self
    have ih := ih fun l hl => hw l (List.mem_cons_of_mem _ hl)
    rw [List.flatMap_cons]
    cases l with
    | text cs => rw [chars, scanFrom_text hl, ih, joined]
    | tag t => rw [chars, scanFrom_tag hl, ih, joined]

theorem tags_joined (run : List Char) (ls : List Lexeme) : tags (joined run ls) = tags ls := by
  have hflush : ∀ run : List Char, tags (flush run) = [] := by rintro (_ | _) <;> rfl
  induction ls generalizing run with
  | nil => exact hflush run
  | cons l ls ih =>
    cases l with
    | text cs => exact ih _
    | tag t =>
      have happend : tags (flush run ++ tag t :: joined [] ls) =
          tags (flush run) ++ t :: tags (joined [] ls) := by simp [tags]
      rw [joined, happend, hflush, ih]
      rfl

theorem foldlM_nest_joined (run : List Char) (ls : List Lexeme) (names : List String) :
    (joined run ls).foldlM nest names = ls.foldlM nest names := by
  have hflush : ∀ run names, (flush run).foldlM nest names = some names := by
    rintro (_ | _) _ <;> rfl
  induction ls generalizing run names with
  | nil => exact hflush run names
  | cons l ls ih =>
    cases l with
    | text cs => exact ih _ names
    | tag t =>
      rw [joined, List.foldlM_append, hflush, Option.bind_eq_bind, Option.bind_some,
        List.foldlM_cons, List.foldlM_cons]
      exact congrArg _ (funext fun names => ih [] names)

/-- A tag ends what is joined before it. -/
theorem joined_append_tag (run : List Char) (ls : List Lexeme) (t : Tag) (ms : List Lexeme) :
    joined run (ls ++ tag t :: ms) = joined run ls ++ tag t :: joined [] ms := by
  induction ls generalizing run with
  | nil => rfl
  | cons l ls ih =>
    cases l with
    | text cs => exact ih _
    | tag u => rw [List.cons_append, joined, joined, ih, List.append_assoc, List.cons_append]

/-! ## Addresses between tags -/

/-- Some lexemes start with an address and a closing tag. -/
def StartsAddress (leads : String → Prop) (ls : List Lexeme) : Prop :=
  ∃ url c rest, leads url ∧ ls = flush url.toList.reverse ++ tag c :: rest ∧ c.closing = true

/-- After each tag that opens a link without an address in it there is an address. -/
def Addressed (leads : String → Prop) : List Lexeme → Prop
  | [] => True
  | text _ :: ls => Addressed leads ls
  | tag t :: ls => (t.closing = false → t.name = "url" → t.writtenAttr = none →
      StartsAddress leads ls) ∧ Addressed leads ls

theorem Addressed.append (h : Addressed leads ls) (h' : Addressed leads ms) :
    Addressed leads (ls ++ ms) := by
  induction ls with
  | nil => exact h'
  | cons l ls ih =>
    cases l with
    | text cs => exact ih h
    | tag t =>
      refine ⟨fun hc hn ha => ?_, ih h.2⟩
      obtain ⟨url, c, rest, hl, rfl, hclosing⟩ := h.1 hc hn ha
      exact ⟨url, c, rest ++ ms, hl, by simp, hclosing⟩

theorem addressed_flush (leads : String → Prop) (run : List Char) :
    Addressed leads (flush run) := by
  cases run <;> trivial

theorem Marked.addressed (h : Marked leads ls) (run : List Char) :
    Addressed leads (joined run ls) := by
  induction h generalizing run with
  | nil => exact addressed_flush leads run
  | text _ _ ih => exact ih _
  | @element name attr _ _ _ ha _ _ ihbody ih =>
    rw [joined, joined_append_tag]
    refine (addressed_flush leads run).append ⟨fun _ hn hnone => ?_, ?_⟩
    · obtain ⟨cs, hcs, -⟩ := ha hn
      obtain rfl : attr = none := hnone
      cases hcs
    · exact (ihbody []).append ⟨nofun, ih []⟩
  | @address url ls _ hl _ ih =>
    refine (addressed_flush leads run).append ⟨fun _ _ _ => ?_, ?_⟩
    · exact ⟨url, ⟨true, "url".toList, none⟩, joined [] ls, hl,
        by rw [joined, joined, List.append_nil], rfl⟩
    · rw [joined, joined]
      exact (addressed_flush leads _).append ⟨nofun, ih []⟩

theorem Addressed.of_append (h : Addressed leads (ls ++ ms)) : Addressed leads ms := by
  induction ls with
  | nil => exact h
  | cons l ls ih =>
    cases l with
    | text cs => exact ih h
    | tag t => exact ih h.2

/-- What is balanced before a closing tag does not go beyond another one. -/
theorem eq_nil_of_balanced {body after rest : List Lexeme} {c c' : Tag}
    (h : body ++ tag c :: after = tag c' :: rest) (hc : c'.closing = true)
    (hb : Balanced body) : body = [] := by
  cases body with
  | nil => rfl
  | cons l body =>
    cases h
    simp [Balanced, nest, hc] at hb

/-- What a tag encloses in front of which nothing else is closed. -/
theorem eq_flush_of_balanced {run : List Char} {body after rest : List Lexeme} {c c' : Tag}
    (h : body ++ tag c :: after = flush run ++ tag c' :: rest) (hc : c'.closing = true)
    (hb : Balanced body) : body = flush run := by
  cases run with
  | nil => exact eq_nil_of_balanced h hc hb
  | cons d run =>
    cases body with
    | nil => cases h
    | cons l body =>
      obtain ⟨rfl, hrest⟩ := List.cons.inj h
      rw [eq_nil_of_balanced hrest hc hb]
      rfl

/-! ## Well nested lexemes -/

/-- Every tag is closed by one of its name without attribute, and what is written as an
    address, in the tag of a link or between two of them, satisfies `leads`. -/
structure WellNested (leads : String → Prop) (ls : List Lexeme) : Prop where
  balanced : Balanced ls
  closing : ∀ t ∈ tags ls, t.closing = true → t.writtenAttr = none
  linked : ∀ t ∈ tags ls, t.closing = false → t.name = "url" →
    ∀ cs ∈ t.writtenAttr, leads (.ofList cs)
  bare : ∀ e ∈ elements ls, e.1.name = "url" → e.1.writtenAttr = none →
    leads (.ofList (e.2.flatMap chars))

/-- **Lexemes that are put together so are well nested in the text that they make.** -/
theorem Marked.wellNested (h : Marked leads ls) : WellNested leads (scan (ls.flatMap chars)) := by
  rw [scan, scanFrom_flatMap h.written]
  refine ⟨?_, fun t ht => ?_, fun t ht => ?_, ?_⟩
  · rw [Balanced, foldlM_nest_joined, h.foldlM_nest]
  · rw [tags_joined] at ht
    exact (h.tag_of_mem (mem_tags.1 ht)).1
  · rw [tags_joined] at ht
    exact (h.tag_of_mem (mem_tags.1 ht)).2
  · rintro ⟨o, body⟩ he hn hnone
    obtain ⟨before, c, after, hls, ho, -, -, hb⟩ := mem_elements.1 he
    have haddressed := h.addressed []
    rw [hls] at haddressed
    obtain ⟨url, c', rest, hl, hrest, hc'⟩ := haddressed.of_append.1 ho hn hnone
    rw [eq_flush_of_balanced hrest hc' hb, flatMap_flush, List.reverse_reverse, String.ofList_toList]
    exact hl

end Lexeme

/-! ## Texts -/

/-- A text is made of lexemes that are put together so. -/
def Marks (leads : String → Prop) (s : String) : Prop :=
  ∃ ls, Lexeme.Marked leads ls ∧ s.toList = ls.flatMap Lexeme.chars

namespace Marks

open Lexeme

variable {leads : String → Prop} {s t content label url : String}

/-- **The lexemes of such a text are well nested.** -/
theorem wellNested (h : Marks leads s) : WellNested leads (scan s.toList) := by
  obtain ⟨ls, hls, hs⟩ := h
  rw [hs]
  exact hls.wellNested

theorem of_unbracketed (h : Unbracketed s) : Marks leads s :=
  ⟨[.text s.toList], .text h .nil, by simp [chars]⟩

theorem append (hs : Marks leads s) (ht : Marks leads t) : Marks leads (s ++ t) := by
  obtain ⟨ls, hls, hs⟩ := hs
  obtain ⟨ms, hms, ht⟩ := ht
  exact ⟨ls ++ ms, hls.append hms, by rw [String.toList_append, hs, ht, List.flatMap_append]⟩

/-- Content between the two tags of an element that is no link. -/
theorem element (name : String) (hw : Tag.Written ⟨false, name.toList, none⟩)
    (hname : Text.lower name ≠ "url") (h : Marks leads content) :
    Marks leads ("[" ++ name ++ "]" ++ content ++ ("[/" ++ name ++ "]")) := by
  obtain ⟨ls, hls, hs⟩ := h
  refine ⟨_, .element hw (fun hn => absurd hn hname) hls .nil, ?_⟩
  simp [hs, chars, Tag.chars]

theorem format (kind : FormatKind) (h : Marks leads content) :
    Marks leads (Dialect.bbcode.format kind content) := by
  cases hb : Text.isBlank content with
  | true => rwa [Dialect.format, hb, if_pos rfl]
  | false =>
    rw [Dialect.format_bbcode kind hb]
    refine element kind.tagName ?_ ?_ h
    · cases kind <;> decide
    · cases kind <;> decide +kernel

/-- A link, with its address in a tag or between two of them. -/
theorem link (hurl : Unbracketed url) (hl : leads url) (h : Marks leads label) :
    Marks leads (Dialect.bbcode.link url label) := by
  cases hb : Text.isBlank label with
  | true =>
    refine ⟨_, .address hurl hl .nil, ?_⟩
    simp [Dialect.bbcode, hb, chars, Tag.chars]
  | false =>
    obtain ⟨ls, hls, hs⟩ := h
    have hname : Tag.Written ⟨false, "url".toList, none⟩ := by decide
    have hw : Tag.Written ⟨false, "url".toList, some url.toList⟩ :=
      ⟨hname.name_start, hname.name_ne_nil, hname.name, by rintro _ ⟨⟩; exact hurl⟩
    refine ⟨_, .element hw (fun _ => ⟨url.toList, rfl, by rwa [String.ofList_toList]⟩) hls .nil, ?_⟩
    rw [Dialect.link_bbcode hb]
    simp [hs, chars, Tag.chars]

end Marks

end Crosspost
