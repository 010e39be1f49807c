/-
  Trees without brackets.

  * `Unbracketed.append`, `Unbracketed.of_subset`, `Unbracketed.lower`: texts that are made of
    texts without brackets have none;
  * `Node.Bare`: the texts and addresses of a node hold no bracket;
  * `Document.every_bare`: **where no text between the tags of a source holds a bracket, none
    is held in its tree**, as the attribute of a tag never holds one.
-/
import Crosspost.Proofs.Description.Parameters
import Crosspost.Proofs.Description.Segmentation
import Crosspost.Proofs.Description.Switches
import Crosspost.Proofs.Text.LowerCase

namespace Crosspost

open Grammar

/-! ## Texts -/

namespace Unbracketed

variable {s t : String}

instance : DecidablePred Unbracketed := fun s =>
  decidable_of_iff (s.toList.all Tag.isAttrChar = true) List.all_eq_true

theorem append (hs : Unbracketed s) (ht : Unbracketed t) : Unbracketed (s ++ t) := by
  intro c hc
  rw [String.toList_append, List.mem_append] at hc
  exact hc.elim (hs c) (ht c)

theorem of_subset (hs : Unbracketed s) (h : t.toList ⊆ s.toList) : Unbracketed t :=
  fun c hc => hs c (h hc)

theorem isAttrChar_of_letter {c : Char} (h : 97 ≤ c.toNat) : Tag.isAttrChar c = true := by
  have hne : ∀ d : Char, d.toNat < 97 → c ≠ d := by
    rintro d hd rfl
    omega
  simp [Tag.isAttrChar, hne '[' (by decide), hne ']' (by decide)]

theorem lower (hs : Unbracketed s) : Unbracketed (Text.lower s) := by
  intro c hc
  rw [Text.toList_lower] at hc
  exact Chars.forall_mem_lower (P := fun c => Tag.isAttrChar c = true)
    (fun _ => isAttrChar_of_letter) hs c hc

end Unbracketed

theorem Unbracketed.trim {s : String} (hs : Unbracketed s) : Unbracketed (Text.trim s) :=
  hs.of_subset (by simpa using Chars.trim_subset s.toList)

/-! ## Trees -/

/-- What is text in a lexeme, or an attribute, holds no bracket. -/
def Lexeme.Bare : Lexeme → Prop
  | text cs => ∀ c ∈ cs, Tag.isAttrChar c = true
  | tag t => ∀ cs ∈ t.writtenAttr, ∀ c ∈ cs, Tag.isAttrChar c = true

instance : DecidablePred Lexeme.Bare
  | .text cs => decidable_of_iff (cs.all Tag.isAttrChar = true) List.all_eq_true
  | .tag t => decidable_of_iff (t.writtenAttr.all (·.all Tag.isAttrChar) = true)
    (by simp [Lexeme.Bare, Option.all_eq_true])

namespace Node

/-- The texts and addresses of a node itself hold no bracket. -/
def Bare : Node → Prop
  | text value => Unbracketed value
  | link url _ => Unbracketed url
  | switch _ chain _ => ∀ b ∈ chain, Unbracketed b.attr
  | _ => True

theorem unbracketed_plainText {ns : List Node} (h : Every Bare ns) :
    Unbracketed (plainText ns) := by
  have hempty : Unbracketed "" := by decide
  induction ns using list_induction with
  | nil => exact hempty
  | cons n ns ihparts ih =>
    obtain ⟨hn, hparts, hns⟩ := every_cons.1 h
    have hpart : ∀ part ∈ n.parts, Unbracketed (plainText part) :=
      fun part hp => ihparts part hp (hparts part hp)
    refine Unbracketed.append ?_ (ih hns)
    cases n with
    | text value => exact hn
    | format _ children => exact hpart children (List.mem_singleton_self _)
    | link _ children => exact hpart children (List.mem_singleton_self _)
    | _ => exact hempty

/-- The nodes of a phrase, at whatever depth, and the attributes of a chain hold no
    bracket. -/
def BarePhrase : Phrase → Prop
  | .chain kind outer bs => EveryOf Bare (.chain kind outer bs) ∧ ∀ b ∈ bs, Unbracketed b.attr
  | p => EveryOf Bare p

theorem unbracketed_of_value? {t : Tag} {s : String} (h : t.value? = some s)
    (ht : (Lexeme.tag t).Bare) : Unbracketed s := by
  obtain ⟨cs, hcs, rfl⟩ := Option.map_eq_some_iff.1 (Option.filter_eq_some_iff.1 h).1
  intro c hc
  rw [String.toList_ofList] at hc
  exact ht cs hcs c (Chars.trim_subset cs hc)

/-- A switch with such a chain. -/
theorem bare_switch {kind : SwitchKind} {bs : Chain String (List Node)} {p : Position}
    (h : BarePhrase (.chain kind [] bs)) : BarePhrase (.node .block (.switch kind bs p)) := by
  refine ⟨h.2, fun part hp => ?_⟩
  obtain ⟨b, hb, hd⟩ := List.mem_filterMap.1 hp
  exact h.1 b hb part hd

theorem unbracketed_textOf {ns : List Node} (h : Every Bare ns) : Unbracketed (textOf ns) :=
  (unbracketed_plainText h).trim

/-- The binding of an innermost tag. -/
theorem bare_leaf {o : OpenTag} {site : BindingSite} {ns : List Node}
    {b : Binding String (List Node)} (hl : Leaf o site ns b) (ho : o.token.lexeme.Bare)
    (h : Every Bare ns) : Unbracketed b.attr ∧ ∀ part ∈ b.display, Every Bare part := by
  refine ⟨?_, EveryOf.display_of_leaf (fun s t hsub hs => hs.of_subset hsub) hl h⟩
  cases hl with
  | bare hv _ => exact unbracketed_of_value? hv ho
  | shown hv _ => exact unbracketed_of_value? hv ho
  | echo _ _ _ => exact unbracketed_textOf h

/-- **A phrase of such lexemes is without brackets.** -/
theorem barePhrase_of_derives {R : Registry} {p : Phrase} {ts : List Token} (h : Derives R p ts)
    (ht : ∀ t ∈ ts, t.lexeme.Bare) : BarePhrase p := by
  have within {o c : Token} {body : List Token} (h : ∀ t ∈ o :: (body ++ [c]), t.lexeme.Bare) :
      ∀ t ∈ body, t.lexeme.Bare := fun t ht => h t (by simp [ht])
  induction h with
  | @text mode cs p =>
    have hcs : Unbracketed (.ofList cs) := by
      intro c hc
      rw [String.toList_ofList] at hc
      exact ht _ List.mem_cons_self c hc
    exact ⟨hcs, nofun⟩
  | format _ _ _ _ ih => exact ⟨trivial, List.forall_mem_singleton.2 (ih (within ht))⟩
  | link _ hv _ _ ih =>
    have hurl := unbracketed_of_value? hv (ht _ List.mem_cons_self)
    exact ⟨hurl, List.forall_mem_singleton.2 (ih (within ht))⟩
  | address _ _ _ _ _ ih =>
    exact ⟨unbracketed_textOf (ih (within ht)), List.forall_mem_singleton.2 every_nil⟩
  | self => exact ⟨trivial, nofun⟩
  | wrapper _ _ _ _ ih => exact bare_switch (ih (within ht))
  | switch _ _ ih => exact bare_switch (ih ht)
  | whenOnly _ _ _ _ _ ih => exact ⟨trivial, List.forall_mem_singleton.2 (ih (within ht))⟩
  | whenElse _ _ _ _ _ _ _ _ _ ih ih' =>
    have hyes := ih fun t hm => ht t (by simp [hm])
    have hno := ih' fun t hm => ht t (by simp [hm])
    exact ⟨trivial, List.forall_mem_cons.2 ⟨hyes, List.forall_mem_singleton.2 hno⟩⟩
  | nil => exact every_nil
  | cons _ _ ih ih' =>
    obtain ⟨hts, hus⟩ := List.forall_mem_append.1 ht
    obtain ⟨hn, hparts⟩ := ih hts
    exact every_cons.2 ⟨hn, hparts, ih' hus⟩
  | leaf _ _ _ _ hl _ ih =>
    obtain ⟨hattr, hdisplay⟩ := bare_leaf hl (ht _ List.mem_cons_self) (ih (within ht))
    exact ⟨List.forall_mem_singleton.2 hdisplay, List.forall_mem_singleton.2 hattr⟩
  | nested _ hv _ _ _ ih =>
    obtain ⟨hdisplay, hattr⟩ := ih (within ht)
    have hvalue := unbracketed_of_value? hv (ht _ List.mem_cons_self)
    exact ⟨List.forall_mem_cons.2 ⟨nofun, hdisplay⟩, List.forall_mem_cons.2 ⟨hvalue, hattr⟩⟩

end Node

namespace Document

/-- **Where no text between the tags of a source holds a bracket, none is held in its tree.** -/
theorem every_bare {R : Registry} {source : String} {ns : List Node}
    (h : parse R source = .ok ns) (htext : ∀ cs, .text cs ∈ Lexeme.scan source.toList →
      ∀ c ∈ cs, Tag.isAttrChar c = true) : Node.Every Node.Bare ns := by
  refine Node.barePhrase_of_derives (ofTokens_eq_ok_iff.1 h) fun t ht => ?_
  have hm : t.lexeme ∈ (Token.ofSource source).map (·.lexeme) := List.mem_map_of_mem ht
  rw [Token.ofSource, Token.map_lexeme_place] at hm
  cases hl : t.lexeme with
  | text cs => exact htext cs (hl ▸ hm)
  | tag tag => exact (Lexeme.written_of_mem_scanFrom (hl ▸ hm)).attr

end Document

end Crosspost
