/-
  Switches without a wrapper.

  A switch tag in the place of a node makes a user switch, as it does between `[user]` and
  `[/user]`.

  * `Grammar.chain_of_wrapped`: what stands between these tags is a chain;
  * `Document.parse_shorthand`: **a chain makes the same switch without the tags around it,
    unless its first tag has a meaning of its own in the place of a node**;
  * `Document.not_parse_shorthand`: a registry may give a site such a name.
-/
import Crosspost.Proofs.Description.Unplaced
import Crosspost.Proofs.Description.Verbatim

namespace Crosspost

open Grammar

/-! ## Text and formatting -/

namespace Node

variable {f : Position → Position}

/-- Text and formatting have no positions. -/
theorem moveAll_of_onlyMarkup {ns : List Node} (h : OnlyMarkup ns) : moveAll f ns = ns := by
  induction ns using list_induction with
  | nil => rfl
  | cons n ns ihparts ih =>
    have hrest : OnlyMarkup ns := by
      intro l hl m hm
      cases hl with
      | whole => exact h _ .whole m (List.mem_cons_of_mem _ hm)
      | inside hn hp hl => exact h _ (.inside (List.mem_cons_of_mem _ hn) hp hl) m hm
    have hnode := h _ .whole n List.mem_cons_self
    rw [moveAll, ih hrest]
    cases n with
    | text value => rfl
    | format kind children =>
      have hchildren : OnlyMarkup children := fun l hl =>
        h l (.inside List.mem_cons_self (List.mem_singleton_self _) hl)
      rw [move, ihparts children (List.mem_singleton_self _) hchildren]
    | _ => cases hnode

theorem moveChain_of_sound {R : Registry} {kind : SwitchKind} {bs : Chain String (List Node)}
    (h : SoundChain R kind bs) : moveChain f bs = bs := by
  rw [moveChain_eq_map]
  refine (List.map_congr_left fun b hb => ?_).trans (List.map_id bs)
  obtain ⟨site, attr, display⟩ := b
  cases display with
  | none => rfl
  | some ns => rw [moveBinding, moveOption, moveAll_of_onlyMarkup (h.display _ hb ns rfl).1]; rfl

/-- A switch without positions, of which the chain has none. -/
theorem eq_of_unplaced {R : Registry} {kind : SwitchKind} {ns : List Node}
    {bs : Chain String (List Node)} {p : Position} (hsound : ∀ n ∈ ns, n.Sound R)
    (h : unplaced ns = [.switch kind bs p]) : ∃ q, ns = [.switch kind bs q] := by
  cases ns with
  | nil => cases h
  | cons n ns =>
    obtain ⟨hn, hrest⟩ := List.cons.inj h
    cases ns with
    | cons m ns => cases hrest
    | nil =>
      cases n with
      | switch kind' bs' q =>
        have hbs : moveChain (fun _ => Position.nowhere) bs' = bs' :=
          moveChain_of_sound (hsound _ List.mem_cons_self)
        rw [move, hbs] at hn
        cases hn
        exact ⟨q, rfl⟩
      | _ => cases hn

end Node

/-! ## Wrappers -/

namespace Grammar

variable {R : Registry} {bs : Chain String (List Node)} {p : Position} {o u : OpenTag}
  {body ts : List Token} {c : Token}

/-- A list of one node is spelled as that node. -/
theorem derives_singleton {mode : Mode} {n : Node} (h : Derives R (.nodes mode [n]) ts) :
    Derives R (.node mode n) ts := by
  cases h with
  | cons hn hrest =>
    cases hrest with
    | nil => rwa [List.append_nil]

/-- Between the tags of a user switch stands its chain. -/
theorem chain_of_wrapped (hu : Opens u "user")
    (h : Derives R (.node .block (.switch .user bs p)) (u.token :: ts)) :
    u.tag.attr = none ∧ ∃ body c, ts = body ++ [c] ∧ Derives R (.chain .user [] bs) body := by
  generalize hts : u.token :: ts = us at h
  cases h with
  | wrapper ho ha hchain hc =>
    obtain ⟨hou, hts⟩ := List.cons.inj hts
    exact ⟨token_inj.1 hou ▸ ha, _, _, hts, hchain⟩
  | switch hfree =>
    obtain ⟨hou, -⟩ := List.cons.inj hts
    have hname : u.tag.name ∉ reserved := token_inj.1 hou ▸ hfree
    exact absurd (hu.2 ▸ by decide) hname

/-- A switch that starts with another tag is a chain that starts with this tag. -/
theorem free_or_wrapped (h : Derives R (.node .block (.switch .user bs p)) (o.token :: ts)) :
    o.tag.name ∉ reserved ∨ Opens o "user" := by
  generalize hts : o.token :: ts = us at h
  cases h with
  | wrapper ho =>
    obtain ⟨hou, -⟩ := List.cons.inj hts
    exact .inr (token_inj.1 hou ▸ ho)
  | switch hfree =>
    obtain ⟨hou, -⟩ := List.cons.inj hts
    exact .inl (token_inj.1 hou ▸ hfree)

/-- A tag without attribute has no switch tag directly inside it in a chain. -/
theorem not_chain_of_attr_eq_none {i : OpenTag} {site : BindingSite} (ha : o.tag.attr = none)
    (hi : OpensSwitch R i site) {outer : Chain String (List Node)} {kind : SwitchKind} :
    ¬ Derives R (.chain kind outer bs) (o.token :: i.token :: ts) := by
  intro h
  generalize hts : o.token :: i.token :: ts = us at h
  cases h with
  | leaf _ hhead _ hc =>
    obtain ⟨-, hts⟩ := List.cons.inj hts
    obtain ⟨hbody, -⟩ | ⟨body, rfl, -⟩ := List.append_eq_cons_iff.1 hts.symm
    · rw [hbody, List.nil_append, List.cons.injEq] at hts
      exact Reading.not_opensSwitch_of_closes hc hts.1.symm hi
    · exact hhead i site rfl hi
  | nested _ hv =>
    obtain ⟨hou, -⟩ := List.cons.inj hts
    rw [← token_inj.1 hou, Tag.value?, ha] at hv
    cases hv

end Grammar

/-! ## Sources -/

namespace Document

variable {R : Registry} {bs : Chain String (List Node)} {p : Position} {t : Tag} {rest : String}

/-- The tree of a source that makes one switch. -/
theorem tree?_of_parse_switch {source : String} {kind : SwitchKind}
    (h : parse R source = .ok [.switch kind bs p]) :
    tree? R source = some [.switch kind bs .nowhere] := by
  have hsound : (Node.switch kind bs p).Sound R := (parse_sound h _ .whole).2 _ List.mem_cons_self
  have hchain : Node.moveChain (fun _ => .nowhere) bs = bs := Node.moveChain_of_sound hsound
  rw [tree?, h]
  simp [Except.toOption, Node.unplaced, Node.moveAll, Node.move, hchain]

theorem scan_raw_append (ht : t.Written) (rest : String) :
    Lexeme.scan (t.raw ++ rest).toList = .tag t :: Lexeme.scan rest.toList := by
  rw [String.toList_append, Tag.raw, String.toList_ofList]
  exact Lexeme.scan_append_tag ht [] _

theorem scan_wrapped (source : String) :
    Lexeme.scan ("[user]" ++ source ++ "[/user]").toList =
      .tag ⟨false, "user".toList, none⟩ :: (Lexeme.scan source.toList ++
        [.tag ⟨true, "user".toList, none⟩]) := by
  have hclose : Lexeme.scan (source.toList ++ "[/user]".toList) =
      Lexeme.scan source.toList ++ [.tag ⟨true, "user".toList, none⟩] :=
    Lexeme.scan_append_tag (t := ⟨true, "user".toList, none⟩) (by decide) source.toList []
  rw [String.append_assoc, String.toList_append, String.toList_append, ← hclose]
  exact Lexeme.scan_append_tag (t := ⟨false, "user".toList, none⟩) (by decide) [] _

/-- **A chain between `[user]` and `[/user]` makes the same switch without these tags, if its
    first tag has no meaning of its own in the place of a node**; else it makes none. -/
theorem parse_shorthand (ht : t.Written)
    (h : parse R ("[user]" ++ (t.raw ++ rest) ++ "[/user]") = .ok [.switch .user bs p]) :
    (t.name ∉ reserved → ∃ q, parse R (t.raw ++ rest) = .ok [.switch .user bs q]) ∧
      (t.name ∈ reserved → ∀ others q, parse R (t.raw ++ rest) ≠ .ok [.switch .user others q]) := by
  let o : OpenTag := ⟨t, .nowhere⟩
  let u : OpenTag := ⟨⟨false, "user".toList, none⟩, .nowhere⟩
  have hstart := scan_raw_append ht rest
  have htree := tree?_of_parse_switch h
  rw [tree?_eq_some_iff, scan_wrapped, hstart, List.map_cons, List.map_append] at htree
  obtain ⟨-, body, c, hbody, hchain⟩ :=
    chain_of_wrapped (u := u) ⟨rfl, by decide⟩ (derives_singleton htree)
  obtain ⟨rfl, -⟩ := List.append_inj' hbody rfl
  constructor
  · intro hfree
    have hlist := Derives.cons (.switch (o := o) hfree hchain) (.nil (R := R))
    rw [List.append_nil] at hlist
    have hbare : tree? R (t.raw ++ rest) = some [.switch .user bs .nowhere] := by
      rw [tree?_eq_some_iff, hstart]
      exact hlist
    obtain ⟨ns, hok, hns⟩ := exists_parse_of_tree? hbare
    obtain ⟨q, rfl⟩ := Node.eq_of_unplaced (parse_sound hok _ .whole).2 hns
    exact ⟨q, hok⟩
  · intro hreserved others q hother
    have hother := tree?_of_parse_switch hother
    rw [tree?_eq_some_iff, hstart] at hother
    have hnode := derives_singleton hother
    obtain hfree | huser := free_or_wrapped (o := o) hnode
    · exact hfree hreserved
    · obtain ⟨ha, body, c', hrest, hinner⟩ := chain_of_wrapped (u := o) huser hnode
      obtain ⟨i, site, more, rfl, hi⟩ := hinner.chain_start
      rw [List.map_cons, hrest, List.cons_append] at hchain
      exact not_chain_of_attr_eq_none (o := o) ha hi hchain

theorem parse_shorthand_nested :
    let t : Tag := ⟨false, "FA".toList, some "Some One".toList⟩
    t.Written ∧ t.name ∉ reserved ∧
      ∃ q, parse .builtin (t.raw ++ "[sf=Else][/sf][/fa]") =
        .ok [.switch .user [⟨.site "furaffinity", "Some One", none⟩,
          ⟨.site "sofurry", "Else", none⟩] q] := by
  intro t
  have ht : t.Written := by decide +kernel
  have hfree : t.name ∉ reserved := by decide +kernel
  have hraw : t.raw ++ "[sf=Else][/sf][/fa]" = "[FA=Some One][sf=Else][/sf][/fa]" := by
    decide +kernel
  have hwrapped : parse .builtin ("[user]" ++ "[FA=Some One][sf=Else][/sf][/fa]" ++ "[/user]") =
      .ok [.switch .user [⟨.site "furaffinity", "Some One", none⟩,
        ⟨.site "sofurry", "Else", none⟩] ⟨0, 1, 1⟩] := by rfl
  rw [← hraw] at hwrapped
  exact ⟨ht, hfree, (parse_shorthand ht hwrapped).1 hfree⟩

/-- A registry may give a site the name of a tag that formats text. -/
theorem not_parse_shorthand :
    ¬ ∀ (R : Registry) (t : Tag) (rest : String) (bs : Chain String (List Node)) (p : Position),
      t.Written → (R.resolve? t.name).isSome = true →
      parse R ("[user]" ++ (t.raw ++ rest) ++ "[/user]") = .ok [.switch .user bs p] →
      ∃ q, parse R (t.raw ++ rest) = .ok [.switch .user bs q] := by
  intro h
  let R : Registry := ⟨[{ Site.weasyl with aliases := ["b"] }], by decide +kernel⟩
  let t : Tag := ⟨false, "b".toList, some "x".toList⟩
  have hraw : t.raw ++ "[/b]" = "[b=x][/b]" := by decide +kernel
  have hwrapped : parse R ("[user]" ++ "[b=x][/b]" ++ "[/user]") =
      .ok [.switch .user [⟨.site "weasyl", "x", none⟩] ⟨0, 1, 1⟩] := by rfl
  have hbare : parse R "[b=x][/b]" = .error ⟨.needlessAttr "b", ⟨0, 1, 1⟩⟩ := by rfl
  rw [← hraw] at hwrapped hbare
  obtain ⟨q, hq⟩ := h R t "[/b]" _ _ (by decide) (by decide +kernel) hwrapped
  exact absurd (hbare.symm.trans hq) nofun

end Document

end Crosspost
