/-
  The shape of the trees of descriptions.

  * `Node.Part l ns`: the list `l` is `ns`, or stands inside one of its nodes at
    some depth, as children, as the text of a binding or as a branch;
  * `Node.Sound` is what holds of every node, `Node.SoundChain` of every chain
    and `Node.Separate` of every list;
  * `Node.SoundList mode ns`: the lists in `ns` are separate and their nodes sound
    and, in text and formatting, nothing else than that;
  * `Document.parse_sound`: **every list of nodes at any depth in the tree of a
    source is separate, and every node in it is sound**.
-/
import Crosspost.Proofs.Description.Conditions
import Crosspost.Proofs.Description.Lexing
import Crosspost.Proofs.Description.Parsing
import Crosspost.Proofs.Text.Trimming

namespace Crosspost

open Grammar

namespace Node

/-! ## Lists inside nodes -/

/-- The lists of nodes directly inside a node. -/
def parts : Node → List (List Node)
  | text _ | self _ => []
  | format _ ns | link _ ns => [ns]
  | switch _ chain _ => chain.filterMap (·.display)
  | conditional _ yes no => yes :: no.toList

/-- The list `l` is `ns`, or stands inside one of its nodes at some depth. -/
inductive Part (l : List Node) : List Node → Prop
  | whole : Part l l
  | inside {n : Node} {ns part : List Node} : n ∈ ns → part ∈ n.parts → Part l part → Part l ns

/-- Whether a node is text. -/
def isText : Node → Bool
  | text _ => true
  | _ => false

/-- Whether a node is text or formatting. -/
def isMarkup : Node → Bool
  | text _ | format _ _ => true
  | _ => false

/-- Nothing but text and formatting, at every depth. -/
def OnlyMarkup (ns : List Node) : Prop := ∀ l, Part l ns → ∀ n ∈ l, n.isMarkup = true

/-- No text is empty, and no two texts are next to each other. -/
structure Separate (ns : List Node) : Prop where
  nonempty : text "" ∉ ns
  apart : ns.IsChain fun a b => ¬ (a.isText = true ∧ b.isText = true)

/-! ## What holds of nodes -/

/-- The bindings of a chain of some kind. -/
structure SoundChain (R : Registry) (kind : SwitchKind) (chain : Chain String (List Node)) :
    Prop where
  nonempty : chain ≠ []
  distinct : (chain.map (·.site)).Nodup
  attr : ∀ b ∈ chain, Text.Trimmed b.attr
  /-- Only the last binding has a text. -/
  silent : ∀ b ∈ chain.dropLast, b.display = none
  /-- A site is registered and, in a user chain, has nothing against the name. -/
  site : ∀ b ∈ chain, ∀ id, b.site = .site id →
    ∃ s, R.get? id = some s ∧ (kind = .user → s.checkUsername b.attr = none)
  display : ∀ b ∈ chain, ∀ ns ∈ b.display,
    OnlyMarkup ns ∧ Text.isBlank (plainText ns) = false

/-- What holds of a node itself, beside the lists inside it. -/
def Sound (R : Registry) : Node → Prop
  | text _ | format _ _ | self _ => True
  | link url ns => Text.Trimmed url ∧ OnlyMarkup ns
  | switch kind chain _ => SoundChain R kind chain
  | conditional condition _ _ => condition.Sound R

/-- The lists in `ns` are separate and their nodes sound; in text and formatting
    there is nothing else than that. -/
def SoundList (R : Registry) (mode : Mode) (ns : List Node) : Prop :=
  ∀ l, Part l ns → Separate l ∧ ∀ n ∈ l, n.Sound R ∧ (mode = .inline → n.isMarkup = true)

/-- A node that may stand in a sound list. -/
structure SoundNode (R : Registry) (mode : Mode) (n : Node) : Prop where
  sound : n.Sound R
  markup : mode = .inline → n.isMarkup = true
  parts : ∀ part ∈ n.parts, SoundList R mode part

theorem soundList_iff {R : Registry} {mode : Mode} {ns : List Node} :
    SoundList R mode ns ↔ Separate ns ∧ ∀ n ∈ ns, SoundNode R mode n := by
  constructor
  · intro h
    refine ⟨(h ns .whole).1, fun n hn => ⟨((h ns .whole).2 n hn).1, ((h ns .whole).2 n hn).2, ?_⟩⟩
    exact fun part hp l hl => h l (.inside hn hp hl)
  · rintro ⟨hs, hn⟩ l hl
    cases hl with
    | whole => exact ⟨hs, fun n h => ⟨(hn n h).sound, (hn n h).markup⟩⟩
    | inside hm hp hl => exact (hn _ hm).parts _ hp l hl

theorem SoundList.onlyMarkup {R : Registry} {ns : List Node} (h : SoundList R .inline ns) :
    OnlyMarkup ns :=
  fun l hl n hn => ((h l hl).2 n hn).2 rfl

/-- What is sound as text and formatting is sound anywhere. -/
theorem SoundList.mono {R : Registry} {ns : List Node} (mode : Mode)
    (h : SoundList R .inline ns) : SoundList R mode ns :=
  fun l hl => ⟨(h l hl).1, fun n hn => ⟨((h l hl).2 n hn).1, fun _ => ((h l hl).2 n hn).2 rfl⟩⟩

theorem separate_nil : Separate [] := ⟨by simp, .nil⟩

theorem soundList_nil {R : Registry} {mode : Mode} : SoundList R mode [] :=
  soundList_iff.2 ⟨separate_nil, by simp⟩

/-! ## Trimming a list -/

theorem isBlank_plainText (ns : List Node) :
    Text.isBlank (plainText ns) = ns.all fun n => Text.isBlank n.plain := by
  induction ns with
  | nil => rfl
  | cons n ns ih => rw [plainText, Text.isBlank_append, ih, List.all_cons]

/-- A node as it is, or a text with some white space taken from it. -/
def Trims (n m : Node) : Prop :=
  m = n ∨ ∃ s t, n = text s ∧ m = text t ∧ Text.isBlank t = Text.isBlank s

theorem trims_mapText {f : String → String} (hf : ∀ s, Text.isBlank (f s) = Text.isBlank s)
    (n : Node) : Trims n (n.mapText f) := by
  cases n with
  | text s => exact .inr ⟨s, f s, rfl, rfl, hf s⟩
  | _ => exact .inl rfl

theorem Trims.isText_eq {n m : Node} (h : Trims n m) : m.isText = n.isText := by
  obtain rfl | ⟨_, _, rfl, rfl, -⟩ := h <;> rfl

theorem Trims.isBlank_eq {n m : Node} (h : Trims n m) :
    Text.isBlank m.plain = Text.isBlank n.plain := by
  obtain rfl | ⟨_, _, rfl, rfl, h⟩ := h
  · rfl
  · exact h

/-- Trimming changes the first and the last node and then leaves out empty
    texts. -/
theorem trimEnds_eq_filter (ns : List Node) :
    ∃ l, trimEnds ns = l.filter (!·.isEmptyText) ∧ List.Forall₂ Trims ns l ∧
      l.tail.dropLast = ns.tail.dropLast := by
  cases ns with
  | nil => exact ⟨[], rfl, .nil, rfl⟩
  | cons n ns =>
    obtain rfl | ⟨mid, m, rfl⟩ := List.eq_nil_or_concat ns
    · refine ⟨[(n.mapText Text.trimStart).mapText Text.trimEnd], by simp [trimEnds], ?_, rfl⟩
      refine .cons ?_ .nil
      cases n with
      | text s => exact .inr ⟨s, _, rfl, rfl, by simp⟩
      | _ => exact .inl rfl
    · rw [List.concat_eq_append]
      refine ⟨n.mapText Text.trimStart :: (mid ++ [m.mapText Text.trimEnd]), by simp [trimEnds],
        .cons (trims_mapText Text.isBlank_trimStart n) ?_, by simp⟩
      exact List.rel_append (List.forall₂_same.2 fun _ _ => .inl rfl)
        (.cons (trims_mapText Text.isBlank_trimEnd m) .nil)

/-- What leaves out at most the ends of a list leaves a part of it. -/
theorem filter_part {α : Type} {p : α → Bool} {l : List α}
    (h : ∀ a ∈ l.tail.dropLast, p a = true) : l.filter p <:+: l := by
  cases l with
  | nil => exact List.infix_rfl
  | cons a l =>
    obtain rfl | ⟨mid, b, rfl⟩ := List.eq_nil_or_concat l
    · cases ha : p a <;> simp [ha]
    · rw [List.concat_eq_append] at h ⊢
      have hmid : mid.filter p = mid := List.filter_eq_self.2 (by simpa using h)
      have hf : (a :: (mid ++ [b])).filter p = [a].filter p ++ (mid ++ [b].filter p) := by
        rw [← List.singleton_append, List.filter_append, List.filter_append, hmid]
      rw [hf]
      have ha : [a].filter p <:+ [a] := by cases h : p a <;> simp [h]
      have hb : [b].filter p <+: [b] := by cases h : p b <;> simp [h]
      obtain ⟨as, has⟩ := ha
      obtain ⟨bs, hbs⟩ := hb
      refine ⟨as, bs, ?_⟩
      rw [← List.append_assoc, ← List.append_assoc, has, List.append_assoc, List.append_assoc, hbs]
      rfl

theorem isEmptyText_iff {n : Node} : n.isEmptyText = true ↔ n = text "" := by
  cases n <;> simp [isEmptyText]

theorem separate_trimEnds {ns : List Node} (h : Separate ns) : Separate (trimEnds ns) := by
  obtain ⟨l, htrim, hl, hmid⟩ := trimEnds_eq_filter ns
  have hmap : l.map isText = ns.map isText := by
    clear h htrim hmid
    induction hl with
    | nil => rfl
    | cons hn _ ih => rw [List.map_cons, List.map_cons, hn.isText_eq, ih]
  -- which nodes are texts stays as it is, and so does what stands next to each other
  have hapart : l.IsChain fun a b => ¬ (a.isText = true ∧ b.isText = true) := by
    have hns := h.apart
    rw [← List.isChain_map (R := fun a b : Bool => ¬ (a = true ∧ b = true))] at hns ⊢
    rwa [hmap]
  rw [htrim]
  refine ⟨by simp [isEmptyText], List.IsChain.infix hapart (filter_part fun n hn => ?_)⟩
  -- between the ends nothing is changed, and there no text was empty
  rw [hmid] at hn
  have hns : n ∈ ns := List.mem_of_mem_tail (List.dropLast_subset _ hn)
  rw [Bool.not_eq_true', Bool.eq_false_iff, ne_eq, isEmptyText_iff]
  rintro rfl
  exact h.nonempty hns

theorem isBlank_plainText_trimEnds (ns : List Node) :
    Text.isBlank (plainText (trimEnds ns)) = Text.isBlank (plainText ns) := by
  obtain ⟨l, htrim, hl, -⟩ := trimEnds_eq_filter ns
  rw [htrim, isBlank_plainText, isBlank_plainText]
  clear htrim
  induction hl with
  | nil => rfl
  | @cons n m ns l hn _ ih =>
    rw [List.all_cons, ← ih, ← hn.isBlank_eq, List.filter_cons]
    cases he : m.isEmptyText with
    | false => rfl
    | true =>
      rw [isEmptyText_iff.1 he]
      rfl

theorem mem_trimEnds {ns : List Node} {n : Node} (h : n ∈ trimEnds ns) :
    n ∈ ns ∨ ∃ t, n = text t := by
  obtain ⟨l, htrim, hl, -⟩ := trimEnds_eq_filter ns
  rw [htrim] at h
  replace h := (List.mem_filter.1 h).1
  clear htrim
  induction hl with
  | nil => exact .inl h
  | cons hn _ ih =>
    obtain rfl | h := List.mem_cons.1 h
    · obtain rfl | ⟨_, t, -, rfl, -⟩ := hn
      · exact .inl List.mem_cons_self
      · exact .inr ⟨t, rfl⟩
    · exact (ih h).imp_left (List.mem_cons_of_mem _)

theorem soundNode_text {R : Registry} {mode : Mode} (t : String) : SoundNode R mode (text t) :=
  ⟨trivial, fun _ => rfl, by simp [Node.parts]⟩

theorem soundList_trimEnds {R : Registry} {mode : Mode} {ns : List Node}
    (h : SoundList R mode ns) : SoundList R mode (trimEnds ns) := by
  obtain ⟨hs, hn⟩ := soundList_iff.1 h
  refine soundList_iff.2 ⟨separate_trimEnds hs, fun n hm => ?_⟩
  obtain hm | ⟨t, rfl⟩ := mem_trimEnds hm
  · exact hn n hm
  · exact soundNode_text t

/-! ## Attributes -/

theorem trimmed_of_value? {t : Tag} {s : String} (h : t.value? = some s) : Text.Trimmed s := by
  obtain ⟨ha, hne⟩ := Option.filter_eq_some_iff.1 h
  obtain ⟨cs, -, rfl⟩ := Option.map_eq_some_iff.1 ha
  have htrim : String.ofList (Chars.trim cs) = Text.trim (.ofList cs) := by simp [Text.trim]
  rw [htrim] at hne ⊢
  exact Text.trimmed_trim (by simpa using hne)

/-! ## Chains -/

/-- The rest of a chain inside the bindings `outer`. -/
structure SoundTail (R : Registry) (kind : SwitchKind) (outer bs : Chain String (List Node)) :
    Prop where
  chain : SoundChain R kind bs
  fresh : ∀ b ∈ bs, ∀ a ∈ outer, a.site ≠ b.site
  lists : ∀ b ∈ bs, ∀ ns ∈ b.display, SoundList R .inline ns

theorem site_of_admits {R : Registry} {kind : SwitchKind} {outer : Chain String (List Node)}
    {o : OpenTag} {site : BindingSite} {attr : String} (ho : OpensSwitch R o site)
    (ha : Admits R kind outer site attr) (id : String) (hid : site = .site id) :
    ∃ s, R.get? id = some s ∧ (kind = .user → s.checkUsername attr = none) := by
  obtain ⟨s, hs⟩ := Registry.get?_of_bindingSite? (hid ▸ ho.2)
  exact ⟨s, hs, fun hk => ha.2 hk id hid s hs⟩

theorem Leaf.site_eq {o : OpenTag} {site : BindingSite} {ns : List Node}
    {b : Binding String (List Node)} (h : Leaf o site ns b) : b.site = site := by
  cases h <;> rfl

theorem soundTail_leaf {R : Registry} {kind : SwitchKind} {outer : Chain String (List Node)}
    {o : OpenTag} {site : BindingSite} {ns : List Node} {b : Binding String (List Node)}
    (ho : OpensSwitch R o site) (hns : SoundList R .inline ns) (hl : Leaf o site ns b)
    (ha : Admits R kind outer site b.attr) : SoundTail R kind outer [b] := by
  have hb : b.site = site := Leaf.site_eq hl
  have hattr : Text.Trimmed b.attr := by
    cases hl with
    | bare hv _ => exact trimmed_of_value? hv
    | shown hv _ => exact trimmed_of_value? hv
    | echo _ _ ht => exact Text.trimmed_trim ht
  have hdisplay : ∀ ms ∈ b.display, SoundList R .inline ms ∧ Text.isBlank (plainText ms) = false := by
    cases hl with
    | shown _ ht =>
      rintro _ ⟨⟩
      refine ⟨soundList_trimEnds hns, ?_⟩
      rw [isBlank_plainText_trimEnds, Bool.eq_false_iff]
      exact fun hblank => ht ((Text.trim_eq_empty_iff _).2 hblank)
    | _ => rintro _ ⟨⟩
  constructor
  · constructor
    · simp
    · simp
    · simpa using hattr
    · simp
    · simpa [hb] using site_of_admits ho ha
    · simpa using fun ms hms => ⟨(hdisplay ms hms).1.onlyMarkup, (hdisplay ms hms).2⟩
  · simpa [hb] using ha.1
  · simpa using fun ms hms => (hdisplay ms hms).1

theorem soundTail_nested {R : Registry} {kind : SwitchKind} {outer bs : Chain String (List Node)}
    {o : OpenTag} {site : BindingSite} {attr : String} (ho : OpensSwitch R o site)
    (hv : o.tag.value? = some attr) (ha : Admits R kind outer site attr)
    (h : SoundTail R kind (outer ++ [⟨site, attr, none⟩]) bs) :
    SoundTail R kind outer (⟨site, attr, none⟩ :: bs) := by
  obtain ⟨⟨hne, hdistinct, hattr, hsilent, hsite, hdisplay⟩, hfresh, hlists⟩ := h
  constructor
  · constructor
    · simp
    · rw [List.map_cons, List.nodup_cons]
      refine ⟨fun hm => ?_, hdistinct⟩
      obtain ⟨b, hb, hs⟩ := List.mem_map.1 hm
      exact hfresh b hb ⟨site, attr, none⟩ (by simp) hs.symm
    · exact List.forall_mem_cons.2 ⟨trimmed_of_value? hv, hattr⟩
    · rw [List.dropLast_cons_of_ne_nil hne]
      exact List.forall_mem_cons.2 ⟨rfl, hsilent⟩
    · exact List.forall_mem_cons.2 ⟨site_of_admits ho ha, hsite⟩
    · exact List.forall_mem_cons.2 ⟨by simp, hdisplay⟩
  · exact List.forall_mem_cons.2 ⟨ha.1, fun b hb a ham => hfresh b hb a (by simp [ham])⟩
  · exact List.forall_mem_cons.2 ⟨by simp, hlists⟩

/-! ## Phrases -/

/-- What holds of the tree of a phrase. -/
def SoundPhrase (R : Registry) : Phrase → Prop
  | .node mode n => SoundNode R mode n
  | .nodes mode ns => SoundList R mode ns
  | .chain kind outer bs => SoundTail R kind outer bs

/-- Text comes of a token of its own. -/
theorem text_of_derives {R : Registry} {mode : Mode} {n : Node} {ts : List Token}
    (h : Derives R (.node mode n) ts) (hn : n.isText = true) :
    ∃ cs p, n = text (.ofList cs) ∧ ts = [⟨.text cs, p⟩] := by
  cases h with
  | text => exact ⟨_, _, rfl, rfl⟩
  | _ => exact absurd hn (by simp [isText])

/-- A node in front of a separate list, where the tokens of both are apart. -/
theorem separate_cons {R : Registry} {mode : Mode} {n : Node} {ns : List Node}
    {ts us : List Token} (hn : Derives R (.node mode n) ts) (hns : Derives R (.nodes mode ns) us)
    (ha : Lexeme.Apart ((ts ++ us).map (·.lexeme))) (hs : Separate ns) : Separate (n :: ns) := by
  constructor
  · rw [List.mem_cons, not_or]
    refine ⟨?_, hs.nonempty⟩
    rintro rfl
    obtain ⟨cs, p, he, rfl⟩ := text_of_derives hn rfl
    have hcs : cs = [] := by simpa using he.symm
    exact ha.nonempty (by simp [hcs])
  · cases hns with
    | nil => exact .singleton n
    | @cons _ m ms vs ws hm _ =>
      refine List.isChain_cons_cons.2 ⟨?_, hs.apart⟩
      rintro ⟨hnt, hmt⟩
      -- two texts side by side would come of two such tokens
      obtain ⟨_, _, -, rfl⟩ := text_of_derives hn hnt
      obtain ⟨_, _, -, rfl⟩ := text_of_derives hm hmt
      exact (List.isChain_cons_cons.1 ha.separate).1 ⟨rfl, rfl⟩

/-- Content between two tags is apart as well. -/
theorem apart_body {o c : Token} {body : List Token}
    (h : Lexeme.Apart ((o :: (body ++ [c])).map (·.lexeme))) :
    Lexeme.Apart (body.map (·.lexeme)) :=
  h.part ⟨[o.lexeme], [c.lexeme], by simp⟩

theorem soundPhrase_of_derives {R : Registry} {p : Phrase} {ts : List Token}
    (h : Derives R p ts) (ha : Lexeme.Apart (ts.map (·.lexeme))) : SoundPhrase R p := by
  -- the tokens of the parts of a phrase are apart because those of the whole are
  induction h with
  | text => exact soundNode_text _
  | format _ _ _ _ ih =>
    have hns : SoundList R _ _ := ih (apart_body ha)
    exact ⟨trivial, fun _ => rfl, by simpa [Node.parts] using hns⟩
  | link _ hv _ _ ih =>
    have hns := ih (apart_body ha)
    refine ⟨⟨trimmed_of_value? hv, hns.onlyMarkup⟩, (by rintro ⟨⟩), ?_⟩
    simpa [Node.parts] using hns.mono .block
  | address _ _ _ _ ht _ =>
    have hnil : SoundList R .inline [] := soundList_nil
    refine ⟨⟨Text.trimmed_trim ht, hnil.onlyMarkup⟩, (by rintro ⟨⟩), ?_⟩
    simpa [Node.parts] using hnil.mono .block
  | self => exact ⟨trivial, (by rintro ⟨⟩), by simp [Node.parts]⟩
  | wrapper _ _ _ _ ih =>
    have hbs := ih (apart_body ha)
    refine ⟨hbs.chain, (by rintro ⟨⟩), fun part hp => ?_⟩
    obtain ⟨b, hb, hd⟩ := List.mem_filterMap.1 hp
    exact (hbs.lists b hb part hd).mono .block
  | switch _ _ ih =>
    have hbs := ih ha
    refine ⟨hbs.chain, (by rintro ⟨⟩), fun part hp => ?_⟩
    obtain ⟨b, hb, hd⟩ := List.mem_filterMap.1 hp
    exact (hbs.lists b hb part hd).mono .block
  | whenOnly _ _ hc _ _ ih =>
    have hyes : SoundList R .block _ := ih (apart_body ha)
    refine ⟨Condition.sound_of_parse hc, (by rintro ⟨⟩), ?_⟩
    simpa [Node.parts] using hyes
  | @whenElse o e _ _ _ _ body other c d _ _ hc _ _ _ _ _ _ ih ih' =>
    have hyes := ih (ha.part ⟨[o.token.lexeme], (c :: e.token :: (other ++ [d])).map (·.lexeme),
      by simp⟩)
    have hno := ih' (ha.part ⟨(o.token :: (body ++ [c, e.token])).map (·.lexeme), [d.lexeme],
      by simp⟩)
    refine ⟨Condition.sound_of_parse hc, (by rintro ⟨⟩), ?_⟩
    simpa [Node.parts] using ⟨hyes, hno⟩
  | nil => exact soundList_nil
  | @cons _ _ _ ts us hn hns ih ih' =>
    have hnode := ih (ha.part ⟨[], us.map (·.lexeme), by simp⟩)
    have hlist := ih' (ha.part ⟨ts.map (·.lexeme), [], by simp⟩)
    obtain ⟨hs, hall⟩ := soundList_iff.1 hlist
    exact soundList_iff.2 ⟨separate_cons hn hns ha hs, List.forall_mem_cons.2 ⟨hnode, hall⟩⟩
  | leaf ho _ _ _ hl hb ih => exact soundTail_leaf ho (ih (apart_body ha)) hl hb
  | nested ho hv hb _ _ ih => exact soundTail_nested ho hv hb (ih (apart_body ha))

end Node

namespace Document

open Node

/-- **Every list of nodes in the tree of a source is separate, and every node in
    it is sound**, at whatever depth it stands. -/
theorem parse_sound {R : Registry} {source : String} {ns : List Node}
    (h : parse R source = .ok ns) :
    ∀ l, Part l ns → Separate l ∧ ∀ n ∈ l, n.Sound R := by
  intro l hl
  have hsound : SoundList R .block ns :=
    soundPhrase_of_derives (ofTokens_eq_ok_iff.1 h) (Token.apart_ofSource source)
  exact ⟨(hsound l hl).1, fun n hn => ((hsound l hl).2 n hn).1⟩

theorem parse_sound_switch :
    let source := "[if=site == fa][user][generic=a][fa=b] [i]c[/i] [/fa][/generic][/user][/if]" ++
      "[else][url=d]e[/url][/else]"
    ∃ ns, parse .builtin source = .ok ns ∧
      ∀ l, Part l ns → Separate l ∧ ∀ n ∈ l, n.Sound .builtin := by
  intro source
  have hok : (parse .builtin source).isOk = true := by decide +kernel
  cases h : parse .builtin source with
  | ok ns => exact ⟨ns, rfl, parse_sound h⟩
  | error e =>
    rw [h] at hok
    cases hok

end Document

end Crosspost
