/-
  Spellings of one description.

  The name of a tag is read in lower case and its attribute without the white space around it.
  Of the name of a switch tag only the site is kept that it stands for.

  * `Grammar.Respells`: some lexemes are spelled in another way, with the names of tags in other
    letters, other white space around attributes and other names for the sites of switches;
  * `Grammar.Respells.scan_flatMap`: such lexemes are found again in the text that they make;
  * `Grammar.keeps_of_derives`: the grammar derives them as the same nodes;
  * `Document.parse_respelled`: **another spelling of a source that is read is read as well, and
    makes the same tree but for positions**.
-/
import Crosspost.Proofs.Description.Unplaced
import Crosspost.Proofs.Description.Verbatim

namespace Crosspost

/-! ## Lexemes on their own -/

namespace Lexeme

/-- Where no tag stands none is found. -/
theorem scanFrom_of_not_infix {cs : List Char} (h : ∀ t : Tag, t.Written → ¬ t.chars <:+: cs)
    (run : List Char) : scanFrom run 0 cs = flush (cs.reverse ++ run) := by
  induction cs using text_induction generalizing run with
  | nil => rfl
  | tag t rest hw _ => exact absurd (List.prefix_append _ _).isInfix (h t hw)
  | char c cs hn ih =>
    rw [scanFrom_char hn, ih fun t hw hi => h t hw (hi.trans (List.suffix_cons c cs).isInfix)]
    simp

theorem scan_tag_iff {t : Tag} : scan t.chars = [tag t] ↔ t.Written := by
  constructor
  · intro h
    have hm : tag t ∈ scan t.chars := h ▸ List.mem_singleton_self _
    exact written_of_mem_scanFrom hm
  · intro ht
    have hscan := scanFrom_tag ht [] []
    rw [List.append_nil] at hscan
    exact hscan

/-- A lexeme of a text is found again on its own. -/
theorem scan_of_mem {cs : List Char} {l : Lexeme} (h : l ∈ scan cs) : scan l.chars = [l] := by
  cases l with
  | tag t => exact scan_tag_iff.2 (written_of_mem_scanFrom h)
  | text x =>
    have hne : x ≠ [] := by
      rintro rfl
      exact (apart_scan cs).nonempty h
    have hscan := scanFrom_of_not_infix (fun _ hw => not_infix_of_mem_scan h hw) []
    rw [List.append_nil, flush_reverse hne] at hscan
    exact hscan

/-- Lexemes that are found on their own and stand apart are found one after another. -/
theorem scan_flatMap_of_alone {ls : List Lexeme} (hl : ∀ l ∈ ls, scan l.chars = [l])
    (ha : Apart ls) : scan (ls.flatMap chars) = ls := by
  induction ls with
  | nil => rfl
  | cons l ls ih =>
    obtain ⟨hhead, hls⟩ := List.forall_mem_cons.1 hl
    have ih := ih hls ha.tail
    rw [List.flatMap_cons]
    cases l with
    | tag t =>
      have happend := scan_append_tag (scan_tag_iff.1 hhead) [] (ls.flatMap chars)
      rw [ih] at happend
      exact happend
    | text x =>
      cases ls with
      | nil => simpa using hhead
      | cons m ls =>
        cases m with
        | text y => exact absurd ⟨rfl, rfl⟩ (List.isChain_cons_cons.1 ha.separate).1
        | tag u =>
          have hu : u.Written := scan_tag_iff.1 (List.forall_mem_cons.1 hls).1
          have htext : scan x = [text x] := hhead
          have hrest : tag u :: scan (ls.flatMap chars) = tag u :: ls :=
            (scan_append_tag hu [] _).symm.trans ih
          rw [List.flatMap_cons, chars, chars, scan_append_tag hu, htext, hrest]
          rfl

end Lexeme

/-! ## Other spellings -/

/-- A tag `u` that is written properly is a tag `t` but for its name and the white space around
    its attribute. -/
structure Tag.Recast (t u : Tag) : Prop where
  written : u.Written
  closing : u.closing = t.closing
  attr : u.attr = t.attr

instance (t u : Tag) : Decidable (t.Recast u) :=
  decidable_of_iff (u.Written ∧ u.closing = t.closing ∧ u.attr = t.attr)
    ⟨fun ⟨hw, hc, ha⟩ => ⟨hw, hc, ha⟩, fun h => ⟨h.written, h.closing, h.attr⟩⟩

theorem Tag.value?_congr {t u : Tag} (h : u.attr = t.attr) : u.value? = t.value? := by
  rw [value?, value?, h]

namespace Grammar

/-- Whether an opening tag with a name is one of a switch: directly behind the opening tag of a
    wrapper or of another switch (`inChain`), or else in the place of a node. -/
def isSwitchName (R : Registry) (inChain : Bool) (name : String) : Bool :=
  (R.bindingSite? name).isSome && (inChain || !reserved.contains name)

/-- Whether such a tag is one of a wrapper or of a switch. -/
def startsChain (R : Registry) (inChain : Bool) (name : String) : Bool :=
  name == SwitchKind.user.name || name == SwitchKind.siteurl.name || isSwitchName R inChain name

/-- The name of an opening tag may be changed into another one: into the same one in other
    letters, or, for a switch, into another alias of its site that has no meaning of its own. As
    the name of a tag `generic` is the alias of no site. -/
inductive Renames (R : Registry) (inChain : Bool) (name : String) : String → Prop
  | same {other : String} : other = name → Renames R inChain name other
  | site {other : String} : isSwitchName R inChain name = true →
      R.bindingSite? other = R.bindingSite? name → other ∉ reserved → Renames R inChain name other

/-- Some lexemes in another spelling, where the tags `names` are open, by their new names: a
    closing tag takes the one of the tag that it closes. -/
inductive Respells (R : Registry) : (inChain : Bool) → (names : List String) →
    List Lexeme → List Lexeme → Prop
  | nil {inChain : Bool} {names : List String} : Respells R inChain names [] []
  | text {inChain : Bool} {names : List String} {cs : List Char} {ls ms : List Lexeme} :
      Respells R false names ls ms → Respells R inChain names (.text cs :: ls) (.text cs :: ms)
  | opening {inChain : Bool} {names : List String} {t u : Tag} {ls ms : List Lexeme} :
      t.closing = false → t.Recast u → Renames R inChain t.name u.name →
      Respells R (startsChain R inChain t.name) (u.name :: names) ls ms →
      Respells R inChain names (.tag t :: ls) (.tag u :: ms)
  | closing {inChain : Bool} {name : String} {names : List String} {t u : Tag}
      {ls ms : List Lexeme} : t.closing = true → t.Recast u → u.name = name →
      Respells R false names ls ms →
      Respells R inChain (name :: names) (.tag t :: ls) (.tag u :: ms)

variable {R : Registry} {inChain : Bool} {name other : String} {names : List String}
  {ls ms : List Lexeme}

/-! ## Names -/

theorem Renames.bindingSite?_eq (h : Renames R inChain name other) :
    R.bindingSite? other = R.bindingSite? name := by
  cases h with
  | same heq => rw [heq]
  | site _ hsite => exact hsite

theorem Renames.free (h : Renames R inChain name other) (hfree : name ∉ reserved) :
    other ∉ reserved := by
  cases h with
  | same heq => exact heq ▸ hfree
  | site _ _ hother => exact hother

theorem isSwitchName_of_free (hfree : name ∉ reserved) :
    isSwitchName R inChain name = isSwitchName R true name := by
  simp [isSwitchName, hfree]

theorem Renames.in_chain (h : Renames R inChain name other) (hfree : name ∉ reserved) :
    Renames R true name other := by
  cases h with
  | same heq => exact .same heq
  | site hswitch hsite hother => exact .site (isSwitchName_of_free hfree ▸ hswitch) hsite hother

/-- A name with a meaning of its own, where it has this meaning. -/
theorem isSwitchName_eq_false (hname : name ∈ reserved)
    (hplace : inChain = true → R.bindingSite? name = none) : isSwitchName R inChain name = false := by
  cases inChain with
  | true => simp [isSwitchName, hplace rfl]
  | false => simp [isSwitchName, hname]

/-- Such a name stays. -/
theorem Renames.eq (h : Renames R inChain name other) (hname : name ∈ reserved)
    (hplace : inChain = true → R.bindingSite? name = none) : other = name := by
  cases h with
  | same heq => exact heq
  | site hswitch => exact absurd hswitch (by simp [isSwitchName_eq_false hname hplace])

theorem startsChain_of_opensSwitch {o : OpenTag} {site : BindingSite} (hplace : inChain = true)
    (ho : OpensSwitch R o site) : startsChain R inChain o.tag.name = true := by
  simp [startsChain, isSwitchName, ho.2, hplace]

/-! ## Texts in another spelling -/

namespace Respells

theorem alone (h : Respells R inChain names ls ms) (hl : ∀ l ∈ ls, Lexeme.scan l.chars = [l]) :
    ∀ m ∈ ms, Lexeme.scan m.chars = [m] := by
  induction h with
  | nil => nofun
  | text _ ih =>
    obtain ⟨htext, hls⟩ := List.forall_mem_cons.1 hl
    exact List.forall_mem_cons.2 ⟨htext, ih hls⟩
  | opening _ hu _ _ ih | closing _ hu _ _ ih =>
    exact List.forall_mem_cons.2
      ⟨Lexeme.scan_tag_iff.2 hu.written, ih (List.forall_mem_cons.1 hl).2⟩

theorem map_isText (h : Respells R inChain names ls ms) :
    ms.map (·.isText) = ls.map (·.isText) := by
  induction h with
  | nil => rfl
  | text _ ih | opening _ _ _ _ ih | closing _ _ _ _ ih => exact congrArg (List.cons _) ih

/-- **Another spelling of the lexemes of a text is found again in the text that it makes.** -/
theorem scan_flatMap {cs : List Char} (h : Respells R inChain names (Lexeme.scan cs) ms) :
    Lexeme.scan (ms.flatMap Lexeme.chars) = ms := by
  have halone := h.alone fun l hl => Lexeme.scan_of_mem hl
  refine Lexeme.scan_flatMap_of_alone halone ⟨fun hm => ?_, ?_⟩
  · exact absurd (halone _ hm) (by simp [Lexeme.chars, Lexeme.scan, Lexeme.scanFrom, Lexeme.flush])
  · have hseparate := (Lexeme.apart_scan cs).separate
    rw [← List.isChain_map (R := fun a b => ¬ (a = true ∧ b = true)) Lexeme.isText] at hseparate ⊢
    rwa [h.map_isText]

end Respells

/-! ## Phrases in another spelling -/

/-- Some lexemes do not start with the opening tag of a site. -/
def NoSwitch (R : Registry) (ls : List Lexeme) : Prop :=
  ∀ t, ls.head? = some (.tag t) → t.closing = false → R.bindingSite? t.name = none

/-- A phrase may start some lexemes: a chain in the place of one, and nodes there if no switch
    tag comes first. -/
def Phrase.Fits (R : Registry) (inChain : Bool) (ls : List Lexeme) : Phrase → Prop
  | .chain .. => inChain = true
  | .node .. | .nodes .. => inChain = true → NoSwitch R ls

/-- Another spelling of the tokens of a phrase, and of what follows them, starts with tokens of
    this phrase at the same positions. -/
def Keeps (R : Registry) (q : Phrase) (ts : List Token) : Prop :=
  ∀ ⦃inChain : Bool⦄ ⦃names : List String⦄ ⦃rest out : List Lexeme⦄,
    q.Fits R inChain (ts.map (·.lexeme) ++ rest) →
    Respells R inChain names (ts.map (·.lexeme) ++ rest) out →
    ∃ us more, out = us.map (·.lexeme) ++ more ∧ us.map (·.position) = ts.map (·.position) ∧
      Derives R q us ∧ Respells R (inChain && ts.isEmpty) names rest more

namespace Respells

theorem noSwitch (h : Respells R inChain names ls ms) (hl : NoSwitch R ls) : NoSwitch R ms := by
  cases h with
  | nil => nofun
  | text => rintro _ ⟨⟩
  | opening ht _ hname =>
    rintro _ ⟨⟩ -
    rw [hname.bindingSite?_eq]
    exact hl _ rfl ht
  | closing ht hu =>
    rintro _ ⟨⟩ hopen
    rw [hu.closing, ht] at hopen
    cases hopen

/-- Before a closing tag it is the tokens there that may start with a switch tag. -/
theorem noSwitch_iff {o : OpenTag} {c : Token} (hc : Closes o c) (body : List Token) :
    NoSwitch R (body.map (·.lexeme) ++ c.lexeme :: ls) ↔
      ∀ i s, body.head? = some (OpenTag.token i) → ¬ OpensSwitch R i s := by
  cases body with
  | nil =>
    obtain ⟨tag, hl, hclosing, -⟩ := hc
    refine ⟨fun _ => nofun, fun _ t ht hopen => ?_⟩
    rw [List.map_nil, List.nil_append, List.head?_cons, hl] at ht
    cases ht
    rw [hclosing] at hopen
    cases hopen
  | cons x body =>
    constructor
    · rintro h i s hi ⟨hopen, hsite⟩
      cases hi
      rw [h _ rfl hopen] at hsite
      cases hsite
    · intro h t ht hopen
      obtain ⟨lexeme, p⟩ := x
      cases ht
      rw [Option.eq_none_iff_forall_ne_some]
      exact fun s hs => h ⟨t, p⟩ s rfl ⟨hopen, hs⟩

/-- Another spelling of a phrase between two tags. -/
theorem enclosed {o : OpenTag} {c : Token} {q : Phrase} {body : List Token}
    {rest out : List Lexeme} (ho : o.tag.closing = false) (hc : Closes o c)
    (hbody : Keeps R q body)
    (hq : q.Fits R (startsChain R inChain o.tag.name) (body.map (·.lexeme) ++ c.lexeme :: rest))
    (h : Respells R inChain names ((o.token :: (body ++ [c])).map (·.lexeme) ++ rest) out) :
    ∃ o' us c' more, out = (OpenTag.token o' :: (us ++ [c'])).map (·.lexeme) ++ more ∧
      (OpenTag.token o' :: (us ++ [c'])).map (·.position) =
        (o.token :: (body ++ [c])).map (·.position) ∧
      o.tag.Recast o'.tag ∧ Renames R inChain o.tag.name o'.tag.name ∧
      Derives R q us ∧ Closes o' c' ∧ Respells R false names rest more ∧
      (NoSwitch R (body.map (·.lexeme) ++ c.lexeme :: rest) →
        NoSwitch R (us.map (·.lexeme) ++ c'.lexeme :: more)) := by
  have hlexemes : (o.token :: (body ++ [c])).map (·.lexeme) ++ rest =
      .tag o.tag :: (body.map (·.lexeme) ++ c.lexeme :: rest) := by simp [OpenTag.token]
  rw [hlexemes] at h
  cases h with
  | closing hclosing => rw [ho] at hclosing; cases hclosing
  | @opening _ _ _ u _ ms _ hu hname hinside =>
    obtain ⟨us, more, rfl, hpos, hus, hend⟩ := hbody hq hinside
    obtain ⟨tag, hl, hclosing, -, ha⟩ := hc
    rw [hl] at hinside hend ⊢
    cases hend with
    | opening hopen => rw [hclosing] at hopen; cases hopen
    | @closing _ _ _ _ v _ ms _ hv hclose hrest =>
      exact ⟨⟨u, o.position⟩, us, ⟨.tag v, c.position⟩, ms, by simp [OpenTag.token],
        by simp [OpenTag.token, hpos], hu, hname, hus,
        ⟨v, rfl, hv.closing.trans hclosing, hclose, hv.attr.trans ha⟩, hrest, hinside.noSwitch⟩

/-- Another spelling of a phrase between two tags that are none of a switch: their name stays. -/
theorem enclosed_reserved {o : OpenTag} {c : Token} {q : Phrase} {body : List Token}
    {rest out : List Lexeme} (ho : Opens o name) (hname : name ∈ reserved)
    (hplace : inChain = true → NoSwitch R ((o.token :: (body ++ [c])).map (·.lexeme) ++ rest))
    (hc : Closes o c) (hbody : Keeps R q body)
    (hq : ∀ ls, q.Fits R (name == SwitchKind.user.name || name == SwitchKind.siteurl.name) ls)
    (h : Respells R inChain names ((o.token :: (body ++ [c])).map (·.lexeme) ++ rest) out) :
    ∃ o' us c' more, out = (OpenTag.token o' :: (us ++ [c'])).map (·.lexeme) ++ more ∧
      (OpenTag.token o' :: (us ++ [c'])).map (·.position) =
        (o.token :: (body ++ [c])).map (·.position) ∧
      Opens o' name ∧ o'.tag.attr = o.tag.attr ∧ Derives R q us ∧ Closes o' c' ∧
      Respells R false names rest more := by
  have hplace : inChain = true → R.bindingSite? o.tag.name = none := fun hin =>
    hplace hin o.tag rfl ho.1
  have hreserved : o.tag.name ∈ reserved := ho.2 ▸ hname
  have hstarts : startsChain R inChain o.tag.name =
      (name == SwitchKind.user.name || name == SwitchKind.siteurl.name) := by
    rw [startsChain, isSwitchName_eq_false hreserved hplace, Bool.or_false, ho.2]
  obtain ⟨o', us, c', more, hout, hpos, hu, hrename, hus, hc', hrest, -⟩ :=
    enclosed ho.1 hc hbody (hstarts ▸ hq _) h
  have hsame : o'.tag.name = o.tag.name := hrename.eq hreserved hplace
  exact ⟨o', us, c', more, hout, hpos, ⟨hu.closing.trans ho.1, hsame.trans ho.2⟩, hu.attr, hus, hc',
    hrest⟩

theorem renames {t u : Tag} (hu : u.closing = false)
    (h : Respells R inChain names (.tag t :: ls) (.tag u :: ms)) :
    Renames R inChain t.name u.name := by
  cases h with
  | opening _ _ hname => exact hname
  | closing ht hrecast => rw [hrecast.closing, ht] at hu; cases hu

/-- In the place of a node a switch tag starts a chain, as it does behind a wrapper. -/
theorem in_chain {t : Tag} (hfree : t.name ∉ reserved)
    (h : Respells R inChain names (.tag t :: ls) ms) : Respells R true names (.tag t :: ls) ms := by
  cases h with
  | closing ht hu hname hr => exact .closing ht hu hname hr
  | opening ht hu hname hr =>
    rw [startsChain, isSwitchName_of_free hfree, ← startsChain] at hr
    exact .opening ht hu (hname.in_chain hfree) hr

end Respells

theorem not_startsChain_tagName (kind : FormatKind) :
    (kind.tagName == SwitchKind.user.name || kind.tagName == SwitchKind.siteurl.name) = false := by
  cases kind <;> decide

theorem Leaf.congr {o o' : OpenTag} {site : BindingSite} {ns : List Node}
    {b : Binding String (List Node)} (hv : o'.tag.value? = o.tag.value?) (h : Leaf o site ns b) :
    Leaf o' site ns b := by
  cases h with
  | bare ha ht => exact .bare (hv.trans ha) ht
  | shown ha ht => exact .shown (hv.trans ha) ht
  | echo ha hs ht => exact .echo (hv.trans ha) hs ht

theorem keeps_nil {mode : Mode} : Keeps R (.nodes mode []) [] := by
  intro inChain names rest out _ h
  exact ⟨[], out, rfl, rfl, .nil, by simpa using h⟩

/-- A node between such tags. -/
theorem keeps_enclosed {mode : Mode} {n : Node} {o : OpenTag} {c : Token} {q : Phrase}
    {body : List Token} (ho : Opens o name) (hname : name ∈ reserved) (hc : Closes o c)
    (hbody : Keeps R q body)
    (hq : ∀ ls, q.Fits R (name == SwitchKind.user.name || name == SwitchKind.siteurl.name) ls)
    (hnode : ∀ o' us c', Opens o' name → o'.tag.attr = o.tag.attr → o'.position = o.position →
      Derives R q us → Closes o' c' → Derives R (.node mode n) (o'.token :: (us ++ [c']))) :
    Keeps R (.node mode n) (o.token :: (body ++ [c])) := by
  intro inChain names rest out hfits h
  obtain ⟨o', us, c', more, rfl, hpos, ho', ha, hus, hc', hrest⟩ :=
    h.enclosed_reserved ho hname hfits hc hbody hq
  have hplace : o'.position = o.position := (List.cons.inj hpos).1
  exact ⟨_, more, rfl, hpos, hnode _ _ _ ho' ha hplace hus hc', by simpa using hrest⟩

theorem keeps_whenElse {o e : OpenTag} {expression : String} {condition : Condition}
    {yes no : List Node} {body other : List Token} {c d : Token} (ho : Opens o "if")
    (hv : o.tag.value? = some expression) (hcond : Condition.parse R expression = .ok condition)
    (hbody : Keeps R (.nodes .block yes) body) (hc : Closes o c) (he : Opens e "else")
    (ha : e.tag.attr = none) (hother : Keeps R (.nodes .block no) other) (hd : Closes e d) :
    Keeps R (.node .block (.conditional condition yes (some no)))
      (o.token :: (body ++ c :: e.token :: (other ++ [d]))) := by
  intro inChain names rest out hfits h
  -- the second part comes directly behind the first one, which ends with a closing tag
  have hparts : (o.token :: (body ++ c :: e.token :: (other ++ [d]))).map (·.lexeme) ++ rest =
      (o.token :: (body ++ [c])).map (·.lexeme) ++
        ((e.token :: (other ++ [d])).map (·.lexeme) ++ rest) := by simp
  rw [Phrase.Fits, hparts] at hfits
  rw [hparts] at h
  obtain ⟨o', us, c', more, rfl, hpos, ho', ho'a, hus, hc', hrest⟩ :=
    h.enclosed_reserved ho (by decide) hfits hc hbody (fun _ => nofun)
  obtain ⟨e', vs, d', more', rfl, hpos', he', he'a, hvs, hd', hrest'⟩ :=
    hrest.enclosed_reserved he (by decide) (fun h => absurd h Bool.false_ne_true) hd hother
      (fun _ => nofun)
  refine ⟨o'.token :: (us ++ c' :: e'.token :: (vs ++ [d'])), more', by simp, ?_,
    .whenElse ho' ((Tag.value?_congr ho'a).trans hv) hcond hus hc' he' (he'a.trans ha) hvs hd',
    by simpa using hrest'⟩
  simpa using congrArg₂ (· ++ ·) hpos hpos'

/-- **Another spelling of a phrase spells it.** -/
theorem keeps_of_derives {q : Phrase} {ts : List Token} (h : Derives R q ts) : Keeps R q ts := by
  -- what follows the phrase, and the tags that are open around it, are arbitrary
  induction h with
  | @text mode cs p =>
    intro inChain names rest out _ h
    cases h with
    | text h => exact ⟨[⟨.text cs, p⟩], _, rfl, rfl, .text, by simpa using h⟩
  | @format _ kind _ _ _ _ ho ha _ hc ih =>
    refine keeps_enclosed ho (by cases kind <;> decide) hc ih (fun _ => ?_)
      fun _ _ _ ho' ha' _ hus hc' => .format ho' (ha'.trans ha) hus hc'
    rw [not_startsChain_tagName]
    nofun
  | link ho hv _ hc ih =>
    exact keeps_enclosed ho (by decide) hc ih (fun _ => nofun)
      fun _ _ _ ho' ha' _ hus hc' => .link ho' ((Tag.value?_congr ha').trans hv) hus hc'
  | address ho hv _ hc ht ih =>
    exact keeps_enclosed ho (by decide) hc ih (fun _ => nofun)
      fun _ _ _ ho' ha' _ hus hc' => .address ho' ((Tag.value?_congr ha').trans hv) hus hc' ht
  | @self _ c ho ha hc =>
    have hnil : Keeps R (.nodes .inline []) [] := keeps_nil
    refine keeps_enclosed ho (by decide) hc hnil (fun _ => nofun)
      fun _ us _ ho' ha' hplace hus hc' => ?_
    cases hus
    exact hplace ▸ .self ho' (ha'.trans ha) hc'
  | @wrapper kind _ _ _ _ ho ha _ hc ih =>
    refine keeps_enclosed ho (by cases kind <;> decide) hc ih (fun _ => ?_)
      fun _ _ _ ho' ha' hplace hus hc' => hplace ▸ .wrapper ho' (ha'.trans ha) hus hc'
    cases kind <;> rfl
  | @switch o _ _ hfree _ ih =>
    intro inChain names rest out _ h
    have hchain := h.in_chain hfree
    obtain ⟨us, more, rfl, hpos, hus, hmore⟩ := ih rfl hchain
    obtain ⟨o', site, body, rfl, ho'⟩ := hus.chain_start
    have hname : Renames R true o.tag.name o'.tag.name := Respells.renames ho'.1 hchain
    have hplace : o'.position = o.position := (List.cons.inj hpos).1
    exact ⟨_, more, rfl, hpos, hplace ▸ .switch (hname.free hfree) hus, by simpa using hmore⟩
  | whenOnly ho hv hcond _ hc ih =>
    exact keeps_enclosed ho (by decide) hc ih (fun _ => nofun)
      fun _ _ _ ho' ha' _ hus hc' => .whenOnly ho' ((Tag.value?_congr ha').trans hv) hcond hus hc'
  | whenElse ho hv hcond _ hc he ha _ hd ih ih' =>
    exact keeps_whenElse ho hv hcond ih hc he ha ih' hd
  | nil => exact keeps_nil
  | @cons _ _ _ ts us hn _ ihn ih =>
    intro inChain names rest out hfits h
    have hne : ts ≠ [] := ne_nil_of_derives_node hn
    rw [Phrase.Fits, List.map_append, List.append_assoc] at hfits
    rw [List.map_append, List.append_assoc] at h
    obtain ⟨vs, more, rfl, hpos, hvs, hmore⟩ := ihn hfits h
    rw [List.isEmpty_eq_false_iff.2 hne, Bool.and_false] at hmore
    obtain ⟨ws, more', rfl, hpos', hws, hmore'⟩ := ih (fun h => absurd h Bool.false_ne_true) hmore
    have htsus : (ts ++ us).isEmpty = false :=
      List.isEmpty_eq_false_iff.2 fun h => hne (List.append_eq_nil_iff.1 h).1
    refine ⟨vs ++ ws, more', by simp, by simp [hpos, hpos'], .cons hvs hws, ?_⟩
    rwa [htsus, Bool.and_false]
  | leaf ho hhead _ hc hleaf hadmits ih =>
    intro inChain names rest out _ h
    obtain ⟨o', us, c', more, rfl, hpos, hu, hname, hus, hc', hrest, hno⟩ :=
      h.enclosed ho.1 hc ih fun _ => (Respells.noSwitch_iff hc _).2 hhead
    have ho' : OpensSwitch R o' _ := ⟨hu.closing.trans ho.1, hname.bindingSite?_eq.trans ho.2⟩
    have hhead' := (Respells.noSwitch_iff hc' us).1 (hno ((Respells.noSwitch_iff hc _).2 hhead))
    exact ⟨_, more, rfl, hpos,
      .leaf ho' hhead' hus hc' (hleaf.congr (Tag.value?_congr hu.attr)) hadmits,
      by simpa using hrest⟩
  | nested ho hv hadmits _ hc ih =>
    intro inChain names rest out hfits h
    have hstarts : startsChain R inChain _ = true := startsChain_of_opensSwitch hfits ho
    obtain ⟨o', us, c', more, rfl, hpos, hu, hname, hus, hc', hrest, -⟩ :=
      h.enclosed ho.1 hc ih hstarts
    have ho' : OpensSwitch R o' _ := ⟨hu.closing.trans ho.1, hname.bindingSite?_eq.trans ho.2⟩
    exact ⟨_, more, rfl, hpos,
      .nested ho' ((Tag.value?_congr hu.attr).trans hv) hadmits hus hc', by simpa using hrest⟩

end Grammar

/-! ## Sources in another spelling -/

namespace Document

open Grammar

variable {R : Registry} {source : String} {ns : List Node} {ls : List Lexeme}

/-- **Another spelling of a source that is read is read as well, and makes the same tree but for
    positions**; so it is shown alike everywhere, but for the positions of gaps. -/
theorem parse_respelled (h : parse R source = .ok ns)
    (hs : Respells R false [] (Lexeme.scan source.toList) ls) :
    ∃ ms, parse R (.ofList (ls.flatMap Lexeme.chars)) = .ok ms ∧
      Node.unplaced ms = Node.unplaced ns ∧
      ∀ (R' : Registry) (usernames : Usernames) (flags : List String) (target : String),
        (render R' usernames flags ms target).unplaced =
          (render R' usernames flags ns target).unplaced := by
  have hkeeps := keeps_of_derives (ofTokens_eq_ok_iff.1 h)
  have hlexemes : (Token.ofSource source).map (·.lexeme) ++ [] = Lexeme.scan source.toList := by
    rw [List.append_nil, Token.ofSource, Token.map_lexeme_place]
  rw [← hlexemes] at hs
  obtain ⟨us, more, hls, -, hus, hmore⟩ := hkeeps (fun h => absurd h Bool.false_ne_true) hs
  cases hmore
  rw [hlexemes] at hs
  have hscan : Lexeme.scan (String.ofList (ls.flatMap Lexeme.chars)).toList =
      us.map (·.lexeme) := by
    rw [String.toList_ofList, hs.scan_flatMap, hls, List.append_nil]
  have htree : tree? R (.ofList (ls.flatMap Lexeme.chars)) = some (Node.unplaced ns) := by
    rw [tree?_eq, hscan, toOption_run_token, ofTokens_eq_ok_iff.2 hus]
    rfl
  obtain ⟨ms, hms, hunplaced⟩ := exists_parse_of_tree? htree
  exact ⟨ms, hms, hunplaced, fun R' => render_eq_of_unplaced hunplaced⟩

theorem parse_respelled_alias :
    let source := "[x[user][FA= A B ][sf=C][/sf][/fa][/user]"
    let other := "[x[USER][FurAffinity=A B][SF=\nC][/sf][/furaffinity][/User]"
    Respells .builtin false [] (Lexeme.scan source.toList) (Lexeme.scan other.toList) ∧
      ∃ ms, parse .builtin other = .ok ms ∧
        Node.unplaced ms = [.text "[x", .switch .user [⟨.site "furaffinity", "A B", none⟩,
          ⟨.site "sofurry", "C", none⟩] .nowhere] := by
  intro source other
  have hparse : parse .builtin "[x[user][FA= A B ][sf=C][/sf][/fa][/user]" =
      .ok [.text "[x", .switch .user [⟨.site "furaffinity", "A B", none⟩,
        ⟨.site "sofurry", "C", none⟩] ⟨2, 1, 3⟩] := by rfl
  have hsource : Lexeme.scan source.toList = [.text "[x".toList,
      .tag ⟨false, "user".toList, none⟩, .tag ⟨false, "FA".toList, some " A B ".toList⟩,
      .tag ⟨false, "sf".toList, some "C".toList⟩, .tag ⟨true, "sf".toList, none⟩,
      .tag ⟨true, "fa".toList, none⟩, .tag ⟨true, "user".toList, none⟩] := by decide +kernel
  have hother : Lexeme.scan other.toList = [.text "[x".toList,
      .tag ⟨false, "USER".toList, none⟩, .tag ⟨false, "FurAffinity".toList, some "A B".toList⟩,
      .tag ⟨false, "SF".toList, some "\nC".toList⟩, .tag ⟨true, "sf".toList, none⟩,
      .tag ⟨true, "furaffinity".toList, none⟩, .tag ⟨true, "User".toList, none⟩] := by
    decide +kernel
  have hrespells : Respells .builtin false [] (Lexeme.scan source.toList)
      (Lexeme.scan other.toList) := by
    rw [hsource, hother]
    refine .text (.opening rfl (by decide +kernel) (.same (by decide +kernel)) ?_)
    refine .opening rfl (by decide +kernel) ?_ ?_
    · exact .site (by decide +kernel) (by decide +kernel) (by decide +kernel)
    refine .opening rfl (by decide +kernel) (.same (by decide +kernel)) ?_
    refine .closing rfl (by decide +kernel) (by decide +kernel) ?_
    refine .closing rfl (by decide +kernel) (by decide +kernel) ?_
    exact .closing rfl (by decide +kernel) (by decide +kernel) .nil
  obtain ⟨ms, hms, htree, -⟩ := parse_respelled hparse hrespells
  rw [Lexeme.flatMap_scan, String.ofList_toList] at hms
  exact ⟨hrespells, ms, hms, htree⟩

end Document

end Crosspost
