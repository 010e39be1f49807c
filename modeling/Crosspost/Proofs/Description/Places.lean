/-
  Where tags stand in a source.

  Positions are counted in the normalized source. Its lines are those of the source without the
  white space around them, so a tag stands in the same line there, and as many columns further
  on as the line starts with white space.

  * `Source.exists_place`: what is not blank stands at a place of the source, from which on it
    is normalized alike;
  * `Source.Stands`: a tag stands at such a place, and `Source.stands_of_mem`: so do the tags
    of the normalized source;
  * `Node.everyOf_opened`: what leaves a gap is opened by a tag at its position;
  * `Generated.ofSource_respaced`: **white space around lines makes no difference, and gaps and
    errors are found again in the source**.
-/
import Crosspost.Proofs.Description.Gaps
import Crosspost.Proofs.Description.Joining
import Crosspost.Proofs.Description.Padding
import Crosspost.Proofs.Description.Parameters

namespace Crosspost

open Grammar

/-! ## Cursors -/

namespace Cursor

theorem passAll_of_not_mem {cs : List Char} (h : '\n' ∉ cs) (k : Cursor) :
    k.passAll cs = { k with offset := k.offset + Chars.width cs } := by
  induction cs generalizing k with
  | nil => rfl
  | cons c cs ih =>
    rw [List.mem_cons, not_or] at h
    have hc : k.pass c = { k with offset := k.offset + Chars.unitsOf c } := by
      rw [pass, if_neg (Ne.symm h.1)]
    rw [passAll, List.foldl_cons, ← passAll, hc, ih h.2, Chars.width, Nat.add_assoc]

/-- Behind some lines another one starts. -/
theorem passAll_flatMap {front : List (List Char)} (h : ∀ piece ∈ front, '\n' ∉ piece) {k : Cursor}
    (hk : k.lineStart = k.offset) : ∃ offset,
      k.passAll (front.flatMap (· ++ ['\n'])) = ⟨offset, k.line + front.length, offset⟩ := by
  induction front generalizing k with
  | nil =>
    refine ⟨k.offset, ?_⟩
    obtain ⟨offset, line, lineStart⟩ := k
    obtain rfl : lineStart = offset := hk
    rfl
  | cons piece front ih =>
    obtain ⟨hpiece, hfront⟩ := List.forall_mem_cons.1 h
    have hend : ∀ j : Cursor, j.passAll ['\n'] = ⟨j.offset + 1, j.line + 1, j.offset + 1⟩ :=
      fun _ => rfl
    rw [List.flatMap_cons, passAll_append, passAll_append, passAll_of_not_mem hpiece, hend]
    obtain ⟨offset, ho⟩ := ih hfront (k := ⟨k.offset + Chars.width piece + 1, k.line + 1,
      k.offset + Chars.width piece + 1⟩) rfl
    refine ⟨offset, ?_⟩
    rw [ho, List.length_cons]
    simp only [mk.injEq, true_and, and_true]
    omega

/-- The position in a line behind some other ones. -/
theorem position_passAll_flatMap {front : List (List Char)} {ahead : List Char}
    (hfront : ∀ piece ∈ front, '\n' ∉ piece) (hahead : '\n' ∉ ahead) :
    (start.passAll (front.flatMap (· ++ ['\n']) ++ ahead)).position =
      ⟨Chars.width (front.flatMap (· ++ ['\n']) ++ ahead), front.length + 1,
        Chars.width ahead + 1⟩ := by
  have hoffset := offset_passAll start (front.flatMap (· ++ ['\n']) ++ ahead)
  obtain ⟨offset, ho⟩ := passAll_flatMap hfront (k := start) rfl
  rw [passAll_append, ho, passAll_of_not_mem hahead] at hoffset ⊢
  simp only [start, Nat.zero_add] at hoffset
  simp only [position, positionOf, start, hoffset, Position.mk.injEq, true_and]
  omega

end Cursor

/-! ## Places -/

namespace Source

open Chars

/-- What is left of a piece from some character on is trimmed at its end. -/
theorem trim_of_part {piece ahead behind tail : List Char} {c : Char}
    (h : trim piece = ahead ++ c :: behind) (hc : isBlank c = false)
    (htail : ∀ d ∈ tail, isBlank d = true) : trim (c :: behind ++ tail) = c :: behind := by
  rw [trim_append_of_blank_end htail]
  refine trim_of_ends (by simpa using hc) fun d hd => ?_
  obtain ⟨most, hmost⟩ := List.getLast?_eq_some_iff.1 hd
  rw [hmost, ← List.append_assoc] at h
  exact trim_last h

/-- A source is normalized piece by piece. -/
theorem toList_normalize_pieces {first : List Char} {back : List (List Char)}
    (hfirst : '\n' ∉ first) (hback : ∀ piece ∈ back, '\n' ∉ piece) :
    (normalize (.ofList (first ++ back.flatMap ('\n' :: ·)))).toList =
      trim first ++ (back.map trim).flatMap ('\n' :: ·) := by
  have hjoin := intercalate_append_cons '\n' [] first back
  have hjoined := intercalate_append_cons '\n' [] (trim first) (back.map trim)
  rw [List.nil_append, List.flatMap_nil, List.nil_append] at hjoin hjoined
  rw [toList_normalize, String.toList_ofList, pieces, ← hjoin,
    splitOn_intercalate (by simp) (List.forall_mem_cons.2 ⟨hfirst, hback⟩), List.map_cons, hjoined]

/-- The line that a piece of a source is, with the white space that it starts with. -/
theorem exists_line {cs piece lead rest : List Char} {front back : List (List Char)} {c : Char}
    (hsplit : splitOn '\n' cs = front ++ piece :: back) (hpiece : piece = lead ++ c :: rest)
    (hlead : ∀ d ∈ lead, isBlank d = true) (hc : isBlank c = false) :
    ∃ line, (lines cs)[front.length]? = some line ∧ line.takeWhile isBlank = lead := by
  have hlines := forall₂_lines cs
  rw [hsplit] at hlines
  have hlength := hlines.length_eq
  have hlt : front.length < (lines cs).length := by
    rw [hlength, List.length_append, List.length_cons]
    omega
  have hget := hlines.get hlt (hlength ▸ hlt)
  refine ⟨_, List.getElem?_eq_getElem hlt, takeWhile_of_line hpiece hlead hc ?_⟩
  simpa using hget

/-- What is not blank in a normalized source stands somewhere in the source. From there on the
    source is normalized alike; the place is in the same line, behind the white space that the
    line starts with. -/
theorem exists_place {raw : String} {before after : List Char} {c : Char}
    (h : (normalize raw).toList = before ++ c :: after) (hc : isBlank c = false) :
    ∃ (before' rest : List Char) (n : Nat) (line : List Char), raw.toList = before' ++ c :: rest ∧
      (normalize (.ofList (c :: rest))).toList = c :: after ∧
      (lines raw.toList)[n]? = some line ∧
      (Cursor.start.passAll before).position.line = n + 1 ∧
      (Cursor.start.passAll before').position =
        ⟨width before', (Cursor.start.passAll before).position.line,
          (Cursor.start.passAll before).position.column + width (line.takeWhile isBlank)⟩ := by
  have hfeed : c ≠ '\n' := by
    rintro rfl
    exact absurd hc (by decide)
  rw [toList_normalize] at h
  obtain ⟨front, ahead, behind, back, hpieces, rfl, rfl⟩ := exists_piece_of_intercalate h hfeed
  -- the pieces of the source itself
  obtain ⟨front', rest', hsplit, rfl, hrest⟩ := List.map_eq_append_iff.1 hpieces
  obtain ⟨piece, back', rfl, htrim, rfl⟩ := List.map_eq_cons_iff.1 hrest
  obtain ⟨lead, tail, hpiece, hlead, htail⟩ := exists_append_trim piece
  have hclear : ∀ p ∈ front' ++ piece :: back', '\n' ∉ p := fun p hp =>
    not_mem_of_mem_splitOn (hsplit ▸ hp)
  have hfront : ∀ p ∈ front', '\n' ∉ p := fun p hp => hclear p (List.mem_append_left _ hp)
  have hback : ∀ p ∈ back', '\n' ∉ p := fun p hp => hclear p (by simp [hp])
  have htrimmed : ∀ p ∈ front'.map trim, '\n' ∉ p := by
    intro p hp
    obtain ⟨q, hq, rfl⟩ := List.mem_map.1 hp
    exact fun hm => hfront q hq (trim_subset q hm)
  have hmiddle : '\n' ∉ piece := hclear piece (by simp)
  obtain ⟨line, hline, hblank⟩ : ∃ line, (lines raw.toList)[front'.length]? = some line ∧
      line.takeWhile isBlank = lead := by
    cases hstart : trim piece with
    | nil => simp [hstart] at htrim
    | cons d ds =>
      rw [hstart] at hpiece
      exact exists_line hsplit hpiece hlead (trim_first hstart)
  rw [htrim] at hpiece
  rw [hpiece] at hmiddle
  simp only [List.mem_append, List.mem_cons, not_or] at hmiddle
  obtain ⟨hleadclear, ⟨haheadclear, -, hbehindclear⟩, htailclear⟩ := hmiddle
  have hboth : '\n' ∉ lead ++ ahead := by simp [hleadclear, haheadclear]
  refine ⟨front'.flatMap (· ++ ['\n']) ++ (lead ++ ahead),
    behind ++ tail ++ back'.flatMap ('\n' :: ·), front'.length, line, ?_, ?_, hline, ?_, ?_⟩
  · have hraw := intercalate_splitOn '\n' raw.toList
    rw [hsplit, intercalate_append_cons, hpiece] at hraw
    rw [← hraw]
    simp
  · have hfirst : '\n' ∉ c :: behind ++ tail := by
      simp [Ne.symm hfeed, hbehindclear, htailclear]
    have hnormal := toList_normalize_pieces hfirst hback
    rw [trim_of_part htrim hc htail] at hnormal
    exact hnormal
  · rw [Cursor.position_passAll_flatMap htrimmed haheadclear]
    simp
  · rw [Cursor.position_passAll_flatMap htrimmed haheadclear,
      Cursor.position_passAll_flatMap hfront hboth, hblank]
    simp only [List.length_map, width_append, Position.mk.injEq, true_and]
    omega

/-- A tag of the normalized source stands at a place of the source: from there on it is read
    when the rest is normalized, in the line of its position and behind the white space that
    this line starts with. -/
def Stands (raw : String) (tag : Tag) (p : Position) : Prop :=
  ∃ (before rest : List Char) (n : Nat) (line : List Char), raw.toList = before ++ '[' :: rest ∧
    Tag.read? (normalize (.ofList ('[' :: rest))).toList = some tag ∧
    (lines raw.toList)[n]? = some line ∧ p.line = n + 1 ∧
    locate raw (width before) =
      ⟨width before, p.line, p.column + width (line.takeWhile isBlank)⟩

theorem stands_of_mem {raw : String} {t : Token} {tag : Tag}
    (h : t ∈ Token.ofSource (normalize raw)) (htag : t.lexeme = .tag tag) :
    Stands raw tag t.position := by
  obtain ⟨ks, ls, hscan, hp⟩ := Token.mem_place_iff.1 h
  rw [htag] at hscan
  obtain ⟨text, hsplit, hread⟩ := Lexeme.scan_split_iff.1 ⟨ks, ls, hscan, rfl⟩
  obtain ⟨after, rfl⟩ : ∃ after, text = '[' :: after := by
    cases text with
    | nil => cases hread
    | cons c after => exact ⟨after, by rw [Option.some.inj (Tag.head?_of_read? hread)]⟩
  obtain ⟨before, rest, n, line, hraw, hrest, hline, hn, hplace⟩ :=
    exists_place hsplit (by decide)
  have hlocate := locate_width before ('[' :: rest)
  rw [← hraw, String.ofList_toList, hplace, ← hp] at hlocate
  exact ⟨before, rest, n, line, hraw, hrest ▸ hread, hline, hp ▸ hn, hlocate⟩

end Source

/-! ## Gaps -/

namespace Node

/-- The gap that a node leaves is opened by a tag among some tokens. -/
def Opened (ts : List Token) (n : Node) : Prop :=
  ∀ usernames target gap, n.gap? usernames target = some gap →
    ∃ o, OpenTag.token o ∈ ts ∧ Opens o gap.kind.name ∧ o.position = gap.position

theorem opened_of_node {R : Registry} {mode : Mode} {n : Node} {ts : List Token}
    (h : Derives R (.node mode n) ts) : n.Opened ts := by
  intro usernames target gap hgap
  cases h with
  | self ho =>
    simp only [gap?] at hgap
    split_ifs at hgap
    cases hgap
    exact ⟨_, List.mem_cons_self, ho, rfl⟩
  | @wrapper kind o bs body c ho =>
    cases kind with
    | user => cases hgap
    | siteurl =>
      simp only [gap?] at hgap
      split_ifs at hgap
      cases hgap
      exact ⟨o, List.mem_cons_self, ho, rfl⟩
  | text | format | link | address | switch | whenOnly | whenElse => cases hgap

/-- What leaves a gap in a phrase is opened by one of its tokens. -/
theorem everyOf_opened {R : Registry} {p : Phrase} {ts : List Token} (h : Derives R p ts) :
    EveryOf (Opened ts) p := by
  refine everyOf_of_derives (fun hsub hn usernames target gap hgap => ?_) (fun _ _ => nofun)
    opened_of_node h
  obtain ⟨o, ho, hrest⟩ := hn usernames target gap hgap
  exact ⟨o, hsub ho, hrest⟩

end Node

/-! ## Sources -/

namespace Generated

open Source Node

variable {R : Registry} {usernames : Usernames} {flags : List String} {raw : String}

theorem stands_of_gap {g : Generated} {d : SiteDescription} {gap : Gap}
    (h : ofSource R usernames flags raw = .ok g) (hd : d ∈ g.descriptions) (hgap : gap ∈ d.gaps) :
    ∃ tag : Tag, tag.closing = false ∧ tag.name = gap.kind.name ∧ Stands raw tag gap.position := by
  cases hb : Text.isBlank (normalize raw) with
  | true =>
    rw [ofSource] at h
    simp only [hb, if_true] at h
    cases h
    obtain ⟨site, -, rfl⟩ := List.mem_map.1 hd
    cases hgap
  | false =>
    cases hp : Document.parse R (normalize raw) with
    | error e => simp [ofSource, hb, hp] at h
    | ok ns =>
      rw [ofSource_of_parse hb hp] at h
      obtain ⟨hgaps, -⟩ :=
        gaps_of_ofNodes (Document.every_sound hp) mem_sites_of_mem_targets h
      obtain ⟨i, hi, rfl⟩ := List.mem_iff_getElem.1 hd
      have hi' : i < (targets R usernames).length := hgaps.length_eq ▸ hi
      obtain ⟨-, hlive⟩ := hgaps.get hi' hi
      rw [List.get_eq_getElem, List.get_eq_getElem] at hlive
      rw [hlive] at hgap
      obtain ⟨n, hn, hgap⟩ := List.mem_filterMap.1 hgap
      have hopened : Every (Opened (Token.ofSource (normalize raw))) ns :=
        everyOf_opened (Document.ofTokens_eq_ok_iff.1 hp)
      obtain ⟨o, ho, hopens, hposition⟩ := hopened.of_mem_liveAll _ _ n hn _ _ gap hgap
      exact ⟨o.tag, hopens.1, hopens.2, hposition ▸ stands_of_mem ho rfl⟩

/-- **White space around lines makes no difference, and gaps and errors are found again in the
    source.** A normalized source has the trimmed lines of the source; sources that differ in
    white space around their lines make the same, events and errors with their positions
    included; and a tag to which a gap or an error points stands in the source at the position
    that is reported, behind the white space that its line starts with. -/
theorem ofSource_respaced (R : Registry) (usernames : Usernames) (flags : List String) :
    (∀ raw, normalize (normalize raw) = normalize raw ∧
      Chars.lines (normalize raw).toList = (Chars.lines raw.toList).map Chars.trim) ∧
    (∀ raw raw', Relation.EqvGen Respaces raw raw' → normalize raw = normalize raw' ∧
      ofSource R usernames flags raw = ofSource R usernames flags raw') ∧
    ∀ raw,
      (∀ g, ofSource R usernames flags raw = .ok g → ∀ d ∈ g.descriptions, ∀ gap ∈ d.gaps,
        ∃ tag : Tag, tag.closing = false ∧ tag.name = gap.kind.name ∧
          Stands raw tag gap.position) ∧
      ∀ e, ofSource R usernames flags raw = .error (.parse e) →
        ∀ t ∈ Token.ofSource (normalize raw), ∀ tag, t.lexeme = .tag tag →
          t.position = e.position → Stands raw tag e.position := by
  refine ⟨fun raw => ⟨normalize_normalize raw, lines_normalize raw⟩, fun raw raw' h => ?_,
    fun raw => ⟨fun g hg d hd gap hgap => stands_of_gap hg hd hgap, fun e _ t ht tag htag hp => ?_⟩⟩
  · have hnormal := normalize_eq_of_respaced h
    exact ⟨hnormal, ofSource_congr hnormal R usernames flags⟩
  · exact hp ▸ stands_of_mem ht htag

/-- A gap in an indented line behind a byte order mark, and an error in a line that ends with a
    carriage return. -/
theorem ofSource_respaced_indented :
    let usernames : Usernames := [("furaffinity", "a")]
    let source := "\n[siteurl][ib=x][/ib][/siteurl]"
    let indented := "\ufeff\n  [siteurl][ib=x][/ib][/siteurl]"
    let wrong := "a\r\n [b=c\r\n]\r\n"
    (ofSource .builtin usernames [] source = ofSource .builtin usernames [] indented ∧
      ∃ tag : Tag, tag.name = "siteurl" ∧ Stands indented tag ⟨1, 2, 1⟩) ∧
    ofSource .builtin usernames [] wrong = .error (.parse ⟨.needlessAttr "b", ⟨2, 2, 1⟩⟩) ∧
      Stands wrong ⟨false, ['b'], some ['c', '\n']⟩ ⟨2, 2, 1⟩ := by
  intro usernames source indented wrong
  obtain ⟨-, hrespaced, hplaces⟩ := ofSource_respaced .builtin usernames []
  have hspaces : IsPadding "  " :=
    List.forall_mem_cons.2 ⟨by decide, List.forall_mem_singleton.2 (by decide)⟩
  have hindent : Respaces source "\n  [siteurl][ib=x][/ib][/siteurl]" :=
    .before "[siteurl][ib=x][/ib][/siteurl]" (.inr ⟨"", rfl⟩) hspaces
  have hmark : Respaces "\n  [siteurl][ib=x][/ib][/siteurl]" indented := .mark _
  have hsame := (hrespaced source indented (.trans _ _ _ (.rel _ _ hindent) (.rel _ _ hmark))).2
  have hgaps : (ofSource .builtin usernames [] indented).toOption.map
      (·.descriptions.map (·.gaps)) = some [[⟨.siteurl, "furaffinity", ⟨1, 2, 1⟩⟩]] := by
    decide +kernel
  have hparse : Document.parse .builtin (normalize wrong) =
      .error ⟨.needlessAttr "b", ⟨2, 2, 1⟩⟩ := errorOf?_eq_some_iff.1 (by decide +kernel)
  have hwrong : ofSource .builtin usernames [] wrong =
      .error (.parse ⟨.needlessAttr "b", ⟨2, 2, 1⟩⟩) := by
    have hblank : Text.isBlank (normalize wrong) = false := by decide +kernel
    simp [ofSource, hblank, hparse]
  refine ⟨⟨hsame, ?_⟩, hwrong, ?_⟩
  · cases hg : ofSource .builtin usernames [] indented with
    | error e => simp [hg, Except.toOption] at hgaps
    | ok g =>
      rw [hg, Except.toOption, Option.map_some, Option.some.injEq] at hgaps
      obtain ⟨d, hd, hgap⟩ := List.mem_map.1 (hgaps ▸ List.mem_singleton_self _)
      obtain ⟨tag, -, hname, hstands⟩ :=
        (hplaces indented).1 g hg d hd _ (hgap ▸ List.mem_singleton_self _)
      exact ⟨tag, hname, hstands⟩
  · exact (hplaces wrong).2 _ hwrong
      ⟨.tag ⟨false, ['b'], some ['c', '\n']⟩, ⟨2, 2, 1⟩⟩ (by decide +kernel) _ rfl rfl

end Generated

end Crosspost
