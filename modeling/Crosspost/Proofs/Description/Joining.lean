/-
  Sources one after another.

  A tag holds no bracket that could open another tag. So no tag stands across the seam of two
  texts if the first one ends with a tag or the second one starts with a bracket.

  * `Lexeme.Parted as bs`: no tag starts in `as` and ends in `bs`;
    `Lexeme.exists_scanFrom_append` says what is then read of the two as one text;
  * `Token.position_eq_locate`: a token is where its offset is located;
  * `Token.ofSource_append`: the tokens of two sources as one;
  * `Document.parse_append`: **a source after a description is read as it is on its own,
    at other positions**.
-/
import Crosspost.Proofs.Description.Moving
import Crosspost.Proofs.Description.Segmentation

namespace Crosspost

/-! ## Tags at a seam -/

namespace Lexeme

/-- No tag starts in `as` and ends in `bs`, which follows it. -/
def Parted (as bs : List Char) : Prop :=
  ∀ x, x <:+ as → x ≠ [] → Tag.read? x = none → Tag.read? (x ++ bs) = none

/-- What a tag across a seam would be. -/
theorem across_of_read? {x bs : List Char} {t : Tag} (hx : x ≠ []) (hn : Tag.read? x = none)
    (h : Tag.read? (x ++ bs) = some t) :
    '[' ∉ x.tail ∧ x.head? = some '[' ∧ ∃ c cs, c :: cs <+: bs ∧ c ≠ '[' := by
  obtain ⟨hw, hp⟩ := Tag.read?_eq_some_iff.1 h
  rcases List.prefix_or_prefix_of_prefix hp (List.prefix_append x bs) with htx | ⟨y, hy⟩
  · rw [Tag.read?_eq_some_iff.2 ⟨hw, htx⟩] at hn
    cases hn
  · obtain ⟨d, x, rfl⟩ := List.exists_cons_of_ne_nil hx
    have hmem := hw.not_mem_tail
    rw [← hy, List.cons_append, List.tail_cons, List.mem_append, not_or] at hmem
    cases y with
    | nil =>
      rw [List.append_nil] at hy
      rw [hy, Tag.read?_eq_some_iff.2 ⟨hw, List.prefix_rfl⟩] at hn
      cases hn
    | cons c cs =>
      rw [← hy, List.prefix_append_right_inj] at hp
      refine ⟨hmem.1, ?_, c, cs, hp, fun hc => hmem.2 (by simp [hc])⟩
      have hhead := Tag.head?_of_read? h
      simpa using hhead

theorem parted_of_bracket (as : List Char) {bs : List Char} (h : ∀ c ∈ bs.head?, c = '[') :
    Parted as bs := by
  intro x _ hx hn
  rw [Option.eq_none_iff_forall_ne_some]
  intro t ht
  obtain ⟨-, -, c, cs, ⟨rest, rfl⟩, hne⟩ := across_of_read? hx hn ht
  exact hne (h c rfl)

theorem parted_of_tag {t : Tag} (ht : t.Written) (pre bs : List Char) :
    Parted (pre ++ t.chars) bs := by
  intro x hs hx hn
  rw [Option.eq_none_iff_forall_ne_some]
  intro u hu
  obtain ⟨htail, hhead, -⟩ := across_of_read? hx hn hu
  have hne : x ≠ t.chars := by
    rintro rfl
    rw [Tag.read?_eq_some_iff.2 ⟨ht, List.prefix_rfl⟩] at hn
    cases hn
  rcases List.suffix_or_suffix_of_suffix hs (List.suffix_append pre t.chars) with ⟨q, hq⟩ | ⟨q, rfl⟩
  · -- `x` would start with a bracket inside `t`
    cases q with
    | nil => exact hne hq
    | cons c q =>
      refine ht.not_mem_tail ?_
      rw [← hq, List.cons_append, List.tail_cons]
      exact List.mem_append_right _ (List.mem_of_head? hhead)
  · -- the bracket of `t` would stand inside the tag `u`
    cases q with
    | nil => exact hne rfl
    | cons c q =>
      rw [List.cons_append, List.tail_cons] at htail
      exact htail (List.mem_append_right _ (by simp [Tag.chars]))

/-! ## Reading across a seam -/

/-- A text that no tag leaves is read up to some last characters, from which the reading goes
    on behind it. -/
theorem exists_scanFrom_append {as bs : List Char} (h : Parted as bs) (run : List Char) :
    ∃ ks rest, scanFrom run 0 as = ks ++ flush rest ∧
      scanFrom run 0 (as ++ bs) = ks ++ scanFrom rest 0 bs := by
  induction as using text_induction generalizing run with
  | nil => exact ⟨[], run, rfl, rfl⟩
  | tag t as hw ih =>
    obtain ⟨ks, rest, hl, hr⟩ := ih (fun x hx => h x (hx.trans (List.suffix_append _ _))) []
    refine ⟨flush run ++ tag t :: ks, rest, ?_, ?_⟩
    · rw [scanFrom_tag hw, hl, List.append_assoc, List.cons_append]
    · rw [List.append_assoc, scanFrom_tag hw, hr, List.append_assoc, List.cons_append]
  | char c as hn ih =>
    obtain ⟨ks, rest, hl, hr⟩ :=
      ih (fun x hx => h x (hx.trans (List.suffix_cons _ _))) (c :: run)
    have hn' : Tag.read? (c :: (as ++ bs)) = none := h (c :: as) List.suffix_rfl (by simp) hn
    exact ⟨ks, rest, by rw [scanFrom_char hn, hl], by rw [List.cons_append, scanFrom_char hn', hr]⟩

/-- Characters that are still to be given out start the text that is given out next. -/
theorem exists_scanFrom_eq {run : List Char} (hr : run ≠ []) (cs : List Char) :
    ∃ more ls, scanFrom run 0 cs = text (run.reverse ++ more) :: ls := by
  have hflush : ∀ run : List Char, run ≠ [] → flush run = [text run.reverse] := by
    rintro (_ | _) h
    · exact absurd rfl h
    · rfl
  induction cs using text_induction generalizing run with
  | nil => exact ⟨[], [], by rw [scanFrom, hflush run hr, List.append_nil]⟩
  | tag t rest hw ih =>
    exact ⟨[], _, by rw [scanFrom_tag hw, hflush run hr, List.append_nil, List.singleton_append]⟩
  | char c cs hn ih =>
    obtain ⟨more, ls, h⟩ := ih (List.cons_ne_nil c run)
    exact ⟨c :: more, ls, by rw [scanFrom_char hn, h]; simp⟩

/-- Two texts are read one after the other, unless a text would run across the seam. -/
theorem scan_append {as bs : List Char} (h : Parted as bs)
    (hs : ∀ x ∈ (scan as).getLast?, ∀ y ∈ (scan bs).head?, ¬ (x.isText = true ∧ y.isText = true)) :
    scan (as ++ bs) = scan as ++ scan bs := by
  obtain ⟨ks, rest, hl, hr⟩ := exists_scanFrom_append h []
  rw [← scan] at hl hr
  rw [hr, hl, List.append_assoc]
  congr 1
  cases rest with
  | nil => rfl
  | cons c rest =>
    have hlast : text (c :: rest).reverse ∈ (scan as).getLast? := by simp [hl, flush]
    -- what follows the text at the end of `as` is a tag, or nothing
    induction bs using text_induction with
    | nil => simp [scan, scanFrom, flush]
    | tag t bs hw => rw [scan, scanFrom_tag hw, scanFrom_tag hw, flush, List.nil_append]
    | char d bs hn =>
      obtain ⟨more, ls, hbs⟩ := exists_scanFrom_eq (List.cons_ne_nil d []) bs
      rw [← scanFrom_char hn, ← scan] at hbs
      exact absurd ⟨rfl, rfl⟩ (hs _ hlast (text ([d].reverse ++ more)) (by simp [hbs]))

/-- A tag is found wherever it stands, and nothing before it is read across it. -/
theorem scan_append_tag {t : Tag} (ht : t.Written) (pre post : List Char) :
    scan (pre ++ (t.chars ++ post)) = scan pre ++ tag t :: scan post := by
  have hscan : scan (t.chars ++ post) = tag t :: scan post := scanFrom_tag ht [] post
  have hparted : Parted pre (t.chars ++ post) := parted_of_bracket pre (by simp [Tag.chars])
  refine (scan_append hparted ?_).trans (by rw [hscan])
  simp [hscan, isText]

end Lexeme

/-! ## Positions -/

namespace Cursor

theorem passAll_append (k : Cursor) (as bs : List Char) :
    k.passAll (as ++ bs) = (k.passAll as).passAll bs := List.foldl_append

theorem seek_append (k : Cursor) (pre rest : List Char) :
    k.seek ((k.offset + Chars.width pre : Nat) : Int) (pre ++ rest) = k.passAll pre := by
  induction pre generalizing k with
  | nil => cases rest <;> simp [seek, passAll, Chars.width]
  | cons c pre ih =>
    have hpass : (k.pass c).offset = k.offset + Chars.unitsOf c := by
      have := offset_passAll k [c]
      simpa [passAll, Chars.width] using this
    have hpos := Chars.unitsOf_pos c
    have hlt : ¬ ((k.offset + Chars.width (c :: pre) : Nat) : Int) ≤ k.offset := by
      simp only [Chars.width]
      omega
    rw [List.cons_append, seek, if_neg hlt, Chars.width, ← Nat.add_assoc, ← hpass, ih]
    rfl

end Cursor

/-- Behind some characters of a text stands what is reached by passing over them. -/
theorem locate_width (pre rest : List Char) :
    locate (.ofList (pre ++ rest)) (Chars.width pre) = (Cursor.start.passAll pre).position := by
  have hseek := Cursor.seek_append .start pre rest
  rw [Cursor.start, Nat.zero_add, ← Cursor.start] at hseek
  rw [locate, String.toList_ofList, hseek, Cursor.position, Cursor.offset_passAll]
  simp [Cursor.start]

/-- The place in two texts, one after the other, of what stands somewhere in the second. -/
def behind (a b : String) (p : Position) : Position :=
  locate (a ++ b) (p.offset + Text.width a)

/-! ## Tokens -/

namespace Token

theorem place_append (k : Cursor) (ls ms : List Lexeme) :
    place k (ls ++ ms) = place k ls ++ place (k.passAll (ls.flatMap Lexeme.chars)) ms := by
  induction ls generalizing k with
  | nil => rfl
  | cons l ls ih =>
    rw [List.cons_append, place, place, ih, List.flatMap_cons, Cursor.passAll_append,
      List.cons_append]

/-- **A token is where its offset is located.** -/
theorem position_eq_locate {source : String} {t : Token} (h : t ∈ ofSource source) :
    t.position = locate source t.start := by
  obtain ⟨before, after, hscan, hp⟩ := mem_place_iff.1 h
  have hcs := Lexeme.flatMap_scan source.toList
  rw [hscan, List.flatMap_append] at hcs
  have hloc := locate_width (before.flatMap Lexeme.chars) ((t.lexeme :: after).flatMap Lexeme.chars)
  rw [hcs, String.ofList_toList] at hloc
  rw [start_eq t hp, Cursor.offset_passAll, hp, ← hloc]
  simp [Cursor.start]

theorem map_move_place {f : Position → Position} {k k' : Cursor} {ls : List Lexeme}
    (h : ∀ before after, ls = before ++ after →
      f (k.passAll (before.flatMap Lexeme.chars)).position =
        (k'.passAll (before.flatMap Lexeme.chars)).position) :
    (place k ls).map (move f) = place k' ls := by
  induction ls generalizing k k' with
  | nil => rfl
  | cons l ls ih =>
    have hl : move f ⟨l, k.position⟩ = ⟨l, k'.position⟩ := congrArg (Token.mk l) (h [] _ rfl)
    rw [place, place, List.map_cons, hl, ih]
    rintro before after rfl
    simpa [Cursor.passAll_append] using h (l :: before) after rfl

/-- No text runs across the seam of two sources: one of them is empty, the first one ends with
    a tag, or the second one starts with one. -/
def Meet (a b : String) : Prop :=
  a = "" ∨ b = "" ∨ (∃ t ∈ (ofSource a).getLast?, t.lexeme.isText = false) ∨
    ∃ t ∈ (ofSource b).head?, t.lexeme.isText = false

theorem lexeme_getLast?_ofSource {source : String} {t : Token}
    (h : t ∈ (ofSource source).getLast?) : t.lexeme ∈ (Lexeme.scan source.toList).getLast? := by
  rw [← map_lexeme_place .start (Lexeme.scan source.toList), List.getLast?_map]
  exact Option.mem_map_of_mem _ h

theorem lexeme_head?_ofSource {source : String} {t : Token}
    (h : t ∈ (ofSource source).head?) : t.lexeme ∈ (Lexeme.scan source.toList).head? := by
  rw [← map_lexeme_place .start (Lexeme.scan source.toList), List.head?_map]
  exact Option.mem_map_of_mem _ h

theorem Meet.parted {a b : String} (h : Meet a b) : Lexeme.Parted a.toList b.toList := by
  rcases h with rfl | rfl | ⟨t, ht, htag⟩ | ⟨t, ht, htag⟩
  · intro x hx hne
    exact absurd (List.suffix_nil.1 hx) hne
  · exact Lexeme.parted_of_bracket _ (by simp)
  · obtain ⟨ls, hls⟩ := List.getLast?_eq_some_iff.1 (lexeme_getLast?_ofSource ht)
    have hcs := Lexeme.flatMap_scan a.toList
    cases hl : t.lexeme with
    | text cs => simp [hl, Lexeme.isText] at htag
    | tag tag =>
      rw [hl] at hls
      have hmem : Lexeme.tag tag ∈ Lexeme.scanFrom [] 0 a.toList := by
        rw [← Lexeme.scan, hls]
        simp
      have hw : tag.Written := Lexeme.written_of_mem_scanFrom hmem
      rw [hls, List.flatMap_append, List.flatMap_singleton, Lexeme.chars] at hcs
      exact hcs ▸ Lexeme.parted_of_tag hw _ _
  · obtain ⟨ls, hls⟩ := List.head?_eq_some_iff.1 (lexeme_head?_ofSource ht)
    have hcs := Lexeme.flatMap_scan b.toList
    cases hl : t.lexeme with
    | text cs => simp [hl, Lexeme.isText] at htag
    | tag tag =>
      rw [hls, hl, List.flatMap_cons, Lexeme.chars] at hcs
      exact Lexeme.parted_of_bracket _ (by simp [← hcs, Tag.chars])

theorem Meet.scan_append {a b : String} (h : Meet a b) :
    Lexeme.scan (a.toList ++ b.toList) = Lexeme.scan a.toList ++ Lexeme.scan b.toList := by
  refine Lexeme.scan_append h.parted fun x hx y hy => ?_
  rintro ⟨htx, hty⟩
  rcases h with rfl | rfl | ⟨t, ht, htag⟩ | ⟨t, ht, htag⟩
  · simp [Lexeme.scan, Lexeme.scanFrom, Lexeme.flush] at hx
  · simp [Lexeme.scan, Lexeme.scanFrom, Lexeme.flush] at hy
  · rw [Option.mem_unique (lexeme_getLast?_ofSource ht) hx, htx] at htag
    cases htag
  · rw [Option.mem_unique (lexeme_head?_ofSource ht) hy, hty] at htag
    cases htag

/-- The tokens of two sources as one. -/
theorem ofSource_append {a b : String} (h : Meet a b) :
    ofSource (a ++ b) = ofSource a ++ (ofSource b).map (move (behind a b)) := by
  have hmove : (ofSource b).map (move (behind a b)) =
      place (Cursor.start.passAll a.toList) (Lexeme.scan b.toList) := by
    refine map_move_place fun before after hscan => ?_
    have hcs := Lexeme.flatMap_scan b.toList
    rw [hscan, List.flatMap_append] at hcs
    have hloc := locate_width (a.toList ++ before.flatMap Lexeme.chars)
      (after.flatMap Lexeme.chars)
    rw [List.append_assoc, hcs, ← String.toList_append, String.ofList_toList,
      Cursor.passAll_append] at hloc
    rw [← hloc, behind]
    simp [Cursor.position, Cursor.positionOf, Cursor.offset_passAll, Cursor.start, Text.width,
      Int.add_comm]
  rw [hmove, ofSource, String.toList_append, h.scan_append, place_append, Lexeme.flatMap_scan]
  rfl

end Token

/-! ## Descriptions -/

namespace Document

open Grammar Reading

theorem startsElse_map_move {f : Position → Position} {ts : List Token}
    (h : StartsElse (ts.map (Token.move f))) : StartsElse ts := by
  obtain ⟨o, ho, hh⟩ := h
  obtain ⟨t, ht, hmove⟩ := Option.map_eq_some_iff.1 (List.head?_map.symm.trans hh)
  obtain ⟨lexeme, p⟩ := t
  simp only [Token.move, OpenTag.token, Token.mk.injEq] at hmove
  exact ⟨⟨o.tag, p⟩, ho, by rw [ht, OpenTag.token, hmove.1]⟩

/-- Tokens after those of a description are read as they are on their own, at other positions. -/
theorem ofTokens_append_move {R : Registry} {ts us : List Token} {ns : List Node}
    (h : ofTokens R ts = .ok ns) (f : Position → Position) (hu : ¬ StartsElse us) :
    ofTokens R (ts ++ us.map (Token.move f)) =
      moved f (fun ms => ns ++ Node.moveAll f ms) (ofTokens R us) := by
  have hreads := reads_of_derives (ofTokens_eq_ok_iff.1 h) [] [] (us.map (Token.move f)) rfl
    (mt startsElse_map_move hu)
  have hcarry : (start.carry f ns).run R (us.map (Token.move f)) = _ := run_carry start us
  have hstart : start.carry f ns = ⟨[], [] ++ ns, .node⟩ := by
    simp [carry, carryList, carryLevels, start, Node.moveAll, Expectation.move]
  rw [ofTokens_eq_run, ofTokens_eq_run, ← hcarry, hstart]
  exact hreads

/-- **A source after a description is read as it is on its own, at other positions**: its
    nodes follow those of the description, and its error stays, each at the place of the
    same token. -/
theorem parse_append {R : Registry} {a b : String} {ns : List Node} (ha : parse R a = .ok ns)
    (hm : Token.Meet a b) (he : ¬ StartsElse (Token.ofSource b)) :
    Token.ofSource (a ++ b) =
        Token.ofSource a ++ (Token.ofSource b).map (Token.move (behind a b)) ∧
      (∀ ms, parse R b = .ok ms → parse R (a ++ b) = .ok (ns ++ Node.moveAll (behind a b) ms)) ∧
      ∀ e, parse R b = .error e →
        parse R (a ++ b) = .error ⟨e.problem, behind a b e.position⟩ := by
  have htokens := Token.ofSource_append hm
  have hparse := ofTokens_append_move ha (behind a b) he
  rw [← htokens] at hparse
  refine ⟨htokens, fun ms hb => ?_, fun e hb => ?_⟩
  · rw [parse] at hb
    rw [parse, hparse, hb, moved]
  · rw [parse] at hb
    rw [parse, hparse, hb, moved, ParseError.move]

theorem parse_append_half_tag :
    let a := "[if=site==fa]x[/if]\n[url="
    let b := "[user][fa=y][/fa][/user]"
    ∃ ns ms, parse .builtin a = .ok ns ∧ parse .builtin b = .ok ms ∧
      parse .builtin (a ++ b) = .ok (ns ++ Node.moveAll (behind a b) ms) := by
  intro a b
  obtain ⟨ns, ha⟩ := exists_of_isOk (show (parse .builtin a).isOk = true by decide +kernel)
  obtain ⟨ms, hb⟩ := exists_of_isOk (show (parse .builtin b).isOk = true by decide +kernel)
  have hhead : (Token.ofSource b).head? =
      some ⟨.tag ⟨false, "user".toList, none⟩, ⟨0, 1, 1⟩⟩ := by decide +kernel
  have hmeet : Token.Meet a b := .inr (.inr (.inr ⟨_, hhead, rfl⟩))
  have helse : ¬ StartsElse (Token.ofSource b) := by
    rintro ⟨o, ho, hh⟩
    have htag := congrArg (Option.map Token.lexeme) (hhead.symm.trans hh)
    simp only [Option.map_some, OpenTag.token, Option.some.injEq, Lexeme.tag.injEq] at htag
    exact absurd ho.2 (htag ▸ by decide)
  exact ⟨ns, ms, ha, hb, (parse_append ha hmeet helse).2.1 ms hb⟩

end Document

end Crosspost
