/-
  The tokens of a source are its segments.

  * `Tag.read?_eq_some_iff`: a tag is read exactly where a text starts with one that
    is written properly (`Tag.Written`);
  * `Lexeme.scan_split_iff`: the tags of a text stand where they are read, whatever
    stands before them;
  * `Token.Segments`: tokens that lie side by side over a source, and among which
    are the tags at all of its offsets;
  * `Token.segments_ofSource`: **so do the tokens of every source**.
-/
import Crosspost.Proofs.Description.Lexing
import Crosspost.Proofs.Text.Units

namespace Crosspost

/-! ## Reading a tag -/

namespace Tag

theorem mem_takeWhile {p : Char → Bool} {cs : List Char} : ∀ c ∈ cs.takeWhile p, p c = true := by
  intro c hc
  exact List.all_eq_true.1 List.all_takeWhile c hc

theorem written_of_readBody? {closing : Bool} {cs : List Char} {t : Tag}
    (h : readBody? closing cs = some t) :
    t.Written ∧ t.closing = closing ∧ ∃ rest, cs = t.writtenName ++ (t.ending ++ rest) := by
  cases cs with
  | nil => simp [readBody?] at h
  | cons c cs =>
    by_cases hc : c.isAlpha = true
    · have hsplit := List.takeWhile_append_dropWhile (p := isNameChar) (l := c :: cs)
      have hstart : (c :: cs).takeWhile isNameChar = c :: cs.takeWhile isNameChar := by
        rw [List.takeWhile_cons_of_pos]
        simp [isNameChar, Char.isAlphanum, hc]
      have hname : ∀ attr, (∀ as ∈ attr, ∀ a ∈ as, isAttrChar a = true) →
          Written ⟨closing, (c :: cs).takeWhile isNameChar, attr⟩ := by
        intro attr hattr
        refine ⟨?_, by simp [hstart], mem_takeWhile, hattr⟩
        rw [hstart]
        rintro d ⟨⟩
        exact hc
      simp only [readBody?, hc, if_true] at h
      split at h
      · next rest hdrop =>
        cases h
        rw [hdrop] at hsplit
        exact ⟨hname none (by simp), rfl, rest, hsplit.symm⟩
      · next rest hdrop =>
        split at h
        · next rest' hdrop' =>
          cases h
          have hattr := List.takeWhile_append_dropWhile (p := isAttrChar) (l := rest)
          rw [hdrop] at hsplit
          rw [hdrop'] at hattr
          refine ⟨hname _ (by rintro _ ⟨⟩; exact mem_takeWhile), rfl, rest', ?_⟩
          calc c :: cs = (c :: cs).takeWhile isNameChar ++ '=' :: rest := hsplit.symm
            _ = (c :: cs).takeWhile isNameChar ++
                '=' :: (rest.takeWhile isAttrChar ++ ']' :: rest') := by rw [hattr]
            _ = _ := by simp [ending]
        · cases h
      · cases h
    · simp [readBody?, hc] at h

/-- **A tag is read exactly where a text starts with one.** -/
theorem read?_eq_some_iff {cs : List Char} {t : Tag} :
    read? cs = some t ↔ t.Written ∧ t.chars <+: cs := by
  constructor
  · intro h
    unfold read? at h
    split at h
    · next cs =>
      obtain ⟨hw, hc, rest, rfl⟩ := written_of_readBody? h
      exact ⟨hw, rest, by simp [chars_eq, hc]⟩
    · next cs _ =>
      obtain ⟨hw, hc, rest, rfl⟩ := written_of_readBody? h
      exact ⟨hw, rest, by simp [chars_eq, hc]⟩
    · cases h
  · rintro ⟨hw, rest, rfl⟩
    exact read?_append hw rest

theorem chars_ne_nil (t : Tag) : t.chars ≠ [] := by simp [chars]

/-- A tag holds no bracket that could open another one. -/
theorem Written.not_mem_tail {t : Tag} (h : t.Written) : '[' ∉ t.chars.tail := by
  have hname : '[' ∉ t.writtenName := fun hm => absurd (h.name _ hm) (by decide)
  have hattr : ∀ cs ∈ t.writtenAttr, '[' ∉ cs := fun cs hcs hm =>
    absurd (h.attr cs hcs _ hm) (by decide)
  rw [chars_eq, List.tail_cons]
  cases ha : t.writtenAttr with
  | none => cases t.closing <;> simp [ending, ha, hname]
  | some cs =>
    have := hattr cs (by rw [ha]; rfl)
    cases t.closing <;> simp [ending, ha, hname, this]

theorem head?_of_read? {cs : List Char} {t : Tag} (h : read? cs = some t) :
    cs.head? = some '[' := by
  obtain ⟨-, rest, rfl⟩ := read?_eq_some_iff.1 h
  rfl

end Tag

/-! ## Tags of a text -/

namespace Lexeme

/-- A text is empty, or starts with a tag, or with a character at which none starts. -/
theorem text_induction {P : List Char → Prop} (nil : P [])
    (tag : ∀ (t : Tag) rest, t.Written → P rest → P (t.chars ++ rest))
    (char : ∀ c cs, Tag.read? (c :: cs) = none → P cs → P (c :: cs)) (cs : List Char) : P cs := by
  induction hn : cs.length using Nat.strong_induction_on generalizing cs with
  | _ n ih =>
    subst hn
    cases cs with
    | nil => exact nil
    | cons c cs =>
      cases hr : Tag.read? (c :: cs) with
      | none => exact char c cs hr (ih cs.length (by simp) cs rfl)
      | some t =>
        obtain ⟨hw, rest, hrest⟩ := Tag.read?_eq_some_iff.1 hr
        have hlen := congrArg List.length hrest
        have hpos := List.length_pos_iff.2 t.chars_ne_nil
        rw [List.length_append] at hlen
        rw [← hrest] at ih ⊢
        exact tag t rest hw (ih rest.length (by rw [List.length_append]; omega) rest rfl)

theorem scanFrom_char {c : Char} {cs : List Char} (h : Tag.read? (c :: cs) = none)
    (run : List Char) : scanFrom run 0 (c :: cs) = scanFrom (c :: run) 0 cs := by
  rw [scanFrom, h]

theorem flatMap_flush (run : List Char) : (flush run).flatMap chars = run.reverse := by
  cases run <;> simp [flush, chars]

theorem flatMap_scanFrom (run cs : List Char) :
    (scanFrom run 0 cs).flatMap chars = run.reverse ++ cs := by
  induction cs using text_induction generalizing run with
  | nil => simp [scanFrom, flatMap_flush]
  | tag t rest hw ih => simp [scanFrom_tag hw, flatMap_flush, chars, ih]
  | char c cs hr ih => simp [scanFrom_char hr, ih]

theorem flatMap_scan (cs : List Char) : (scan cs).flatMap chars = cs := flatMap_scanFrom [] cs

theorem written_of_mem_scanFrom {run cs : List Char} {t : Tag} (h : tag t ∈ scanFrom run 0 cs) :
    t.Written := by
  have hflush : ∀ run : List Char, tag t ∉ flush run := by
    rintro (_ | _) <;> simp [flush]
  induction cs using text_induction generalizing run with
  | nil => exact absurd h (hflush run)
  | tag u rest hw ih =>
    rw [scanFrom_tag hw, List.mem_append, List.mem_cons] at h
    rcases h with h | ⟨⟨⟩⟩ | h
    · exact absurd h (hflush run)
    · exact hw
    · exact ih h
  | char c cs hr ih =>
    rw [scanFrom_char hr] at h
    exact ih h

/-- A tag that is read somewhere is a lexeme there: it cannot stand inside another
    tag. -/
theorem scanFrom_split (run pre : List Char) {rest : List Char} {t : Tag}
    (h : Tag.read? rest = some t) : ∃ ks ls, scanFrom run 0 (pre ++ rest) = ks ++ tag t :: ls ∧
    ks.flatMap chars = run.reverse ++ pre := by
  induction hcs : pre ++ rest using text_induction generalizing run pre with
  | nil =>
    obtain ⟨-, rfl⟩ := List.append_eq_nil_iff.1 hcs
    simp [Tag.read?] at h
  | char c cs hr ih =>
    cases pre with
    | nil =>
      rw [List.nil_append] at hcs
      rw [← hcs, h] at hr
      cases hr
    | cons d pre =>
      obtain ⟨rfl, htail⟩ := List.cons.inj hcs
      obtain ⟨ks, ls, hscan, hks⟩ := ih (d :: run) pre htail
      exact ⟨ks, ls, by rw [scanFrom_char hr, hscan], by simp [hks]⟩
  | tag u after hw ih =>
    rw [scanFrom_tag hw]
    rcases List.append_eq_append_iff.1 hcs with ⟨in_u, hu, hafter⟩ | ⟨pre', rfl, hafter⟩
    · cases pre with
      | nil =>
        rw [List.nil_append] at hcs
        rw [hcs, Tag.read?_append hw] at h
        cases h
        exact ⟨flush run, _, rfl, by simp [flatMap_flush]⟩
      | cons d pre =>
        -- a bracket inside the tag `u`, or else the end of `u`
        cases in_u with
        | nil =>
          rw [List.append_nil] at hu
          obtain ⟨ks, ls, hscan, hks⟩ := ih [] [] hafter
          refine ⟨flush run ++ tag u :: ks, ls, by simp [hscan], ?_⟩
          simp [flatMap_flush, chars, hu, hks]
        | cons e in_u =>
          have hhead := Tag.head?_of_read? h
          rw [hafter, List.cons_append, List.head?_cons, Option.some.injEq] at hhead
          exact absurd (by simp [hu, hhead]) hw.not_mem_tail
    · obtain ⟨ks, ls, hscan, hks⟩ := ih [] pre' hafter.symm
      refine ⟨flush run ++ tag u :: ks, ls, by simp [hscan], ?_⟩
      simp [flatMap_flush, chars, hks]

/-- **The tags of a text stand where they are read.** -/
theorem scan_split_iff {cs pre : List Char} {t : Tag} :
    (∃ ks ls, scan cs = ks ++ tag t :: ls ∧ ks.flatMap chars = pre) ↔
      ∃ rest, cs = pre ++ rest ∧ Tag.read? rest = some t := by
  constructor
  · rintro ⟨ks, ls, hscan, rfl⟩
    have hm : tag t ∈ scanFrom [] 0 cs := by
      rw [← scan, hscan]
      simp
    have hw : t.Written := written_of_mem_scanFrom hm
    have hcs := flatMap_scan cs
    rw [hscan, List.flatMap_append, List.flatMap_cons] at hcs
    exact ⟨_, hcs.symm, Tag.read?_append hw _⟩
  · rintro ⟨rest, rfl, h⟩
    exact scanFrom_split [] pre h

theorem not_infix_of_mem_scan {cs x : List Char} (h : text x ∈ scan cs) {t : Tag} (hw : t.Written) :
    ¬ t.chars <:+: x := by
  rintro ⟨a, b, hx⟩
  obtain ⟨ks, ls, hscan⟩ := List.append_of_mem h
  -- the tag would be a lexeme after the part `a` of the text
  have hcs := flatMap_scan cs
  rw [hscan, List.flatMap_append, List.flatMap_cons, chars, ← hx] at hcs
  simp only [List.append_assoc] at hcs
  rw [← List.append_assoc] at hcs
  obtain ⟨ks', ls', hscan', hks'⟩ :=
    scan_split_iff.2 ⟨_, hcs.symm, Tag.read?_append hw (b ++ ls.flatMap chars)⟩
  have hpos := List.length_pos_iff.2 t.chars_ne_nil
  have hlen := congrArg List.length hks'
  have hxlen := congrArg List.length hx
  simp only [List.length_append] at hlen hxlen
  rw [hscan'] at hscan
  rcases List.append_eq_append_iff.1 hscan with ⟨ms, rfl, hms⟩ | ⟨ms, rfl, hms⟩
  · cases ms with
    | nil => cases hms
    | cons m ms =>
      cases hms
      simp only [List.flatMap_append, List.flatMap_cons, List.length_append, chars] at hlen
      omega
  · cases ms with
    | nil => cases hms
    | cons m ms =>
      cases hms
      simp only [List.flatMap_append, List.flatMap_cons, List.length_append, chars] at hlen
      omega

end Lexeme

/-! ## Tokens -/

namespace Cursor

theorem offset_passAll (k : Cursor) (cs : List Char) :
    (k.passAll cs).offset = k.offset + Chars.width cs := by
  induction cs generalizing k with
  | nil => rfl
  | cons c cs ih =>
    have hc : (k.pass c).offset = k.offset + Chars.unitsOf c := by
      unfold pass
      split_ifs with h
      · rw [h]
        rfl
      · rfl
    rw [passAll, List.foldl_cons, ← passAll, ih, hc, Chars.width, Nat.add_assoc]

end Cursor

namespace Token

/-- A token is a lexeme where the ones before it end. -/
theorem mem_place_iff {k : Cursor} {ls : List Lexeme} {t : Token} :
    t ∈ place k ls ↔ ∃ before after, ls = before ++ t.lexeme :: after ∧
      t.position = (k.passAll (before.flatMap Lexeme.chars)).position := by
  induction ls generalizing k with
  | nil => simp [place]
  | cons l ls ih =>
    rw [place, List.mem_cons, ih]
    constructor
    · rintro (rfl | ⟨before, after, rfl, hp⟩)
      · exact ⟨[], ls, rfl, rfl⟩
      · refine ⟨l :: before, after, rfl, ?_⟩
        simpa [Cursor.passAll] using hp
    · rintro ⟨before, after, hls, hp⟩
      cases before with
      | nil =>
        obtain ⟨rfl, rfl⟩ := List.cons.inj hls
        left
        obtain ⟨lexeme, position⟩ := t
        exact congrArg _ hp
      | cons m before =>
        obtain ⟨rfl, rfl⟩ := List.cons.inj hls
        refine .inr ⟨before, after, rfl, ?_⟩
        simpa [Cursor.passAll] using hp

theorem start_eq (t : Token) {k : Cursor} (h : t.position = k.position) : t.start = k.offset :=
  congrArg Position.offset h

theorem isChain_place (k : Cursor) (ls : List Lexeme) :
    (place k ls).IsChain fun a b => b.start = a.stop := by
  induction ls generalizing k with
  | nil => exact .nil
  | cons l ls ih =>
    rw [place]
    cases ls with
    | nil => exact .singleton _
    | cons m ls =>
      have hrest := ih (k.passAll l.chars)
      rw [place] at hrest ⊢
      refine List.isChain_cons_cons.2 ⟨?_, hrest⟩
      simp [start, stop, Cursor.position, Cursor.positionOf, Cursor.offset_passAll]

theorem stop_getLast?_place {k : Cursor} {ls : List Lexeme} {t : Token}
    (h : t ∈ (place k ls).getLast?) :
    t.stop = k.offset + Chars.width (ls.flatMap Lexeme.chars) := by
  induction ls generalizing k with
  | nil => cases h
  | cons l ls ih =>
    rw [List.flatMap_cons, Chars.width_append]
    cases ls with
    | nil =>
      rw [place, place] at h
      cases h
      simp [start, stop, Cursor.position, Cursor.positionOf, Chars.width]
    | cons m ls =>
      have hlast : t ∈ (place (k.passAll l.chars) (m :: ls)).getLast? := by
        rw [place] at h ⊢
        rwa [place, List.getLast?_cons_cons] at h
      rw [ih hlast, Cursor.offset_passAll]
      omega

/-- A token of a source stands between what is before and after it there. -/
theorem split_of_mem {source : String} {t : Token} (h : t ∈ ofSource source) :
    ∃ before after, source.toList = before ++ (t.lexeme.chars ++ after) ∧
      t.start = Chars.width before := by
  obtain ⟨ks, ls, hscan, hp⟩ := mem_place_iff.1 h
  have hcs := Lexeme.flatMap_scan source.toList
  rw [hscan, List.flatMap_append, List.flatMap_cons] at hcs
  refine ⟨_, _, hcs.symm, ?_⟩
  rw [start_eq t hp, Cursor.offset_passAll]
  simp [Cursor.start]

theorem chars_ne_nil_of_mem {source : String} {t : Token} (h : t ∈ ofSource source) :
    t.lexeme.chars ≠ [] := by
  obtain ⟨ks, ls, hscan, -⟩ := mem_place_iff.1 h
  cases hl : t.lexeme with
  | tag tag => exact tag.chars_ne_nil
  | text cs =>
    rintro rfl
    refine (Lexeme.apart_scan source.toList).nonempty ?_
    simp [hscan, hl]

/-- The tags of a source stand where it reads like one. -/
theorem exists_tag_iff {source : String} {p : Nat} {tag : Tag} :
    (∃ t ∈ ofSource source, t.start = p ∧ t.lexeme = .tag tag) ↔
      tag.Written ∧ Chars.units tag.chars <+: (Chars.units source.toList).drop p := by
  rw [Chars.units_prefix_drop tag.chars_ne_nil]
  constructor
  · rintro ⟨t, ht, hp, hl⟩
    obtain ⟨ks, ls, hscan, hpos⟩ := mem_place_iff.1 ht
    rw [hl] at hscan
    obtain ⟨rest, hcs, hr⟩ := Lexeme.scan_split_iff.1 ⟨ks, ls, hscan, rfl⟩
    obtain ⟨hw, hrest⟩ := Tag.read?_eq_some_iff.1 hr
    refine ⟨hw, _, rest, hcs, ?_, hrest⟩
    rw [start_eq t hpos, Cursor.offset_passAll] at hp
    simp only [Cursor.start, Nat.zero_add] at hp
    exact Int.ofNat_inj.1 hp
  · rintro ⟨hw, pre, rest, hcs, hp, hrest⟩
    obtain ⟨ks, ls, hscan, hks⟩ :=
      Lexeme.scan_split_iff.2 ⟨rest, hcs, Tag.read?_eq_some_iff.2 ⟨hw, hrest⟩⟩
    refine ⟨⟨.tag tag, (Cursor.start.passAll pre).position⟩,
      mem_place_iff.2 ⟨ks, ls, hscan, by rw [hks]⟩, ?_, rfl⟩
    simp [start, Cursor.position, Cursor.positionOf, Cursor.offset_passAll, Cursor.start, hp]

/-- Tokens that lie side by side over `source`, with a tag just at those offsets from which
    the source reads like one. Offsets count code units. -/
structure Segments (source : String) (ts : List Token) : Prop where
  whole : ts.flatMap (·.lexeme.chars) = source.toList
  first : ∀ t ∈ ts.head?, t.start = 0
  next : ts.IsChain fun a b => b.start = a.stop
  last : ∀ t ∈ ts.getLast?, t.stop = Text.width source
  nonempty : ∀ t ∈ ts, t.start < t.stop
  /-- From its start to its stop the source holds what the token does. -/
  content : ∀ t ∈ ts, (Chars.units source.toList).extract t.start.toNat t.stop.toNat =
    Chars.units t.lexeme.chars
  separate : ts.IsChain fun a b => ¬ (a.lexeme.isText = true ∧ b.lexeme.isText = true)
  tag : ∀ (p : Nat) (tag : Tag), (∃ t ∈ ts, t.start = p ∧ t.lexeme = .tag tag) ↔
    tag.Written ∧ Chars.units tag.chars <+: (Chars.units source.toList).drop p
  /-- A tag stops after its last bracket, has its name in lower case and, after `=`, the
      trimmed attribute. -/
  reading : ∀ t ∈ ts, ∀ tag, t.lexeme = .tag tag →
    t.stop = t.start + Chars.width tag.chars ∧
      tag.name = Text.lower (.ofList tag.writtenName) ∧
      tag.attr = tag.writtenAttr.map fun cs => Text.trim (.ofList cs)
  plain : ∀ t ∈ ts, ∀ cs, t.lexeme = .text cs → ∀ tag : Tag, tag.Written → ¬ tag.chars <:+: cs

/-- **The tokens of a source are its segments, and its tags stand wherever it reads
    like one.** -/
theorem segments_ofSource (source : String) : Segments source (ofSource source) where
  whole := by
    have h := Lexeme.flatMap_scan source.toList
    rw [← map_lexeme_place .start (Lexeme.scan source.toList), List.flatMap_map] at h
    exact h
  first := by
    intro t ht
    unfold ofSource at ht
    cases hscan : Lexeme.scan source.toList with
    | nil => simp [hscan, place] at ht
    | cons l ls =>
      rw [hscan, place, List.head?_cons] at ht
      cases ht
      rfl
  next := isChain_place _ _
  last := by
    intro t ht
    rw [stop_getLast?_place ht, Lexeme.flatMap_scan]
    simp [Cursor.start, Text.width]
  nonempty := by
    intro t ht
    have := Chars.width_pos (chars_ne_nil_of_mem ht)
    rw [stop]
    omega
  content := by
    intro t ht
    obtain ⟨before, after, hsource, hstart⟩ := split_of_mem ht
    have hstop : t.stop.toNat = (Chars.units before).length + (Chars.units t.lexeme.chars).length := by
      rw [stop, hstart]
      simp only [Chars.length_units]
      omega
    rw [List.extract_eq_take_drop, hstop, hstart, hsource, Int.toNat_natCast, Chars.units_append,
      Chars.units_append, ← Chars.length_units before, List.drop_left, Nat.add_sub_cancel_left,
      List.take_left]
  separate := (List.isChain_map _).1 (apart_ofSource source).separate
  tag := fun p tag => exists_tag_iff
  reading := by
    intro t ht tag hl
    refine ⟨by rw [stop, hl]; rfl, by simp [Tag.name, Text.lower], ?_⟩
    simp only [Tag.attr, Text.trim, String.toList_ofList]
  plain := by
    intro t ht cs hl tag hw
    obtain ⟨ks, ls, hscan, -⟩ := mem_place_iff.1 ht
    rw [hl] at hscan
    have hm : Lexeme.text cs ∈ Lexeme.scan source.toList := by simp [hscan]
    exact Lexeme.not_infix_of_mem_scan hm hw

end Token

end Crosspost
