/-
  Offsets and their positions.

  * `Chars.feedsBefore cs n`: the line feeds among the first `n` code units of a text, and
    `Chars.startOf cs n`: where the line behind `n` line feeds starts;
  * `Cursor.line_seek`, `Cursor.lineStart_seek`: the line that is reached when an offset is looked
    for, from any cursor on; `locate_eq` says it of a whole text;
  * `Position.behind a p`: the position `p` of a text that stands behind the text `a`;
  * `Position.Precedes`: lines are compared first, and columns in the same line;
  * `locateDouble_eq_locate`: offsets and columns below 2^53 are held exactly;
  * `locate_faithful`: **positions increase with offsets, give them back, and move with the text
    before them.**
-/
import Mathlib.Algebra.GroupWithZero.Nat
import Mathlib.Data.List.DropRight
import Crosspost.Proofs.Description.Joining
import Crosspost.Proofs.Number.Decimals
import Crosspost.Proofs.Text.Splitting

namespace Crosspost

/-! ## Lines by their numbers -/

namespace Chars

/-- The number of line feeds before an offset. -/
def feedsBefore (cs : List Char) (n : Nat) : Nat := ((units cs).take n).count 10

/-- The offset at which the line behind `n` line feeds starts: the lines before it, each with its
    line feed. -/
def startOf (cs : List Char) (n : Nat) : Nat := (((splitOn '\n' cs).take n).map (width · + 1)).sum

@[simp] theorem feedsBefore_nil (n : Nat) : feedsBefore [] n = 0 := by simp [feedsBefore]

@[simp] theorem feedsBefore_zero (cs : List Char) : feedsBefore cs 0 = 0 := by simp [feedsBefore]

theorem feedsBefore_mono (cs : List Char) {m n : Nat} (h : m ≤ n) :
    feedsBefore cs m ≤ feedsBefore cs n :=
  (List.take_sublist_take_left h).count_le 10

theorem feed_not_mem_codeUnits {c : Char} (h : c ≠ '\n') : 10 ∉ codeUnits c := by
  rcases codeUnits_cases c with ⟨hc, -⟩ | ⟨n, -, -, hc⟩ <;> rw [hc]
  · exact fun hm => h (Char.toNat_inj.1 (List.mem_singleton.1 hm).symm)
  · simp only [List.mem_cons, List.not_mem_nil, or_false]
    omega

theorem feedsBefore_feed (cs : List Char) (n : Nat) :
    feedsBefore ('\n' :: cs) (n + 1) = feedsBefore cs n + 1 := by
  have hunit : codeUnits '\n' = [10] := rfl
  simp [feedsBefore, hunit]

theorem feedsBefore_cons {c : Char} (h : c ≠ '\n') (cs : List Char) (n : Nat) :
    feedsBefore (c :: cs) n = feedsBefore cs (n - unitsOf c) := by
  have hnone : ((codeUnits c).take n).count 10 = 0 :=
    List.count_eq_zero.2 fun hm => feed_not_mem_codeUnits h (List.mem_of_mem_take hm)
  rw [feedsBefore, units_cons, List.take_append, List.count_append, hnone, length_codeUnits,
    Nat.zero_add, feedsBefore]

@[simp] theorem startOf_zero (cs : List Char) : startOf cs 0 = 0 := by simp [startOf]

theorem startOf_feed (cs : List Char) (n : Nat) :
    startOf ('\n' :: cs) (n + 1) = startOf cs n + 1 := by
  rw [startOf, splitOn_cons_self, List.take_succ_cons, List.map_cons, List.sum_cons, startOf]
  simp only [width]
  omega

theorem startOf_cons {c : Char} (h : c ≠ '\n') (cs : List Char) (n : Nat) :
    startOf (c :: cs) (n + 1) = startOf cs (n + 1) + unitsOf c := by
  rw [startOf, startOf, splitOn_cons_of_ne h]
  cases hs : splitOn '\n' cs with
  | nil => exact absurd hs (split_ne_nil _ cs)
  | cons first pieces =>
    simp only [List.modifyHead_cons, List.take_succ_cons, List.map_cons, List.sum_cons, width]
    omega

end Chars

/-! ## Cursors -/

namespace Cursor

open Chars

variable {k : Cursor} {offset : Int} {cs : List Char}

theorem line_pass (k : Cursor) (c : Char) :
    (k.pass c).line = k.line + if c = '\n' then 1 else 0 := by
  rw [pass]
  split_ifs <;> rfl

/-- Behind a character, one line feed less is looked for if the character was one. -/
theorem feedsBefore_pass (h : ¬ offset ≤ k.offset) (c : Char) (cs : List Char) :
    feedsBefore (c :: cs) (offset - k.offset).toNat =
      feedsBefore cs (offset - (k.pass c).offset).toNat + if c = '\n' then 1 else 0 := by
  by_cases hc : c = '\n'
  · subst hc
    have hnext : (offset - k.offset).toNat = (offset - (k.offset + 1 : Nat)).toNat + 1 := by
      omega
    rw [hnext, feedsBefore_feed, pass, if_pos rfl, if_pos rfl]
  · have hnext : (offset - (k.offset + unitsOf c : Nat)).toNat =
        (offset - k.offset).toNat - unitsOf c := by omega
    rw [feedsBefore_cons hc, pass, if_neg hc, if_neg hc, ← hnext, Nat.add_zero]

theorem line_seek (k : Cursor) (offset : Int) (cs : List Char) :
    (k.seek offset cs).line = k.line + feedsBefore cs (offset - k.offset).toNat := by
  induction cs generalizing k with
  | nil => simp [seek]
  | cons c cs ih =>
    rw [seek]
    split_ifs with hle
    · have hzero : (offset - k.offset).toNat = 0 := by omega
      rw [hzero, feedsBefore_zero, Nat.add_zero]
    · rw [ih, feedsBefore_pass hle, line_pass]
      omega

/-- The line that is reached is the one of the cursor, or it starts behind some line feeds. -/
theorem lineStart_seek (k : Cursor) (offset : Int) (cs : List Char) :
    (k.seek offset cs).lineStart =
      if feedsBefore cs (offset - k.offset).toNat = 0 then k.lineStart
      else k.offset + startOf cs (feedsBefore cs (offset - k.offset).toNat) := by
  induction cs generalizing k with
  | nil => simp [seek]
  | cons c cs ih =>
    rw [seek]
    by_cases hle : offset ≤ k.offset
    · have hzero : (offset - k.offset).toNat = 0 := by omega
      simp [hzero, hle]
    · rw [if_neg hle, ih, feedsBefore_pass hle]
      generalize feedsBefore cs (offset - (k.pass c).offset).toNat = n
      by_cases hc : c = '\n'
      · subst hc
        rw [if_pos rfl, if_neg (Nat.succ_ne_zero n), startOf_feed, pass, if_pos rfl]
        split_ifs with hn
        · rw [hn, startOf_zero, Nat.zero_add]
        · exact Nat.add_right_comm ..
      · rw [if_neg hc, Nat.add_zero, pass, if_neg hc]
        cases n with
        | zero => rfl
        | succ n =>
          rw [if_neg (Nat.succ_ne_zero n), if_neg (Nat.succ_ne_zero n), startOf_cons hc]
          exact (Nat.add_right_comm ..).trans (Nat.add_assoc ..)

/-- An offset behind some characters is looked for behind them. -/
theorem seek_behind (h : k.offset + width cs ≤ offset) (rest : List Char) :
    k.seek offset (cs ++ rest) = (k.passAll cs).seek offset rest := by
  induction cs generalizing k with
  | nil => rfl
  | cons c cs ih =>
    have hpass := offset_passAll k [c]
    have hpos := unitsOf_pos c
    simp only [width, passAll, List.foldl_cons, List.foldl_nil] at h hpass
    rw [List.cons_append, seek, if_neg (by omega), ih (by omega)]
    rfl

theorem line_passAll (k : Cursor) (cs : List Char) :
    (k.passAll cs).line = k.line + cs.count '\n' := by
  induction cs generalizing k with
  | nil => rfl
  | cons c cs ih =>
    rw [passAll, List.foldl_cons, ← passAll, ih, line_pass, List.count_cons]
    simp only [beq_iff_eq]
    omega

/-- The last line is what follows the last line feed. -/
theorem lineStart_passAll (cs : List Char) :
    (start.passAll cs).lineStart + width (cs.rtakeWhile (· ≠ '\n')) = width cs := by
  induction cs using List.reverseRecOn with
  | nil => rfl
  | append_singleton cs c ih =>
    have hoffset := offset_passAll start cs
    have hlast : start.passAll (cs ++ [c]) = (start.passAll cs).pass c := passAll_append _ _ _
    rw [hlast, pass]
    split_ifs with hc
    · subst hc
      rw [List.rtakeWhile_concat_neg _ _ _ (by simp), hoffset]
      simp [start, width, unitsOf]
    · rw [List.rtakeWhile_concat_pos _ _ _ (by simpa using hc), width_append, width_append]
      simp only
      omega

end Cursor

/-! ## Positions -/

open Chars

/-- From the start of a text, the line behind the line feeds before the offset is reached. -/
theorem Cursor.lineStart_seek_start (offset : Int) (cs : List Char) :
    (start.seek offset cs).lineStart = startOf cs (feedsBefore cs offset.toNat) := by
  have hzero : offset - (start.offset : Int) = offset := Int.sub_zero offset
  rw [lineStart_seek, hzero]
  split_ifs with hn
  · rw [hn, startOf_zero]
    rfl
  · exact Nat.zero_add _

/-- **The position of an offset**: its line comes after the line feeds before the offset, and its
    column is counted from the start of the line. -/
theorem locate_eq (source : String) (offset : Int) :
    locate source offset = ⟨offset, feedsBefore source.toList offset.toNat + 1,
      offset - startOf source.toList (feedsBefore source.toList offset.toNat) + 1⟩ := by
  have hzero : offset - (Cursor.start.offset : Int) = offset := Int.sub_zero offset
  have hone : Cursor.start.line = 1 := rfl
  rw [locate, Cursor.positionOf, Cursor.lineStart_seek_start, Cursor.line_seek, hzero, hone,
    Nat.add_comm]
  rfl

/-- What is looked for from a cursor on is in its line, or as many lines further down as it is in
    the rest of the text. -/
theorem Cursor.positionOf_seek (k : Cursor) (rest : String) (offset : Nat) :
    let p := locate rest offset
    (k.seek (k.offset + offset) rest.toList).positionOf (k.offset + offset) =
      ⟨k.offset + offset, p.line - 1 + k.line,
        if p.line = 1 then p.column + (k.offset - k.lineStart) else p.column⟩ := by
  have hrest : (k.offset + offset - k.offset : Int).toNat = offset := by omega
  have hline := Cursor.line_seek k (k.offset + offset) rest.toList
  have hstart := Cursor.lineStart_seek k (k.offset + offset) rest.toList
  rw [hrest] at hline hstart
  simp only [locate_eq, Int.toNat_natCast, Cursor.positionOf, hline, hstart, Position.mk.injEq,
    true_and]
  by_cases hn : feedsBefore rest.toList offset = 0
  · have hfirst : ((0 : Nat) : Int) + 1 = 1 := rfl
    simp only [hn, startOf_zero, hfirst, if_true]
    omega
  · have hsecond : ¬ (feedsBefore rest.toList offset : Int) + 1 = 1 := by omega
    simp only [hn, hsecond, if_false]
    omega

/-- The position that one of a text becomes behind another text: as many lines further down as
    that text has line feeds, and in the first line behind that text's last line. -/
def Position.behind (a : String) (p : Position) : Position :=
  ⟨Text.width a + p.offset, p.line + a.toList.count '\n',
    if p.line = 1 then p.column + width (a.toList.rtakeWhile (· ≠ '\n')) else p.column⟩

theorem locate_behind (a b : String) (offset : Nat) :
    locate (a ++ b) (Text.width a + offset) = (locate b offset).behind a := by
  let k := Cursor.start.passAll a.toList
  have hoffset : k.offset = Text.width a := by
    rw [Cursor.offset_passAll]
    exact Nat.zero_add _
  have hline : k.line = 1 + a.toList.count '\n' := Cursor.line_passAll _ _
  have hcolumn : k.lineStart + width (a.toList.rtakeWhile (· ≠ '\n')) = k.offset :=
    (Cursor.lineStart_passAll a.toList).trans hoffset.symm
  have hseek : Cursor.start.seek (k.offset + offset) (a.toList ++ b.toList) =
      k.seek (k.offset + offset) b.toList := by
    refine Cursor.seek_behind ?_ _
    have hstart : Cursor.start.offset = 0 := rfl
    rw [hstart, hoffset, Text.width]
    omega
  rw [← hoffset, locate, String.toList_append, hseek, Cursor.positionOf_seek, Position.behind,
    ← hoffset, hline]
  simp only [locate_eq, Position.mk.injEq, true_and]
  split_ifs <;> omega

/-! ## Offsets held as doubles -/

theorem Chars.startOf_feedsBefore_le (cs : List Char) (n : Nat) :
    startOf cs (feedsBefore cs n) ≤ n := by
  induction cs generalizing n with
  | nil => simp
  | cons c cs ih =>
    by_cases hc : c = '\n'
    · subst hc
      cases n with
      | zero => simp
      | succ n =>
        rw [feedsBefore_feed, startOf_feed]
        exact Nat.succ_le_succ (ih n)
    · have hrest := ih (n - unitsOf c)
      rw [feedsBefore_cons hc]
      cases hn : feedsBefore cs (n - unitsOf c) with
      | zero => simp
      | succ m =>
        have hlt : n - unitsOf c ≠ 0 := by
          intro hzero
          rw [hzero, feedsBefore_zero] at hn
          cases hn
        rw [hn] at hrest
        rw [startOf_cons hc]
        omega

theorem Binary64.nearest_of_lt {n : Int} (h : n.natAbs < 2 ^ 53) : nearest n = n := by
  have hround := round_of_lt h
  unfold nearest
  split
  · next v hv =>
    rw [hround] at hv
    rw [← Option.some.inj hv]
    exact Int.sign_mul_natAbs n
  · rfl

/-- A position with a column below 2^53 is held exactly. -/
theorem locateDouble_eq_locate {offset : Int} (h : offset.natAbs + 1 < 2 ^ 53) (source : String) :
    locateDouble source offset = locate source offset := by
  have hle := startOf_feedsBefore_le source.toList offset.toNat
  rw [← Cursor.lineStart_seek_start] at hle
  simp only [locateDouble, locate, Cursor.positionOf, Position.mk.injEq, true_and]
  generalize (Cursor.start.seek offset source.toList).lineStart = first at hle
  have hdistance : Binary64.nearest (offset - first) = offset - first :=
    Binary64.nearest_of_lt (by omega)
  rw [hdistance]
  exact Binary64.nearest_of_lt (by omega)

/-! ## Sources -/

/-- The offset at which a line starts: the lines before it, each with its line feed. -/
def lineStart (source : String) (line : Int) : Nat := startOf source.toList (line - 1).toNat

/-- A position is in an earlier line, or before the other one in the same line. -/
def Position.Precedes (p q : Position) : Prop :=
  p.line < q.line ∨ p.line = q.line ∧ p.column < q.column

theorem locate_precedes (source : String) {m n : Int} (h : m < n) :
    (locate source m).Precedes (locate source n) := by
  have hfeeds := feedsBefore_mono source.toList (Int.toNat_le_toNat (Int.le_of_lt h))
  rw [Position.Precedes, locate_eq, locate_eq]
  rcases hfeeds.lt_or_eq with hlt | heq
  · left
    simp only
    omega
  · right
    simp only [heq, true_and]
    omega

theorem offset_unique {source : String} {m n : Int}
    (hline : (locate source m).line = (locate source n).line)
    (hcolumn : (locate source m).column = (locate source n).column) : m = n := by
  rcases Int.lt_trichotomy m n with h | h | h
  · have hlt := locate_precedes source h
    rw [Position.Precedes] at hlt
    omega
  · exact h
  · have hlt := locate_precedes source h
    rw [Position.Precedes] at hlt
    omega

/-- **Positions are faithful.** Lines and columns increase with the offset, so no two offsets
    share both; the line comes after the line feeds before the offset, and its start and the
    column give the offset back; behind another text a position moves with that text's lines. What
    is held exactly as a double is the same. -/
theorem locate_faithful :
    (∀ (source : String) (m n : Int), m < n → (locate source m).Precedes (locate source n)) ∧
      (∀ (source : String) (m n : Int), (locate source m).line = (locate source n).line →
        (locate source m).column = (locate source n).column → m = n) ∧
      (∀ (source : String) (offset : Nat),
        (locate source offset).line = ((units source.toList).take offset).count 10 + 1 ∧
          lineStart source (locate source offset).line + (locate source offset).column - 1 =
            offset) ∧
      (∀ (a b : String) (offset : Nat),
        locate (a ++ b) (Text.width a + offset) = (locate b offset).behind a) ∧
      ∀ (source : String) (offset : Int), offset.natAbs + 1 < 2 ^ 53 →
        locateDouble source offset = locate source offset := by
  refine ⟨fun source m n => locate_precedes source, fun source m n => offset_unique,
    fun source offset => ?_, locate_behind, fun source offset h => locateDouble_eq_locate h source⟩
  have hline (n : Nat) : lineStart source (n + 1) = startOf source.toList n :=
    congrArg (startOf source.toList) (by omega)
  rw [locate_eq, Int.toNat_natCast]
  refine ⟨rfl, ?_⟩
  simp only [hline]
  omega

/-- Offsets inside a pair of units, in the second line, at the seam of two texts and behind the
    end. -/
theorem locate_faithful_pair :
    let source := "😀\n😀"
    (locate source 1).Precedes (locate source 2) ∧ (locate source 4).line = 2 ∧
      lineStart source 2 + (locate source 4).column - 1 = 4 ∧
      locate ("a\nbc" ++ "d\n") 5 = ⟨5, 2, 4⟩ ∧ locateDouble source 9 = ⟨9, 2, 7⟩ := by
  intro source
  obtain ⟨hincrease, -, hback, hbehind, hdouble⟩ := locate_faithful
  obtain ⟨hline, hoffset⟩ := hback source 4
  have hsecond : (locate source (4 : Nat)).line = 2 := hline.trans (by decide)
  refine ⟨hincrease source 1 2 (by decide), hsecond, ?_, ?_,
    (hdouble source 9 (by decide)).trans ?_⟩
  · rw [hsecond] at hoffset
    exact hoffset
  · exact (hbehind "a\nbc" "d\n" 1).trans (by decide)
  · decide

end Crosspost
