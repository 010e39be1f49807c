/-
  Conditions as they are written.

  * `Test` is what a condition says of some names, and `Test.expression` its text behind the
    word for what it asks about;
  * `Test.parse_expression`: **the text of a test is read as the condition that it spells**,
    and its names as they are, whatever the registry makes of them.
-/
import Crosspost.Proofs.Description.Steps
import Crosspost.Proofs.Text.LowerCase
import Crosspost.Proofs.Text.Splitting
import Crosspost.Proofs.Text.Trimming

namespace Crosspost

/-! ## Characters -/

theorem toNat_of_isIdentifierChar {c : Char} (h : isIdentifierChar c = true) :
    45 ≤ c.toNat ∧ c.toNat ≤ 122 := by
  simp only [isIdentifierChar, Bool.or_eq_true, beq_iff_eq] at h
  rcases h with (h | rfl) | rfl
  · have := toNat_of_isAlphanum h
    omega
  · decide
  · decide

theorem mem_intercalate {α : Type} {sep : List α} {pieces : List (List α)} {a : α}
    (h : a ∈ sep.intercalate pieces) : (∃ piece ∈ pieces, a ∈ piece) ∨ a ∈ sep := by
  induction pieces with
  | nil => simp at h
  | cons piece pieces ih =>
    cases pieces with
    | nil =>
      rw [List.intercalate_singleton] at h
      exact .inl ⟨piece, List.mem_cons_self, h⟩
    | cons next rest =>
      rw [List.intercalate_cons_cons, List.mem_append, List.mem_append] at h
      rcases h with (h | h) | h
      · exact .inl ⟨piece, List.mem_cons_self, h⟩
      · exact .inr h
      · exact (ih h).imp_left fun ⟨p, hp, ha⟩ => ⟨p, List.mem_cons_of_mem _ hp, ha⟩

theorem isIdentifierChar_of_mem {name : String} (h : isIdentifier name = true) {c : Char}
    (hc : c ∈ name.toList) : isIdentifierChar c = true := by
  unfold isIdentifier at h
  rw [Bool.and_eq_true] at h
  exact List.all_eq_true.1 h.2 c hc

/-! ## Tests -/

/-- What a condition says of some names, as it is written. -/
inductive Test where
  | is (name : String)
  | isNot (name : String)
  | among (names : List String)

namespace Test

/-- The names of a test. -/
def names : Test → List String
  | is name | isNot name => [name]
  | among names => names

/-- How a test compares. -/
def comparison : Test → Comparison
  | is _ => .equal
  | isNot _ => .unequal
  | among _ => .among

/-- What stands between the word of a test and its names. -/
def sign : Test → String
  | is _ => "=="
  | isNot _ => "!="
  | among _ => " in "

/-- The text of a test behind the word for what it asks about. -/
def expression (word : String) (t : Test) : String :=
  word ++ t.sign ++ ",".intercalate t.names

/-- A test has a name, and its names are identifiers. -/
structure WellFormed (t : Test) : Prop where
  nonempty : t.names ≠ []
  identifier : ∀ name ∈ t.names, isIdentifier name = true

variable {t : Test} {word : String}

theorem WellFormed.ne_empty (h : t.WellFormed) : ∀ name ∈ t.names, name ≠ "" := by
  rintro _ hn rfl
  exact absurd (h.identifier _ hn) (by decide)

/-- Between the names of a test stand commas. -/
theorem WellFormed.mem_operands (h : t.WellFormed) :
    ∀ c ∈ (",".intercalate t.names).toList, isIdentifierChar c = true ∨ c = ',' := by
  intro c hc
  rw [String.toList_intercalate] at hc
  rcases mem_intercalate hc with ⟨piece, hp, hc⟩ | hc
  · obtain ⟨name, hn, rfl⟩ := List.mem_map.1 hp
    exact .inl (isIdentifierChar_of_mem (h.identifier name hn) hc)
  · exact .inr (by simpa using hc)

theorem WellFormed.not_isBlank (h : t.WellFormed) :
    ∀ c ∈ (",".intercalate t.names).toList, isBlank c = false := by
  intro c hc
  rw [Bool.eq_false_iff]
  intro hb
  have hblank := toNat_of_isBlank hb
  rcases h.mem_operands c hc with hi | rfl
  · have := toNat_of_isIdentifierChar hi
    omega
  · exact absurd hb (by decide)

theorem WellFormed.not_isLineEnd (h : t.WellFormed) :
    (",".intercalate t.names).toList.any isLineEnd = false := by
  rw [List.any_eq_false]
  intro c hc hl
  have hb := h.not_isBlank c hc
  simp only [isLineEnd, Bool.or_eq_true, beq_iff_eq] at hl
  rcases hl with ((rfl | rfl) | rfl) | rfl
  all_goals exact absurd hb (by decide)

theorem toList_sign (t : Test) : t.sign.toList =
    match t with
    | is _ => ['=', '=']
    | isNot _ => ['!', '=']
    | among _ => [' ', 'i', 'n', ' '] := by
  cases t
  case is => exact (by decide : "==".toList = ['=', '='])
  case isNot => exact (by decide : "!=".toList = ['!', '='])
  case among => exact (by decide : " in ".toList = [' ', 'i', 'n', ' '])

/-- The comparison of a test is read, and then its names follow. -/
theorem readComparison?_sign (t : Test) (rest : List Char) :
    Condition.readComparison? (t.sign.toList ++ rest) = some (t.comparison, rest) := by
  rw [toList_sign]
  cases t <;> rfl

/-- The word of a test is read up to its comparison. -/
theorem split?_expression (h : t.WellFormed) (hne : word.toList ≠ [])
    (hw : ∀ c ∈ word.toList, c.isAlpha = true) :
    Condition.split? (t.expression word).toList =
      some ⟨word.toList, t.comparison, (",".intercalate t.names).toList⟩ := by
  obtain ⟨c, cs, hcs⟩ := List.exists_cons_of_ne_nil hne
  have hstart : ¬ isBlank c = true := by simp [not_isBlank_of_isAlpha (hw c (by simp [hcs]))]
  obtain ⟨s, ss, hsign, hs⟩ : ∃ s ss, t.sign.toList = s :: ss ∧ ¬ s.isAlpha = true := by
    rw [toList_sign]
    cases t with
    | is => exact ⟨'=', ['='], rfl, by decide⟩
    | isNot => exact ⟨'!', ['='], rfl, by decide⟩
    | among => exact ⟨' ', ['i', 'n', ' '], rfl, by decide⟩
  have htext : (t.expression word).toList =
      word.toList ++ (t.sign.toList ++ (",".intercalate t.names).toList) := by
    simp [expression]
  have htrim : Chars.trimStart (t.expression word).toList = (t.expression word).toList := by
    rw [htext, hcs, List.cons_append, Chars.trimStart_cons_of_not_blank hstart]
  have hname : (t.expression word).toList.takeWhile Char.isAlpha = word.toList := by
    rw [htext, List.takeWhile_append_of_pos hw, hsign, List.cons_append,
      List.takeWhile_cons_of_neg hs, List.append_nil]
  have hrest : (t.expression word).toList.dropWhile Char.isAlpha =
      t.sign.toList ++ (",".intercalate t.names).toList := by
    rw [htext, List.dropWhile_append_of_pos hw, hsign, List.cons_append,
      List.dropWhile_cons_of_neg hs]
  have hempty : word.toList.isEmpty = false := by rw [hcs]; rfl
  unfold Condition.split?
  simp only [htrim, hname, hrest, hempty, readComparison?_sign,
    Chars.trim_of_forall_not h.not_isBlank, h.not_isLineEnd]
  rfl

/-- The names of a test are its operands. -/
theorem writtenOperands_eq (h : t.WellFormed) :
    Condition.writtenOperands ⟨word.toList, t.comparison, (",".intercalate t.names).toList⟩ =
      t.names := by
  cases t with
  | is name => simp [Condition.writtenOperands, comparison, names]
  | isNot name => simp [Condition.writtenOperands, comparison, names]
  | among ns =>
    have hpieces : ∀ piece ∈ ns.map String.toList, ',' ∉ piece := by
      intro piece hp hm
      obtain ⟨name, hn, rfl⟩ := List.mem_map.1 hp
      exact absurd (isIdentifierChar_of_mem (h.identifier name hn) hm) (by decide)
    have hsplit : Chars.splitOn ',' (",".intercalate ns).toList = ns.map String.toList := by
      rw [String.toList_intercalate]
      exact Chars.splitOn_intercalate (by simpa [names] using h.nonempty) hpieces
    have htrim : (ns.map String.toList).map Chars.trim = ns.map String.toList := by
      refine (List.map_congr_left fun piece hp => ?_).trans (List.map_id _)
      obtain ⟨name, hn, rfl⟩ := List.mem_map.1 hp
      have hone : (Test.is name).WellFormed :=
        ⟨by simp [names], by simpa [names] using h.identifier name hn⟩
      simpa [names] using Chars.trim_of_forall_not hone.not_isBlank
    have hfull : (ns.map String.toList).filter (!·.isEmpty) = ns.map String.toList := by
      rw [List.filter_eq_self]
      intro piece hp
      obtain ⟨name, hn, rfl⟩ := List.mem_map.1 hp
      simpa using h.ne_empty name hn
    simp only [Condition.writtenOperands, comparison, names, hsplit, htrim, hfull, List.map_map]
    refine (List.map_congr_left fun name _ => ?_).trans (List.map_id _)
    exact String.ofList_toList

/-- **The text of a test is read as the condition that it spells**, or refused for the first of
    its names that stands for nothing. -/
theorem parse_expression {R : Registry} {subject : Subject} (h : t.WellFormed)
    (hne : word.toList ≠ []) (hw : ∀ c ∈ word.toList, c.isAlpha = true)
    (hs : Condition.subject? word.toList = some subject) :
    Condition.parse R (t.expression word) =
      match t.names.mapM (Condition.readOperand R subject) with
      | .ok operands => .ok ⟨subject, t.comparison, operands⟩
      | .error problem => .error ⟨t.expression word, problem⟩ := by
  have hparts : Condition.ofParts R
      ⟨word.toList, t.comparison, (",".intercalate t.names).toList⟩ =
        (t.names.mapM (Condition.readOperand R subject)).map
          fun operands => ⟨subject, t.comparison, operands⟩ := by
    unfold Condition.ofParts
    simp only [hs, writtenOperands_eq h]
    split
    · next he => exact absurd he h.nonempty
    · next he => exact absurd rfl (h.ne_empty "" (he ▸ List.mem_cons_self))
    · cases t.names.mapM (Condition.readOperand R subject) <;> rfl
  unfold Condition.parse
  simp only [split?_expression h hne hw, hparts]
  cases t.names.mapM (Condition.readOperand R subject) <;> rfl

/-- A test has no white space at its ends. -/
theorem WellFormed.trimmed_expression (h : t.WellFormed) (hne : word.toList ≠ [])
    (hw : ∀ c ∈ word.toList, c.isAlpha = true) : Text.Trimmed (t.expression word) := by
  have htext : (t.expression word).toList =
      word.toList ++ (t.sign.toList ++ (",".intercalate t.names).toList) := by
    simp [expression]
  have hnames : (",".intercalate t.names).toList ≠ [] := by
    obtain ⟨name, names, hn⟩ := List.exists_cons_of_ne_nil h.nonempty
    have hname : name ≠ "" := h.ne_empty name (by simp [hn])
    rw [hn]
    cases names with
    | nil => simpa using hname
    | cons next rest => simp
  have hfirst : ∀ c ∈ (t.expression word).toList.head?, isBlank c = false := by
    intro c hc
    rw [htext, List.head?_append_of_ne_nil _ hne] at hc
    exact not_isBlank_of_isAlpha (hw c (List.mem_of_head? hc))
  have hlast : ∀ c ∈ (t.expression word).toList.getLast?, isBlank c = false := by
    intro c hc
    rw [htext, ← List.append_assoc, List.getLast?_append_of_ne_nil _ hnames] at hc
    exact h.not_isBlank c (List.mem_of_getLast? hc)
  constructor
  · intro he
    rw [he] at htext
    exact hne (List.append_eq_nil_iff.1 htext.symm).1
  · rw [Text.trim, Chars.trim_of_ends hfirst hlast, String.ofList_toList]

/-- A test holds no bracket. -/
theorem WellFormed.unbracketed_expression (h : t.WellFormed)
    (hw : ∀ c ∈ word.toList, c.isAlpha = true) :
    ∀ c ∈ (t.expression word).toList, Tag.isAttrChar c = true := by
  intro c hc
  rw [expression, String.toList_append, String.toList_append, List.mem_append,
    List.mem_append] at hc
  rcases hc with (hc | hc) | hc
  · have ha := hw c hc
    unfold Tag.isAttrChar
    simp only [Bool.and_eq_true, bne_iff_ne]
    refine ⟨?_, ?_⟩ <;> rintro rfl <;> exact absurd ha (by decide)
  · rw [toList_sign] at hc
    have hsign : ∀ cs : List Char, cs.all Tag.isAttrChar = true → c ∈ cs →
        Tag.isAttrChar c = true := fun _ hall hc => List.all_eq_true.1 hall c hc
    cases t with
    | is => exact hsign ['=', '='] (by decide) hc
    | isNot => exact hsign ['!', '='] (by decide) hc
    | among => exact hsign [' ', 'i', 'n', ' '] (by decide) hc
  · rcases h.mem_operands c hc with hi | rfl
    · unfold Tag.isAttrChar
      simp only [Bool.and_eq_true, bne_iff_ne]
      refine ⟨?_, ?_⟩ <;> rintro rfl <;> exact absurd hi (by decide)
    · decide

end Test

end Crosspost
