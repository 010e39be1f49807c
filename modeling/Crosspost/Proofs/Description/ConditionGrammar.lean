/-
  The grammar of conditions.

  * `Condition.Sign`, `Condition.Operands`: how a comparison and its operands are written;
  * `Condition.Names`: what an operand stands for;
  * `Condition.Spells R expression c`: the expression is put together from these as the
    condition `c`;
  * `Condition.parse_eq_ok_iff`: what is read from an expression is what it spells;
  * `Condition.spells_or_refused`: **an expression is read as the condition that it spells,
    and refused if it spells none**.
-/
import Crosspost.Proofs.Description.Expressions
import Crosspost.Proofs.Description.Parameters
import Crosspost.Proofs.Text.LowerCase
import Crosspost.Proofs.Text.Splitting
import Crosspost.Proofs.Text.Trimming

namespace Crosspost

namespace Condition

/-! ## The grammar -/

/-- How a comparison is written between the parameter and the operands. White space around
    the signs is optional; the word `in` has some on both sides. -/
inductive Sign : Comparison → List Char → Prop where
  | equal {lead : List Char} (blank : ∀ c ∈ lead, isBlank c = true) :
      Sign .equal (lead ++ ['=', '='])
  | unequal {lead : List Char} (blank : ∀ c ∈ lead, isBlank c = true) :
      Sign .unequal (lead ++ ['!', '='])
  | among {lead : List Char} {i n after : Char} (blank : ∀ c ∈ lead, isBlank c = true)
      (parted : lead ≠ []) (hi : i = 'i' ∨ i = 'I') (hn : n = 'n' ∨ n = 'N')
      (blank_after : isBlank after = true) : Sign .among (lead ++ [i, n, after])

/-- The operands of a comparison: a single one, or the pieces between commas that are not
    blank. White space around them does not count. -/
inductive Operands : Comparison → List Char → List String → Prop where
  | single {comparison : Comparison} {lead tail : List Char} {name : String}
      (plain : comparison ≠ .among) (blank : ∀ c ∈ lead, isBlank c = true)
      (blank_after : ∀ c ∈ tail, isBlank c = true) (identifier : isIdentifier name = true) :
      Operands comparison (lead ++ (name.toList ++ tail)) [name]
  | list {text : List Char} {pieces : List (List Char)} (nonempty : pieces ≠ [])
      (apart : ∀ piece ∈ pieces, ',' ∉ piece)
      (joined : Chars.trim text = [','].intercalate pieces)
      (line : ∀ c ∈ Chars.trim text, isLineEnd c = false)
      (some : (pieces.map Chars.trim).filter (!·.isEmpty) ≠ [])
      (identifier : ∀ piece ∈ (pieces.map Chars.trim).filter (!·.isEmpty),
        isIdentifier (.ofList piece) = true) :
      Operands .among text (((pieces.map Chars.trim).filter (!·.isEmpty)).map String.ofList)

/-- What an operand stands for: a site by its id, or the flag of the name. -/
def Names (R : Registry) : Subject → String → String → Prop
  | .site, name, operand => ∃ site, R.resolve? name = some site ∧ operand = site.id
  | _, name, operand => operand = name

/-- An expression that spells a condition: the letters of a parameter, a comparison and
    operands, with white space at both ends. -/
inductive Spells (R : Registry) (expression : String) (c : Condition) : Prop where
  | intro {lead parameter sign rest : List Char} {names : List String}
      (text : expression.toList = lead ++ (parameter ++ (sign ++ rest)))
      (blank : ∀ c ∈ lead, isBlank c = true) (nonempty : parameter ≠ [])
      (letters : ∀ c ∈ parameter, c.isAlpha = true)
      (word : String.ofList (Chars.lower parameter) = c.subject.word)
      (hsign : Sign c.comparison sign) (hrest : Operands c.comparison rest names)
      (hnames : List.Forall₂ (Names R c.subject) names c.operands)

/-! ## Comparisons -/

theorem toLower_eq_i_iff {c : Char} : c.toLower = 'i' ↔ c = 'i' ∨ c = 'I' :=
  toLower_eq_iff (by decide) (by decide)

theorem toLower_eq_n_iff {c : Char} : c.toLower = 'n' ↔ c = 'n' ∨ c = 'N' :=
  toLower_eq_iff (by decide) (by decide)

/-- The word `in` is read with the white space behind it. -/
theorem readComparison?_among {cs rest : List Char} {i n after : Char}
    (h : Chars.trimStart cs = i :: n :: after :: rest) (hi : i = 'i' ∨ i = 'I') :
    readComparison? cs =
      if i.toLower == 'i' && n.toLower == 'n' && isBlank after && (cs.head?.any isBlank) then
        some (.among, rest)
      else none := by
  unfold readComparison?
  rw [h]
  rcases hi with rfl | rfl <;> simp

/-- A comparison is read if it is written there. -/
theorem Sign.readComparison? {comparison : Comparison} {sign : List Char}
    (h : Sign comparison sign) (rest : List Char) :
    Condition.readComparison? (sign ++ rest) = some (comparison, rest) := by
  cases h with
  | @equal lead blank =>
    have hstart : Chars.trimStart (lead ++ ['=', '='] ++ rest) = '=' :: '=' :: rest := by
      rw [List.append_assoc, Chars.trimStart_append_of_blank blank]
      exact Chars.trimStart_cons_of_not_blank (by decide) _
    unfold Condition.readComparison?
    rw [hstart]
    rfl
  | @unequal lead blank =>
    have hstart : Chars.trimStart (lead ++ ['!', '='] ++ rest) = '!' :: '=' :: rest := by
      rw [List.append_assoc, Chars.trimStart_append_of_blank blank]
      exact Chars.trimStart_cons_of_not_blank (by decide) _
    unfold Condition.readComparison?
    rw [hstart]
    rfl
  | @among lead i n after blank parted hi hn hafter =>
    have hword : ¬ isBlank i = true := by rcases hi with rfl | rfl <;> decide
    have hstart : Chars.trimStart (lead ++ [i, n, after] ++ rest) = i :: n :: after :: rest := by
      rw [List.append_assoc, Chars.trimStart_append_of_blank blank]
      exact Chars.trimStart_cons_of_not_blank hword _
    have hhead : (lead ++ [i, n, after] ++ rest).head?.any isBlank = true := by
      obtain ⟨c, lead, rfl⟩ := List.exists_cons_of_ne_nil parted
      exact blank c List.mem_cons_self
    rw [readComparison?_among hstart hi, hhead, toLower_eq_i_iff.2 hi, toLower_eq_n_iff.2 hn,
      hafter]
    rfl

/-- A comparison that is read is written there. -/
theorem exists_sign_of_readComparison? {cs rest : List Char} {comparison : Comparison}
    (h : Condition.readComparison? cs = some (comparison, rest)) :
    ∃ sign, Sign comparison sign ∧ cs = sign ++ rest := by
  have hcs : cs = cs.takeWhile isBlank ++ Chars.trimStart cs :=
    List.takeWhile_append_dropWhile.symm
  have hblank : ∀ c ∈ cs.takeWhile isBlank, isBlank c = true :=
    fun c hc => List.mem_takeWhile_imp hc
  unfold Condition.readComparison? at h
  split at h
  · next hs =>
    cases h
    rw [hs] at hcs
    exact ⟨_, .equal hblank, hcs.trans (List.append_assoc _ ['=', '='] rest).symm⟩
  · next hs =>
    cases h
    rw [hs] at hcs
    exact ⟨_, .unequal hblank, hcs.trans (List.append_assoc _ ['!', '='] rest).symm⟩
  · next i n after text _ _ hs =>
    split_ifs at h with hin
    cases h
    simp only [Bool.and_eq_true, beq_iff_eq] at hin
    obtain ⟨⟨⟨hi, hn⟩, hafter⟩, hhead⟩ := hin
    have hparted : cs.takeWhile isBlank ≠ [] := by
      cases cs with
      | nil => cases hhead
      | cons c cs => simpa using hhead
    rw [hs] at hcs
    exact ⟨_, .among hblank hparted (toLower_eq_i_iff.1 hi) (toLower_eq_n_iff.1 hn) hafter,
      hcs.trans (List.append_assoc _ [i, n, after] rest).symm⟩
  · cases h

/-- No comparison starts with a letter. -/
theorem Sign.head {comparison : Comparison} {sign : List Char} (h : Sign comparison sign) :
    ∃ c cs, sign = c :: cs ∧ ¬ c.isAlpha = true := by
  have hlead : ∀ {lead : List Char} {c : Char} {cs : List Char},
      (∀ c ∈ lead, isBlank c = true) → (lead = [] → ¬ c.isAlpha = true) →
        ∃ d ds, lead ++ c :: cs = d :: ds ∧ ¬ d.isAlpha = true := by
    intro lead c cs blank hc
    cases lead with
    | nil => exact ⟨c, cs, rfl, hc rfl⟩
    | cons d lead =>
      refine ⟨d, lead ++ c :: cs, rfl, fun ha => ?_⟩
      have hb := not_isBlank_of_isAlpha ha
      rw [blank d List.mem_cons_self] at hb
      cases hb
  cases h with
  | equal blank | unequal blank => exact hlead blank fun _ => by decide
  | among blank parted => exact hlead blank fun hl => absurd hl parted

/-! ## Operands -/

theorem not_isBlank_of_isIdentifier {name : String} (h : isIdentifier name = true) :
    ∀ c ∈ name.toList, isBlank c = false := by
  intro c hc
  rw [Bool.eq_false_iff]
  intro hb
  have hblank := toNat_of_isBlank hb
  have := toNat_of_isIdentifierChar (isIdentifierChar_of_mem h hc)
  omega

/-- What ends a line is white space. -/
theorem isBlank_of_isLineEnd {c : Char} (h : isLineEnd c = true) : isBlank c = true := by
  simp only [isLineEnd, Bool.or_eq_true, beq_iff_eq] at h
  rcases h with ((rfl | rfl) | rfl) | rfl
  all_goals decide

theorem writtenOperands_plain {name operands : List Char} {comparison : Comparison}
    (h : comparison ≠ .among) :
    writtenOperands ⟨name, comparison, operands⟩ = [.ofList operands] := by
  cases comparison with
  | among => exact absurd rfl h
  | equal | unequal => rfl

theorem writtenOperands_among (name operands : List Char) :
    writtenOperands ⟨name, .among, operands⟩ =
      (((Chars.splitOn ',' operands).map Chars.trim).filter (!·.isEmpty)).map String.ofList :=
  rfl

/-- The operands of a comparison are those that stand between the white space at its ends. -/
theorem operands_iff {comparison : Comparison} {text : List Char} {names : List String}
    (name : List Char) :
    Operands comparison text names ↔
      names = writtenOperands ⟨name, comparison, Chars.trim text⟩ ∧ names ≠ [] ∧
        (∀ n ∈ names, isIdentifier n = true) ∧ ∀ c ∈ Chars.trim text, isLineEnd c = false := by
  constructor
  · rintro (⟨plain, blank, hafter, identifier⟩ | ⟨nonempty, apart, joined, line, hsome, identifier⟩)
    · next lead tail operand =>
      have hblank := not_isBlank_of_isIdentifier identifier
      have htrim : Chars.trim (lead ++ (operand.toList ++ tail)) = operand.toList := by
        rw [Chars.trim_append_of_blank blank hafter, Chars.trim_of_forall_not hblank]
      rw [htrim, writtenOperands_plain plain, String.ofList_toList]
      refine ⟨rfl, List.cons_ne_nil _ _, by simpa using identifier, fun c hc => ?_⟩
      rw [Bool.eq_false_iff]
      intro hl
      have hb := isBlank_of_isLineEnd hl
      rw [hblank c hc] at hb
      cases hb
    · next pieces =>
      rw [writtenOperands_among, joined, Chars.splitOn_intercalate nonempty apart]
      refine ⟨rfl, by simpa using hsome, ?_, joined ▸ line⟩
      intro n hn
      obtain ⟨piece, hp, rfl⟩ := List.mem_map.1 hn
      exact identifier piece hp
  · rintro ⟨rfl, hne, hid, line⟩
    by_cases plain : comparison = .among
    · subst plain
      rw [writtenOperands_among] at hne hid ⊢
      refine .list (Chars.split_ne_nil _ _) (fun piece => Chars.not_mem_of_mem_splitOn)
        (Chars.intercalate_splitOn ',' _).symm line (by simpa using hne) ?_
      intro piece hp
      exact hid _ (List.mem_map_of_mem hp)
    · rw [writtenOperands_plain plain] at hid ⊢
      obtain ⟨lead, tail, htext, blank, hafter⟩ := Chars.exists_append_trim text
      have hoperand := Operands.single plain blank hafter (hid _ List.mem_cons_self)
      rwa [String.toList_ofList, ← htext] at hoperand

/-- What an operand stands for is read from an identifier. -/
theorem readOperand_eq_ok_iff {R : Registry} {s : Subject} {name operand : String} :
    readOperand R s name = .ok operand ↔ isIdentifier name = true ∧ Names R s name operand := by
  unfold readOperand
  cases hi : isIdentifier name with
  | false => simp
  | true =>
    cases s with
    | site => cases hr : R.resolve? name <;> simp [Names, hr, eq_comm]
    | define | constructor => simp [Names, eq_comm]

theorem mapM_readOperand_eq_ok_iff {R : Registry} {s : Subject} {names operands : List String} :
    names.mapM (readOperand R s) = .ok operands ↔
      (∀ n ∈ names, isIdentifier n = true) ∧ List.Forall₂ (Names R s) names operands := by
  simp only [mapM_eq_ok, readOperand_eq_ok_iff]
  exact List.forall₂_and_left names operands

/-! ## Expressions -/

/-- The parts of an expression are what it is put together from. -/
theorem split?_eq_some_iff {cs : List Char} {parts : Parts} :
    split? cs = some parts ↔ ∃ lead sign rest,
      cs = lead ++ (parts.name ++ (sign ++ rest)) ∧ (∀ c ∈ lead, isBlank c = true) ∧
        parts.name ≠ [] ∧ (∀ c ∈ parts.name, c.isAlpha = true) ∧ Sign parts.comparison sign ∧
        parts.operands = Chars.trim rest ∧ ∀ c ∈ Chars.trim rest, isLineEnd c = false := by
  constructor
  · intro h
    unfold split? at h
    dsimp only at h
    split_ifs at h with hempty
    split at h
    · cases h
    · next comparison rest hread =>
      split_ifs at h with hline
      cases h
      obtain ⟨sign, hsign, hrest⟩ := exists_sign_of_readComparison? hread
      refine ⟨cs.takeWhile isBlank, sign, rest, ?_, fun c hc => List.mem_takeWhile_imp hc,
        by simpa using hempty, fun c hc => List.mem_takeWhile_imp hc, hsign, rfl, ?_⟩
      · rw [← hrest, List.takeWhile_append_dropWhile]
        exact List.takeWhile_append_dropWhile.symm
      · simpa using hline
  · rintro ⟨lead, sign, rest, rfl, hlead, hne, hletters, hsign, hoperands, hline⟩
    obtain ⟨name, comparison, operands⟩ := parts
    dsimp only at hne hletters hsign hoperands ⊢
    obtain ⟨c, cs, hcs, hc⟩ := hsign.head
    have hread := hsign.readComparison? rest
    rw [hcs, List.cons_append] at hread ⊢
    have htext : Chars.trimStart (lead ++ (name ++ c :: (cs ++ rest))) =
        name ++ c :: (cs ++ rest) := by
      obtain ⟨d, ds, rfl⟩ := List.exists_cons_of_ne_nil hne
      have hd : ¬ isBlank d = true := by simp [not_isBlank_of_isAlpha (hletters d (by simp))]
      rw [Chars.trimStart_append_of_blank hlead, List.cons_append,
        Chars.trimStart_cons_of_not_blank hd]
    have hname : (name ++ c :: (cs ++ rest)).takeWhile Char.isAlpha = name := by
      rw [List.takeWhile_append_of_pos hletters, List.takeWhile_cons_of_neg hc, List.append_nil]
    have hrest : (name ++ c :: (cs ++ rest)).dropWhile Char.isAlpha = c :: (cs ++ rest) := by
      rw [List.dropWhile_append_of_pos hletters, List.dropWhile_cons_of_neg hc]
    have hlines : ¬ (Chars.trim rest).any isLineEnd = true := by simpa using hline
    unfold split?
    simp only [htext, hname, hrest, hread]
    rw [if_neg (by simpa using hne), if_neg hlines, hoperands]

/-- What the parts of an expression make. -/
theorem ofParts_eq_ok_iff {R : Registry} {parts : Parts} {c : Condition} :
    ofParts R parts = .ok c ↔ subject? parts.name = some c.subject ∧
      parts.comparison = c.comparison ∧ writtenOperands parts ≠ [] ∧
        (writtenOperands parts).mapM (readOperand R c.subject) = .ok c.operands := by
  obtain ⟨subject, comparison, operands⟩ := c
  constructor
  · intro h
    have hs := subject_of_ofParts h
    unfold ofParts at h
    rw [hs] at h
    dsimp only at h
    split at h
    · cases h
    · cases h
    · next hne _ =>
      obtain ⟨os, ho, hc⟩ := bind_eq_ok.1 h
      cases hc
      exact ⟨hs, rfl, hne, ho⟩
  · rintro ⟨hs, rfl, hne, ho⟩
    unfold ofParts
    rw [hs]
    dsimp only at ho ⊢
    split
    · next he => exact absurd he hne
    · next he =>
      -- nothing is no identifier
      rw [he] at ho
      have hid := (mapM_readOperand_eq_ok_iff.1 ho).1 "" List.mem_cons_self
      exact absurd hid (by decide)
    · rw [ho]
      rfl

/-- **What is read from an expression is what it spells.** -/
theorem parse_eq_ok_iff {R : Registry} {expression : String} {c : Condition} :
    parse R expression = .ok c ↔ Spells R expression c := by
  have hparse : parse R expression = .ok c ↔
      ∃ parts, split? expression.toList = some parts ∧ ofParts R parts = .ok c := by
    unfold parse
    cases split? expression.toList with
    | none => simp
    | some parts => cases hp : ofParts R parts <;> simp [Except.mapError, hp]
  rw [hparse]
  constructor
  · rintro ⟨parts, hsplit, hc⟩
    obtain ⟨lead, sign, rest, htext, hlead, hne, hletters, hsign, hops, hline⟩ :=
      split?_eq_some_iff.1 hsplit
    obtain ⟨name, comparison, operands⟩ := parts
    obtain ⟨hs, rfl, hwritten, ho⟩ := ofParts_eq_ok_iff.1 hc
    dsimp only at htext hne hletters hsign hops hs
    subst hops
    obtain ⟨hid, hnames⟩ := mapM_readOperand_eq_ok_iff.1 ho
    exact ⟨htext, hlead, hne, hletters, subject?_eq_some_iff.1 hs, hsign,
      (operands_iff name).2 ⟨rfl, hwritten, hid, hline⟩, hnames⟩
  · rintro ⟨htext, hlead, hne, hletters, hword, hsign, hrest, hnames⟩
    next lead parameter sign rest names =>
    obtain ⟨rfl, hwritten, hid, hline⟩ := (operands_iff parameter).1 hrest
    refine ⟨⟨parameter, c.comparison, Chars.trim rest⟩, split?_eq_some_iff.2
      ⟨lead, sign, rest, htext, hlead, hne, hletters, hsign, rfl, hline⟩, ?_⟩
    exact ofParts_eq_ok_iff.2 ⟨subject?_eq_some_iff.2 hword, rfl, hwritten,
      mapM_readOperand_eq_ok_iff.2 ⟨hid, hnames⟩⟩

/-- No expression spells two conditions. -/
theorem Spells.unique {R : Registry} {expression : String} {c d : Condition}
    (hc : Spells R expression c) (hd : Spells R expression d) : c = d :=
  Except.ok.inj ((parse_eq_ok_iff.2 hc).symm.trans (parse_eq_ok_iff.2 hd))

/-- A refusal is about the expression. -/
theorem expression_of_parse {R : Registry} {expression : String} {e : ConditionError}
    (h : parse R expression = .error e) : e.expression = expression := by
  unfold parse at h
  split at h
  · cases h
    rfl
  · next parts _ =>
    cases hp : ofParts R parts with
    | ok c => simp [hp, Except.mapError] at h
    | error problem =>
      rw [hp] at h
      cases h
      rfl

/-- **The grammar of conditions.** For every registry, an expression is read as a condition
    exactly if it spells it, and it is refused exactly if it spells none. -/
theorem spells_or_refused (R : Registry) (expression : String) :
    (∀ c, parse R expression = .ok c ↔ Spells R expression c) ∧
    ((∀ c, ¬ Spells R expression c) ↔
      ∃ problem, parse R expression = .error ⟨expression, problem⟩) := by
  refine ⟨fun c => parse_eq_ok_iff, ?_⟩
  constructor
  · intro h
    cases hp : parse R expression with
    | ok c => exact absurd (parse_eq_ok_iff.1 hp) (h c)
    | error e =>
      have he := expression_of_parse hp
      exact ⟨e.problem, by rw [← he]⟩
  · rintro ⟨problem, hp⟩ c hc
    rw [parse_eq_ok_iff.2 hc] at hp
    cases hp

-- the second `in` is an operand, and a comma before the first name does not count
example : (parse .builtin "site in in") = .error ⟨"site in in", .unknownSite "in"⟩ := by
  decide +kernel
example : parse .builtin "define in ,a" = .ok ⟨.define, .among, ["a"]⟩ := by decide +kernel

/-! ## Texts of conditions -/

/-- A class of characters without brackets. -/
theorem isAttrChar_of_class {p : Char → Bool} (ho : p '[' = false) (hc : p ']' = false) {c : Char}
    (h : p c = true) : Tag.isAttrChar c = true := by
  unfold Tag.isAttrChar
  simp only [Bool.and_eq_true, bne_iff_ne]
  refine ⟨?_, ?_⟩
  · rintro rfl
    rw [ho] at h
    cases h
  · rintro rfl
    rw [hc] at h
    cases h

theorem isAttrChar_of_isBlank {c : Char} (h : isBlank c = true) : Tag.isAttrChar c = true :=
  isAttrChar_of_class (by decide) (by decide) h

theorem isAttrChar_of_isIdentifier {name : String} (h : isIdentifier name = true) :
    ∀ c ∈ name.toList, Tag.isAttrChar c = true := fun _ hc =>
  isAttrChar_of_class (by decide) (by decide) (isIdentifierChar_of_mem h hc)

theorem Sign.unbracketed {comparison : Comparison} {sign : List Char} (h : Sign comparison sign) :
    ∀ c ∈ sign, Tag.isAttrChar c = true := by
  have hsigns : ∀ c ∈ ['=', '!', 'i', 'I', 'n', 'N'], Tag.isAttrChar c = true := by
    simp [Tag.isAttrChar]
  have happend : ∀ {lead signs : List Char}, (∀ c ∈ lead, isBlank c = true) →
      (∀ c ∈ signs, Tag.isAttrChar c = true) → ∀ c ∈ lead ++ signs, Tag.isAttrChar c = true := by
    intro lead signs hl hs c hc
    obtain hc | hc := List.mem_append.1 hc
    · exact isAttrChar_of_isBlank (hl c hc)
    · exact hs c hc
  cases h with
  | equal blank => exact happend blank fun c hc => hsigns c (by revert hc; simp +contextual)
  | unequal blank =>
    exact happend blank (by simpa using ⟨hsigns '!' (by simp), hsigns '=' (by simp)⟩)
  | among blank _ hi hn hafter =>
    refine happend blank ?_
    simp only [List.forall_mem_cons]
    refine ⟨hsigns _ ?_, hsigns _ ?_, isAttrChar_of_isBlank hafter, by simp⟩
    · rcases hi with rfl | rfl <;> simp
    · rcases hn with rfl | rfl <;> simp

theorem Operands.unbracketed {comparison : Comparison} {text : List Char} {names : List String}
    (h : Operands comparison text names) : ∀ c ∈ text, Tag.isAttrChar c = true := by
  intro c hc
  cases h with
  | single _ blank hafter identifier =>
    simp only [List.mem_append] at hc
    rcases hc with hc | hc | hc
    · exact isAttrChar_of_isBlank (blank c hc)
    · exact isAttrChar_of_isIdentifier identifier c hc
    · exact isAttrChar_of_isBlank (hafter c hc)
  | @list _ pieces _ _ joined _ _ identifier =>
    -- white space goes with the trimming, of the text and of each piece
    have htrim : ∀ cs : List Char, c ∈ cs → Tag.isAttrChar c = true ∨ c ∈ Chars.trim cs := by
      intro cs hc
      obtain ⟨lead, tail, hcs, hl, ht⟩ := Chars.exists_append_trim cs
      rw [hcs, List.mem_append, List.mem_append] at hc
      rcases hc with hc | hc | hc
      · exact .inl (isAttrChar_of_isBlank (hl c hc))
      · exact .inr hc
      · exact .inl (isAttrChar_of_isBlank (ht c hc))
    obtain hc | hc := htrim text hc
    · exact hc
    rw [joined] at hc
    rcases mem_intercalate hc with ⟨piece, hp, hc⟩ | hc
    · obtain hc | hc := htrim piece hc
      · exact hc
      have hmem : Chars.trim piece ∈ (pieces.map Chars.trim).filter (!·.isEmpty) := by
        rw [List.mem_filter]
        exact ⟨List.mem_map_of_mem hp, by simpa using List.ne_nil_of_mem hc⟩
      have hplain := isAttrChar_of_isIdentifier (identifier _ hmem)
      rw [String.toList_ofList] at hplain
      exact hplain c hc
    · rw [List.mem_singleton.1 hc]
      decide

/-- Between the white space at the ends of operands there is something. -/
theorem Operands.trim_ne_nil {comparison : Comparison} {text : List Char} {names : List String}
    (h : Operands comparison text names) : Chars.trim text ≠ [] := by
  obtain ⟨rfl, hne, hid, -⟩ := (operands_iff []).1 h
  intro hnil
  rw [hnil] at hne hid
  cases comparison with
  | among => exact hne (by decide)
  | equal | unequal => exact absurd (hid _ List.mem_cons_self) (by decide)

variable {R : Registry} {expression : String} {c : Condition}

/-- No condition holds a bracket. -/
theorem Spells.unbracketed (h : Spells R expression c) :
    ∀ c ∈ expression.toList, Tag.isAttrChar c = true := by
  obtain ⟨htext, hlead, -, hletters, -, hsign, hrest, -⟩ := h
  intro d hd
  rw [htext] at hd
  simp only [List.mem_append] at hd
  rcases hd with hd | hd | hd | hd
  · exact isAttrChar_of_isBlank (hlead d hd)
  · exact isAttrChar_of_class (by decide) (by decide) (hletters d hd)
  · exact hsign.unbracketed d hd
  · exact hrest.unbracketed d hd

/-- White space at the ends of a condition does not count, and there is more than that. -/
theorem Spells.trim (h : Spells R expression c) :
    Text.trim expression ≠ "" ∧ Spells R (Text.trim expression) c := by
  obtain ⟨htext, hlead, hne, hletters, hword, hsign, hrest, hnames⟩ := h
  next lead parameter sign rest names =>
  obtain ⟨front, tail, hcut, hfront, htail⟩ := Chars.exists_append_trim rest
  have hfirst : ∀ cs, ∀ d ∈ (parameter ++ cs).head?, isBlank d = false := by
    intro cs d hd
    rw [List.head?_append_of_ne_nil _ hne] at hd
    exact not_isBlank_of_isAlpha (hletters d (List.mem_of_head? hd))
  have hlast : ∀ cs, ∀ d ∈ (cs ++ Chars.trim rest).getLast?, isBlank d = false := by
    intro cs d hd
    rw [List.getLast?_append_of_ne_nil _ hrest.trim_ne_nil] at hd
    obtain ⟨ds, hds⟩ := List.getLast?_eq_some_iff.1 hd
    exact Chars.trim_last hds
  have htrim : Chars.trim expression.toList =
      parameter ++ (sign ++ (front ++ Chars.trim rest)) := by
    have hend : expression.toList =
        lead ++ ((parameter ++ (sign ++ (front ++ Chars.trim rest))) ++ tail) :=
      calc expression.toList = lead ++ (parameter ++ (sign ++ rest)) := htext
        _ = lead ++ (parameter ++ (sign ++ (front ++ (Chars.trim rest ++ tail)))) :=
          congrArg (fun cs => lead ++ (parameter ++ (sign ++ cs))) hcut
        _ = _ := by simp
    rw [hend, Chars.trim_append_of_blank hlead htail]
    refine Chars.trim_of_ends (hfirst _) ?_
    rw [← List.append_assoc, ← List.append_assoc]
    exact hlast _
  have hkept : Chars.trim (front ++ Chars.trim rest) = Chars.trim rest := by
    have hnone : ∀ d ∈ ([] : List Char), isBlank d = true := nofun
    have h := Chars.trim_append_of_blank hfront hnone (Chars.trim rest)
    rwa [List.append_nil, Chars.trim_trim] at h
  constructor
  · intro hempty
    rw [← Text.toList_trim, hempty] at htrim
    exact hne (List.append_eq_nil_iff.1 htrim.symm).1
  · refine ⟨(by rw [Text.toList_trim, htrim, List.nil_append]), by simp, hne, hletters, hword,
      hsign, ?_, hnames⟩
    rw [operands_iff parameter, hkept]
    exact (operands_iff parameter).1 hrest

end Condition

end Crosspost
