/-
  One name, one site.

  A site is named in three places: by the tag of a switch, by an operand of a condition and by a
  key of a file of user names. Each place puts the name in lower case in its own way before it
  looks it up.

  * `Naming`: a name that has no meaning of its own in a tag, with a user name for it;
  * `Registry.Resolves`: the name stands for the site with an id;
  * `Registry.resolve?_lower`: lower case does not change what a name stands for;
  * `Naming.means_one_site`: **the three places agree on what a name stands for, and each of
    them refuses a name that stands for nothing**.
-/
import Crosspost.Proofs.Config.UsernameFiles
import Crosspost.Proofs.Description.Conditionals
import Crosspost.Proofs.Description.Expressions

namespace Crosspost

open Grammar

/-! ## Names -/

/-- A name of a tag without a meaning of its own, and a user name that every site accepts. -/
structure Naming (R : Registry) (name user : String) : Prop where
  written : Tag.Written ⟨false, name.toList, some user.toList⟩
  free : Text.lower name ∉ "generic" :: reserved
  trimmed : Text.Trimmed user
  accepted : ∀ site ∈ R.sites, site.checkUsername user = none

theorem toNat_of_isNameChar {c : Char} (h : Tag.isNameChar c = true) :
    48 ≤ c.toNat ∧ c.toNat ≤ 122 := by
  simp only [Tag.isNameChar, Bool.or_eq_true, beq_iff_eq] at h
  rcases h with h | rfl
  · exact toNat_of_isAlphanum h
  · decide

theorem isIdentifierChar_of_isNameChar {c : Char} (h : Tag.isNameChar c = true) :
    isIdentifierChar c = true := by
  unfold Tag.isNameChar at h
  rw [isIdentifierChar, h, Bool.true_or]

namespace Registry

variable {R : Registry} {name : String}

/-- A name stands for the site with an id. -/
def Resolves (R : Registry) (name id : String) : Prop :=
  ∃ site, R.resolve? name = some site ∧ site.id = id

theorem resolves_iff {site : Site} (h : R.resolve? name = some site) {id : String} :
    R.Resolves name id ↔ site.id = id := by
  constructor
  · rintro ⟨other, hother, rfl⟩
    rw [h, Option.some.injEq] at hother
    rw [hother]
  · exact fun hid => ⟨site, h, hid⟩

theorem not_resolves (h : R.resolve? name = none) (id : String) : ¬ R.Resolves name id := by
  rintro ⟨site, hs, -⟩
  rw [h] at hs
  cases hs

/-- Lower case does not change what the name of a tag stands for. -/
theorem resolve?_lower (h : ∀ c ∈ name.toList, Tag.isNameChar c = true) :
    R.resolve? (Text.lower name) = R.resolve? name := by
  have hascii : ∀ c ∈ name.toList, c.toNat < 0x80 := by
    intro c hc
    have := toNat_of_isNameChar (h c hc)
    omega
  have hlower := Chars.lower_of_ascii hascii
  -- a letter in lower case is an ASCII character, and no white space
  have hmap : ∀ c ∈ name.toList.map Char.toLower, 48 ≤ c.toNat ∧ c.toNat ≤ 122 := by
    intro d hd
    obtain ⟨c, hc, rfl⟩ := List.mem_map.1 hd
    have hrange := toNat_of_isNameChar (h c hc)
    by_cases hupper : 65 ≤ c.toNat ∧ c.toNat ≤ 90
    · have := toNat_toLower_of_upper hupper
      omega
    · rw [toLower_of_not_upper hupper]
      omega
  have hblank : ∀ {c : Char}, 48 ≤ c.toNat ∧ c.toNat ≤ 122 → isBlank c = false := by
    intro c hc
    rw [Bool.eq_false_iff]
    intro hb
    have := toNat_of_isBlank hb
    omega
  have htrim : Text.trim name = name := by
    rw [Text.trim, Chars.trim_of_forall_not fun c hc => hblank (toNat_of_isNameChar (h c hc)),
      String.ofList_toList]
  have htrimLower : Text.trim (Text.lower name) = Text.lower name := by
    rw [Text.trim, Text.toList_lower, hlower, Chars.trim_of_forall_not fun c hc => hblank (hmap c hc),
      ← hlower, Text.lower]
  have htwice : Text.lower (Text.lower name) = Text.lower name := by
    have hascii' : ∀ c ∈ name.toList.map Char.toLower, c.toNat < 0x80 := by
      intro c hc
      have := hmap c hc
      omega
    rw [Text.lower, Text.toList_lower, hlower, Chars.lower_of_ascii hascii', List.map_map, Text.lower,
      hlower]
    congr 1
    exact List.map_congr_left fun c _ => toLower_toLower c
  unfold resolve?
  rw [htrimLower, htwice, htrim]

end Registry

/-! ## In a tag -/

namespace Naming

variable {R : Registry} {name user : String}

/-- The opening tag that gives a user name for a site. -/
def opening (name user : String) : Tag := ⟨false, name.toList, some user.toList⟩

/-- The tag that gives a user name for a site, and its closing tag. -/
def tags (name user : String) : String :=
  (opening name user).raw ++ ("" ++ (⟨true, name.toList, none⟩ : Tag).raw)

theorem tags_eq (name user : String) :
    tags name user = "[" ++ name ++ "=" ++ user ++ "][/" ++ name ++ "]" := by
  apply String.toList_injective
  simp [tags, opening, Tag.raw, Tag.chars]

theorem name_opening : (opening name user).name = Text.lower name := rfl

theorem value?_opening (h : Naming R name user) : (opening name user).value? = some user := by
  have htrim : String.ofList (Chars.trim user.toList) = user := h.trimmed.2
  have ha : (opening name user).attr = some user := congrArg some htrim
  rw [Tag.value?, ha]
  simp [h.trimmed.1]

theorem not_mem_reserved (h : Naming R name user) : (opening name user).name ∉ reserved :=
  fun hm => h.free (List.mem_cons_of_mem _ hm)

theorem bindingSite?_opening (h : Naming R name user) : R.bindingSite? (opening name user).name =
    (R.resolve? name).map fun site => .ofId site.id := by
  have hne : Text.lower name ≠ "generic" := fun he => h.free (he ▸ List.mem_cons_self)
  rw [name_opening, Registry.bindingSite?, if_neg hne, Registry.resolve?_lower h.written.name]

theorem exists_tokens (h : Naming R name user) : ∃ q, Token.ofSource (tags name user) =
    [⟨.tag (opening name user), ⟨0, 1, 1⟩⟩, ⟨.tag ⟨true, name.toList, none⟩, q⟩] := by
  have hclosed : Tag.Written ⟨true, name.toList, none⟩ := h.written.closed rfl
  obtain ⟨q, hq⟩ := Conditional.ofSource_enclosed (o := opening name user) h.written hclosed ""
  exact ⟨q, hq⟩

/-- The tag of a name that stands for a site makes a switch with that site only. -/
theorem parse_of_resolve? (h : Naming R name user) {site : Site} (hs : R.resolve? name = some site) :
    Document.parse R (tags name user) =
      .ok [.switch .user [⟨.ofId site.id, user, none⟩] ⟨0, 1, 1⟩] := by
  obtain ⟨q, htokens⟩ := h.exists_tokens
  let o : OpenTag := ⟨opening name user, ⟨0, 1, 1⟩⟩
  have hopens : OpensSwitch R o (.ofId site.id) := by
    refine ⟨rfl, ?_⟩
    rw [h.bindingSite?_opening, hs]
    rfl
  have hadmits : Admits R .user [] (.ofId site.id) user := by
    refine ⟨by simp, fun _ id hid s hget => ?_⟩
    exact h.accepted s (Registry.get?_eq_some_iff.1 hget).1
  have hcloses : Closes o ⟨.tag ⟨true, name.toList, none⟩, q⟩ := ⟨_, rfl, rfl, rfl, rfl⟩
  have hchain : Derives R (.chain .user [] [⟨.ofId site.id, user, none⟩])
      (o.token :: ([] ++ [⟨.tag ⟨true, name.toList, none⟩, q⟩])) :=
    .leaf hopens (by simp) .nil hcloses (.bare h.value?_opening rfl) hadmits
  have hnode := Derives.switch h.not_mem_reserved hchain
  rw [Document.parse, htokens]
  exact Document.ofTokens_eq_ok_iff.2 (.cons hnode .nil)

/-- The tag of a name that stands for nothing is unknown. -/
theorem parse_of_resolve?_eq_none (h : Naming R name user) (hs : R.resolve? name = none) :
    Document.parse R (tags name user) =
      .error ⟨.unknownTag (opening name user).raw, ⟨0, 1, 1⟩⟩ := by
  obtain ⟨q, htokens⟩ := h.exists_tokens
  let o : OpenTag := ⟨opening name user, ⟨0, 1, 1⟩⟩
  have hkeyword : Keyword.ofName? o.tag.name = none :=
    Keyword.ofName?_eq_none_iff.2 h.not_mem_reserved
  have hsite : R.bindingSite? o.tag.name = none := by
    rw [h.bindingSite?_opening, hs]
    rfl
  have hopen : Reading.openNode R .start o =
      .error ⟨.unknownTag (opening name user).raw, ⟨0, 1, 1⟩⟩ := by
    simp [Reading.openNode, hkeyword, hsite, Reading.fault, o]
  rw [Document.parse, htokens]
  exact Conditional.ofTokens_cons_eq_error rfl hopen _

/-! ## In a condition -/

/-- The condition that a site is the destination. -/
def condition (name : String) : String := (Test.is name).expression "site"

theorem condition_eq (name : String) : condition name = "site==" ++ name := by
  simp [condition, Test.expression, Test.sign, Test.names]

theorem wellFormed (h : Naming R name user) : (Test.is name).WellFormed := by
  have hid : isIdentifier name = true := by
    have hne : name.toList.isEmpty = false := by
      rw [List.isEmpty_eq_false_iff]
      exact h.written.name_ne_nil
    rw [isIdentifier, hne, Bool.not_false, Bool.true_and, List.all_eq_true]
    exact fun c hc => isIdentifierChar_of_isNameChar (h.written.name c hc)
  exact ⟨by simp [Test.names], by simpa [Test.names] using hid⟩

theorem isAlpha_site : ∀ c ∈ "site".toList, c.isAlpha = true := List.all_eq_true.1 (by decide)

theorem parse_condition (h : Naming R name user) : Condition.parse R (condition name) =
    match R.resolve? name with
    | some site => .ok ⟨.site, .equal, [site.id]⟩
    | none => .error ⟨condition name, .unknownSite name⟩ := by
  have hsubject : Condition.subject? "site".toList = some .site := by decide
  have hid : isIdentifier name = true := h.wellFormed.identifier name (by simp [Test.names])
  have hread : Condition.readOperand R .site name =
      match R.resolve? name with
      | some site => .ok site.id
      | none => .error (.unknownSite name) := by
    rw [Condition.readOperand, hid]
    rfl
  have hmapM : (Test.is name).names.mapM (Condition.readOperand R .site) =
      (Condition.readOperand R .site name).map fun operand => [operand] := by
    rw [Test.names, List.mapM_cons, List.mapM_nil]
    cases Condition.readOperand R .site name <;> rfl
  rw [condition, Test.parse_expression h.wellFormed (by decide) isAlpha_site hsubject, hmapM, hread]
  cases R.resolve? name <;> rfl

variable {body : String}

/-- The condition of a name that stands for a site holds there and nowhere else. -/
theorem parse_source_of_resolve? (h : Naming R name user) {site : Site}
    (hs : R.resolve? name = some site) {ns : List Node} (hbody : Document.parse R body = .ok ns) :
    Document.parse R (Conditional.source (condition name) body) =
      .ok [.conditional ⟨.site, .equal, [site.id]⟩
        (Node.moveAll (Conditional.inside (condition name) body) ns) none] := by
  have hc := h.parse_condition
  rw [hs] at hc
  exact Conditional.parse_of_parse (h.wellFormed.unbracketed_expression isAlpha_site)
    (h.wellFormed.trimmed_expression (by decide) isAlpha_site) hc hbody

theorem holds_iff (id target : String) (flags : List String) :
    Condition.holds ⟨.site, .equal, [id]⟩ target flags = true ↔ target = id := by
  rw [Condition.holds, List.any_cons, List.any_nil, Bool.or_false, Condition.accepts, beq_iff_eq]
  exact eq_comm

/-- The condition of a name that stands for nothing is refused. -/
theorem parse_source_of_resolve?_eq_none (h : Naming R name user) (hs : R.resolve? name = none)
    (body : String) : Document.parse R (Conditional.source (condition name) body) =
      .error ⟨.condition ⟨condition name, .unknownSite name⟩, ⟨0, 1, 1⟩⟩ := by
  have hc := h.parse_condition
  rw [hs] at hc
  exact Conditional.parse_of_refused (h.wellFormed.unbracketed_expression isAlpha_site)
    (h.wellFormed.trimmed_expression (by decide) isAlpha_site) hc body

/-! ## In a file of user names -/

open UsernameFile

/-- A file with one user name. -/
def file (name user : String) : Json :=
  .object [(CodePoints.ofString name, .string (CodePoints.ofString user))]

/-- The user names that a file keeps for a site: none for the site with the key that never holds
    a name. -/
def kept (id user : String) : Usernames :=
  if id = emptyKey then [] else [(id, CodePoints.ofString user)]

theorem plain?_ofString (s : String) : (CodePoints.ofString s).plain? = some s := by
  have hmap : ∀ cs : List Char, (cs.map CodePoint.char).mapM CodePoint.char? = some cs := by
    intro cs
    induction cs with
    | nil => rfl
    | cons c cs ih =>
      rw [List.map_cons, List.mapM_cons, ih]
      rfl
  rw [CodePoints.plain?, CodePoints.ofString, hmap, Option.map_some, String.ofList_toList]

theorem trim_ofString (s : String) :
    (CodePoints.ofString s).trim = CodePoints.ofString (Text.trim s) := by
  have hchar : CodePoint.has isBlank ∘ CodePoint.char = isBlank := rfl
  unfold CodePoints.trim CodePoints.ofString
  simp only [Text.toList_trim, Chars.trim, Chars.trimEnd, Chars.trimStart, List.dropWhile_map,
    ← List.map_reverse, hchar]

/-- The name of a tag does not start like the key that never holds a name. -/
theorem ne_emptyKey (h : Naming R name user) : name ≠ emptyKey := by
  rintro rfl
  have hhead : '_' ∈ emptyKey.toList.head? := by decide
  exact absurd (h.written.name_start '_' hhead) (by decide)

theorem names_file (h : Naming R name user) :
    names [(CodePoints.ofString name, .string (CodePoints.ofString user))] =
      [(CodePoints.ofString name, CodePoints.ofString user)] := by
  have hkey : (CodePoints.ofString name).plain? ≠ some emptyKey := by
    rw [plain?_ofString, ne_eq, Option.some.injEq]
    exact h.ne_emptyKey
  simp [names, hkey, trim_ofString, h.trimmed.2]

theorem validate_file (h : Naming R name user) : validate R (file name user) =
    match R.resolve? name with
    | some site => .ok ⟨kept site.id user, []⟩
    | none => .error [.noSites] := by
  have hform : formIssue? (CodePoints.ofString name, .string (CodePoints.ofString user)) = none := by
    have hblank : (CodePoints.ofString user).isBlank = false := by
      rw [Bool.eq_false_iff, ne_eq, ← CodePoints.trim_eq_nil_iff, trim_ofString, h.trimmed.2]
      simpa [CodePoints.ofString] using h.trimmed.1
    simp [formIssue?, hblank]
  have hnamed : (CodePoints.ofString name).plain?.bind R.resolve? = R.resolve? name := by
    rw [plain?_ofString, Option.bind_some]
  rw [file, validate_object, Fields.ofEntries_singleton, if_pos (by simp [hform]), h.names_file,
    List.foldl_cons, List.foldl_nil]
  unfold Progress.add
  simp only [hnamed]
  cases hs : R.resolve? name with
  | none => rfl
  | some site =>
    have hc := site.refusal?_of_accepted (h.accepted site (Registry.mem_of_resolve? hs))
    by_cases hid : site.id = emptyKey
    · simp [hc, Progress.result, kept, hid]
    · simp [hc, Progress.result, kept, hid]

/-! ## Everywhere -/

theorem ofId_eq_iff {a b : String} : BindingSite.ofId a = .ofId b ↔ a = b :=
  BindingSite.ofId_injective.eq_iff

theorem kept_eq_iff {a b : String} : kept a user = kept b user ↔ a = b := by
  refine ⟨fun h => ?_, fun h => h ▸ rfl⟩
  unfold kept at h
  split_ifs at h with ha hb hb
  · exact ha.trans hb.symm
  · exact congrArg Prod.fst (List.cons.inj h).1

/-- **A tag, a condition and a file of user names agree on what a name stands for**: each of them
    says that it stands for a site exactly where it does, and refuses it where it stands for
    nothing. A file keeps no user name for a site with the key that never holds one. -/
theorem means_one_site (h : Naming R name user) :
    (∀ id, (R.Resolves name id ↔ Document.parse R (tags name user) =
        .ok [.switch .user [⟨.ofId id, user, none⟩] ⟨0, 1, 1⟩]) ∧
      (∀ body ns, Document.parse R body = .ok ns →
        (R.Resolves name id ↔ ∃ c, Document.parse R (Conditional.source (condition name) body) =
            .ok [.conditional c (Node.moveAll (Conditional.inside (condition name) body) ns) none] ∧
          ∀ target flags, c.holds target flags = true ↔ target = id)) ∧
      (R.Resolves name id ↔ validate R (file name user) = .ok ⟨kept id user, []⟩)) ∧
    (R.resolve? name = none →
      Document.parse R (tags name user) =
        .error ⟨.unknownTag (opening name user).raw, ⟨0, 1, 1⟩⟩ ∧
      (∀ body, Document.parse R (Conditional.source (condition name) body) =
        .error ⟨.condition ⟨condition name, .unknownSite name⟩, ⟨0, 1, 1⟩⟩) ∧
      validate R (file name user) = .error [.noSites]) := by
  cases hs : R.resolve? name with
  | none =>
    have htag := h.parse_of_resolve?_eq_none hs
    have hcondition := h.parse_source_of_resolve?_eq_none hs
    have hfile := h.validate_file
    rw [hs] at hfile
    refine ⟨fun id => ⟨?_, fun body ns hbody => ?_, ?_⟩, fun _ => ⟨htag, hcondition, hfile⟩⟩
    · rw [htag]
      exact iff_of_false (Registry.not_resolves hs id) (by simp)
    · refine iff_of_false (Registry.not_resolves hs id) ?_
      rintro ⟨c, hc, -⟩
      rw [hcondition] at hc
      cases hc
    · rw [hfile]
      exact iff_of_false (Registry.not_resolves hs id) (by simp)
  | some site =>
    have hfile := h.validate_file
    rw [hs] at hfile
    refine ⟨fun id => ⟨?_, fun body ns hbody => ?_, ?_⟩, fun hnone => absurd hnone (by simp)⟩
    · rw [Registry.resolves_iff hs, h.parse_of_resolve? hs]
      simp [ofId_eq_iff]
    · rw [Registry.resolves_iff hs]
      have hcondition := h.parse_source_of_resolve? hs hbody
      constructor
      · rintro rfl
        exact ⟨_, hcondition, fun target flags => holds_iff site.id target flags⟩
      · rintro ⟨c, hc, hholds⟩
        rw [hcondition] at hc
        cases hc
        exact (hholds site.id []).1 ((holds_iff site.id site.id []).2 rfl)
    · rw [Registry.resolves_iff hs, hfile]
      simp [kept_eq_iff]

/-- A name in any letter case. -/
theorem means_one_site_letter_case :
    Naming .builtin "fA" "x@y.z" ∧ Naming .builtin "fx" "x@y.z" ∧
      Registry.Resolves .builtin "fA" "furaffinity" ∧
      Document.parse .builtin (tags "fA" "x@y.z") =
        .ok [.switch .user [⟨.ofId "furaffinity", "x@y.z", none⟩] ⟨0, 1, 1⟩] ∧
      validate .builtin (file "fA" "x@y.z") = .ok ⟨kept "furaffinity" "x@y.z", []⟩ ∧
      validate .builtin (file "fx" "x@y.z") = .error [.noSites] := by
  have haccepted : ∀ site ∈ Registry.builtin.sites, site.checkUsername "x@y.z" = none := by
    decide +kernel
  have htrimmed : Text.Trimmed "x@y.z" := ⟨by decide, by decide⟩
  have hfa : Naming .builtin "fA" "x@y.z" := ⟨by decide, by decide, htrimmed, haccepted⟩
  have hfx : Naming .builtin "fx" "x@y.z" := ⟨by decide, by decide, htrimmed, haccepted⟩
  have hresolves : Registry.Resolves .builtin "fA" "furaffinity" :=
    ⟨Site.furaffinity, by rfl, rfl⟩
  have hnone : Registry.builtin.resolve? "fx" = none := by rfl
  obtain ⟨htag, -, hfile⟩ := (means_one_site hfa).1 "furaffinity"
  obtain ⟨-, -, hrefused⟩ := (means_one_site hfx).2 hnone
  exact ⟨hfa, hfx, hresolves, htag.1 hresolves, hfile.1 hresolves, hrefused⟩

/-- A file keeps no user name for a site with the key that never holds one. -/
theorem not_every_name_kept :
    let R : Registry := ⟨[{ Site.weasyl with id := "__proto__", aliases := ["w"] }],
      by decide +kernel⟩
    Naming R "w" "x" ∧ R.Resolves "w" "__proto__" ∧
      validate R (file "w" "x") ≠ .ok ⟨[("__proto__", CodePoints.ofString "x")], []⟩ := by
  intro R
  have haccepted : ∀ site ∈ R.sites, site.checkUsername "x" = none := by
    simp [R, Site.weasyl]
  refine ⟨⟨by decide, by decide, ⟨by decide, by decide⟩, haccepted⟩, ?_, ?_⟩
  · exact ⟨{ Site.weasyl with id := "__proto__", aliases := ["w"] }, by rfl, rfl⟩
  · have hok : validate R (file "w" "x") = .ok ⟨[], []⟩ := by decide +kernel
    rw [hok]
    simp

end Naming

end Crosspost
