/-
  Merged fields.

  Objects are merged by setting the entries of one after those of the other.

  * `Fields.Before keys a b`: of an object whose keys were set in the order of `keys`, the
    key `a` is walked before `b`;
  * `Fields.Merges entries fields`: each key has the value that was set last and the place at
    which it was set first, behind the integer-like keys, which ascend;
  * `Fields.merges_ofEntries`: **the fields of an object are merged from its entries**, and
    nothing else is (`Fields.Merges.unique`);
  * `Fields.Merges.of_part`: a part of the entries may be merged first;
  * `Fields.ofEntries_filter`: a key may be taken out of the entries or of the fields.
-/
import Mathlib.Data.List.Induction
import Mathlib.Data.List.Nodup
import Crosspost.Proofs.Json.Fields

namespace Crosspost

/-- Code points without surrogates are those of their text. -/
theorem CodePoints.eq_of_plain? {ps : CodePoints} {s : String} (h : ps.plain? = some s) :
    ps = .ofString s := by
  obtain ⟨cs, hcs, rfl⟩ := Option.map_eq_some_iff.1 h
  rw [ofString, String.toList_ofList]
  clear h
  induction ps generalizing cs with
  | nil =>
    cases hcs
    rfl
  | cons p ps ih =>
    rw [List.mapM_cons] at hcs
    obtain ⟨c, hc, hcs⟩ := Option.bind_eq_some_iff.1 hcs
    obtain ⟨rest, hrest, hcs⟩ := Option.bind_eq_some_iff.1 hcs
    cases hcs
    cases p with
    | char d =>
      cases hc
      rw [List.map_cons, ← ih _ hrest]
    | surrogate unit => cases hc

namespace Fields

/-! ## Setting fields -/

section
variable {κ α : Type} [DecidableEq κ] {key k : κ} {value : α} {fields entries : List (κ × α)}

theorem lookup_put [BEq κ] [LawfulBEq κ] :
    (put key value fields).lookup k = if k = key then some value else fields.lookup k := by
  induction fields with
  | nil =>
    rw [put, List.lookup_cons]
    by_cases hk : k = key
    · simp [hk]
    · simp [beq_eq_false_iff_ne.2 hk, hk]
  | cons field fields ih =>
    obtain ⟨a, b⟩ := field
    unfold put
    by_cases ha : a = key
    · rw [if_pos ha, List.lookup_cons, List.lookup_cons, ha]
      by_cases hk : k = key
      · simp [hk]
      · simp [beq_eq_false_iff_ne.2 hk, hk]
    · rw [if_neg ha, List.lookup_cons, List.lookup_cons, ih]
      by_cases hk : k = a
      · simp [hk, ha]
      · simp [beq_eq_false_iff_ne.2 hk]

theorem lookup_putAll [BEq κ] [LawfulBEq κ] :
    (putAll fields entries).lookup k = (entries.reverse.lookup k).or (fields.lookup k) := by
  induction entries generalizing fields with
  | nil => simp [putAll]
  | cons entry entries ih =>
    have hentry : (put entry.1 entry.2 fields).lookup k =
        ([entry].lookup k).or (fields.lookup k) := by
      rw [lookup_put, List.lookup_cons]
      by_cases hk : k = entry.1
      · simp [hk]
      · simp [beq_eq_false_iff_ne.2 hk, hk]
    rw [putAll, List.foldl_cons, ← putAll, ih, hentry, List.reverse_cons, List.lookup_append,
      Option.or_assoc]

theorem putAll_append (more : List (κ × α)) :
    putAll fields (entries ++ more) = putAll (putAll fields entries) more := List.foldl_append

/-- Fields that were set one after another are set again as they are. -/
theorem putAll_putAll : putAll [] (putAll [] entries) = putAll [] entries :=
  putAll_of_nodup (nodup_putAll List.nodup_nil)

theorem mem_keys_putAll :
    k ∈ (putAll fields entries).map (·.1) ↔ k ∈ fields.map (·.1) ∨ k ∈ entries.map (·.1) := by
  induction entries generalizing fields with
  | nil => simp [putAll]
  | cons entry entries ih =>
    rw [putAll, List.foldl_cons, ← putAll, ih, keys_put, List.map_cons, List.mem_cons]
    split_ifs with hm
    · constructor
      · exact Or.imp_right .inr
      · rintro (h | rfl | h)
        · exact .inl h
        · exact .inl hm
        · exact .inr h
    · rw [List.mem_append, List.mem_singleton, or_assoc]

/-- Keys stand in the order in which they were set first. -/
theorem pairwise_putAll [BEq κ] [LawfulBEq κ] : ((putAll [] entries).map (·.1)).Pairwise fun a b =>
    (entries.map (·.1)).idxOf a < (entries.map (·.1)).idxOf b := by
  induction entries using List.reverseRecOn with
  | nil => exact .nil
  | append_singleton entries entry ih =>
    have hmem : ∀ {k}, k ∈ (putAll [] entries).map (·.1) ↔ k ∈ entries.map (·.1) := by
      intro k
      simp [mem_keys_putAll]
    have hput : putAll [] (entries ++ [entry]) = put entry.1 entry.2 (putAll [] entries) :=
      putAll_append [entry]
    have hold : ((putAll [] entries).map (·.1)).Pairwise fun a b =>
        ((entries ++ [entry]).map (·.1)).idxOf a < ((entries ++ [entry]).map (·.1)).idxOf b := by
      refine ih.imp_of_mem fun {a b} ha hb hab => ?_
      rwa [List.map_append, List.idxOf_append_of_mem (hmem.1 ha),
        List.idxOf_append_of_mem (hmem.1 hb)]
    rw [hput, keys_put]
    split_ifs with hin
    · exact hold
    · refine List.pairwise_append.2 ⟨hold, List.pairwise_singleton _ _, fun a ha b hb => ?_⟩
      -- the new key is behind all others
      rw [List.mem_singleton.1 hb, List.map_append, List.idxOf_append_of_mem (hmem.1 ha),
        List.idxOf_append_of_notMem fun h => hin (hmem.2 h)]
      exact Nat.lt_add_right _ (List.idxOf_lt_length_of_mem (hmem.1 ha))

end

/-! ## Objects -/

section
variable {α : Type} {entries fields others : List (CodePoints × α)} {keys : List CodePoints}

/-- An integer-like key is its number, written out. -/
theorem eq_of_index? {key : CodePoints} {n : Nat} (h : index? key = some n) :
    key = CodePoints.ofString (toString n) := by
  obtain ⟨written, hw, h⟩ := Option.bind_eq_some_iff.1 h
  obtain ⟨m, -, h⟩ := Option.bind_eq_some_iff.1 h
  split_ifs at h with hm
  cases h
  rw [Bool.and_eq_true, beq_iff_eq] at hm
  rw [CodePoints.eq_of_plain? hw, hm.2]

/-- The key `a` is walked before `b` in an object whose keys were set in the order of
    `keys`. -/
def Before (keys : List CodePoints) (a b : CodePoints) : Prop :=
  match index? a, index? b with
  | some m, some n => m < n
  | some _, none => True
  | none, some _ => False
  | none, none => keys.idxOf a < keys.idxOf b

theorem Before.asymm {a b : CodePoints} (h : Before keys a b) : ¬ Before keys b a := by
  unfold Before at h ⊢
  split at h <;> simp_all <;> omega

/-- The fields that come from setting some entries in turn. -/
structure Merges (entries fields : List (CodePoints × α)) : Prop where
  /-- A key has the value that was set last. -/
  value : ∀ key, fields.lookup key = entries.reverse.lookup key
  /-- Integer-like keys ascend, and the others follow, each where it was set first. -/
  order : (fields.map (·.1)).Pairwise (Before (entries.map (·.1)))

theorem pairwise_inOrder (hnodup : (fields.map (·.1)).Nodup)
    (h : (fields.map (·.1)).Pairwise fun a b => keys.idxOf a < keys.idxOf b) :
    ((inOrder fields).map (·.1)).Pairwise (Before keys) := by
  let indexed := fields.filterMap fun f => (index? f.1).map fun n => (n, f)
  let sorted := indexed.mergeSort fun a b => a.1 ≤ b.1
  have hperm : sorted.Perm indexed := List.mergeSort_perm _ _
  have hindex : ∀ e ∈ sorted, index? e.2.1 = some e.1 := by
    intro e he
    obtain ⟨f, -, hf⟩ := List.mem_filterMap.1 (hperm.subset he)
    obtain ⟨n, hn, rfl⟩ := Option.map_eq_some_iff.1 hf
    exact hn
  have hne : indexed.Pairwise fun a b => a.1 ≠ b.1 := by
    refine List.pairwise_filterMap.2 ((List.pairwise_map.1 hnodup).imp ?_)
    intro f g hfg a ha b hb hab
    obtain ⟨m, hm, rfl⟩ := Option.map_eq_some_iff.1 ha
    obtain ⟨n, hn, rfl⟩ := Option.map_eq_some_iff.1 hb
    rw [eq_of_index? hm, eq_of_index? hn] at hfg
    exact hfg (congrArg _ (congrArg _ hab))
  have hle : sorted.Pairwise fun a b => decide (a.1 ≤ b.1) = true :=
    List.pairwise_mergeSort (fun a b c => by simp only [decide_eq_true_eq]; omega)
      (fun a b => by simp only [Bool.or_eq_true, decide_eq_true_eq]; omega) _
  have hlt : sorted.Pairwise fun a b => a.1 < b.1 := by
    refine (hle.and ((hperm.pairwise_iff Ne.symm).2 hne)).imp fun {a b} hab => ?_
    exact Nat.lt_of_le_of_ne (of_decide_eq_true hab.1) hab.2
  rw [inOrder, List.map_append, List.pairwise_append, List.map_map, List.pairwise_map,
    List.pairwise_map]
  refine ⟨?_, ?_, ?_⟩
  · refine hlt.imp_of_mem fun {a b} ha hb hab => ?_
    simpa only [Before, Function.comp_apply, hindex a ha, hindex b hb] using hab
  · refine ((List.pairwise_map.1 h).filter _).imp_of_mem fun {a b} ha hb hab => ?_
    have hna := Option.isNone_iff_eq_none.1 (List.mem_filter.1 ha).2
    have hnb := Option.isNone_iff_eq_none.1 (List.mem_filter.1 hb).2
    simpa only [Before, hna, hnb] using hab
  · intro a ha b hb
    obtain ⟨e, he, rfl⟩ := List.mem_map.1 ha
    obtain ⟨f, hf, rfl⟩ := List.mem_map.1 hb
    have hnone := Option.isNone_iff_eq_none.1 (List.mem_filter.1 hf).2
    simp only [Before, Function.comp_apply, hindex e he, hnone]

/-- **The fields of an object are merged from its entries.** -/
theorem merges_ofEntries (entries : List (CodePoints × α)) :
    Merges entries (ofEntries entries) where
  value key := by
    have hnodup : ((putAll [] entries).map (·.1)).Nodup := nodup_putAll List.nodup_nil
    have hsame : (ofEntries entries).lookup key = (putAll [] entries).lookup key := by
      ext value
      rw [lookup_eq_some_iff_mem (nodup_ofEntries entries), lookup_eq_some_iff_mem hnodup]
      exact (inOrder_perm _).mem_iff
    rw [hsame, lookup_putAll, List.lookup_nil, Option.or_none]
  order := pairwise_inOrder (nodup_putAll List.nodup_nil) pairwise_putAll

theorem Merges.nodup (h : Merges entries fields) : (fields.map (·.1)).Nodup := by
  refine h.order.imp fun hab he => ?_
  subst he
  exact hab.asymm hab

/-- Every field has been set as it is. -/
theorem Merges.subset (h : Merges entries fields) : fields ⊆ entries := by
  rintro ⟨key, value⟩ hf
  rw [← lookup_eq_some_iff_mem h.nodup, h.value, List.lookup_eq_some_iff] at hf
  obtain ⟨front, back, hentries, -⟩ := hf
  have hm : (key, value) ∈ entries.reverse := by simp [hentries]
  exact List.mem_reverse.1 hm

/-- Nothing else is merged from the same entries. -/
theorem Merges.unique (h : Merges entries fields) (h' : Merges entries others) :
    fields = others := by
  have hmem : ∀ f, f ∈ fields ↔ f ∈ others := by
    rintro ⟨key, value⟩
    rw [← lookup_eq_some_iff_mem h.nodup, ← lookup_eq_some_iff_mem h'.nodup, h.value, h'.value]
  have hperm : fields.Perm others :=
    (List.perm_ext_iff_of_nodup (List.Nodup.of_map (·.1) h.nodup)
      (List.Nodup.of_map (·.1) h'.nodup)).2 hmem
  have horder := List.pairwise_map.1 h.order
  have horder' := List.pairwise_map.1 h'.order
  exact hperm.eq_of_pairwise (fun f g _ _ hfg hgf => absurd hgf hfg.asymm) horder horder'

theorem ofEntries_eq_iff : ofEntries entries = fields ↔ Merges entries fields := by
  constructor
  · rintro rfl
    exact merges_ofEntries entries
  · exact (merges_ofEntries entries).unique

/-- Entries that were set in turn are set again as they are, and more after them. -/
theorem ofEntries_putAll_append (entries more : List (CodePoints × α)) :
    ofEntries (putAll [] entries ++ more) = ofEntries (entries ++ more) := by
  rw [ofEntries, ofEntries, putAll_append, putAll_append, putAll_putAll]

/-! ## Merging a part -/

/-- The order of first places in two parts: that in the first one, or that in the
    second one of what is not in the first. -/
theorem idxOf_append_lt_iff {front back : List CodePoints} {a b : CodePoints} :
    (front ++ back).idxOf a < (front ++ back).idxOf b ↔
      front.idxOf a < front.idxOf b ∨
        a ∉ front ∧ b ∉ front ∧ back.idxOf a < back.idxOf b := by
  by_cases ha : a ∈ front <;> by_cases hb : b ∈ front
  · rw [List.idxOf_append_of_mem ha, List.idxOf_append_of_mem hb]
    simp [ha]
  · have hlt := List.idxOf_lt_length_of_mem ha
    rw [List.idxOf_append_of_mem ha, List.idxOf_append_of_notMem hb, List.idxOf_of_notMem hb]
    simp only [ha, not_true_eq_false, false_and, or_false]
    omega
  · have hlt := List.idxOf_lt_length_of_mem hb
    rw [List.idxOf_append_of_notMem ha, List.idxOf_append_of_mem hb, List.idxOf_of_notMem ha]
    simp only [hb, not_true_eq_false, false_and, and_false, or_false]
    omega
  · rw [List.idxOf_append_of_notMem ha, List.idxOf_append_of_notMem hb, List.idxOf_of_notMem ha,
      List.idxOf_of_notMem hb]
    simp [ha, hb]

theorem Merges.mem_keys_iff (h : Merges entries fields) {key : CodePoints} :
    key ∈ fields.map (·.1) ↔ key ∈ entries.map (·.1) := by
  have hperm : fields.Perm (putAll [] entries) := by
    rw [← ofEntries_eq_iff.2 h]
    exact inOrder_perm _
  rw [(hperm.map _).mem_iff, mem_keys_putAll]
  simp

/-- Keys that are walked in this order by the merged fields are so by the entries. -/
theorem Merges.isEmpty_eq (h : Merges entries fields) : fields.isEmpty = entries.isEmpty := by
  have hnil (l : List (CodePoints × α)) : l = [] ↔ ∀ key, key ∉ l.map (·.1) := by
    rw [← List.eq_nil_iff_forall_not_mem, List.map_eq_nil_iff]
  rw [Bool.eq_iff_iff, List.isEmpty_iff, List.isEmpty_iff, hnil, hnil]
  simp only [h.mem_keys_iff]

theorem Merges.idxOf_lt (h : Merges entries fields) {a b : CodePoints} (ha : index? a = none)
    (hb : index? b = none)
    (hlt : (fields.map (·.1)).idxOf a < (fields.map (·.1)).idxOf b) :
    (entries.map (·.1)).idxOf a < (entries.map (·.1)).idxOf b := by
  have hina : a ∈ fields.map (·.1) :=
    List.idxOf_lt_length_iff.1 (Nat.lt_of_lt_of_le hlt List.idxOf_le_length)
  by_cases hinb : b ∈ fields.map (·.1)
  · have hi := List.idxOf_lt_length_of_mem hina
    have hj := List.idxOf_lt_length_of_mem hinb
    have hbefore := List.pairwise_iff_getElem.1 h.order _ _ hi hj hlt
    rw [List.getElem_idxOf, List.getElem_idxOf] at hbefore
    simpa only [Before, ha, hb] using hbefore
  · rw [h.mem_keys_iff] at hina hinb
    rw [List.idxOf_of_notMem hinb]
    exact List.idxOf_lt_length_of_mem hina

/-- **A part of the entries may be merged first.** -/
theorem Merges.of_part {front part merged back : List (CodePoints × α)}
    (hpart : Merges part merged) (h : Merges (front ++ (merged ++ back)) fields) :
    Merges (front ++ (part ++ back)) fields where
  value key := by
    have hsame : merged.reverse.lookup key = part.reverse.lookup key := by
      ext value
      rw [← hpart.value, lookup_eq_some_iff_mem hpart.nodup,
        lookup_eq_some_iff_mem (by simpa using hpart.nodup), List.mem_reverse]
    rw [h.value]
    simp only [List.reverse_append, List.lookup_append, hsame]
  order := by
    refine h.order.imp fun {a b} hab => ?_
    have hmem : ∀ key, key ∈ merged.map (·.1) ↔ key ∈ part.map (·.1) := fun _ =>
      hpart.mem_keys_iff
    unfold Before at hab ⊢
    split at hab
    · exact hab
    · exact trivial
    · exact hab
    · next ha hb =>
      simp only [List.map_append, idxOf_append_lt_iff, hmem] at hab ⊢
      refine hab.imp_right (And.imp_right (And.imp_right ?_))
      exact Or.imp_left (hpart.idxOf_lt ha hb)

theorem ofEntries_part {front part merged back : List (CodePoints × α)}
    (hpart : Merges part merged) :
    ofEntries (front ++ (merged ++ back)) = ofEntries (front ++ (part ++ back)) :=
  (ofEntries_eq_iff.2 (hpart.of_part (merges_ofEntries _))).symm

/-! ## Taking fields out -/

/-- Keys that are left stand in the order they had. -/
theorem idxOf_filter_lt_iff (q : CodePoints → Bool) {a b : CodePoints} (ha : q a = true)
    (hb : q b = true) :
    (keys.filter q).idxOf a < (keys.filter q).idxOf b ↔ keys.idxOf a < keys.idxOf b := by
  induction keys with
  | nil => rfl
  | cons key keys ih =>
    by_cases hkey : q key = true
    · simp only [List.filter_cons_of_pos hkey, List.idxOf_cons]
      cases key == a <;> cases key == b <;> simp [ih]
    · have hka : (key == a) = false := beq_eq_false_iff_ne.2 fun h => hkey (h ▸ ha)
      have hkb : (key == b) = false := beq_eq_false_iff_ne.2 fun h => hkey (h ▸ hb)
      simp [List.filter_cons_of_neg hkey, List.idxOf_cons, hka, hkb, ih]

theorem lookup_filter (q : CodePoints → Bool) {key : CodePoints} :
    (entries.filter fun e => q e.1).lookup key = if q key then entries.lookup key else none := by
  induction entries with
  | nil => simp
  | cons e entries ih =>
    obtain ⟨k, v⟩ := e
    rw [List.lookup_cons]
    by_cases hk : key = k
    · subst hk
      by_cases hq : q key = true <;> simp [hq, ih]
    · have hb : (key == k) = false := beq_eq_false_iff_ne.2 hk
      by_cases hq : q k = true <;> simp [hq, hb, ih, List.lookup_cons]

/-- **Entries may be taken out before the others are set**, if all those of a key are. -/
theorem ofEntries_filter (q : CodePoints → Bool) (entries : List (CodePoints × α)) :
    ofEntries (entries.filter fun e => q e.1) = (ofEntries entries).filter fun e => q e.1 := by
  have h := merges_ofEntries entries
  refine ofEntries_eq_iff.2 ⟨fun key => ?_, ?_⟩
  · rw [lookup_filter, h.value, ← List.filter_reverse, lookup_filter]
  · have hmap : ∀ l : List (CodePoints × α),
        (l.filter fun e => q e.1).map (·.1) = (l.map (·.1)).filter q := fun l => by
      rw [List.filter_map]
      rfl
    rw [hmap, hmap]
    refine (h.order.filter _).imp_of_mem fun {a b} ha hb hab => ?_
    unfold Before at hab ⊢
    rwa [idxOf_filter_lt_iff q (List.of_mem_filter ha) (List.of_mem_filter hb)]

end

/-! ## Values -/

section
variable {α β : Type} {entries fields : List (CodePoints × α)}

theorem lookup_map (g : α → β) (fields : List (CodePoints × α)) (key : CodePoints) :
    (fields.map fun f => (f.1, g f.2)).lookup key = (fields.lookup key).map g := by
  induction fields with
  | nil => rfl
  | cons field fields ih =>
    rw [List.map_cons, List.lookup_cons, List.lookup_cons, ih]
    cases key == field.1 <;> rfl

theorem Merges.map (h : Merges entries fields) (g : α → β) :
    Merges (entries.map fun e => (e.1, g e.2)) (fields.map fun f => (f.1, g f.2)) where
  value key := by rw [← List.map_reverse, lookup_map, lookup_map, h.value]
  order := by
    rw [List.map_map, List.map_map]
    exact h.order

end

end Fields

end Crosspost
