/-
  What operations on trees keep.

  * `Tree.only p t`: the entries at the locations with `p`; what is done elsewhere
    keeps them (`Tree.only_set`, `Tree.only_remove`);
  * `Tree.Extends`: whatever is in one tree is in another one, where directories are
    directories; then ways through the one lead through the other
    (`Tree.Extends.walk_eq_ok`);
  * `Tree.makeDirs_eq`: a directory is made where nothing else is missing.
-/
import Crosspost.Proofs.Workspace.Paths

namespace Crosspost.Tree

open Location

variable {t u v : Tree} {l m : Location}

theorem not_isPrefixOf_iff : (!l.isPrefixOf m) = true ↔ ¬ l <+: m := by
  rw [Bool.not_eq_true', ← List.isPrefixOf_iff_prefix, Bool.not_eq_true]

/-! ## Looking up -/

theorem get?_of_ne_nil (h : l ≠ []) (t : Tree) : t.get? l = t.entries.lookup l := by
  cases l with
  | nil => exact absurd rfl h
  | cons _ _ => rfl

theorem lookup_filter {p : Location → Bool} (hp : p l = true) (es : List (Location × Entry)) :
    (es.filter fun e => p e.1).lookup l = es.lookup l := by
  induction es with
  | nil => rfl
  | cons e es ih =>
    obtain ⟨m, e⟩ := e
    by_cases hm : l = m
    · subst hm
      simp [hp]
    · cases hpm : p m with
      | true => simp [hpm, List.lookup_cons, beq_eq_false_iff_ne.2 hm, ih]
      | false => simp [hpm, List.lookup_cons, beq_eq_false_iff_ne.2 hm, ih]

theorem get?_set_self (h : l ≠ []) (t : Tree) (e : Entry) : (t.set l e).get? l = some e := by
  have hnone : (t.entries.filter (·.1 != l)).lookup l = none := by
    rw [List.lookup_eq_none_iff]
    intro a ha
    have hne : a.1 ≠ l := by simpa using (List.mem_filter.1 ha).2
    exact bne_iff_ne.2 (Ne.symm hne)
  rw [get?_of_ne_nil h, set, List.lookup_append, hnone]
  simp

theorem get?_set_of_ne (h : m ≠ l) (t : Tree) (e : Entry) : (t.set l e).get? m = t.get? m := by
  have hother : [(l, e)].lookup m = none := by simp [h]
  cases m with
  | nil => rfl
  | cons name names =>
    rw [get?_of_ne_nil (by simp), get?_of_ne_nil (by simp), set, List.lookup_append,
      lookup_filter (p := (· != l)) (by simpa using h), hother, Option.or_none]

theorem get?_remove (h : ¬ l <+: m) (t : Tree) : (t.remove l).get? m = t.get? m := by
  cases m with
  | nil => rfl
  | cons name names =>
    have hp : (!l.isPrefixOf (name :: names)) = true := not_isPrefixOf_iff.2 h
    rw [get?_of_ne_nil (by simp), get?_of_ne_nil (by simp), remove,
      lookup_filter (p := fun k => !l.isPrefixOf k) hp]

/-- What is around a directory stays when something in it is taken away. -/
theorem get?_remove_concat {k : Location} (hk : k <+: l) (name : String) (t : Tree) :
    (t.remove (l ++ [name])).get? k = t.get? k := by
  refine get?_remove (fun hp => ?_) t
  have hle := (hp.trans hk).length_le
  rw [List.length_append, List.length_singleton] at hle
  omega

/-! ## Parts of a tree -/

/-- The entries at the locations with `p`. -/
def only (p : Location → Bool) (t : Tree) : Tree := ⟨t.entries.filter fun e => p e.1⟩

theorem only_true (t : Tree) : (t.only fun _ => true) = t := by
  simp [only]

theorem only_set {p : Location → Bool} (h : p l = false) (t : Tree) (e : Entry) :
    (t.set l e).only p = t.only p := by
  have hnew : ([(l, e)].filter fun e => p e.1) = [] := by simp [h]
  unfold only set
  rw [List.filter_append, List.filter_filter, hnew, List.append_nil]
  refine congrArg Tree.mk (List.filter_congr fun e _ => ?_)
  cases hp : p e.1 with
  | false => simp
  | true =>
    have hne : e.1 ≠ l := by
      rintro rfl
      rw [h] at hp
      exact absurd hp (by decide)
    simpa using hne

theorem only_only (p q : Location → Bool) (t : Tree) :
    (t.only p).only q = t.only fun l => p l && q l := by
  unfold only
  rw [List.filter_filter]
  refine congrArg Tree.mk (List.filter_congr fun e _ => ?_)
  exact Bool.and_comm _ _

theorem only_remove {p : Location → Bool} (h : ∀ m, l <+: m → p m = false) (t : Tree) :
    (t.remove l).only p = t.only p := by
  have hremove : t.remove l = t.only fun m => !l.isPrefixOf m := rfl
  rw [hremove, only_only]
  refine congrArg Tree.mk (List.filter_congr fun e _ => ?_)
  change (!l.isPrefixOf e.1 && p e.1) = p e.1
  cases hp : p e.1 with
  | false => rw [Bool.and_false]
  | true =>
    have hnot : ¬ l <+: e.1 := by
      intro hl
      rw [h _ hl] at hp
      exact absurd hp (by decide)
    rw [not_isPrefixOf_iff.2 hnot, Bool.and_true]

/-! ## Moving -/

theorem shift_append (source target k : Location) :
    shift source target (source ++ k) = target ++ k := by
  rw [shift, if_pos (List.isPrefixOf_iff_prefix.2 (List.prefix_append source k)), List.drop_left]

theorem shift_eq_self {source target : Location} (h : ¬ source <+: l) :
    shift source target l = l := by
  rw [shift, if_neg (mt List.isPrefixOf_iff_prefix.1 h)]

/-- What is moved comes back, where nothing was before at the target. -/
theorem shift_shift {source target : Location} (h : ¬ target <+: l) :
    shift target source (shift source target l) = l := by
  by_cases hs : source <+: l
  · obtain ⟨k, rfl⟩ := hs
    rw [shift_append, shift_append]
  · rw [shift_eq_self hs, shift_eq_self h]

theorem shift_eq_iff {source target : Location} (hs : ¬ source <+: l) (ht : ¬ target <+: l) :
    shift source target m = l ↔ m = l := by
  by_cases hm : source <+: m
  · obtain ⟨k, rfl⟩ := hm
    rw [shift_append]
    constructor
    · rintro rfl
      exact absurd (List.prefix_append target k) ht
    · rintro rfl
      exact absurd (List.prefix_append source k) hs
  · rw [shift_eq_self hm]

theorem only_move (p : Location → Bool) (source target : Location) (t : Tree) :
    (t.move source target).only p = (t.only fun l => p (shift source target l)).move source target := by
  unfold only move
  rw [List.filter_map]
  rfl

theorem lookup_map_of_iff {f : Location → Location} (h : ∀ m, f m = l ↔ m = l)
    (es : List (Location × Entry)) :
    (es.map fun e => (f e.1, e.2)).lookup l = es.lookup l := by
  induction es with
  | nil => rfl
  | cons e es ih =>
    have heq : (l == f e.1) = (l == e.1) := by
      rw [Bool.eq_iff_iff, beq_iff_eq, beq_iff_eq, eq_comm, h, eq_comm]
    rw [List.map_cons, List.lookup_cons, List.lookup_cons, heq, ih]

theorem get?_move {source target : Location} (hs : ¬ source <+: l) (ht : ¬ target <+: l)
    (t : Tree) : (t.move source target).get? l = t.get? l := by
  cases l with
  | nil => rfl
  | cons name names =>
    rw [get?_of_ne_nil (by simp), get?_of_ne_nil (by simp)]
    exact lookup_map_of_iff (fun m => shift_eq_iff hs ht) t.entries

/-- Nothing is left where all was moved away. -/
theorem not_prefix_of_mem_move {source target : Location} (h : ∀ k, ¬ source <+: target ++ k) :
    ∀ e ∈ (t.move source target).entries, ¬ source <+: e.1 := by
  intro e he hp
  obtain ⟨e, -, rfl⟩ := List.mem_map.1 he
  change source <+: shift source target e.1 at hp
  by_cases hs : source <+: e.1
  · obtain ⟨k, hk⟩ := hs
    rw [← hk, shift_append] at hp
    exact h k hp
  · rw [shift_eq_self hs] at hp
    exact hs hp

/-- Moving all back undoes a move to where nothing was. -/
theorem move_move {source target : Location} (h : ∀ e ∈ t.entries, ¬ target <+: e.1) :
    (t.move source target).move target source = t := by
  unfold move
  rw [List.map_map]
  refine congrArg Tree.mk ((List.map_congr_left fun e he => ?_).trans (List.map_id _))
  exact Prod.ext (shift_shift (h e he)) rfl

theorem remove_eq_self (h : ∀ e ∈ t.entries, ¬ l <+: e.1) : t.remove l = t :=
  congrArg Tree.mk (List.filter_eq_self.2 fun e he => not_isPrefixOf_iff.2 (h e he))

theorem set_eq_append (h : ∀ e ∈ t.entries, e.1 ≠ l) (e : Entry) :
    t.set l e = ⟨t.entries ++ [(l, e)]⟩ := by
  rw [set, List.filter_eq_self.2 fun e he => bne_iff_ne.2 (h e he)]

/-- A new entry and nothing else is taken away again. -/
theorem remove_set (h : ∀ e ∈ t.entries, ¬ l <+: e.1) (e : Entry) : (t.set l e).remove l = t := by
  have hnew : ([(l, e)].filter fun e => !l.isPrefixOf e.1) = [] := by
    simp [List.isPrefixOf_iff_prefix.2 (List.prefix_refl l)]
  have hself : (t.entries.filter fun e => !l.isPrefixOf e.1) = t.entries :=
    List.filter_eq_self.2 fun e he => not_isPrefixOf_iff.2 (h e he)
  rw [set_eq_append (fun e he hl => h e he (hl ▸ List.prefix_rfl)), remove, List.filter_append,
    hnew, hself, List.append_nil]

/-! ## Fresh names -/

theorem length_le_length_join {name : String} {names : List String} (h : name ∈ names) :
    name.length ≤ (String.join names).length := by
  induction names with
  | nil => simp at h
  | cons first names ih =>
    rw [String.join_cons, String.length_append]
    obtain rfl | h := List.mem_cons.1 h
    · omega
    · have := ih h
      omega

/-- No entry has the fresh name on its way. -/
theorem freshName_not_mem (t : Tree) (start : String) :
    ∀ e ∈ t.entries, t.freshName start ∉ e.1 := by
  intro e he hm
  have hlength : (t.freshName start).length ≤ (String.join (t.entries.flatMap (·.1))).length :=
    length_le_length_join (List.mem_flatMap.2 ⟨e, he, hm⟩)
  -- the fresh name is longer than all names together
  have hx : "x".length = 1 := rfl
  rw [freshName, String.length_append, String.length_append, hx] at hlength
  omega

/-! ## Extensions -/

/-- What is in a tree is in another one, and directories are directories there. -/
structure Extends (t u : Tree) : Prop where
  present : ∀ l, (t.get? l).isSome = true → (u.get? l).isSome = true
  directory : ∀ l, t.get? l = some .directory → u.get? l = some .directory

theorem Extends.refl (t : Tree) : Extends t t := ⟨fun _ h => h, fun _ h => h⟩

theorem Extends.trans (h : Extends t u) (h' : Extends u v) : Extends t v :=
  ⟨fun l hl => h'.present l (h.present l hl), fun l hl => h'.directory l (h.directory l hl)⟩

/-- A file in the place of no directory. -/
theorem extends_set (hl : l ≠ []) (hd : t.get? l ≠ some .directory) (e : Entry) :
    Extends t (t.set l e) := by
  constructor
  · intro m hm
    by_cases he : m = l
    · rw [he, get?_set_self hl]
      rfl
    · rwa [get?_set_of_ne he]
  · intro m hm
    have he : m ≠ l := by
      rintro rfl
      exact hd hm
    rwa [get?_set_of_ne he]

theorem Extends.walk_eq_ok (h : Extends t u) {here : Location} {ns : List String}
    (hw : t.walk here ns = .ok l) : u.walk here ns = .ok l := by
  induction ns generalizing here with
  | nil =>
    rw [walk] at hw ⊢
    split_ifs at hw with hs
    rw [if_pos (h.present _ hs), hw]
  | cons name ns ih =>
    rw [walk] at hw ⊢
    cases hg : t.get? here with
    | none => simp [hg] at hw
    | some e =>
      cases e with
      | file text => simp [hg] at hw
      | directory =>
        rw [hg] at hw
        rw [h.directory _ hg]
        simp only at hw ⊢
        split_ifs at hw ⊢ <;> exact ih hw

/-! ## Directories -/

/-- The names of a way are short, and all but its end are directories. -/
structure Leads (t : Tree) (here l : Location) : Prop where
  directory : ∀ k, k <+: l → k ≠ l → t.get? (here ++ k) = some .directory
  short : ∀ name ∈ l, Path.isNameTooLong name = false

theorem leads_of_walk (hc : l.Clean) {here : Location} (h : t.walk here l = .ok m) :
    t.Leads here l := by
  induction l generalizing here with
  | nil => exact ⟨fun k hk hne => absurd (List.prefix_nil.1 hk) hne, by simp⟩
  | cons name l ih =>
    obtain ⟨hn, hdot, hdots, -⟩ := hc name List.mem_cons_self
    rw [walk] at h
    split at h
    · cases h
    · cases h
    · next hdir =>
      simp only [hn, hdot, hdots, decide_false, Bool.or_false, Bool.false_eq_true, if_false] at h
      split_ifs at h with hlong
      obtain ⟨hd, hs⟩ := ih (fun n hm => hc n (List.mem_cons_of_mem _ hm)) h
      refine ⟨fun k hk hne => ?_, List.forall_mem_cons.2 ⟨by simpa using hlong, hs⟩⟩
      cases k with
      | nil => simpa using hdir
      | cons a k =>
        obtain ⟨rfl, hkl⟩ := List.cons_prefix_cons.1 hk
        simpa using hd k hkl (by simpa using hne)

theorem walk_eq_ok_of_leads (hc : l.Clean) {here : Location} (h : t.Leads here l)
    (hin : (t.get? (here ++ l)).isSome = true) : t.walk here l = .ok (here ++ l) := by
  induction l generalizing here with
  | nil =>
    rw [List.append_nil] at hin ⊢
    rw [walk, if_pos hin]
  | cons name l ih =>
    obtain ⟨hn, hdot, hdots, -⟩ := hc name List.mem_cons_self
    have hhere : t.get? here = some .directory := by
      simpa using h.directory [] List.nil_prefix (by simp)
    have hrest : t.Leads (here ++ [name]) l := by
      refine ⟨fun k hk hne => ?_, fun n hm => h.short n (List.mem_cons_of_mem _ hm)⟩
      simpa using h.directory (name :: k) (List.cons_prefix_cons.2 ⟨rfl, hk⟩) (by simpa using hne)
    have hnext := ih (fun n hm => hc n (List.mem_cons_of_mem _ hm)) hrest (by simpa using hin)
    rw [walk, hhere]
    simpa [hn, hdot, hdots, h.short name List.mem_cons_self] using hnext

/-- The last directory of a way is made, if the others are there. -/
theorem makeDirs_eq (hc : l.Clean) (hl : l ≠ []) {here : Location} (h : t.Leads here l)
    (hnone : t.get? (here ++ l) = none) :
    t.makeDirs here l = (.ok (), t.set (here ++ l) .directory) := by
  induction l generalizing here with
  | nil => exact absurd rfl hl
  | cons name l ih =>
    obtain ⟨hn, hdot, hdots, -⟩ := hc name List.mem_cons_self
    rw [makeDirs]
    simp only [hn, hdot, hdots, decide_false, Bool.or_false, Bool.false_eq_true, if_false,
      h.short name List.mem_cons_self]
    cases l with
    | nil =>
      rw [hnone]
      simp only [makeDirs]
    | cons next l =>
      have hdir : t.get? (here ++ [name]) = some .directory :=
        h.directory [name] ⟨next :: l, rfl⟩ (by simp)
      have hrest : t.Leads (here ++ [name]) (next :: l) := by
        refine ⟨fun k hk hne => ?_, fun n hm => h.short n (List.mem_cons_of_mem _ hm)⟩
        simpa using h.directory (name :: k) (List.cons_prefix_cons.2 ⟨rfl, hk⟩) (by simpa using hne)
      rw [hdir]
      simp only
      rw [ih (fun n hm => hc n (List.mem_cons_of_mem _ hm)) (by simp) hrest (by simpa using hnone)]
      simp

end Crosspost.Tree
