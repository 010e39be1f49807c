/-
  Directories of a tree.

  * `Tree.Grounded`: whatever is in a tree is in a directory of it; then nothing is
    below a place where nothing is (`Grounded.eq_none_of_prefix`);
  * `Tree.get?_makeDirs`: making directories puts directories along a way, and
    changes nothing else.
-/
import Mathlib.Data.List.Induction
import Crosspost.Proofs.Workspace.Entries

namespace Crosspost.Tree

variable {t u : Tree} {here k l m : Location}

/-! ## Grounded trees -/

/-- Whatever there is stands in a directory. -/
def Grounded (t : Tree) : Prop := ∀ e ∈ t.entries, t.get? e.1.dropLast = some .directory

instance (t : Tree) : Decidable t.Grounded :=
  inferInstanceAs (Decidable (∀ e ∈ t.entries, t.get? e.1.dropLast = some .directory))

theorem exists_entry_of_isSome (hl : l ≠ []) (h : (t.get? l).isSome = true) :
    ∃ e ∈ t.entries, e.1 = l := by
  rw [get?_of_ne_nil hl, List.lookup_isSome_iff] at h
  obtain ⟨e, he, hel⟩ := h
  exact ⟨e, he, (beq_iff_eq.1 hel).symm⟩

namespace Grounded

theorem directory_of_prefix (h : t.Grounded) (hin : (t.get? l).isSome = true) (hp : k <+: l)
    (hne : k ≠ l) : t.get? k = some .directory := by
  -- the way out: what holds an entry is a directory, and is held by one itself
  induction l using List.reverseRecOn with
  | nil => exact absurd (List.prefix_nil.1 hp) hne
  | append_singleton l name ih =>
    obtain ⟨e, he, hel⟩ := exists_entry_of_isSome (by simp) hin
    have hparent : t.get? l = some .directory := by
      have hdir := h e he
      rwa [hel, List.dropLast_concat] at hdir
    obtain rfl | hp := List.prefix_concat_iff.1 hp
    · exact absurd rfl hne
    · by_cases hkl : k = l
      · rw [hkl, hparent]
      · exact ih (by rw [hparent]; rfl) hp hkl

theorem eq_none_of_prefix (h : t.Grounded) (hnone : t.get? k = none) (hp : k <+: l) :
    t.get? l = none := by
  by_cases hne : k = l
  · rw [← hne, hnone]
  · by_contra hin
    have hdir := h.directory_of_prefix (Option.isSome_iff_ne_none.2 hin) hp hne
    rw [hnone] at hdir
    cases hdir

end Grounded

/-! ## Parts -/

/-- What stands at a location depends on the entries there alone. -/
theorem get?_of_only_eq {p : Location → Bool} (h : t.only p = u.only p) (hl : p l = true) :
    t.get? l = u.get? l := by
  cases l with
  | nil => rfl
  | cons name names =>
    have hentries : (t.only p).entries = (u.only p).entries := congrArg Tree.entries h
    rw [get?_of_ne_nil (by simp), get?_of_ne_nil (by simp), ← lookup_filter hl t.entries,
      ← lookup_filter hl u.entries]
    exact congrArg (List.lookup (name :: names)) hentries

theorem get?_eq_none_of_forall (hl : l ≠ []) (h : ∀ e ∈ t.entries, e.1 ≠ l) :
    t.get? l = none := by
  rw [get?_of_ne_nil hl, List.lookup_eq_none_iff]
  exact fun e he => bne_iff_ne.2 fun heq => h e he heq.symm

theorem get?_remove_of_prefix (hk : k ≠ []) (hp : k <+: l) (t : Tree) :
    (t.remove k).get? l = none := by
  have hl : l ≠ [] := by
    rintro rfl
    exact hk (List.prefix_nil.1 hp)
  refine get?_eq_none_of_forall hl fun e he hel => ?_
  have hnot : ¬ k <+: e.1 := not_isPrefixOf_iff.1 (List.mem_filter.1 he).2
  exact hnot (hel ▸ hp)

theorem get?_move_append {source target : Location} (hs : source ++ k ≠ []) (ht : target ++ k ≠ [])
    (h : ∀ e ∈ t.entries, ¬ target <+: e.1) :
    (t.move source target).get? (target ++ k) = t.get? (source ++ k) := by
  rw [get?_of_ne_nil ht, get?_of_ne_nil hs, move]
  have hentries : ∀ es : List (Location × Entry), (∀ e ∈ es, ¬ target <+: e.1) →
      (es.map fun e => (Location.shift source target e.1, e.2)).lookup (target ++ k) =
        es.lookup (source ++ k) := by
    intro es hes
    induction es with
    | nil => rfl
    | cons e es ih =>
      have heq : (target ++ k == Location.shift source target e.1) = (source ++ k == e.1) := by
        rw [Bool.eq_iff_iff, beq_iff_eq, beq_iff_eq]
        constructor
        · intro he
          -- only what was at the source is at the target now
          rw [← shift_shift (hes e List.mem_cons_self), ← he, shift_append]
        · intro he
          rw [← he, shift_append]
      rw [List.map_cons, List.lookup_cons, List.lookup_cons, heq,
        ih fun e he => hes e (List.mem_cons_of_mem _ he)]
  exact hentries t.entries h

/-! ## Making directories -/

/-- What is made are directories, in places where nothing was. -/
theorem get?_makeDirs_cases (t : Tree) (here : Location) (ns : List String) (m : Location) :
    (t.makeDirs here ns).2.get? m = t.get? m ∨
      t.get? m = none ∧ (t.makeDirs here ns).2.get? m = some .directory := by
  induction ns generalizing t here with
  | nil => exact .inl rfl
  | cons name ns ih =>
    rw [makeDirs]
    split
    · exact ih t here
    split
    · exact ih t here.dropLast
    split
    · exact .inl rfl
    · split
      · exact ih t _
      · exact .inl rfl
      · next hnone =>
        have hset : m = here ++ [name] → (t.set (here ++ [name]) .directory).get? m =
            some .directory := by
          rintro rfl
          exact get?_set_self (by simp) _ _
        have hrest := ih (t.set (here ++ [name]) .directory) (here ++ [name])
        -- the directory that was just made is kept by the names after it
        by_cases hm : m = here ++ [name]
        · rw [hset hm] at hrest
          refine .inr ⟨hm ▸ hnone, ?_⟩
          obtain hrest | ⟨hrest, -⟩ := hrest
          · exact hrest
          · cases hrest
        · rwa [get?_set_of_ne hm] at hrest

theorem extends_makeDirs (t : Tree) (here : Location) (ns : List String) :
    Extends t (t.makeDirs here ns).2 := by
  constructor
  · intro m hm
    obtain h | ⟨hnone, -⟩ := get?_makeDirs_cases t here ns m
    · rwa [h]
    · rw [hnone] at hm
      cases hm
  · intro m hm
    obtain h | ⟨hnone, -⟩ := get?_makeDirs_cases t here ns m
    · rwa [h]
    · rw [hnone] at hm
      cases hm

/-- Where directories are made, they are there then, and nothing has changed
    elsewhere. -/
theorem get?_makeDirs (hc : l.Clean) (h : t.makeDirs here l = (.ok (), u)) :
    (∀ k, k <+: l → k ≠ [] → u.get? (here ++ k) = some .directory) ∧
      (∀ m, (∀ k, k <+: l → k ≠ [] → m ≠ here ++ k) → u.get? m = t.get? m) ∧
        ∀ name ∈ l, Path.isNameTooLong name = false := by
  induction l generalizing t here with
  | nil =>
    cases h
    refine ⟨fun k hk hne => absurd (List.prefix_nil.1 hk) hne, fun _ _ => rfl, by simp⟩
  | cons name l ih =>
    obtain ⟨hn, hdot, hdots, -⟩ := hc name List.mem_cons_self
    have hcl : Location.Clean l := fun n hm => hc n (List.mem_cons_of_mem _ hm)
    rw [makeDirs] at h
    simp only [hn, hdot, hdots, decide_false, Bool.or_false, Bool.false_eq_true, if_false] at h
    have hlong : Path.isNameTooLong name = false := by
      cases hlong : Path.isNameTooLong name with
      | true => simp [hlong] at h
      | false => rfl
    rw [hlong, if_neg Bool.false_ne_true] at h
    -- the first directory is there or is made, and the rest goes on from it
    have hrest : ∃ v : Tree, v.makeDirs (here ++ [name]) l = (.ok (), u) ∧
        v.get? (here ++ [name]) = some .directory ∧
          ∀ m, m ≠ here ++ [name] → v.get? m = t.get? m := by
      split at h
      · next hdir => exact ⟨t, h, hdir, fun _ _ => rfl⟩
      · cases h
      · exact ⟨_, h, get?_set_self (by simp) _ _, fun m hm => get?_set_of_ne hm _ _⟩
    obtain ⟨v, hv, hdir, hsame⟩ := hrest
    obtain ⟨hmade, hkept, hshort⟩ := ih hcl hv
    have hfirst : u.get? (here ++ [name]) = some .directory := by
      rw [hkept _ fun k _ hne heq => hne (by simpa using heq), hdir]
    refine ⟨fun k hk hne => ?_, fun m hm => ?_, List.forall_mem_cons.2 ⟨hlong, hshort⟩⟩
    · cases k with
      | nil => exact absurd rfl hne
      | cons first k =>
        obtain ⟨rfl, hkl⟩ := List.cons_prefix_cons.1 hk
        by_cases hk' : k = []
        · rw [hk', hfirst]
        · simpa using hmade k hkl hk'
    · rw [hkept m fun k hk hne heq => ?_, hsame m fun heq => ?_]
      · exact hm [name] ⟨l, rfl⟩ (by simp) heq
      · exact hm (name :: k) (List.cons_prefix_cons.2 ⟨rfl, hk⟩) (by simp) (by simpa using heq)

/-- The empty names in front of a written location make nothing. -/
theorem makeDirs_slash (hc : l.Clean) (t : Tree) :
    t.makeDirs [] (Path.names ("/" ++ "/".intercalate l)) = t.makeDirs [] l := by
  cases l with
  | nil => simp [Path.names_root, makeDirs]
  | cons name l =>
    rw [Path.names_slash hc (by simp), makeDirs]
    simp

end Crosspost.Tree
