/-
  Laws of fields.

  * `Fields.nodup_ofEntries`: no two fields of an object have one key;
  * `Fields.ofEntries_perm`: entries with different keys are the fields of their object, in
    its own order; so the order of such entries does not tell fields apart
    (`Fields.perm_ofEntries`);
  * `Fields.ofEntries_map_perm`: keys may be changed in the entries or in the fields.
-/
import Mathlib.Data.List.Perm.Basic
import Mathlib.Tactic.Common
import Crosspost.Json.Fields

namespace Crosspost

/-- In a list with different keys, what is looked up is what is there. -/
theorem lookup_eq_some_iff_mem {κ α : Type} [BEq κ] [LawfulBEq κ] {l : List (κ × α)}
    (h : (l.map (·.1)).Nodup) {k : κ} {a : α} : l.lookup k = some a ↔ (k, a) ∈ l := by
  induction l with
  | nil => simp
  | cons b l ih =>
    obtain ⟨k', a'⟩ := b
    rw [List.map_cons, List.nodup_cons] at h
    rw [List.lookup_cons, List.mem_cons, ← ih h.2]
    by_cases hk : k = k'
    · subst hk
      have hnone : l.lookup k ≠ some a := fun hl =>
        h.1 (List.mem_map.2 ⟨_, (ih h.2).1 hl, rfl⟩)
      simp [hnone, eq_comm]
    · have hb : (k == k') = false := beq_eq_false_iff_ne.2 hk
      simp [hb, hk]

namespace Fields

/-! ## Setting fields -/

section
variable {κ α : Type} [DecidableEq κ] {key : κ} {value : α} {fields entries : List (κ × α)}

theorem keys_put : (put key value fields).map (·.1) =
    if key ∈ fields.map (·.1) then fields.map (·.1) else fields.map (·.1) ++ [key] := by
  induction fields with
  | nil => simp [put]
  | cons field fields ih =>
    obtain ⟨k, v⟩ := field
    unfold put
    by_cases hk : k = key
    · simp [hk]
    · have hk' : ¬ key = k := fun h => hk h.symm
      simp only [hk, if_false, List.map_cons, ih, List.mem_cons, hk', false_or]
      split_ifs <;> rfl

theorem put_of_not_mem (h : key ∉ fields.map (·.1)) :
    put key value fields = fields ++ [(key, value)] := by
  induction fields with
  | nil => rfl
  | cons field fields ih =>
    rw [List.map_cons, List.mem_cons, not_or] at h
    rw [put, if_neg (Ne.symm h.1), ih h.2, List.cons_append]

theorem nodup_put (h : (fields.map (·.1)).Nodup) : ((put key value fields).map (·.1)).Nodup := by
  rw [keys_put]
  split_ifs with hm
  · exact h
  · refine List.nodup_append.2 ⟨h, by simp, fun k hk k' hk' he => ?_⟩
    rw [he, List.mem_singleton.1 hk'] at hk
    exact hm hk

theorem nodup_putAll (h : (fields.map (·.1)).Nodup) :
    ((putAll fields entries).map (·.1)).Nodup := by
  induction entries generalizing fields with
  | nil => exact h
  | cons entry entries ih => exact ih (nodup_put h)

theorem putAll_of_nodup (h : ((fields ++ entries).map (·.1)).Nodup) :
    putAll fields entries = fields ++ entries := by
  induction entries generalizing fields with
  | nil => simp [putAll]
  | cons entry entries ih =>
    rw [List.append_cons] at h ⊢
    have hnew : entry.1 ∉ fields.map (·.1) := by
      rw [List.map_append, List.nodup_append, List.map_append, List.nodup_append] at h
      intro hm
      exact h.1.2.2 _ hm _ (by simp) rfl
    rw [← ih h, putAll, List.foldl_cons, put_of_not_mem hnew, putAll]

end

/-! ## Objects -/

section
variable {α : Type} {entries : List (CodePoints × α)}

theorem inOrder_perm (fields : List (CodePoints × α)) : (inOrder fields).Perm fields := by
  have hindexed : (fields.filterMap fun f => (index? f.1).map fun n => (n, f)).map (·.2) =
      fields.filter fun f => (index? f.1).isSome := by
    induction fields with
    | nil => rfl
    | cons f fields ih => cases h : index? f.1 <;> simp [h, ih]
  have hsorted := ((fields.filterMap fun f => (index? f.1).map fun n => (n, f)).mergeSort_perm
    fun a b => a.1 ≤ b.1).map (·.2)
  rw [hindexed] at hsorted
  refine (hsorted.append_right _).trans ?_
  simpa using List.filter_append_perm (fun f : CodePoints × α => (index? f.1).isSome) fields

/-- No two fields have one key. -/
theorem nodup_ofEntries (entries : List (CodePoints × α)) :
    ((ofEntries entries).map (·.1)).Nodup :=
  ((inOrder_perm _).map _).nodup_iff.2 (nodup_putAll List.nodup_nil)

theorem ofEntries_perm (h : (entries.map (·.1)).Nodup) : (ofEntries entries).Perm entries := by
  have hput : putAll [] entries = entries := putAll_of_nodup h
  rw [ofEntries, hput]
  exact inOrder_perm entries

/-- The order of entries with different keys does not tell the fields apart. -/
theorem perm_ofEntries {entries' : List (CodePoints × α)} (h : (entries.map (·.1)).Nodup)
    (hp : entries'.Perm entries) : (ofEntries entries').Perm (ofEntries entries) :=
  (ofEntries_perm ((hp.map _).nodup_iff.2 h)).trans (hp.trans (ofEntries_perm h).symm)

/-- Entries with different keys, none of them integer-like, are walked as they are. -/
theorem ofEntries_eq_self (h : (entries.map (·.1)).Nodup)
    (hindex : ∀ entry ∈ entries, index? entry.1 = none) : ofEntries entries = entries := by
  have hput : putAll [] entries = entries := putAll_of_nodup h
  have hnone : (entries.filterMap fun f => (index? f.1).map fun n => (n, f)) = [] :=
    List.filterMap_eq_nil_iff.2 fun entry he => by simp [hindex entry he]
  have hall : (entries.filter fun f => (index? f.1).isNone) = entries :=
    List.filter_eq_self.2 fun entry he => by simp [hindex entry he]
  simp [ofEntries, hput, inOrder, hnone, hall]

theorem ofEntries_singleton (entry : CodePoints × α) : ofEntries [entry] = [entry] :=
  List.perm_singleton.1 (ofEntries_perm (by simp))

/-! ## Other keys -/

/-- Keys may be changed before entries are set, or afterwards. -/
theorem put_map {g : CodePoints → CodePoints} (hg : Function.Injective g) (key : CodePoints)
    (value : α) (fields : List (CodePoints × α)) :
    put (g key) value (fields.map fun f => (g f.1, f.2)) =
      (put key value fields).map fun f => (g f.1, f.2) := by
  induction fields with
  | nil => rfl
  | cons field fields ih =>
    by_cases hk : field.1 = key
    · simp [put, hk]
    · simp [put, hk, hg.ne hk, ih]

theorem putAll_map {g : CodePoints → CodePoints} (hg : Function.Injective g)
    (fields entries : List (CodePoints × α)) :
    putAll (fields.map fun f => (g f.1, f.2)) (entries.map fun e => (g e.1, e.2)) =
      (putAll fields entries).map fun f => (g f.1, f.2) := by
  induction entries generalizing fields with
  | nil => rfl
  | cons entry entries ih =>
    rw [List.map_cons, putAll, List.foldl_cons, put_map hg]
    exact ih _

/-- Other keys give other fields, in whatever order. -/
theorem ofEntries_map_perm {g : CodePoints → CodePoints} (hg : Function.Injective g)
    (entries : List (CodePoints × α)) :
    (ofEntries (entries.map fun e => (g e.1, e.2))).Perm
      ((ofEntries entries).map fun f => (g f.1, f.2)) := by
  have hput := putAll_map hg [] entries
  refine (inOrder_perm _).trans ?_
  rw [List.map_nil] at hput
  rw [hput]
  exact ((inOrder_perm _).map _).symm

end

end Fields

end Crosspost
