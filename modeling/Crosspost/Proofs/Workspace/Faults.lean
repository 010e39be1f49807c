/-
  What the file system fails with.

  * `Path.IsClear`: a path without null characters; paths that are made of clear paths are
    clear as well (`Path.IsClear.join`, `Path.IsClear.basename`, `Path.IsClear.stem`);
  * `FsError.isSystem`: an error that the operating system answers, and not the refusal of a
    path that is not clear;
  * `World.isSystem_read` and the others: **an operation on clear paths fails with nothing but
    errors of the operating system**.
-/
import Crosspost.Proofs.Workspace.Paths

namespace Crosspost

/-! ## Paths without null characters -/

namespace Path

/-- A path that can be handed to the operating system. -/
def IsClear (path : String) : Prop := '\x00' ∉ path.toList

instance (path : String) : Decidable (IsClear path) :=
  inferInstanceAs (Decidable ('\x00' ∉ path.toList))

@[simp] theorem isClear_append {a b : String} : IsClear (a ++ b) ↔ IsClear a ∧ IsClear b := by
  simp [IsClear]

theorem isClear_intercalate {ns : List String} (h : ∀ name ∈ ns, IsClear name) :
    IsClear ("/".intercalate ns) := by
  induction ns with
  | nil => decide
  | cons name ns ih =>
    have hns : IsClear ("/".intercalate ns) := ih fun m hm => h m (List.mem_cons_of_mem _ hm)
    have hname : IsClear name := h name List.mem_cons_self
    cases ns with
    | nil => simpa using hname
    | cons next ns =>
      rw [String.intercalate_cons_cons, isClear_append, isClear_append]
      exact ⟨⟨hname, by decide⟩, hns⟩

variable {path directory : String}

theorem IsClear.of_mem_names {name : String} (h : IsClear path) (hn : name ∈ names path) :
    IsClear name := by
  obtain ⟨piece, hp, rfl⟩ := List.mem_map.1 hn
  have hflat := Chars.flatMap_splitOn '/' path.toList
  intro hc
  rw [String.toList_ofList] at hc
  have hmem : '\x00' ∈ path.toList ++ ['/'] :=
    hflat ▸ List.mem_flatMap.2 ⟨piece, hp, List.mem_append_left _ hc⟩
  obtain hmem | hmem := List.mem_append.1 hmem
  · exact h hmem
  · exact absurd hmem (by decide)

/-- What a list is made of step by step. -/
theorem forall_mem_foldl {α : Type} {P : α → Prop} {f : List α → α → List α}
    (hf : ∀ done a, (∀ x ∈ done, P x) → P a → ∀ x ∈ f done a, P x) {as done : List α}
    (has : ∀ a ∈ as, P a) (hdone : ∀ x ∈ done, P x) : ∀ x ∈ as.foldl f done, P x := by
  induction as generalizing done with
  | nil => exact hdone
  | cons a as ih =>
    exact ih (fun b hb => has b (List.mem_cons_of_mem _ hb))
      (hf done a hdone (has a List.mem_cons_self))

theorem IsClear.resolveNames (h : IsClear path) (absolute : Bool) :
    ∀ name ∈ resolveNames absolute path, IsClear name := by
  refine forall_mem_foldl (fun done name hdone hname => ?_) (fun name hn => h.of_mem_names hn)
    (by simp)
  have hup : ∀ x ∈ [".."], IsClear x := List.forall_mem_singleton.2 (by decide)
  split
  · exact hdone
  · split
    · split
      · split
        · simp
        · exact hup
      · split
        · exact List.forall_mem_append.2 ⟨hdone, hup⟩
        · exact fun m hm => hdone m (List.dropLast_subset _ hm)
    · exact List.forall_mem_append.2 ⟨hdone, List.forall_mem_singleton.2 hname⟩

theorem IsClear.normalize (h : IsClear path) : IsClear (normalize path) := by
  have htext := isClear_intercalate (h.resolveNames (isAbsolute path))
  have hslash : IsClear "/" := by decide
  have hdot : IsClear "." := by decide
  unfold Path.normalize
  dsimp only
  split_ifs <;> simp only [isClear_append, htext, hslash, hdot, and_self]

theorem IsClear.join (hd : IsClear directory) (hn : IsClear name) :
    IsClear (join directory name) := by
  have hslash : IsClear "/" := by decide
  have hdot : IsClear "." := by decide
  unfold Path.join
  split_ifs
  · exact hdot
  · exact hn.normalize
  · exact hd.normalize
  · exact IsClear.normalize (by simp [hd, hn, hslash])

theorem IsClear.basename (h : IsClear path) : IsClear (basename path) := by
  unfold Path.basename
  cases hl : ((names path).filter (· != "")).getLast? with
  | none => decide
  | some name => exact h.of_mem_names (List.mem_of_mem_filter (List.mem_of_getLast? hl))

theorem IsClear.dirname (h : IsClear path) : IsClear (dirname path) := by
  have hslash : IsClear "/" := by decide
  have hdot : IsClear "." := by decide
  unfold Path.dirname
  split
  · split_ifs
    · exact hslash
    · exact hdot
  · exact hslash
  · next c around _ heq =>
    have hsuffix : c :: around <:+ path.toList.reverse :=
      heq ▸ (List.dropWhile_suffix _).trans (List.dropWhile_suffix _)
    intro hc
    have hmem : '\x00' ∈ c :: around := List.mem_cons_of_mem _ (by simpa using hc)
    exact h (List.mem_reverse.1 (hsuffix.subset hmem))

theorem IsClear.stem (h : IsClear path) : IsClear (stem path) := by
  intro hc
  rw [Path.stem, String.toList_ofList] at hc
  exact h.basename ((List.takeWhile_prefix _).subset hc)

end Path

/-! ## Errors of the operating system -/

/-- Whether an error comes from the operating system. -/
def FsError.isSystem : FsError → Bool
  | nullCharacter _ _ => false
  | _ => true

namespace Tree

variable {t : Tree} {here : Location} {names : List String} {e : FsError}

theorem isSystem_walk (h : t.walk here names = .error e) : e.isSystem = true := by
  induction names generalizing here with
  | nil =>
    unfold walk at h
    split_ifs at h
    cases h
    rfl
  | cons name names ih =>
    unfold walk at h
    split at h
    · cases h
      rfl
    · cases h
      rfl
    · split_ifs at h
      · exact ih h
      · exact ih h
      · cases h
        rfl
      · exact ih h

theorem isSystem_find (h : t.find here names = .error e) : e.isSystem = true := by
  obtain h | ⟨l, -, h⟩ := bind_eq_error.1 h
  · exact isSystem_walk h
  · split at h <;> cases h
    rfl

theorem isSystem_fileLocation (h : t.fileLocation here names = .error e) :
    e.isSystem = true := by
  unfold fileLocation at h
  dsimp only at h
  split at h
  · cases h
    rfl
  · obtain h | ⟨l, -, h⟩ := bind_eq_error.1 h
    · exact isSystem_walk h
    · split_ifs at h <;> cases h <;> rfl

theorem isSystem_read (h : t.read here names = .error e) : e.isSystem = true := by
  obtain h | ⟨entry, -, h⟩ := bind_eq_error.1 h
  · exact isSystem_find h
  · split at h <;> cases h
    rfl

theorem isSystem_write {content : String} (h : t.write here names content = .error e) :
    e.isSystem = true := by
  obtain h | ⟨l, -, h⟩ := bind_eq_error.1 h
  · exact isSystem_fileLocation h
  · cases h

theorem isSystem_copy {entry : Entry} {target : Location} (h : (t.copy entry target).1 = .error e) :
    e.isSystem = true := by
  cases entry <;> cases h
  rfl

theorem isSystem_makeDirs (h : (t.makeDirs here names).1 = .error e) : e.isSystem = true := by
  fun_induction makeDirs t here names with
  | case1 => cases h
  | case2 _ _ _ _ _ ih => exact ih h
  | case3 _ _ _ _ ih => exact ih h
  | case4 => 
    cases h
    rfl
  | case5 _ _ _ _ _ _ _ _ ih => exact ih h
  | case6 => 
    cases h
    split_ifs <;> rfl
  | case7 _ _ _ _ _ _ _ _ ih => exact ih h

end Tree

namespace World

variable {w : World} {path : String} {e : FsError}

theorem isSystem_route (hp : Path.IsClear path) (h : w.route path = .error e) :
    e.isSystem = true := by
  have hcheck : checkPath "path" path = .ok () := by
    rw [checkPath, if_neg (by simpa [Path.IsClear] using hp)]
  unfold route at h
  rw [hcheck] at h
  obtain h | ⟨-, -, h⟩ := bind_eq_error.1 h
  · cases h
  · split_ifs at h <;> cases h <;> rfl

theorem isSystem_read (hp : Path.IsClear path) (h : w.read path = .error e) :
    e.isSystem = true := by
  obtain h | ⟨way, -, h⟩ := bind_eq_error.1 h
  · exact isSystem_route hp h
  · exact Tree.isSystem_read h

theorem isSystem_find (hp : Path.IsClear path) (h : w.find path = .error e) :
    e.isSystem = true := by
  obtain h | ⟨way, -, h⟩ := bind_eq_error.1 h
  · exact isSystem_route hp h
  · exact Tree.isSystem_find h

theorem isSystem_write (hp : Path.IsClear path) {content : String}
    (h : w.write path content = .error e) : e.isSystem = true := by
  obtain h | ⟨way, -, h⟩ := bind_eq_error.1 h
  · exact isSystem_route hp h
  · obtain h | ⟨tree, -, h⟩ := bind_eq_error.1 h
    · exact Tree.isSystem_write h
    · cases h

theorem isSystem_makeDirs (hp : Path.IsClear path) (h : (w.makeDirs path).1 = .error e) :
    e.isSystem = true := by
  unfold makeDirs at h
  split at h
  · next e' hr =>
    cases h
    exact isSystem_route hp hr
  · exact Tree.isSystem_makeDirs h

theorem isSystem_copy {target : String} (hp : Path.IsClear path) (ht : Path.IsClear target)
    (h : (w.copy path target).1 = .error e) : e.isSystem = true := by
  unfold copy at h
  split at h
  · next e' hplan =>
    cases h
    have hsource : checkPath "src" path = .ok () := if_neg (by simpa [Path.IsClear] using hp)
    have htarget : checkPath "dest" target = .ok () := if_neg (by simpa [Path.IsClear] using ht)
    obtain h | ⟨-, -, h⟩ := bind_eq_error.1 hplan
    · cases hsource.symm.trans h
    obtain h | ⟨-, -, h⟩ := bind_eq_error.1 h
    · cases htarget.symm.trans h
    obtain h | ⟨entry, -, h⟩ := bind_eq_error.1 h
    · exact isSystem_find hp h
    obtain h | ⟨way, -, h⟩ := bind_eq_error.1 h
    · exact isSystem_route ht h
    obtain h | ⟨l, -, h⟩ := bind_eq_error.1 h
    · exact Tree.isSystem_fileLocation h
    · cases h
  · exact Tree.isSystem_copy h

/-- A file is there at a clear path only. -/
theorem isClear_of_hasFile (h : w.hasFile path = true) : Path.IsClear path := by
  intro hc
  have hfind : w.find path = .error (.nullCharacter "path" path) := by
    unfold find route checkPath
    rw [if_pos (by simpa using hc)]
    rfl
  rw [hasFile, hfind] at h
  cases h

end World

end Crosspost
