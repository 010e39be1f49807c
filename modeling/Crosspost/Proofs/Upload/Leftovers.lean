/-
  What a run that fails leaves behind.

  * `IsOutputName s a name`: a run may make a file with this name;
  * `Leaves` is what holds of the files while a directory is filled: they were there
    before, or are such outputs in the directory;
  * `Upload.file_of_run_eq_error`: **a run that fails leaves no new files**, but for
    outputs in an output directory that was not there before.
-/
import Crosspost.Proofs.Upload.Opening

namespace Crosspost

open Location

/-- The names of the files that a run may make. -/
def IsOutputName (s : Setup) (a : Arguments) (name : String) : Prop :=
  (∃ path ∈ a.storyPath?, ∃ format : StoryFormat, name = Path.stem path ++ "." ++ format.name) ∨
    (∃ site ∈ s.registry.sites, name = site.outputFile) ∨
      ∃ file ∈ a.files, name = Path.basename file

/-- What holds of the world while the directory at a place is filled, since there was
    `start`: each file was there, or is in the directory under a name in `N`. -/
structure Leaves (place : Location) (logs : Location → Bool) (N : String → Prop)
    (start w : World) : Prop where
  here : w.here = start.here
  directory : ∀ k, k <+: place → w.tree.get? k = some .directory
  file : ∀ l text, logs l = false → w.tree.get? l = some (.file text) →
    start.tree.get? l = some (.file text) ∨ ∃ name, N name ∧ l = place ++ [name]

theorem Leaves.fileStable (place : Location) (logs : Location → Bool) (N : String → Prop)
    (start : World) : FileStable place logs N start (Leaves place logs N start) where
  here _ h := h.here
  directory _ h := h.directory
  congr _ _ h hhere htree := ⟨hhere.trans h.here, htree ▸ h.directory, htree ▸ h.file⟩
  set w path text h hw hdest := by
    refine ⟨h.here, fun k hk => (hw.extends text).directory k (h.directory k hk),
      fun l text' hl hfile => ?_⟩
    by_cases heq : l = w.destination path
    · obtain hlog | hname := hdest
      · rw [heq, hlog] at hl
        cases hl
      · exact .inr (heq ▸ hname)
    · exact h.file l text' hl ((Tree.get?_set_of_ne heq _ _).symm.trans hfile)
  remove w name h := by
    refine ⟨h.here, fun k hk => (Tree.get?_remove_concat hk name _).trans (h.directory k hk),
      fun l text hl hfile => h.file l text hl ?_⟩
    by_cases hp : place ++ [name] <+: l
    · rw [Tree.get?_remove_of_prefix (by simp) hp] at hfile
      cases hfile
    · rwa [Tree.get?_remove hp] at hfile

theorem World.file_of_makeDirs {w : World} {path text : String} {l : Location}
    (h : (w.makeDirs path).2.tree.get? l = some (.file text)) :
    w.tree.get? l = some (.file text) := by
  unfold makeDirs at h
  cases hr : w.route path with
  | error e =>
    rw [hr] at h
    exact h
  | ok way =>
    rw [hr] at h
    obtain heq | ⟨-, hdir⟩ := Tree.get?_makeDirs_cases w.tree way.1 way.2 l
    · exact heq ▸ h
    · rw [hdir] at h
      cases h

/-- A new directory is no file, and takes the place of none. -/
theorem OutputDir.file_makeBackup_iff {w : World} {place l : Location} {text : String} :
    (makeBackup place w).tree.get? l = some (.file text) ↔
      w.tree.get? l = some (.file text) := by
  have hbackup : backupOf w place ≠ [] := by simp [backupOf]
  by_cases hl : l = backupOf w place
  · subst hl
    have hnone : w.tree.get? (backupOf w place) = none := by
      by_contra hsome
      exact not_backupOf_of_isSome (Option.ne_none_iff_isSome.1 hsome) List.prefix_rfl
    have hmade : (makeBackup place w).tree.get? (backupOf w place) = some .directory :=
      Tree.get?_set_self hbackup w.tree .directory
    simp [hnone, hmade]
  · have hother : (makeBackup place w).tree.get? l = w.tree.get? l :=
      Tree.get?_set_of_ne hl w.tree .directory
    rw [hother]

namespace Upload

variable {s : Setup} {a : Arguments} {w w' u : World} {l : Location} {text : String} {e : Failure}
  {usernames : Usernames} {flags : List String}

theorem isOutputName_of_fill (hplain : ∀ site ∈ s.registry.sites, Path.IsPlain site.outputFile) :
    (∀ path ∈ a.storyPath?, ∀ format : StoryFormat,
      Path.IsPlain (Path.stem path ++ "." ++ format.name) ∧
        IsOutputName s a (Path.stem path ++ "." ++ format.name)) ∧
    (∀ site ∈ s.registry.sites, Path.IsPlain site.outputFile ∧ IsOutputName s a site.outputFile) ∧
    ∀ file ∈ a.files, Path.IsPlain (Path.basename file) ∧ IsOutputName s a (Path.basename file) :=
  ⟨fun path hpath format => ⟨Path.isPlain_story path format, .inl ⟨path, hpath, format, rfl⟩⟩,
    fun site hsite => ⟨hplain site hsite, .inr (.inl ⟨site, hsite, rfl⟩)⟩,
    fun file hfile => ⟨Path.isPlain_basename file, .inr (.inr ⟨file, hfile, rfl⟩)⟩⟩

/-- A failure in an output directory for which nothing was moved aside. -/
theorem file_of_use_eq_error (hplain : ∀ site ∈ s.registry.sites, Path.IsPlain site.outputFile)
    (hhere : u.here = w.here)
    (ht : OutputDir.toMove? (outDir a w) a.keepOutDir u = none)
    (h : (OutputDir.use (outDir a w) a.keepOutDir
      (fill s a usernames flags (outDir a w))).run.run u = (.error e, w'))
    (hfile : w'.tree.get? l = some (.file text)) (hl : s.logger.writes w l = false) :
    u.tree.get? l = some (.file text) ∨
      ∃ name, IsOutputName s a name ∧ l = World.placeOf (outDir a w) ++ [name] := by
  have habs : Path.isAbsolute (outDir a w) = true := Path.isAbsolute_resolve _ _
  rw [OutputDir.run_use_eq, OutputDir.prepare, OutputDir.undo, OutputDir.conclude, ht] at h
  dsimp only at h
  have hmakes : ∀ l text, (u.makeDirs (outDir a w)).2.tree.get? l = some (.file text) →
      u.tree.get? l = some (.file text) := fun _ _ => World.file_of_makeDirs
  cases hmake : u.makeDirs (outDir a w) with
  | mk r v =>
    rw [hmake] at h hmakes
    cases r with
    | error e' =>
      cases h
      exact .inl (hmakes l text hfile)
    | ok _ =>
      have hmade : OutputDir.Made (World.placeOf (outDir a w)) u v :=
        OutputDir.made_of_makeDirs hmake
      have hlogs : s.logger.WritesTo (s.logger.writes w) v := by
        rw [← s.logger.writes_congr (hmade.here.trans hhere)]
        exact s.logger.writesTo_writes v
      have hstable := (Leaves.fileStable _ _ (IsOutputName s a) v).stable habs
        (World.placeOf_eq_destination habs v).symm hlogs
      obtain ⟨hstory, hsites, hfiles⟩ := isOutputName_of_fill (a := a) hplain
      -- `Leaves` holds when filling begins, and so also where it fails
      have hfilled := (fill_obeys (a := a) hstable hstory hsites hfiles usernames flags v
        ⟨rfl, hmade.directory, fun l text _ h => .inl h⟩).1
      dsimp only at h
      cases hfill : (fill s a usernames flags (outDir a w)).run.run v with
      | mk r t =>
        rw [hfill] at h hfilled
        cases r with
        | ok summary => cases h
        | error e' =>
          cases h
          exact (hfilled.file l text hl hfile).imp_left (hmakes l text)

/-- **A run that fails leaves no new files** but the log, unless the output directory is
    kept; but where there was none, it may leave outputs in a new one. -/
theorem file_of_run_eq_error (h : (run s a).run.run w = (.error e, w'))
    (hkeep : a.keepOutDir = false)
    (hplain : ∀ site ∈ s.registry.sites, Path.IsPlain site.outputFile) (hapart : LogApart s a w)
    (hfile : w'.tree.get? l = some (.file text)) (hl : s.logger.writes w l = false) :
    w.tree.get? l = some (.file text) ∨ w.contains (outDir a w) = false ∧
      ∃ name, IsOutputName s a name ∧ l = World.placeOf (outDir a w) ++ [name] := by
  obtain hlogged | ⟨usernames, flags, u, hloads, huse⟩ := run_eq_error_cases h
  · rw [Tree.get?_of_only_eq hlogged.kept (by simp [hl])] at hfile
    exact .inl hfile
  have hlogged := hloads.logged
  have hbefore : u.tree.get? l = w.tree.get? l :=
    Tree.get?_of_only_eq hlogged.kept (by simp [hl])
  rw [← hbefore]
  cases ht : OutputDir.toMove? (outDir a w) a.keepOutDir u with
  | none =>
    refine (file_of_use_eq_error hplain hlogged.here ht huse hfile hl).imp_right
      fun hname => ⟨?_, hname⟩
    rw [Bool.eq_false_iff]
    intro hcontains
    obtain ⟨place, hplace⟩ := World.exists_locate_of_contains hcontains
    have hlocate := hlogged.locate_eq_ok (Path.isAbsolute_resolve _ _) hplace
    unfold OutputDir.toMove? at ht
    rw [hkeep, outDir, hlocate] at ht
    cases ht
  | some place =>
    obtain ⟨-, hlocate⟩ := OutputDir.toMove?_eq_some ht
    have hreserved : ∀ m, s.logger.writes w m = true →
        ∀ name ∈ m, ¬ ".gallery-upload-".toList <+: name.toList := by
      intro m hm
      obtain ⟨path, hpath, rfl⟩ := Logger.writes_eq_true.1 hm
      exact (hapart path hpath).2
    rw [hkeep] at huse
    by_cases hne : place = []
    · subst hne
      rw [OutputDir.run_use_root _ (hkeep ▸ ht)] at huse
      cases huse
      exact .inl (OutputDir.file_makeBackup_iff.1 hfile)
    have honly := only_of_fill_eq_error hne hplain hapart (s.logger.writesTo_writes w) hlogged.here
      hlocate hreserved huse
    exact .inl ((Tree.get?_of_only_eq honly (by simp [hl])).symm.trans hfile)

/-- The second file to copy is missing, and there is no output directory yet. -/
theorem file_of_run_eq_error_copy :
    let s := Setup.silent
    let a : Arguments := { files := ["a", "b"] }
    let w := World.ofTree "/w" ⟨[(["a"], .file "1")]⟩
    ∃ e w', (run s a).run.run w = (.error e, w') ∧ ∀ l text, w'.tree.get? l = some (.file text) →
      w.tree.get? l = some (.file text) ∨ w.contains (outDir a w) = false ∧
        ∃ name, IsOutputName s a name ∧ l = World.placeOf (outDir a w) ++ [name] := by
  intro s a w
  have hfails : ((run s a).run.run w).1.isOk = false := by decide +kernel
  obtain ⟨e, hrun⟩ := Run.exists_error_of_isOk hfails
  refine ⟨e, _, hrun, fun l text hfile => ?_⟩
  exact file_of_run_eq_error hrun rfl Path.isPlain_builtin (by rintro _ ⟨⟩) hfile rfl

/-- Then the first one has been copied, and stays. -/
theorem copy_left_of_missing_copy :
    let s := Setup.silent
    let a : Arguments := { files := ["a", "b"] }
    let w := World.ofTree "/w" ⟨[(["a"], .file "1")]⟩
    w.contains (outDir a w) = false ∧
      ∃ w', (run s a).run.run w = (.error (.system .noEntry), w') ∧
        w'.tree.get? (World.placeOf (outDir a w) ++ ["a"]) = some (.file "1") := by
  intro s a w
  have hrun := Failure.run_eq_of_system? (x := run s a) (w := w) (e := .noEntry) (by decide +kernel)
  have hleft : ((run s a).run.run w).2.tree.get? (World.placeOf (outDir a w) ++ ["a"]) =
      some (.file "1") := by decide +kernel
  exact ⟨by decide +kernel, _, hrun, hleft⟩

end Upload

end Crosspost
