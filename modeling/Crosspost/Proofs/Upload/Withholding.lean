/-
  Descriptions are written all together, or not at all.

  * `Setup.writeDescriptions_eq_error`: descriptions that are not made leave nothing
    behind but the log, unless a file cannot be written after all of them were made;
  * `Upload.Withholds s a w e`: a run withholds the descriptions for a reason `e`: the
    document is empty or malformed, a site cannot be rendered, or it cannot be read;
  * `Upload.exists_filled_of_withholds`: then the files of the story are all that was
    written;
  * `Upload.withheld_of_run_eq_error`: **no file of a description has changed** in
    such a run.
-/
import Crosspost.Proofs.Results
import Crosspost.Proofs.Upload.Leftovers
import Crosspost.Proofs.Upload.Steps

namespace Crosspost

/-- Whether a failure refuses the document of the descriptions: it has no text, it is
    malformed, or it cannot be rendered for a site. -/
def Failure.isRefusal : Failure → Bool
  | emptySource _ | parse _ | render _ => true
  | _ => false

/-- At a location, two worlds have the same file, or none. -/
def World.SameFile (w w' : World) (l : Location) : Prop :=
  ∀ text, w'.tree.get? l = some (.file text) ↔ w.tree.get? l = some (.file text)

namespace World.SameFile

variable {u v w : World} {l : Location}

theorem of_get?_eq (h : v.tree.get? l = w.tree.get? l) : w.SameFile v l := fun _ => by rw [h]

theorem trans (h : w.SameFile v l) (h' : v.SameFile u l) : w.SameFile u l :=
  fun text => (h' text).trans (h text)

/-- Making directories changes no file. -/
theorem makeDirs (w : World) (path : String) (l : Location) :
    w.SameFile (w.makeDirs path).2 l := by
  refine fun text => ⟨World.file_of_makeDirs, fun h => ?_⟩
  unfold World.makeDirs
  cases w.route path with
  | error e => exact h
  | ok way =>
    obtain heq | ⟨hnone, -⟩ := Tree.get?_makeDirs_cases w.tree way.1 way.2 l
    · exact heq.trans h
    · rw [hnone] at h
      cases h

end World.SameFile

/-! ## Steps that fail -/

namespace Setup

open Run

variable {s : Setup} {outDir path : String} {u v : World} {e : Failure}

theorem readDocument_eq_error (outDir : String)
    (h : (s.readDocument path).run.run v = (.error e, u)) : Filled s outDir v [] u := by
  unfold readDocument at h
  split_ifs at h
  · rw [run_get] at h
    cases hread : v.read path with
    | ok content =>
      rw [hread] at h
      cases h
    | error e' =>
      rw [hread] at h
      cases h
      exact .start
  · rw [run_get] at h
    cases hanswer : s.converter.extractText v path with
    | ok text =>
      rw [hanswer] at h
      cases h
    | error e' =>
      rw [hanswer] at h
      cases h
      exact .ask _ .start

/-- A failure after the warning about an empty document, or instead of it. -/
theorem unlessEmpty_eq_error (outDir : String) {α : Type} {empty strict : Prop}
    [Decidable empty] [Decidable strict] {e' : Failure} {message : String} {x : Run Failure α}
    (h : (if empty then
      if strict then do
        throw e'
        s.log .warn message
        x
      else do
        s.log .warn message
        x
    else x : Run Failure α).run.run v = (.error e, u)) :
    Filled s outDir v [] u ∨ ∃ v', Filled s outDir v [] v' ∧ x.run.run v' = (.error e, u) := by
  split_ifs at h
  · cases h
    exact .inl .start
  · obtain h | ⟨_, v', hlog, h⟩ := run_bind_eq_error h
    · cases h
    · exact .inr ⟨v', log_eq_ok hlog, h⟩
  · exact .inr ⟨v, .start, h⟩

/-- **Descriptions that are not made leave nothing behind** but the log, unless one of them
    cannot be written: then the document has been read, and all have been made. -/
theorem writeDescriptions_eq_error {usernames : Usernames} {flags : List String}
    {ignoreEmpty : Bool}
    (h : (s.writeDescriptions usernames flags path outDir ignoreEmpty).run.run v =
      (.error e, u)) :
    Filled s outDir v [] u ∨
      (∃ source v', (s.readDocument path).run.run v = (.ok source, v')) ∧ ∃ x, e = .system x := by
  simp only [writeDescriptions] at h
  obtain h | ⟨source, v₁, hread, h⟩ := run_bind_eq_error h
  · exact .inl (readDocument_eq_error outDir h)
  have hextracted := (readDocument_eq_ok outDir hread).2
  obtain hthrown | ⟨v₂, hwarned, h⟩ := unlessEmpty_eq_error outDir h
  · exact .inl (hextracted.trans hthrown)
  cases hg : Generated.ofSource s.registry usernames flags source with
  | error e' =>
    rw [hg] at h
    cases h
    exact .inl (hextracted.trans (hwarned.recordAll e'.events))
  | ok generated =>
    rw [hg] at h
    refine .inr ⟨⟨source, v₁, hread⟩, ?_⟩
    -- all sites have been rendered, so that only writing is left to fail
    have hwrites : Obeys (fun _ => True) (fun e => ∃ x, e = Failure.system x)
        (generated.descriptions.mapM (writeDescription outDir)) :=
      .mapM fun d _ => .bind (.attempt (fun _ _ _ _ => trivial) fun _ x _ => ⟨x, rfl⟩)
        fun _ => .pure _
    obtain h | ⟨_, v₃, -, h⟩ := run_bind_eq_error h
    · cases h
    obtain h | ⟨_, v₄, -, h⟩ := run_bind_eq_error h
    · exact (hwrites v₃ trivial).2 e (h ▸ rfl)
    · cases h

theorem copyFiles_eq_error {files : List String}
    (h : (copyFiles outDir files).run.run v = (.error e, u)) : ∃ x, e = .system x := by
  have hcopies : Obeys (fun _ => True) (fun e => ∃ x, e = Failure.system x)
      (copyFiles outDir files) := by
    refine .mapM fun file _ w _ => ⟨trivial, fun e h => ?_⟩
    simp only [copyFile] at h
    rw [run_get] at h
    cases hcopy : w.copy file (Path.join outDir (Path.basename file)) with
    | mk result w' =>
      rw [hcopy] at h
      cases result with
      | ok _ => cases h
      | error x =>
        cases h
        exact ⟨x, rfl⟩
  exact (hcopies v trivial).2 e (h ▸ rfl)

end Setup

/-! ## Runs -/

namespace OutputDir

variable {w v : World} {place l : Location} {root path : String} {keep : Bool}

theorem prepare_of_none (h : toMove? path keep w = none) :
    prepare path keep w = w.makeDirs path := by
  rw [prepare, h]

theorem prepare_of_some (h : toMove? path keep w = some place) (hne : place ≠ []) :
    prepare path keep w = (moveAside w place).1.makeDirs path := by
  rw [prepare, h]
  cases place with
  | nil => exact absurd rfl hne
  | cons name place => rfl

/-- An output directory that cannot be opened has changed no file. -/
theorem sameFile_of_prepare_eq_error {e : FsError}
    (h : prepare (Path.resolve root path) keep w = (.error e, v)) :
    w.SameFile v l := by
  unfold prepare at h
  split at h
  · have hmakes := World.SameFile.makeDirs w (Path.resolve root path) l
    rwa [h] at hmakes
  · cases h
    exact fun _ => file_makeBackup_iff
  · next place hne ht =>
    -- a new directory is always made where one has been moved away
    rw [makeDirs_moveAside (toMove?_resolve ht).2.2 hne] at h
    cases h

/-- Where something is while what is at a place is moved aside. -/
def asideOf (w : World) (place : Location) : Location → Location :=
  Location.shift place (backupOf w place ++ [backupName])

theorem not_prefix_asideOf (hne : place ≠ []) (hin : (w.tree.get? place).isSome = true)
    (l : Location) : ¬ place <+: asideOf w place l := by
  unfold asideOf
  by_cases hp : place <+: l
  · obtain ⟨k, rfl⟩ := hp
    rw [Tree.shift_append, List.append_assoc]
    exact not_prefix_backupOf hne hin _
  · rwa [Tree.shift_eq_self hp]

/-- Whatever has been done in the meantime, what is moved back comes from where it was
    moved to. -/
theorem get?_restore (hne : place ≠ []) (hin : (w.tree.get? place).isSome = true)
    (hl : ¬ backupOf w place <+: l) (u : World) :
    (restore (moveAside w place).2 u).tree.get? l = u.tree.get? (asideOf w place l) := by
  have haside := not_prefix_asideOf hne hin l
  rw [tree_restore]
  change (((u.tree.remove place).move (backupOf w place ++ [backupName]) place).remove
    (backupOf w place)).get? l = _
  rw [Tree.get?_remove hl]
  by_cases hp : place <+: l
  · obtain ⟨k, rfl⟩ := hp
    have hleft : ∀ e ∈ (u.tree.remove place).entries, ¬ place <+: e.1 := fun e he =>
      Tree.not_isPrefixOf_iff.1 (List.mem_filter.1 he).2
    rw [asideOf, Tree.shift_append] at haside ⊢
    rw [Tree.get?_move_append (by simp) (by simp [hne]) hleft, Tree.get?_remove haside]
  · have hback : ¬ backupOf w place ++ [backupName] <+: l :=
      fun h => hl ((List.prefix_append _ _).trans h)
    rw [Tree.get?_move hback hp, Tree.get?_remove hp, asideOf, Tree.shift_eq_self hp]

end OutputDir

namespace Upload

open Run

variable {s : Setup} {a : Arguments} {w w' u : World} {l : Location} {e : Failure} {o : Opening}

/-- Why a run withholds the descriptions: their document is refused, or it cannot be read
    once the story is written. -/
inductive Withholds (s : Setup) (a : Arguments) (w : World) (e : Failure) : Prop
  | refused : e.isRefusal = true → Withholds s a w e
  | unread {o : Opening} {path : String} {paths : List String} {v u : World} :
      Opens s a w o → a.descriptionPath? = some path →
      (storyFiles s a o.usernames (outDir a w)).run.run o.world = (.ok paths, v) →
      (s.readDocument path).run.run v = (.error e, u) → Withholds s a w e

/-- A run has written the story, with a file of it at a location. -/
def WroteStory (s : Setup) (a : Arguments) (w : World) (l : Location) : Prop :=
  ∃ o paths v, Opens s a w o ∧
    (storyFiles s a o.usernames (outDir a w)).run.run o.world = (.ok paths, v) ∧
      ∃ path ∈ paths, w.destination path = l

theorem Opens.unique {o' : Opening} (h : Opens s a w o) (h' : Opens s a w o') : o = o' := by
  obtain ⟨⟨v, hnames, hflags⟩, hready⟩ := h
  obtain ⟨⟨v', hnames', hflags'⟩, hready'⟩ := h'
  obtain ⟨usernames, flags, before, world⟩ := o
  obtain ⟨usernames', flags', before', world'⟩ := o'
  cases hnames.symm.trans hnames'
  cases hflags.symm.trans hflags'
  cases hready.symm.trans hready'
  rfl

/-- A story that cannot be written is no refusal of a description. -/
theorem not_isRefusal_of_storyFiles {usernames : Usernames} {dir : String} {v : World}
    (h : (storyFiles s a usernames dir).run.run v = (.error e, u)) : e.isRefusal = false := by
  have hraises : RaisesStory s dir (fun _ => True) (fun _ => True) (·.isRefusal = false) := by
    refine ⟨fun _ => rfl, fun _ _ _ _ _ => rfl, fun e _ => ?_, fun _ _ _ _ _ _ => rfl⟩
    cases e <;> rfl
  exact (storyFiles_obeys (a := a) (stable_true s dir _) hraises (fun _ _ => trivial)
    (fun _ _ _ => trivial) usernames v trivial).2 e (h ▸ rfl)

/-- What has been written as a story, with plain names. -/
theorem exists_filled_of_storyFiles {usernames : Usernames} {dir : String} {v : World}
    {paths : List String} (h : (storyFiles s a usernames dir).run.run v = (.ok paths, u)) :
    ∃ outputs, paths = outputs.map (·.path dir) ∧
      (∀ x ∈ outputs, Path.IsPlain x.name) ∧ Filled s dir v outputs u := by
  obtain ⟨outputs, hstory, hnone, hpaths, hfilled⟩ := storyFiles_eq_ok h
  refine ⟨outputs, hpaths, fun x hx => ?_, hfilled⟩
  cases hpath : a.storyPath? with
  | none =>
    rw [hnone hpath] at hx
    cases hx
  | some path =>
    obtain ⟨-, source, -, hall⟩ := hstory path hpath
    exact Setup.isPlain_of_isStory hall x hx

/-- **Where the descriptions are withheld, only the story has been written.** -/
theorem exists_filled_of_withholds (ho : Opens s a w o) (hw : Withholds s a w e)
    (h : (fill s a o.usernames o.flags (outDir a w)).run.run o.world = (.error e, u)) :
    ∃ outputs v, (storyFiles s a o.usernames (outDir a w)).run.run o.world =
        (.ok (outputs.map (·.path (outDir a w))), v) ∧
      (∀ x ∈ outputs, Path.IsPlain x.name) ∧ Filled s (outDir a w) o.world outputs u := by
  rw [fill_eq] at h
  -- the story has been written, as a refusal is none of its failures
  obtain h | ⟨paths, v, hstory, h⟩ := run_bind_eq_error h
  · cases hw with
    | refused he =>
      rw [not_isRefusal_of_storyFiles h] at he
      cases he
    | unread ho' _ hstory _ =>
      rw [ho.unique ho', hstory] at h
      cases h
  obtain ⟨outputs, rfl, hplain, hfilled⟩ := exists_filled_of_storyFiles hstory
  refine ⟨outputs, v, hstory, hplain, ?_⟩
  suffices hnothing : Filled s (outDir a w) v [] u by
    have hall := hfilled.trans hnothing
    rwa [List.append_nil] at hall
  -- an error of the file system is here one of reading the document, and so no later one
  have hunread : (∃ x, e = .system x) → ∃ path t, a.descriptionPath? = some path ∧
      (s.readDocument path).run.run v = (.error e, t) := by
    rintro ⟨x, rfl⟩
    cases hw with
    | refused he => cases he
    | @unread o' path _ _ t ho' hpath hstory' hread =>
      rw [ho.unique ho', hstory'] at hstory
      cases hstory
      exact ⟨path, t, hpath, hread⟩
  obtain h | ⟨made, v', hmade, h⟩ := run_bind_eq_error h
  · unfold descriptionFiles at h
    cases hpath : a.descriptionPath? with
    | none =>
      rw [hpath] at h
      cases h
    | some path =>
      rw [hpath] at h
      obtain hnothing | ⟨⟨source, v', hread⟩, hsystem⟩ := Setup.writeDescriptions_eq_error h
      · exact hnothing
      · obtain ⟨path', t, hpath', hfail⟩ := hunread hsystem
        obtain rfl := Option.some.inj (hpath.symm.trans hpath')
        cases hread.symm.trans hfail
  · obtain h | ⟨_, v'', -, h⟩ := run_bind_eq_error h
    · obtain ⟨path, t, hpath, hfail⟩ := hunread (Setup.copyFiles_eq_error h)
      simp only [descriptionFiles, hpath, Setup.writeDescriptions] at hmade
      obtain ⟨source, v₁, hread, -⟩ := run_bind_eq_ok hmade
      cases hread.symm.trans hfail
    · cases h

/-- Below the output directory, a path leads to the same location in every world. -/
theorem destination_join_outDir (a : Arguments) (w u v : World) (name : String) :
    u.destination (Path.join (outDir a w) name) = v.destination (Path.join (outDir a w) name) := by
  have habs : Path.isAbsolute (outDir a w) = true := Path.isAbsolute_resolve _ _
  rw [World.destination_join habs, World.destination_join habs, World.destination_absolute habs u,
    World.destination_absolute habs v]

/-- An output directory for which nothing is moved aside is kept, or there was none. -/
theorem Opens.kept_or_absent (ho : Opens s a w o)
    (ht : OutputDir.toMove? (outDir a w) a.keepOutDir o.before = none) :
    a.keepOutDir = true ∨ w.contains (outDir a w) = false := by
  by_contra hnot
  push Not at hnot
  obtain ⟨hkeep, hcontains⟩ := hnot
  obtain ⟨place, hplace⟩ := World.exists_locate_of_contains (eq_true_of_ne_false hcontains)
  have hlocate := ho.loads.logged.locate_eq_ok (Path.isAbsolute_resolve _ _) hplace
  rw [OutputDir.toMove?, eq_false_of_ne_true hkeep, outDir, hlocate] at ht
  cases ht

/-- Where a file is while a run fills its output directory. -/
def Opening.during (o : Opening) (outDir : String) (keep : Bool) (l : Location) : Location :=
  match OutputDir.toMove? outDir keep o.before with
  | none => l
  | some place => OutputDir.asideOf o.before place l

/-- The log is not written to the file at a location, neither at first nor to where the file is
    while the output directory is filled. -/
structure Unlogged (s : Setup) (a : Arguments) (w : World) (l : Location) : Prop where
  before : s.logger.writes w l = false
  during : ∀ o, Opens s a w o →
    s.logger.writes o.world (o.during (outDir a w) a.keepOutDir l) = false

/-- What was moved aside is put back, where only a story has been written. -/
theorem sameFile_of_moved {outputs : List Output} {place : Location} (ho : Opens s a w o)
    (ht : OutputDir.toMove? (outDir a w) a.keepOutDir o.before = some place) (hne : place ≠ [])
    (hplain : ∀ x ∈ outputs, Path.IsPlain x.name)
    (hfilled : Filled s (outDir a w) o.world outputs u) (hl : Unlogged s a w l) :
    o.before.SameFile (OutputDir.undo (outDir a w) a.keepOutDir o.before u) l := by
  have habs : Path.isAbsolute (outDir a w) = true := Path.isAbsolute_resolve _ _
  obtain ⟨-, hplace, hlocate⟩ := OutputDir.toMove?_resolve ht
  have hin := (World.locate_eq_ok hlocate).2
  have hundo : OutputDir.undo (outDir a w) a.keepOutDir o.before =
      OutputDir.restore (OutputDir.moveAside o.before place).2 := by
    rw [OutputDir.undo, ht]
  have hstart : o.world = { (OutputDir.moveAside o.before place).1 with
      tree := (OutputDir.moveAside o.before place).1.tree.set place .directory } := by
    have hready := ho.ready
    rw [OutputDir.prepare_of_some ht hne] at hready
    exact (Prod.mk.inj (hready.symm.trans (OutputDir.makeDirs_moveAside hlocate hne))).2
  have hhere : o.world.here = (OutputDir.moveAside o.before place).1.here := by rw [hstart]
  have hunlogged := hl.during o ho
  rw [s.logger.writes_congr hhere, Opening.during, ht] at hunlogged
  have hdest : (OutputDir.moveAside o.before place).1.destination (outDir a w) = place :=
    (World.placeOf_eq_destination habs _).symm.trans hplace.symm
  -- what was moved is not touched while the story is written
  have hfilling := hfilled.obeys
    ((Filling.fileStable place _ _).stable habs hdest (s.logger.writesTo_writes _))
    (fun x hx => ⟨hplain x hx, trivial⟩) (hstart ▸ Filling.of_moveAside hlocate hne)
  have houtside : OutputDir.outside place
      (s.logger.writes (OutputDir.moveAside o.before place).1)
      (OutputDir.asideOf o.before place l) = true := by
    have hnot := OutputDir.not_prefix_asideOf hne hin l
    rw [OutputDir.outside, Tree.not_isPrefixOf_iff.2 hnot, hunlogged]
    rfl
  have hkept := Tree.get?_of_only_eq hfilling.kept houtside
  rw [hundo]
  by_cases hbackup : OutputDir.backupOf o.before place <+: l
  -- nothing was in the directory around what was moved, and nothing is left in it
  · refine .of_get?_eq (Eq.trans ?_ (Option.not_isSome_iff_eq_none.1 fun hsome =>
      OutputDir.not_backupOf_of_isSome hsome hbackup).symm)
    exact Tree.get?_remove_of_prefix (by simp [OutputDir.backupOf]) hbackup _
  · refine .of_get?_eq ?_
    rw [OutputDir.get?_restore hne hin hbackup, hkept, ← OutputDir.get?_restore hne hin hbackup,
      OutputDir.restore_moveAside hne hin]

/-- **Where the descriptions are withheld, only files of the story change**, and only in an
    output directory that is kept or was not there before. -/
theorem sameFile_of_fill_eq_error (ho : Opens s a w o) (hw : Withholds s a w e)
    (h : (fill s a o.usernames o.flags (outDir a w)).run.run o.world = (.error e, u))
    (hl : Unlogged s a w l) :
    o.before.SameFile (OutputDir.undo (outDir a w) a.keepOutDir o.before u) l ∨
      (a.keepOutDir = true ∨ w.contains (outDir a w) = false) ∧ WroteStory s a w l := by
  obtain ⟨outputs, v, hstory, hplain, hfilled⟩ := exists_filled_of_withholds ho hw h
  obtain ⟨ht, hmade⟩ | ⟨ht, hne, -⟩ := ho.cases
  · by_cases hout : ∀ x ∈ outputs, w.destination (x.path (outDir a w)) ≠ l
    · have hundo : OutputDir.undo (outDir a w) a.keepOutDir o.before = id := by
        rw [OutputDir.undo, ht]
      have hopened : o.before.SameFile o.world l := by
        have hmakes := World.SameFile.makeDirs o.before (outDir a w) l
        have hready := ho.ready
        rw [OutputDir.prepare_of_none ht] at hready
        rwa [hready] at hmakes
      have hlog : s.logger.writes o.world l = false := by
        rw [s.logger.writes_congr (hmade.here.trans ho.loads.logged.here), hl.before]
      rw [hundo]
      refine .inl (hopened.trans (.of_get?_eq (hfilled.get?_eq hlog fun x hx heq => ?_)))
      exact hout x hx ((destination_join_outDir a w w o.world x.name).trans heq)
    · push Not at hout
      obtain ⟨x, hx, hdest⟩ := hout
      exact .inr ⟨ho.kept_or_absent ht, o, _, v, ho, hstory, _, List.mem_map_of_mem hx, hdest⟩
  · exact .inl (sameFile_of_moved ho ht hne hplain hfilled hl)

/-- What a run that withholds the descriptions changes, at any location. -/
theorem sameFile_of_run_eq_error (h : (run s a).run.run w = (.error e, w'))
    (hw : Withholds s a w e) (hl : Unlogged s a w l) :
    w.SameFile w' l ∨
      (a.keepOutDir = true ∨ w.contains (outDir a w) = false) ∧ WroteStory s a w l := by
  obtain hlogged | ⟨usernames, flags, before, hloads, huse⟩ := run_eq_error_cases h
  · exact .inl (.of_get?_eq (Tree.get?_of_only_eq hlogged.kept (by simp [hl.before])))
  have hlogged := hloads.logged
  have hbefore : w.SameFile before l :=
    .of_get?_eq (Tree.get?_of_only_eq hlogged.kept (by simp [hl.before]))
  rw [OutputDir.run_use_eq] at huse
  split at huse
  · next hready =>
    cases huse
    exact .inl (hbefore.trans (OutputDir.sameFile_of_prepare_eq_error hready))
  next world hready =>
  have ho : Opens s a w ⟨usernames, flags, before, world⟩ := ⟨hloads, hready⟩
  split at huse
  · cases huse
  next u hfill =>
  cases huse
  exact (sameFile_of_fill_eq_error ho hw hfill hl).imp_left hbefore.trans

/-- Where a run puts the description for a site. -/
def descriptionPlace (a : Arguments) (w : World) (site : Site) : Location :=
  w.destination (Path.join (outDir a w) site.outputFile)

/-- **Descriptions are written all together, or not at all**: a run that fails since their
    document is refused, or cannot be read, has made, changed or emptied the file of no
    description. Only the story may have been written to such a file, and that is undone where
    it replaces an output directory. -/
theorem withheld_of_run_eq_error (h : (run s a).run.run w = (.error e, w'))
    (hw : Withholds s a w e) : ∀ site ∈ s.registry.sites,
      Unlogged s a w (descriptionPlace a w site) →
        w.SameFile w' (descriptionPlace a w site) ∨
          (a.keepOutDir = true ∨ w.contains (outDir a w) = false) ∧
            WroteStory s a w (descriptionPlace a w site) :=
  fun _ _ hl => sameFile_of_run_eq_error h hw hl

theorem unlogged_of_none (h : s.logger.file = none) : Unlogged s a w l :=
  ⟨by simp [Logger.writes, h], by simp [Logger.writes, h]⟩

/-- A story has been written when the description turns out to have an open tag. -/
theorem withheld_of_run_eq_error_unclosed :
    let s := Setup.silent
    let a : Arguments := { story := some "s.txt", description := some "d.txt", keepOutDir := true }
    let w := World.ofTree "/w" ⟨[(["config.json"], .file "\x7b\"aryion\":\"u\"\x7d"),
      (["s.txt"], .file "1"), (["d.txt"], .file "[b]"), (["out"], .directory),
      (["out", "desc_aryion.txt"], .file "2")]⟩
    ∃ e w', (run s a).run.run w = (.error e, w') ∧ Withholds s a w e ∧
      w'.tree.get? (World.placeOf "/w/out/s.rtf") = some (.file "") ∧
        ∀ site ∈ s.registry.sites, w.SameFile w' (descriptionPlace a w site) ∨
          (a.keepOutDir = true ∨ w.contains (outDir a w) = false) ∧
            WroteStory s a w (descriptionPlace a w site) := by
  intro s a w
  have hrefused : (errorOf? ((run s a).run.run w).1).map Failure.isRefusal = some true := by
    decide +kernel
  obtain ⟨e, he, hrefusal⟩ := Option.map_eq_some_iff.1 hrefused
  have hrun : (run s a).run.run w = (.error e, ((run s a).run.run w).2) :=
    Prod.ext (errorOf?_eq_some_iff.1 he) rfl
  have hw : Withholds s a w e := .refused hrefusal
  refine ⟨e, _, hrun, hw, by decide +kernel, fun site hsite => ?_⟩
  exact withheld_of_run_eq_error hrun hw site hsite (unlogged_of_none rfl)

end Upload

end Crosspost
