/-
  Opening an output directory.

  * `OutputDir.prepare` is what comes before a directory is filled,
    `OutputDir.conclude` and `OutputDir.undo` what comes after it, and
    `OutputDir.run_use_eq` puts them together;
  * `OutputDir.prepare_cases`: a directory is made where it is missing
    (`OutputDir.Made`), or anew where what was there has been moved aside
    (`OutputDir.Moved`);
  * `Upload.Opens`: a run has read its configuration and gets to filling the
    directory; `Upload.run_of_opens` and `Upload.exists_opens_of_run_eq_ok`: a run that
    succeeds goes through there.
-/
import Crosspost.Proofs.Upload.Restoring
import Crosspost.Proofs.Workspace.Ways

namespace Crosspost

open Location

namespace OutputDir

variable {α : Type} {w v : World} {place : Location} {root path : String} {keep : Bool}

/-- What comes before a directory is filled. -/
def prepare (path : String) (keep : Bool) (w : World) : Except FsError Unit × World :=
  match toMove? path keep w with
  | none => w.makeDirs path
  | some [] => (.error .busy, makeBackup [] w)
  | some place => (moveAside w place).1.makeDirs path

/-- What comes after a directory was filled, from the world before that. -/
def conclude (path : String) (keep : Bool) (w : World) : World → World :=
  match toMove? path keep w with
  | none => id
  | some place => discard (moveAside w place).2

/-- What comes after a failure to fill a directory, from the world before that. -/
def undo (path : String) (keep : Bool) (w : World) : World → World :=
  match toMove? path keep w with
  | none => id
  | some place => restore (moveAside w place).2

theorem run_use_eq (path : String) (keep : Bool) (body : Run Failure α) (w : World) :
    (use path keep body).run.run w =
      match prepare path keep w with
      | (.error e, v) => (.error (.system e), v)
      | (.ok (), v) =>
        match body.run.run v with
        | (.ok a, u) => (.ok a, conclude path keep w u)
        | (.error e, u) => (.error e, undo path keep w u) := by
  cases ht : toMove? path keep w with
  | none =>
    unfold use prepare conclude undo
    rw [Run.run_get, ht]
    dsimp only
    rw [Run.run_bind, Run.run_perform]
    cases w.makeDirs path with
    | mk r v =>
      cases r with
      | error e => rfl
      | ok u =>
        simp only [Except.mapError]
        cases body.run.run v with
        | mk r v => cases r <;> rfl
  | some place =>
    cases place with
    | nil =>
      rw [run_use_root body ht, prepare, ht]
    | cons name place =>
      rw [run_use body ht (by simp)]
      unfold prepare conclude undo
      generalize toMove? path keep w = moved at ht
      subst ht
      rfl

/-- The directories that lead to a place have been made where they were missing. -/
structure Made (place : Location) (w v : World) : Prop where
  here : v.here = w.here
  extension : Tree.Extends w.tree v.tree
  directory : ∀ k, k <+: place → v.tree.get? k = some .directory
  kept : ∀ l, (w.tree.get? l).isSome = true → v.tree.get? l = w.tree.get? l
  other : ∀ l, ¬ l <+: place → v.tree.get? l = w.tree.get? l
  short : ∀ name ∈ place, Path.isNameTooLong name = false

/-- What was at a place has been moved aside, and a new directory been made. -/
structure Moved (place : Location) (w v : World) : Prop where
  here : v.here = shift place (backupOf w place ++ [backupName]) w.here
  directory : ∀ k, k <+: place → v.tree.get? k = some .directory
  inside : ∀ l, place <+: l → l ≠ place → v.tree.get? l = none
  outside : ∀ l, ¬ place <+: l → ¬ backupOf w place <+: l → v.tree.get? l = w.tree.get? l
  aside : ∀ k, v.tree.get? (backupOf w place ++ [backupName] ++ k) = w.tree.get? (place ++ k)

theorem made_of_makeDirs (h : w.makeDirs (Path.resolve root path) = (.ok (), v)) :
    Made (World.placeOf (Path.resolve root path)) w v := by
  have hclean : Clean (World.placeOf (Path.resolve root path)) := Path.clean_resolveNames _
  unfold World.makeDirs at h
  cases hr : w.route (Path.resolve root path) with
  | error e =>
    rw [hr] at h
    cases h
  | ok way =>
    obtain ⟨start, ns⟩ := way
    obtain ⟨hstart, hns⟩ := World.route_eq_ok hr
    rw [if_pos (Path.isAbsolute_resolve root path)] at hstart
    rw [Path.resolve_eq] at hns
    rw [hr, hstart, hns] at h
    have hplace : Path.resolveNames true (Path.resolve root path) =
        World.placeOf (Path.resolve root path) := rfl
    simp only [hplace] at h
    -- the place is a variable from here on, so that nothing resolves the path again
    generalize World.placeOf (Path.resolve root path) = place at hclean h ⊢
    rw [Tree.makeDirs_slash hclean] at h
    obtain ⟨hok, rfl⟩ := Prod.mk.inj h
    have hmakes : w.tree.makeDirs [] place = (.ok (), (w.tree.makeDirs [] place).2) :=
      Prod.ext hok rfl
    obtain ⟨hmade, hkept, hshort⟩ := Tree.get?_makeDirs hclean hmakes
    refine ⟨rfl, Tree.extends_makeDirs _ _ _, fun k hk => ?_, fun l hl => ?_, fun l hl => ?_,
      hshort⟩
    · by_cases hne : k = []
      · rw [hne]
        rfl
      · exact hmade k hk hne
    · obtain h | ⟨hnone, -⟩ := Tree.get?_makeDirs_cases w.tree [] place l
      · exact h
      · rw [hnone] at hl
        cases hl
    · exact hkept l fun k hk _ heq => hl (heq ▸ hk)

theorem moved_of_locate (hl : w.locate (Path.resolve root path) = .ok place) (hne : place ≠ []) :
    Moved place w { (moveAside w place).1 with
      tree := (moveAside w place).1.tree.set place .directory } := by
  have hin := (World.locate_eq_ok hl).2
  obtain ⟨hclean, -, hwalk⟩ := World.locate_resolve hl hne
  have hleads := Tree.leads_of_walk hclean hwalk
  -- the new directory is no part of what was moved, so setting it is seen nowhere else
  have hbackup : ∀ k, place ≠ backupOf w place ++ k := fun k heq =>
    not_prefix_backupOf hne hin k (heq ▸ List.prefix_rfl)
  refine ⟨rfl, fun k hk => ?_, fun l hpl hl => ?_, fun l hpl hbl => ?_, fun k => ?_⟩
  · by_cases hkp : k = place
    · rw [hkp]
      exact Tree.get?_set_self hne _ _
    · refine (Tree.get?_set_of_ne hkp _ _).trans ?_
      rw [get?_moveAside_around hk hkp]
      exact hleads.directory k hk hkp
  · refine (Tree.get?_set_of_ne hl _ _).trans ?_
    have hlne : l ≠ [] := by
      rintro rfl
      exact hl (List.prefix_nil.1 hpl).symm
    exact Tree.get?_eq_none_of_forall hlne fun e he hel =>
      left_moveAside hne hin e he (hel ▸ hpl)
  · have hlp : l ≠ place := by
      rintro rfl
      exact hpl List.prefix_rfl
    refine (Tree.get?_set_of_ne hlp _ _).trans ?_
    rw [tree_moveAside, Tree.get?_move hpl fun hp => hbl ((List.prefix_append _ _).trans hp),
      Tree.get?_set_of_ne]
    rintro rfl
    exact hbl List.prefix_rfl
  · have hkp : backupOf w place ++ [backupName] ++ k ≠ place := by
      rw [List.append_assoc]
      exact (hbackup _).symm
    refine (Tree.get?_set_of_ne hkp _ _).trans ?_
    rw [tree_moveAside, Tree.get?_move_append (by simp [hne]) (by simp) (empty_backupOf w place),
      Tree.get?_set_of_ne]
    intro heq
    refine not_prefix_backupOf hne hin [] ?_
    rw [List.append_nil, ← heq]
    exact List.prefix_append _ _

theorem not_backupOf_of_isSome {l : Location} (h : (w.tree.get? l).isSome = true) :
    ¬ backupOf w place <+: l := by
  intro hp
  have hl : l ≠ [] := by
    rintro rfl
    simpa [backupOf] using List.prefix_nil.1 hp
  obtain ⟨e, he, rfl⟩ := Tree.exists_entry_of_isSome hl h
  exact fresh_backupOf he hp

theorem toMove?_eq_some (h : toMove? path keep w = some place) :
    keep = false ∧ w.locate path = .ok place := by
  unfold toMove? at h
  split_ifs at h with hkeep
  cases hl : w.locate path with
  | error e =>
    rw [hl] at h
    cases h
  | ok l =>
    rw [hl] at h
    cases h
    exact ⟨Bool.eq_false_iff.2 hkeep, rfl⟩

theorem toMove?_resolve (h : toMove? (Path.resolve root path) keep w = some place) :
    keep = false ∧ place = World.placeOf (Path.resolve root path) ∧
      w.locate (Path.resolve root path) = .ok place := by
  obtain ⟨hkeep, hl⟩ := toMove?_eq_some h
  refine ⟨hkeep, ?_, hl⟩
  rw [(World.locate_eq_ok hl).1, World.placeOf_eq_destination (Path.isAbsolute_resolve root path)]

/-- **A directory is made where it is missing, or anew.** -/
theorem prepare_cases (h : prepare (Path.resolve root path) keep w = (.ok (), v)) :
    (toMove? (Path.resolve root path) keep w = none ∧
        Made (World.placeOf (Path.resolve root path)) w v) ∨
      ∃ place, toMove? (Path.resolve root path) keep w = some place ∧ place ≠ [] ∧
        Moved place w v := by
  unfold prepare at h
  split at h
  · next ht => exact .inl ⟨ht, made_of_makeDirs h⟩
  · cases h
  · next place hne ht =>
    obtain ⟨-, -, hl⟩ := toMove?_resolve ht
    rw [makeDirs_moveAside hl hne] at h
    cases h
    exact .inr ⟨place, ht, hne, moved_of_locate hl hne⟩

end OutputDir

/-! ## Runs -/

/-- The error of the file system that a computation ends with. -/
def Failure.system? {α : Type} : Except Failure α → Option FsError
  | .error (.system e) => some e
  | _ => none

theorem Failure.run_eq_of_system? {α : Type} {x : Run Failure α} {w : World} {e : FsError}
    (h : system? (x.run.run w).1 = some e) :
    x.run.run w = (.error (.system e), (x.run.run w).2) := by
  refine Prod.ext ?_ rfl
  unfold system? at h
  split at h
  · cases h
    assumption
  · cases h

/-- Whether a logger writes to a location. -/
def Logger.writes (l : Logger) (w : World) (m : Location) : Bool :=
  l.file.any fun path => w.destination path == m

/-- A setup with the known destinations, where nothing is logged to a file and the
    converter makes empty texts. -/
def Setup.silent : Setup where
  converter := ⟨fun _ _ => .ok "", fun _ _ _ => .ok ""⟩
  logger := {}
  clock _ := ⟨"", none⟩

theorem Logger.writes_eq_true {l : Logger} {w : World} {m : Location} :
    l.writes w m = true ↔ ∃ path ∈ l.file, w.destination path = m := by
  simp [writes, Option.any_eq_true]

theorem Logger.writesTo_writes (l : Logger) (w : World) : l.WritesTo (l.writes w) w :=
  fun path hpath => writes_eq_true.2 ⟨path, hpath, rfl⟩

theorem Logger.writes_congr (l : Logger) {w v : World} (h : v.here = w.here) :
    l.writes v = l.writes w := by
  funext m
  simp only [writes, World.destination_congr h]

namespace Upload

variable {s : Setup} {a : Arguments} {w w' : World}

/-- What a run has at hand when it begins to fill its output directory. -/
structure Opening where
  usernames : Usernames
  flags : List String
  /-- The world before the output directory is touched. -/
  before : World
  /-- The world in which filling begins. -/
  world : World

/-- From a world, a run has read its configuration. -/
def Loads (s : Setup) (a : Arguments) (w : World) (usernames : Usernames) (flags : List String)
    (u : World) : Prop :=
  ∃ v, (loadUsernames s a).run.run w = (.ok usernames, v) ∧
    (loadFlags s a).run.run v = (.ok flags, u)

/-- From a world, a run gets to filling its output directory. -/
structure Opens (s : Setup) (a : Arguments) (w : World) (o : Opening) : Prop where
  loads : Loads s a w o.usernames o.flags o.before
  ready : OutputDir.prepare (outDir a w) a.keepOutDir o.before = (.ok (), o.world)

/-- The output directory of a run has been made where it was missing, or anew. -/
theorem Opens.cases {o : Opening} (h : Opens s a w o) :
    (OutputDir.toMove? (outDir a w) a.keepOutDir o.before = none ∧
        OutputDir.Made (World.placeOf (outDir a w)) o.before o.world) ∨
      (OutputDir.toMove? (outDir a w) a.keepOutDir o.before = some (World.placeOf (outDir a w)) ∧
        World.placeOf (outDir a w) ≠ [] ∧
          OutputDir.Moved (World.placeOf (outDir a w)) o.before o.world) := by
  obtain hmade | ⟨place, ht, hne, hmoved⟩ := OutputDir.prepare_cases h.ready
  · exact .inl hmade
  · have hplace : place = World.placeOf (outDir a w) := (OutputDir.toMove?_resolve ht).2.1
    rw [hplace] at ht hne hmoved
    exact .inr ⟨ht, hne, hmoved⟩

theorem Opens.directory {o : Opening} (h : Opens s a w o) :
    ∀ k, k <+: World.placeOf (outDir a w) → o.world.tree.get? k = some .directory := by
  obtain ⟨-, hmade⟩ | ⟨-, -, hmoved⟩ := h.cases
  · exact hmade.directory
  · exact hmoved.directory

theorem Loads.logged {usernames : Usernames} {flags : List String} {u : World}
    (h : Loads s a w usernames flags u) : Logged (s.logger.writes w) w u := by
  obtain ⟨v, hnames, hflags⟩ := h
  have hl := s.logger.writesTo_writes w
  have hv := (loadUsernames_obeys hl a w (.refl _ _)).1
  rw [hnames] at hv
  have hu := (loadFlags_obeys hl a v hv).1
  rwa [hflags] at hu

theorem Opens.here_eq {o : Opening} (h : Opens s a w o)
    (hhere : ¬ World.placeOf (outDir a w) <+: w.here) : o.world.here = w.here := by
  have hbefore := h.loads.logged.here
  obtain ⟨-, hmade⟩ | ⟨-, -, hmoved⟩ := h.cases
  · exact hmade.here.trans hbefore
  · rw [hmoved.here, hbefore, Tree.shift_eq_self hhere]

theorem run_of_loads {usernames : Usernames} {flags : List String} {u : World}
    (h : Loads s a w usernames flags u) :
    (run s a).run.run w = (OutputDir.use (outDir a w) a.keepOutDir
      (fill s a usernames flags (outDir a w))).run.run u := by
  have hroot := h.logged.root
  obtain ⟨v, hnames, hflags⟩ := h
  unfold run
  rw [Run.run_bind_of_ok hnames, Run.run_bind_of_ok hflags, Run.run_get, hroot]
  rfl

theorem run_of_opens {o : Opening} (h : Opens s a w o) :
    (run s a).run.run w =
      match (fill s a o.usernames o.flags (outDir a w)).run.run o.world with
      | (.ok summary, u) => (.ok summary, OutputDir.conclude (outDir a w) a.keepOutDir o.before u)
      | (.error e, u) => (.error e, OutputDir.undo (outDir a w) a.keepOutDir o.before u) := by
  rw [run_of_loads h.loads, OutputDir.run_use_eq, h.ready]
  dsimp only
  cases (fill s a o.usernames o.flags (outDir a w)).run.run o.world with
  | mk r u => cases r <;> rfl

/-- A run that succeeds has filled its output directory. -/
theorem exists_opens_of_run_eq_ok {summary : Summary}
    (h : (run s a).run.run w = (.ok summary, w')) :
    ∃ o u, Opens s a w o ∧
      (fill s a o.usernames o.flags (outDir a w)).run.run o.world = (.ok summary, u) ∧
        w' = OutputDir.conclude (outDir a w) a.keepOutDir o.before u := by
  -- `h` is taken apart for what was read, and then the run is rewritten as a whole
  have hrun := h
  obtain ⟨usernames, v, hnames, h⟩ := Run.run_bind_eq_ok h
  obtain ⟨flags, u, hflags, h⟩ := Run.run_bind_eq_ok h
  have hloads : Loads s a w usernames flags u := ⟨v, hnames, hflags⟩
  rw [run_of_loads hloads, OutputDir.run_use_eq] at hrun
  split at hrun
  · cases hrun
  · next world hready =>
    refine ⟨⟨usernames, flags, u, world⟩, ?_⟩
    split at hrun
    · next t hfill =>
      cases hrun
      exact ⟨t, ⟨hloads, hready⟩, hfill, rfl⟩
    · cases hrun

/-- A run that fails does so before its output directory is touched, or while that
    is used. -/
theorem run_eq_error_cases {e : Failure} (h : (run s a).run.run w = (.error e, w')) :
    Logged (s.logger.writes w) w w' ∨ ∃ usernames flags u, Loads s a w usernames flags u ∧
      (OutputDir.use (outDir a w) a.keepOutDir (fill s a usernames flags (outDir a w))).run.run u =
        (.error e, w') := by
  have hl := s.logger.writesTo_writes w
  have hrun := h
  have hnames := (loadUsernames_obeys hl a w (.refl _ _)).1
  obtain h | ⟨usernames, v, hv, h⟩ := Run.run_bind_eq_error h
  · rw [h] at hnames
    exact .inl hnames
  rw [hv] at hnames
  have hflags := (loadFlags_obeys hl a v hnames).1
  obtain h | ⟨flags, u, hu, h⟩ := Run.run_bind_eq_error h
  · rw [h] at hflags
    exact .inl hflags
  · have hloads : Loads s a w usernames flags u := ⟨v, hv, hu⟩
    exact .inr ⟨usernames, flags, u, hloads, run_of_loads hloads ▸ hrun⟩

end Upload

end Crosspost
