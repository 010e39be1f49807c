/-
  Failed runs leave the files as they were.

  * `OutputDir.restore_moveAside`: what was moved aside is put back, and
    `OutputDir.restore_only`: whatever was done in its place in the meantime;
  * `FileStable` tells what kind of facts hold as long as an output directory is
    filled, and `Filling` is the one that is needed for putting it back;
  * `OutputDir.use_eq_error`: a failure puts the directory back;
  * `Upload.untouched_of_run_eq_error`: **a run that fails leaves the tree as it
    was**, but for the log, where it fails early or was to replace what is there.
-/
import Crosspost.Proofs.Upload.Filling
import Crosspost.Proofs.Upload.Logging

namespace Crosspost

open Location

/-! ## Moving aside -/

namespace OutputDir

variable {w : World} {place : Location}

theorem tree_moveAside (w : World) (place : Location) :
    (moveAside w place).1.tree =
      (w.tree.set (backupOf w place) .directory).move place (backupOf w place ++ [backupName]) :=
  rfl

theorem tree_restore (a : Aside) (w : World) :
    (restore a w).tree =
      ((w.tree.remove a.place).move (a.backup ++ [backupName]) a.place).remove a.backup := rfl

/-- Nothing that is there stands in the new directory. -/
theorem fresh_backupOf {e : Location × Entry} (he : e ∈ w.tree.entries) :
    ¬ backupOf w place <+: e.1 := by
  intro hp
  exact w.tree.freshName_not_mem ".gallery-upload-" e he (hp.subset (by simp [backupOf]))

theorem length_backupOf (w : World) (hne : place ≠ []) :
    (backupOf w place).length = place.length := by
  have hpos := List.length_pos_iff.2 hne
  simp only [backupOf, List.length_append, List.length_dropLast, List.length_singleton]
  omega

/-- The new directory stands beside the place, not in it. -/
theorem not_prefix_backupOf (hne : place ≠ []) (hin : (w.tree.get? place).isSome = true)
    (k : Location) : ¬ place <+: backupOf w place ++ k := by
  intro hp
  have hlength : place.length = (backupOf w place).length := (length_backupOf w hne).symm
  have hp : place <+: backupOf w place :=
    List.prefix_of_prefix_length_le hp (List.prefix_append _ _) (Nat.le_of_eq hlength)
  rw [Tree.get?_of_ne_nil hne, List.lookup_isSome_iff] at hin
  obtain ⟨e, he, hel⟩ := hin
  rw [beq_iff_eq] at hel
  have hfresh : ¬ backupOf w place <+: e.1 := fresh_backupOf he
  have heq : backupOf w place = e.1 := (hp.eq_of_length hlength).symm.trans hel
  exact hfresh (heq ▸ List.prefix_rfl)

/-- No directory around a place stands in the new directory. -/
theorem not_around_backupOf {k : Location} (hk : k <+: place) (hne : k ≠ place) :
    ¬ backupOf w place <+: k := by
  intro hp
  have hplace : place ≠ [] := by
    rintro rfl
    exact hne (List.prefix_nil.1 hk)
  have hlt : k.length < place.length :=
    Nat.lt_of_le_of_ne hk.length_le fun he => hne (hk.eq_of_length he)
  have hle := hp.length_le
  rw [length_backupOf w hplace] at hle
  omega

/-- Nothing is in the new directory at first. -/
theorem empty_backupOf (w : World) (place : Location) :
    ∀ e ∈ (w.tree.set (backupOf w place) .directory).entries,
      ¬ backupOf w place ++ [backupName] <+: e.1 := by
  have hfresh : ∀ e ∈ w.tree.entries, ¬ backupOf w place <+: e.1 := fun _ => fresh_backupOf
  rw [Tree.set_eq_append fun e he hl => hfresh e he (hl ▸ List.prefix_rfl)]
  intro e he hp
  obtain he | he := List.mem_append.1 he
  · exact hfresh e he ((List.prefix_append _ _).trans hp)
  · obtain rfl := List.mem_singleton.1 he
    have hle := hp.length_le
    simp only [List.length_append, List.length_singleton] at hle
    omega

/-- Nothing is left in the place. -/
theorem left_moveAside (hne : place ≠ []) (hin : (w.tree.get? place).isSome = true) :
    ∀ e ∈ (moveAside w place).1.tree.entries, ¬ place <+: e.1 := by
  rw [tree_moveAside]
  refine Tree.not_prefix_of_mem_move fun k => ?_
  rw [List.append_assoc]
  exact not_prefix_backupOf hne hin _

/-- **What was moved aside is put back as it was.** -/
theorem restore_moveAside (hne : place ≠ []) (hin : (w.tree.get? place).isSome = true) :
    (restore (moveAside w place).2 (moveAside w place).1).tree = w.tree := by
  -- what stands in the place is taken away first, and there is nothing yet
  rw [tree_restore]
  change (((Tree.remove _ place).move (backupOf w place ++ [backupName]) place).remove
    (backupOf w place)) = _
  rw [Tree.remove_eq_self (left_moveAside hne hin), tree_moveAside,
    Tree.move_move (empty_backupOf w place), Tree.remove_set fun _ => fresh_backupOf]

/-- Locations that are neither in a directory nor of a log. -/
def outside (place : Location) (logs : Location → Bool) (l : Location) : Bool :=
  !place.isPrefixOf l && !logs l

/-- What is done inside the place of a directory before it is put back does not
    matter. -/
theorem restore_only {a : Aside} {v : World} {logs : Location → Bool}
    (h : v.tree.only (outside a.place logs) = w.tree.only (outside a.place logs))
    (hlogs : ∀ l, a.backup <+: l → logs l = false) :
    (restore a v).tree.only (!logs ·) = (restore a w).tree.only (!logs ·) := by
  -- what is kept in the end, by where it is before it is moved back
  have hrestore : ∀ t : Tree,
      (((t.remove a.place).move (a.backup ++ [backupName]) a.place).remove a.backup).only (!logs ·) =
        ((t.only (outside a.place logs)).only fun l =>
          !a.backup.isPrefixOf (shift (a.backup ++ [backupName]) a.place l) &&
            !logs (shift (a.backup ++ [backupName]) a.place l)).move
          (a.backup ++ [backupName]) a.place := by
    intro t
    have hremove : ∀ (l : Location) (t : Tree), t.remove l = t.only fun m => !l.isPrefixOf m :=
      fun _ _ => rfl
    rw [hremove a.backup, Tree.only_only, Tree.only_move, hremove a.place, Tree.only_only,
      Tree.only_only]
    refine congrArg (Tree.move · _ _) (congrArg (Tree.only · t) (funext fun l => ?_))
    rw [outside]
    cases hl : logs l with
    | false => simp
    | true =>
      have hnot : ¬ a.backup ++ [backupName] <+: l := by
        intro hp
        rw [hlogs l ((List.prefix_append _ _).trans hp)] at hl
        exact absurd hl (by decide)
      simp [Tree.shift_eq_self hnot, hl]
  rw [tree_restore, tree_restore, hrestore, hrestore, h]

theorem get?_moveAside_place (hne : place ≠ []) (hin : (w.tree.get? place).isSome = true) :
    (moveAside w place).1.tree.get? place = none := by
  rw [Tree.get?_of_ne_nil hne, List.lookup_eq_none_iff]
  intro e he
  rw [bne_iff_ne]
  rintro rfl
  exact left_moveAside hne hin e he List.prefix_rfl

/-- The directories around a place stay where they are. -/
theorem get?_moveAside_around {k : Location} (hk : k <+: place) (hne : k ≠ place) :
    (moveAside w place).1.tree.get? k = w.tree.get? k := by
  have hbackup := not_around_backupOf (w := w) hk hne
  have hplace : ¬ place <+: k := fun hp => hne (hk.eq_of_length_le hp.length_le)
  rw [tree_moveAside, Tree.get?_move hplace fun hp => hbackup ((List.prefix_append _ _).trans hp),
    Tree.get?_set_of_ne]
  rintro rfl
  exact hbackup List.prefix_rfl

/-- The new directory is made in the place of the old one. -/
theorem makeDirs_moveAside {root path : String} (hl : w.locate (Path.resolve root path) = .ok place)
    (hne : place ≠ []) :
    (moveAside w place).1.makeDirs (Path.resolve root path) = (.ok (), { (moveAside w place).1 with
      tree := (moveAside w place).1.tree.set place .directory }) := by
  obtain ⟨hclean, hroute, hwalk⟩ := World.locate_resolve hl hne
  have hleads := Tree.leads_of_walk hclean hwalk
  have hmoved : (moveAside w place).1.tree.Leads [] place := by
    refine ⟨fun k hk hkne => ?_, hleads.short⟩
    rw [List.nil_append, get?_moveAside_around hk hkne]
    exact hleads.directory k hk hkne
  have hnone := get?_moveAside_place hne (World.locate_eq_ok hl).2
  have hmade := Tree.makeDirs_eq hclean hne hmoved hnone
  -- the empty name in front of a route from the root makes nothing
  rw [World.makeDirs, World.route_absolute (Path.isAbsolute_resolve root path) _ w, hroute]
  have hempty : (moveAside w place).1.tree.makeDirs [] ("" :: place) =
      (moveAside w place).1.tree.makeDirs [] place := by
    rw [Tree.makeDirs]
    simp
  simp only [hempty, hmade, List.nil_append]

end OutputDir

/-! ## Filling -/

/-- What holds of the files while the directory at a place is filled, since there was
    `start`: it stays when a file is put where the log is, or into the directory under a
    name in `N`, and when something in the directory is taken away. -/
structure FileStable (place : Location) (logs : Location → Bool) (N : String → Prop)
    (start : World) (P : World → Prop) : Prop where
  here : ∀ w, P w → w.here = start.here
  directory : ∀ w, P w → ∀ k, k <+: place → w.tree.get? k = some .directory
  congr : ∀ w v, P w → v.here = w.here → v.tree = w.tree → P v
  set : ∀ w path text, P w → w.Writable path →
    (logs (w.destination path) = true ∨
      ∃ name, N name ∧ w.destination path = place ++ [name]) →
        P { w with tree := w.tree.set (w.destination path) (.file text) }
  remove : ∀ w name, P w → P { w with tree := w.tree.remove (place ++ [name]) }

/-- A copy writes one file, or fails and takes away what was in its way; all other steps
    write at most one file. -/
theorem FileStable.stable {place : Location} {logs : Location → Bool} {N : String → Prop}
    {start : World} {P : World → Prop} (h : FileStable place logs N start P) {s : Setup}
    {outDir : String} (habs : Path.isAbsolute outDir = true)
    (hdest : start.destination outDir = place) (hlogs : s.logger.WritesTo logs start) :
    Stable s outDir (fun name => Path.IsPlain name ∧ N name) P where
  record event w hw := by
    obtain ⟨-, hhere, htree | ⟨path, hpath, hwritable, text, htree⟩⟩ :=
      s.record_cases event w
    · exact h.congr w _ hw hhere htree
    · have hlog : logs (w.destination path) = true :=
        World.destination_congr (h.here w hw) path ▸ hlogs path hpath
      exact h.congr _ _ (h.set w path text hw hwritable (.inl hlog)) hhere htree
  ask call w hw := h.congr w _ hw rfl rfl
  write name content w w' hn hw hwrite := by
    obtain ⟨hwritable, rfl⟩ := World.write_eq_ok hwrite
    have hl := World.destination_join_of_isPlain habs
      ((World.destination_congr (h.here w hw) outDir).trans hdest) (h.directory w hw) hn.1 hwritable
    exact h.set w _ content hw hwritable (.inr ⟨name, hn.2, hl⟩)
  copy file w hn hw := by
    obtain hcopy | ⟨hwritable, hcases⟩ := w.copy_cases file (Path.join outDir (Path.basename file))
    · rwa [hcopy]
    · have hl := World.destination_join_of_isPlain habs
        ((World.destination_congr (h.here w hw) outDir).trans hdest) (h.directory w hw) hn.1 hwritable
      obtain ⟨text, hcopy⟩ | hcopy := hcases
      · rw [hcopy]
        exact h.set w _ text hw hwritable (.inr ⟨_, hn.2, hl⟩)
      · rw [hcopy, hl]
        exact h.remove w _ hw

/-- What holds of the world while the directory at a place is filled, since there
    was `start`. -/
structure Filling (place : Location) (logs : Location → Bool) (start w : World) : Prop where
  here : w.here = start.here
  kept : w.tree.only (OutputDir.outside place logs) = start.tree.only (OutputDir.outside place logs)
  directory : ∀ k, k <+: place → w.tree.get? k = some .directory

namespace Filling

variable {place l : Location} {logs : Location → Bool} {start w : World}

theorem outside_inside (h : place <+: l) : OutputDir.outside place logs l = false := by
  simp [OutputDir.outside, List.isPrefixOf_iff_prefix.2 h]

theorem fileStable (place : Location) (logs : Location → Bool) (start : World) :
    FileStable place logs (fun _ => True) start (Filling place logs start) where
  here _ h := h.here
  directory _ h := h.directory
  congr _ _ h hhere htree := ⟨hhere.trans h.here, htree ▸ h.kept, htree ▸ h.directory⟩
  set w path text h hw hdest := by
    have hout : OutputDir.outside place logs (w.destination path) = false := by
      obtain hlog | ⟨name, -, heq⟩ := hdest
      · simp [OutputDir.outside, hlog]
      · exact heq ▸ outside_inside (List.prefix_append _ _)
    exact ⟨h.here, (Tree.only_set hout _ _).trans h.kept,
      fun k hk => (hw.extends text).directory k (h.directory k hk)⟩
  remove w name h := by
    have hbelow : ∀ m, place ++ [name] <+: m → OutputDir.outside place logs m = false :=
      fun m hm => outside_inside ((List.prefix_append _ _).trans hm)
    exact ⟨h.here, (Tree.only_remove hbelow _).trans h.kept,
      fun k hk => (Tree.get?_remove_concat hk name _).trans (h.directory k hk)⟩

/-- The world in which filling starts. -/
theorem of_moveAside {logs : Location → Bool} {root path : String}
    (hl : w.locate (Path.resolve root path) = .ok place) (hne : place ≠ []) :
    Filling place logs (OutputDir.moveAside w place).1 { (OutputDir.moveAside w place).1 with
      tree := (OutputDir.moveAside w place).1.tree.set place .directory } := by
  obtain ⟨hclean, -, hwalk⟩ := World.locate_resolve hl hne
  have hleads := Tree.leads_of_walk hclean hwalk
  refine ⟨rfl, Tree.only_set (outside_inside List.prefix_rfl) _ _, fun k hk => ?_⟩
  by_cases hkne : k = place
  · rw [hkne]
    exact Tree.get?_set_self hne _ _
  · refine (Tree.get?_set_of_ne hkne _ _).trans ?_
    rw [OutputDir.get?_moveAside_around hk hkne]
    exact hleads.directory k hk hkne

end Filling

/-! ## Failures -/

namespace OutputDir

variable {α : Type} {w w' : World} {e : Failure}

/-- Filling a directory that something was moved aside for. -/
theorem run_use {path : String} {keep : Bool} {place : Location} (body : Run Failure α)
    (ht : toMove? path keep w = some place) (hne : place ≠ []) :
    (use path keep body).run.run w =
      match (moveAside w place).1.makeDirs path with
      | (.error e, v) => (.error (.system e), v)
      | (.ok (), v) =>
        match body.run.run v with
        | (.ok a, v) => (.ok a, discard (moveAside w place).2 v)
        | (.error e, v) => (.error e, restore (moveAside w place).2 v) := by
  unfold use
  rw [Run.run_get, ht]
  cases place with
  | nil => exact absurd rfl hne
  | cons name place =>
    rw [Run.run_bind, Run.run_set]
    dsimp only
    rw [Run.run_bind, Run.run_perform]
    cases (moveAside w (name :: place)).1.makeDirs path with
    | mk r v =>
      cases r with
      | error e => rfl
      | ok u =>
        simp only [Except.mapError]
        rw [Run.run_try]
        cases body.run.run v with
        | mk r v => cases r <;> rfl

/-- The root of the file system cannot be moved aside. -/
theorem run_use_root {path : String} {keep : Bool} (body : Run Failure α)
    (ht : toMove? path keep w = some []) :
    (use path keep body).run.run w = (.error (.system .busy), makeBackup [] w) := by
  unfold use
  rw [Run.run_get, ht]
  rfl

/-- Errors that come before the output directory is touched do not come after. -/
theorem use_obeys {body : Run Failure α} (hb : Run.Obeys (fun _ => True) (·.isEarly = false) body)
    (path : String) (keep : Bool) :
    Run.Obeys (fun _ => True) (·.isEarly = false) (use path keep body) := by
  refine fun w _ => ⟨trivial, fun e h => ?_⟩
  cases ht : toMove? path keep w with
  | none =>
    have hmake : Run.Obeys (fun _ => True) (·.isEarly = false)
        (Run.perform Failure.system (·.makeDirs path)) :=
      .perform (fun _ _ => trivial) fun _ _ _ => rfl
    unfold use at h
    rw [Run.run_get, ht] at h
    exact (hmake.bind fun _ => hb) w trivial |>.2 e h
  | some place =>
    by_cases hne : place = []
    · subst hne
      rw [run_use_root body ht] at h
      cases h
      rfl
    · rw [run_use body ht hne] at h
      split at h
      · cases h
        rfl
      · next v _ =>
        have hbody := (hb v trivial).2
        split at h
        · cases h
        · next hrun =>
          cases h
          exact hbody e (hrun ▸ rfl)

/-- **A failure while a directory is filled puts back what was there.** -/
theorem use_eq_error {logs : Location → Bool} {root path : String} {place : Location}
    {body : Run Failure α} (hl : w.locate (Path.resolve root path) = .ok place) (hne : place ≠ [])
    (hb : Run.Obeys (Filling place logs (moveAside w place).1) (fun _ => True) body)
    (hlogs : ∀ l, backupOf w place <+: l → logs l = false)
    (h : (use (Path.resolve root path) false body).run.run w = (.error e, w')) :
    w'.tree.only (!logs ·) = w.tree.only (!logs ·) := by
  have ht : toMove? (Path.resolve root path) false w = some place := by
    simp [toMove?, hl, Except.toOption]
  rw [run_use body ht hne, makeDirs_moveAside hl hne] at h
  -- the body may stop at any step, and what holds while it runs holds there
  have hfilled := (hb _ (.of_moveAside hl hne)).1
  split at h
  · next heq => cases heq
  · next heq =>
    cases heq
    split at h
    · cases h
    · next hrun =>
      cases h
      rw [hrun] at hfilled
      rw [restore_only hfilled.kept hlogs,
        restore_moveAside hne (World.locate_eq_ok hl).2]

end OutputDir

/-! ## Runs -/

/-- What is found at an absolute path is there after the log has been written. -/
theorem Logged.locate_eq_ok {logs : Location → Bool} {w v : World} (h : Logged logs w v)
    {path : String} (habs : Path.isAbsolute path = true) {l : Location}
    (hl : w.locate path = .ok l) : v.locate path = .ok l := by
  obtain ⟨⟨start, ns⟩, hr, hw⟩ := bind_eq_ok.1 hl
  exact bind_eq_ok.2 ⟨_, World.route_absolute habs v w ▸ hr, h.extension.walk_eq_ok hw⟩

/-- The tree is as it was, but for the log, where it is written to a file. -/
structure Untouched (s : Setup) (w w' : World) : Prop where
  exact : s.logger.file = none → w'.tree = w.tree
  log : ∀ path ∈ s.logger.file,
    w'.tree.only (· != w.destination path) = w.tree.only (· != w.destination path)

namespace Upload

/-- The path of the output directory. -/
def outDir (a : Arguments) (w : World) : String := Path.resolve w.root a.outputDir

/-- The log, where it is written to a file, is nowhere near a directory that is
    moved aside: the working directory is not inside the output directory, and the
    log is in no directory with a name like those made for moving aside. -/
def LogApart (s : Setup) (a : Arguments) (w : World) : Prop :=
  ∀ path ∈ s.logger.file, ¬ World.placeOf (outDir a w) <+: w.here ∧
    ∀ name ∈ w.destination path, ¬ ".gallery-upload-".toList <+: name.toList

/-- A failed run that puts the output directory back. -/
structure Restores (s : Setup) (a : Arguments) (w : World) : Prop where
  replaced : a.keepOutDir = false
  present : w.contains (outDir a w) = true
  /-- The root of the file system is not put back, for it cannot be moved. -/
  proper : World.placeOf (outDir a w) ≠ []
  plain : ∀ site ∈ s.registry.sites, Path.IsPlain site.outputFile
  apart : LogApart s a w

/-- No error that comes before the output directory is touched comes while it is
    filled. -/
theorem not_isEarly_of_fill {s : Setup} {a : Arguments} {usernames : Usernames}
    {flags : List String} {w w' : World} {e : Failure} {path : String}
    (h : (OutputDir.use path a.keepOutDir (fill s a usernames flags path)).run.run w =
      (.error e, w')) : e.isEarly = false := by
  have hfill := fill_obeys (a := a) (stable_true s path fun _ => True) (fun _ _ _ => trivial)
    (fun _ _ => trivial) (fun _ _ => trivial) usernames flags
  exact (OutputDir.use_obeys hfill path a.keepOutDir w trivial).2 e (h ▸ rfl)

/-- The log is not in the directory around what is moved aside. -/
theorem not_logs_backupOf {logs : Location → Bool} {w : World} {place l : Location}
    (hnames : ∀ l, logs l = true → ∀ name ∈ l, ¬ ".gallery-upload-".toList <+: name.toList)
    (hp : OutputDir.backupOf w place <+: l) : logs l = false := by
  rw [Bool.eq_false_iff]
  intro hlog
  have hm : w.tree.freshName ".gallery-upload-" ∈ l := hp.subset (by simp [OutputDir.backupOf])
  refine hnames l hlog _ hm ?_
  simp [Tree.freshName]

/-- The log is where it was while the output directory is moved aside, for the
    working directory is not moved with it. -/
theorem LogApart.writesTo_moveAside {s : Setup} {a : Arguments} {w v : World} {place : Location}
    {logs : Location → Bool} (h : LogApart s a w) (hl : s.logger.WritesTo logs w)
    (hhere : v.here = w.here) (hplace : World.placeOf (outDir a w) = place) :
    s.logger.WritesTo logs (OutputDir.moveAside v place).1 := by
  intro path hpath
  have happ : ¬ place <+: w.here := hplace ▸ (h path hpath).1
  have hmoved : (OutputDir.moveAside v place).1.here = w.here := by
    change shift place _ v.here = w.here
    rw [hhere]
    exact Tree.shift_eq_self happ
  rw [World.destination_congr hmoved]
  exact hl path hpath

/-- A failure while the output directory is filled in the place of another one. -/
theorem only_of_fill_eq_error {s : Setup} {a : Arguments} {usernames : Usernames}
    {flags : List String} {w v w' : World} {e : Failure} {logs : Location → Bool}
    {place : Location} (hne : place ≠ [])
    (hplain : ∀ site ∈ s.registry.sites, Path.IsPlain site.outputFile)
    (hapart : LogApart s a w) (hl : s.logger.WritesTo logs w) (hhere : v.here = w.here)
    (hlocate : v.locate (outDir a w) = .ok place)
    (hnames : ∀ l, logs l = true → ∀ name ∈ l, ¬ ".gallery-upload-".toList <+: name.toList)
    (h : (OutputDir.use (outDir a w) false (fill s a usernames flags (outDir a w))).run.run v =
      (.error e, w')) : w'.tree.only (!logs ·) = v.tree.only (!logs ·) := by
  have habs : Path.isAbsolute (outDir a w) = true := Path.isAbsolute_resolve _ _
  have hdest : ∀ u : World, u.destination (outDir a w) = place := by
    intro u
    rw [World.destination_absolute habs u, ← World.destination_absolute habs v]
    exact (World.locate_eq_ok hlocate).1.symm
  have hmoved : s.logger.WritesTo logs (OutputDir.moveAside v place).1 :=
    hapart.writesTo_moveAside hl hhere ((World.placeOf_eq_destination habs w).trans (hdest w))
  have hstable := (Filling.fileStable place logs (OutputDir.moveAside v place).1).stable habs
    (hdest _) hmoved
  have hfill := fill_obeys (a := a) hstable
    (fun path _ format => ⟨Path.isPlain_story path format, trivial⟩)
    (fun site hsite => ⟨hplain site hsite, trivial⟩)
    (fun file _ => ⟨Path.isPlain_basename file, trivial⟩) usernames flags
  exact OutputDir.use_eq_error hlocate hne
    (fun u hu => ⟨(hfill u hu).1, fun _ _ => trivial⟩) (fun _ => not_logs_backupOf hnames) h

theorem only_of_run_eq_error {s : Setup} {a : Arguments} {w w' : World} {e : Failure}
    {logs : Location → Bool} (h : (run s a).run.run w = (.error e, w'))
    (hl : s.logger.WritesTo logs w) (hcase : e.isEarly = true ∨ Restores s a w ∧
      ∀ l, logs l = true → ∀ name ∈ l, ¬ ".gallery-upload-".toList <+: name.toList) :
    w'.tree.only (!logs ·) = w.tree.only (!logs ·) := by
  have hnames := (loadUsernames_obeys hl a w (.refl _ _)).1
  obtain h | ⟨usernames, v, hv, h⟩ := Run.run_bind_eq_error h
  · rw [h] at hnames
    exact hnames.kept
  rw [hv] at hnames
  have hflags := (loadFlags_obeys hl a v hnames).1
  obtain h | ⟨flags, u, hu, h⟩ := Run.run_bind_eq_error h
  · rw [h] at hflags
    exact hflags.kept
  rw [hu] at hflags
  rw [Run.run_get, hflags.root] at h
  obtain hearly | ⟨hr, hreserved⟩ := hcase
  · rw [not_isEarly_of_fill h] at hearly
    exact absurd hearly (by decide)
  · rw [hr.replaced] at h
    obtain ⟨place, hplace⟩ := World.exists_locate_of_contains hr.present
    have habs : Path.isAbsolute (outDir a w) = true := Path.isAbsolute_resolve _ _
    have hlocate := hflags.locate_eq_ok habs hplace
    have hroot : place ≠ [] := by
      rw [(World.locate_eq_ok hplace).1, ← World.placeOf_eq_destination habs]
      exact hr.proper
    exact (only_of_fill_eq_error hroot hr.plain hr.apart hl hflags.here hlocate hreserved
      h).trans hflags.kept

/-- **A run that fails leaves the tree as it was**, but for the log: where it fails
    before the output directory is touched, and where it was to replace what is
    there. -/
theorem untouched_of_run_eq_error {s : Setup} {a : Arguments} {w w' : World} {e : Failure}
    (h : (run s a).run.run w = (.error e, w')) (hcase : e.isEarly = true ∨ Restores s a w) :
    Untouched s w w' := by
  constructor
  case exact =>
    intro hfile
    have hnone : s.logger.WritesTo (fun _ => false) w := by simp [Logger.WritesTo, hfile]
    have honly := only_of_run_eq_error h hnone (hcase.imp_right fun hr => ⟨hr, by simp⟩)
    simpa only [Bool.not_false, Tree.only_true] using honly
  case log =>
    intro path hpath
    have hlog : s.logger.WritesTo (· == w.destination path) w := by
      intro other hother
      rw [Option.mem_unique hother hpath]
      exact beq_self_eq_true _
    refine only_of_run_eq_error h hlog (hcase.imp_right fun hr => ⟨hr, fun l hl => ?_⟩)
    rw [beq_iff_eq.1 hl]
    exact (hr.apart path hpath).2

/-- The second file to copy is missing. -/
theorem tree_eq_of_missing_copy :
    let s : Setup := {
      converter := ⟨fun _ _ => .ok "", fun _ _ _ => .ok ""⟩, logger := {}, clock := fun _ => ⟨"", none⟩ }
    let a : Arguments := { outputDir := "out", files := ["a", "b"] }
    let w := World.ofTree "/w" ⟨[(["a"], .file "1"), (["out"], .directory), (["out", "a"], .file "2")]⟩
    ∃ e w', (run s a).run.run w = (.error e, w') ∧ w'.tree = w.tree := by
  intro s a w
  have hfails : ((run s a).run.run w).1.isOk = false := by decide +kernel
  obtain ⟨e, hrun⟩ := Run.exists_error_of_isOk hfails
  have hrestores : Restores s a w := by
    refine ⟨rfl, ?_, ?_, Path.isPlain_builtin, ?_⟩
    · decide +kernel
    · decide +kernel
    · rintro _ ⟨⟩
  exact ⟨e, _, hrun, (untouched_of_run_eq_error hrun (.inr hrestores)).exact rfl⟩

end Upload

end Crosspost
