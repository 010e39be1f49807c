/-
  What logging does to the files.

  * `Logger.log_cases` and `Setup.record_cases`: an event changes no file but that of the
    logger;
  * `Logger.WritesTo l logs w`: the file of a logger is at a location with `logs`;
  * `Logged logs w v`: from `w` to `v`, nothing has been written but to such
    locations, and `Upload.loadUsernames_obeys` and `Upload.loadFlags_obeys`: this is so
    while a run reads its configuration.
-/
import Crosspost.Proofs.Workspace.Entries
import Crosspost.Proofs.Workspace.Runs
import Crosspost.Upload.Run

namespace Crosspost

namespace World

theorem destination_congr {w v : World} (h : v.here = w.here) (path : String) :
    v.destination path = w.destination path := by
  rw [destination, destination, h]

theorem Writable.congr {v w : World} {path : String} (h : v.Writable path)
    (hhere : v.here = w.here) (htree : v.tree = w.tree) : w.Writable path := by
  have hdest := destination_congr hhere path
  exact ⟨hdest ▸ h.ne_root, hdest ▸ htree ▸ h.not_directory⟩

/-- A file in the place of no directory, in a tree that has all the rest. -/
theorem Writable.extends {w : World} {path : String} (h : w.Writable path) (text : String) :
    Tree.Extends w.tree (w.tree.set (w.destination path) (.file text)) :=
  Tree.extends_set h.ne_root h.not_directory _

end World

namespace Logger

/-- A line leaves the directory, and puts a file to where the logger writes, if
    anywhere. -/
theorem store_cases (l : Logger) (entry : String) (w : World) :
    (l.store entry w).root = w.root ∧ (l.store entry w).here = w.here ∧
      ((l.store entry w).tree = w.tree ∨ ∃ path ∈ l.file, w.Writable path ∧
        ∃ text, (l.store entry w).tree = w.tree.set (w.destination path) (.file text)) := by
  unfold store
  cases hfile : l.file with
  | none => exact ⟨rfl, rfl, .inl rfl⟩
  | some path =>
    simp only
    cases happend : w.append path (entry ++ "\n") with
    | error e => exact ⟨rfl, rfl, .inl rfl⟩
    | ok v =>
      obtain ⟨hwritable, text, rfl⟩ := World.append_eq_ok happend
      exact ⟨rfl, rfl, .inr ⟨path, rfl, hwritable, text, rfl⟩⟩

/-- An event does what its line does, if it has one. -/
theorem log_cases (l : Logger) (stamp : Stamp) (event : LogEvent) (w : World) :
    (l.log stamp event w).2.root = w.root ∧ (l.log stamp event w).2.here = w.here ∧
      ((l.log stamp event w).2.tree = w.tree ∨ ∃ path ∈ l.file, w.Writable path ∧
        ∃ text, (l.log stamp event w).2.tree = w.tree.set (w.destination path) (.file text)) := by
  unfold log
  split_ifs
  · exact ⟨rfl, rfl, .inl rfl⟩
  cases l.entry stamp event with
  | error error => exact ⟨rfl, rfl, .inl rfl⟩
  | ok entry =>
    dsimp only [receive]
    split_ifs
    · obtain ⟨hroot, hhere, htree⟩ := l.store_cases entry (print entry w)
      refine ⟨hroot, hhere, htree.imp_right ?_⟩
      rintro ⟨path, hpath, hwritable, text, hset⟩
      exact ⟨path, hpath, hwritable.congr rfl rfl, text, hset⟩
    · exact l.store_cases entry w

/-- The file of a logger, if it has one, is at a location with `logs`. -/
def WritesTo (l : Logger) (logs : Location → Bool) (w : World) : Prop :=
  ∀ path ∈ l.file, logs (w.destination path) = true

end Logger

/-- So does an event of a run. -/
theorem Setup.record_cases (s : Setup) (event : LogEvent) (w : World) :
    (s.record event w).root = w.root ∧ (s.record event w).here = w.here ∧
      ((s.record event w).tree = w.tree ∨ ∃ path ∈ s.logger.file, w.Writable path ∧
        ∃ text, (s.record event w).tree = w.tree.set (w.destination path) (.file text)) :=
  s.logger.log_cases _ event w

/-- Between two worlds, nothing has been written but the log. -/
structure Logged (logs : Location → Bool) (w v : World) : Prop where
  root : v.root = w.root
  here : v.here = w.here
  kept : v.tree.only (!logs ·) = w.tree.only (!logs ·)
  extension : Tree.Extends w.tree v.tree

namespace Logged

variable {logs : Location → Bool} {w v : World} {s : Setup}

theorem refl (logs : Location → Bool) (w : World) : Logged logs w w :=
  ⟨rfl, rfl, rfl, .refl _⟩

theorem record (h : Logged logs w v) (hl : s.logger.WritesTo logs w) (event : LogEvent) :
    Logged logs w (s.record event v) := by
  obtain ⟨hroot, hhere, htree⟩ := s.record_cases event v
  obtain htree | ⟨path, hpath, hwritable, text, htree⟩ := htree
  · exact ⟨hroot.trans h.root, hhere.trans h.here, htree ▸ h.kept, htree ▸ h.extension⟩
  · have hlogs : logs (v.destination path) = true :=
      World.destination_congr h.here path ▸ hl path hpath
    refine ⟨hroot.trans h.root, hhere.trans h.here, ?_, ?_⟩
    · rw [htree, Tree.only_set (by simp [hlogs]), h.kept]
    · exact htree ▸ h.extension.trans (hwritable.extends text)

theorem recordAll (h : Logged logs w v) (hl : s.logger.WritesTo logs w) (events : List LogEvent) :
    Logged logs w (s.recordAll events v) := by
  unfold Setup.recordAll
  induction events generalizing v with
  | nil => exact h
  | cons event events ih => exact ih (h.record hl event)

end Logged

namespace Upload

open Run

variable {s : Setup} {logs : Location → Bool} {w : World}

theorem loadUsernames_obeys (hl : s.logger.WritesTo logs w) (a : Arguments) :
    Obeys (Logged logs w) (fun _ => True) (loadUsernames s a) := by
  unfold loadUsernames
  refine .ite (.get fun v => ?_) (.pure _)
  split
  · exact .throw trivial
  · exact .bind (.modify fun v hv => hv.recordAll hl _) fun _ => .pure _

theorem loadFlags_obeys (hl : s.logger.WritesTo logs w) (a : Arguments) :
    Obeys (Logged logs w) (fun _ => True) (loadFlags s a) := by
  unfold loadFlags
  cases Flags.ofOptions a.defineOptions with
  | error e => exact .throw trivial
  | ok flags =>
    exact .ite (.bind (.modify fun v hv => hv.record hl _) fun _ => .pure _) (.pure _)

end Upload

end Crosspost
