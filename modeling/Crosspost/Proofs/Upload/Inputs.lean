/-
  Reading the inputs of a run.

  * `OutputDir.Remains place w path`: a path is not affected when what is at `place` is
    moved aside; then the same file is read afterwards (`OutputDir.Moved.read`);
  * `Upload.Reaches`: a run has got to one of its inputs, and
    `Upload.exists_error_of_reaches`: it fails there, if it cannot read it;
  * `Upload.read_of_reaches`: **inputs that have been checked are read as they were
    when the run started**, unless they are moved aside or written over.
-/
import Mathlib.Data.List.Infix
import Mathlib.Data.Prod.Basic
import Crosspost.Proofs.Upload.Steps
import Crosspost.Upload.Check

namespace Crosspost

open Location

namespace OutputDir

variable {w v : World} {place l : Location} {path text : String}

/-- The way of a path does not lead into what is at a place, or leads nowhere else. -/
inductive Remains (place : Location) (w : World) (path : String) : Prop
  | outside (start : ¬ place <+: w.start path)
      (way : ∀ l, w.Passes path l → place <+: l → l = place)
      (target : w.destination path ≠ place) : Remains place w path
  | inside (relative : Path.isAbsolute path = false)
      (way : ∀ l, w.Passes path l → place <+: l) : Remains place w path

theorem remains_iff : Remains place w path ↔
    (¬ place <+: w.start path ∧
      (∀ ns ∈ (Path.names path).inits,
        place <+: follow (w.start path) ns → follow (w.start path) ns = place) ∧
      w.destination path ≠ place) ∨
    Path.isAbsolute path = false ∧
      ∀ ns ∈ (Path.names path).inits, place <+: follow (w.start path) ns := by
  constructor
  · rintro (⟨start, way, target⟩ | ⟨relative, way⟩)
    · exact .inl ⟨start, fun ns hns => way _ ⟨ns, (List.mem_inits _ _).1 hns, rfl⟩, target⟩
    · exact .inr ⟨relative, fun ns hns => way _ ⟨ns, (List.mem_inits _ _).1 hns, rfl⟩⟩
  · rintro (⟨start, way, target⟩ | ⟨relative, way⟩)
    · refine .outside start ?_ target
      rintro _ ⟨ns, hns, rfl⟩
      exact way ns ((List.mem_inits _ _).2 hns)
    · refine .inside relative ?_
      rintro _ ⟨ns, hns, rfl⟩
      exact way ns ((List.mem_inits _ _).2 hns)

instance : Decidable (Remains place w path) := decidable_of_iff _ remains_iff.symm

theorem Made.read (h : Made place w v) (hread : w.read path = .ok text) :
    v.read path = .ok text := by
  have hfile := (World.read_eq_ok_iff.1 hread).2.2
  exact World.read_of_extends hread h.here h.extension (h.kept _ (by rw [hfile]; rfl))

/-- Moving a part of the tree goes along with the names of a way that stays in it. -/
theorem shift_enter {target : Location} (hne : place ≠ []) {name : String} (hl : place <+: l)
    (henter : place <+: enter l name) :
    shift place target (enter l name) = enter (shift place target l) name := by
  obtain ⟨k, rfl⟩ := hl
  rw [Tree.shift_append]
  unfold enter at henter ⊢
  split_ifs at henter ⊢
  · exact Tree.shift_append _ _ _
  · obtain rfl | ⟨k, last, rfl⟩ := List.eq_nil_or_concat k
    · have hle := henter.length_le
      have hpos := List.length_pos_iff.2 hne
      rw [List.append_nil, List.length_dropLast] at hle
      omega
    · rw [List.concat_eq_append, ← List.append_assoc, ← List.append_assoc, List.dropLast_concat,
        List.dropLast_concat, Tree.shift_append]
  · rw [List.append_assoc, Tree.shift_append, List.append_assoc]

/-- **A file is read after its path remains**, be it that it has been moved along. -/
theorem Moved.read (h : Moved place w v) (hne : place ≠ []) (hread : w.read path = .ok text)
    (hremains : Remains place w path) : v.read path = .ok text := by
  have hfile := (World.read_eq_ok_iff.1 hread).2.2
  have hthere : ∀ l, (w.tree.get? l).isSome = true → ¬ place <+: l →
      v.tree.get? l = w.tree.get? l :=
    fun l hl hp => h.outside l hp (not_backupOf_of_isSome hl)
  cases hremains with
  | outside hstart hway htarget =>
    -- the way comes by the place at most, where there is a directory again
    have hsame : v.start path = w.start path := by
      unfold World.start at hstart ⊢
      split_ifs at hstart ⊢
      · rfl
      · rw [h.here, Tree.shift_eq_self hstart]
    have hdest : ¬ place <+: w.destination path :=
      fun hp => htarget (hway _ (w.passes_destination path) hp)
    refine (World.read_of_passes (f := id) hread hsame (fun l hl hdir => ?_) (fun _ _ _ _ => rfl)
      ((hthere _ (by rw [hfile]; rfl) hdest).trans hfile)).1
    by_cases hp : place <+: l
    · rw [hway l hl hp]
      exact h.directory place List.prefix_rfl
    · exact (hthere l (by rw [hdir]; rfl) hp).trans hdir
  | inside hrelative hway =>
    -- the way has been moved along with the working directory, name by name
    have haside : ∀ l, place <+: l →
        v.tree.get? (shift place (backupOf w place ++ [backupName]) l) = w.tree.get? l := by
      rintro _ ⟨k, rfl⟩
      rw [Tree.shift_append]
      exact h.aside k
    have hstart : v.start path = shift place (backupOf w place ++ [backupName]) (w.start path) := by
      unfold World.start
      rw [hrelative, h.here]
      rfl
    refine (World.read_of_passes hread hstart (fun l hl hdir => ?_) (fun l name hl hnext => ?_)
      ((haside _ (hway _ (w.passes_destination path))).trans hfile)).1
    · exact (haside l (hway l hl)).trans hdir
    · exact shift_enter hne (hway l hl) (hway _ hnext)

end OutputDir

theorem World.contains_of_locate {w : World} {path : String} {l : Location}
    (h : w.locate path = .ok l) : w.contains path = true := by
  obtain ⟨e, he⟩ := Option.isSome_iff_exists.1 (locate_eq_ok h).2
  obtain ⟨way, hr, hw⟩ := bind_eq_ok.1 h
  have hfind : w.find path = .ok e := by
    refine bind_eq_ok.2 ⟨way, hr, bind_eq_ok.2 ⟨l, hw, ?_⟩⟩
    rw [he]
  rw [contains, hfind]

theorem World.exists_read_of_hasFile {w : World} {path : String} (h : w.hasFile path = true) :
    ∃ text, w.read path = .ok text := by
  unfold hasFile at h
  split at h
  · next text hfind =>
    obtain ⟨way, hr, hf⟩ := bind_eq_ok.1 hfind
    exact ⟨text, bind_eq_ok.2 ⟨way, hr, bind_eq_ok.2 ⟨_, hf, rfl⟩⟩⟩
  · cases h

/-! ## Inputs -/

/-- The documents and files that a run reads, in this order. -/
inductive Input where
  | story
  | description
  | file (n : Nat)
  deriving DecidableEq, Repr

def Input.path? (a : Arguments) : Input → Option String
  | story => a.storyPath?
  | description => a.descriptionPath?
  | file n => a.files[n]?

/-- Whether an input is read as it is, and not by the converter. -/
def Input.isDirect (path : String) : Input → Bool
  | story | description => Setup.isPlainText path
  | file _ => true

/-- The arguments with those inputs alone that are read before another one. -/
def Arguments.upTo (a : Arguments) : Input → Arguments
  | .story => { a with story := none, description := none, files := [] }
  | .description => { a with description := none, files := [] }
  | .file n => { a with files := a.files.take n }

theorem Arguments.hasFile_of_check {a : Arguments} {w : World} {i : Input} {path : String}
    (h : a.check w = []) (hpath : i.path? a = some path) : w.hasFile path = true := by
  simp only [check, List.append_eq_nil_iff, List.flatMap_eq_nil_iff] at h
  obtain ⟨⟨⟨⟨-, hstory⟩, hdescription⟩, hfiles⟩, -⟩ := h
  have hmissing : ∀ problem, missingFile w problem (some path) = [] → w.hasFile path = true := by
    intro problem hnil
    unfold missingFile at hnil
    by_contra hnot
    simp [hnot] at hnil
  cases i with
  | story =>
    have hpath : a.storyPath? = some path := hpath
    exact hmissing _ (hpath ▸ hstory)
  | description =>
    have hpath : a.descriptionPath? = some path := hpath
    exact hmissing _ (hpath ▸ hdescription)
  | file n => exact hmissing _ (hfiles path (List.mem_of_getElem? hpath))

namespace Upload

variable {s : Setup} {a : Arguments} {w u : World} {o : Opening} {i : Input} {files : List String}
  {path text : String}

/-- A run has got to an input, after it has written some files. -/
structure Reaches (s : Setup) (a : Arguments) (w : World) (o : Opening) (i : Input)
    (files : List String) (u : World) : Prop where
  opens : Opens s a w o
  filled : ∃ summary, (fill s (a.upTo i) o.usernames o.flags (outDir a w)).run.run o.world =
    (.ok summary, u) ∧ summary.files = files

/-- A directory that is filled has been filled up to each input first, and the input
    been read then. -/
theorem exists_upTo_of_fill_eq_ok {usernames : Usernames} {flags : List String} {outDir : String}
    {summary : Summary} {v t : World}
    (h : (fill s a usernames flags outDir).run.run v = (.ok summary, t))
    (hpath : i.path? a = some path) :
    ∃ earlier u, (fill s (a.upTo i) usernames flags outDir).run.run v = (.ok earlier, u) ∧
      (i.isDirect path = true → ∃ text, u.read path = .ok text) := by
  rw [fill_eq] at h
  obtain ⟨story, v₁, hs, h⟩ := Run.run_bind_eq_ok h
  obtain ⟨⟨descriptions, written⟩, v₂, hd, h⟩ := Run.run_bind_eq_ok h
  obtain ⟨copies, v₃, hc, -⟩ := Run.run_bind_eq_ok h
  rw [fill_eq]
  cases i with
  | story =>
    refine ⟨⟨[], []⟩, v, rfl, fun hdirect => ?_⟩
    obtain ⟨_, hstory, -⟩ := storyFiles_eq_ok hs
    obtain ⟨-, source, hsource, -⟩ := hstory path hpath
    rw [Input.isDirect] at hdirect
    obtain ⟨text, hread, -⟩ := hsource.plain hdirect
    exact ⟨text, hread⟩
  | description =>
    refine ⟨⟨story ++ [] ++ [], []⟩, v₁, ?_, fun hdirect => ?_⟩
    · rw [Run.run_bind_of_ok (show (storyFiles s (a.upTo .description) usernames outDir).run.run v =
        (.ok story, v₁) from hs)]
      rfl
    · obtain ⟨hdescription, -⟩ := descriptionFiles_eq_ok hd
      obtain ⟨source, -, hsource, -⟩ := hdescription path hpath
      rw [Input.isDirect] at hdirect
      obtain ⟨text, hread, -⟩ := hsource.plain hdirect
      exact ⟨text, hread⟩
  | file n =>
    have hsplit : a.files = a.files.take n ++ path :: a.files.drop (n + 1) := by
      obtain ⟨hn, rfl⟩ := List.getElem?_eq_some_iff.1 hpath
      rw [List.getElem_cons_drop, List.take_append_drop]
    unfold Setup.copyFiles at hc
    rw [hsplit] at hc
    obtain ⟨front, u, hfront, back, hback⟩ := Run.exists_of_run_mapM_append hc
    refine ⟨⟨story ++ written ++ front, descriptions⟩, u, ?_, fun _ => ?_⟩
    · rw [Run.run_bind_of_ok (show (storyFiles s (a.upTo (.file n)) usernames outDir).run.run v =
          (.ok story, v₁) from hs),
        Run.run_bind_of_ok (show (descriptionFiles s (a.upTo (.file n)) usernames flags
          outDir).run.run v₁ = (.ok (descriptions, written), v₂) from hd)]
      exact Run.run_bind_of_ok hfront
    · rw [List.mapM_cons] at hback
      obtain ⟨first, u', hfirst, -⟩ := Run.run_bind_eq_ok hback
      obtain ⟨text, hread, -⟩ := Setup.copyFile_eq_ok (s := s) hfirst
      exact ⟨text, hread⟩

theorem exists_reaches_of_run_eq_ok {summary : Summary} {w' : World}
    (h : (run s a).run.run w = (.ok summary, w')) (hpath : i.path? a = some path) :
    ∃ o files u, Reaches s a w o i files u := by
  obtain ⟨o, t, hopens, hfill, -⟩ := exists_opens_of_run_eq_ok h
  obtain ⟨earlier, u, hupTo, -⟩ := exists_upTo_of_fill_eq_ok hfill hpath
  exact ⟨o, earlier.files, u, hopens, earlier, hupTo, rfl⟩

/-- **A run fails where it cannot read an input** that it has got to. -/
theorem exists_error_of_reaches (h : Reaches s a w o i files u) (hpath : i.path? a = some path)
    (hdirect : i.isDirect path = true) (hread : ∀ text, u.read path ≠ .ok text) :
    ∃ e w', (run s a).run.run w = (.error e, w') := by
  cases hrun : (run s a).run.run w with
  | mk result w' =>
    cases result with
    | error e => exact ⟨e, w', rfl⟩
    | ok summary =>
      rw [run_of_opens h.opens] at hrun
      split at hrun
      · next hfill =>
        obtain ⟨_, u', hupTo, htext⟩ := exists_upTo_of_fill_eq_ok hfill hpath
        obtain ⟨_, hfilled, -⟩ := h.filled
        -- both are the run up to the input, so its world is the same
        rw [hupTo] at hfilled
        cases hfilled
        obtain ⟨text, ht⟩ := htext hdirect
        exact absurd ht (hread text)
      · cases hrun

/-- Files that remain are read when the output directory has been opened. -/
theorem Opens.read (h : Opens s a w o) (hread : w.read path = .ok text)
    (hlog : s.logger.writes w (w.destination path) = false)
    (hplace : a.keepOutDir = true ∨ o.before.contains (outDir a w) = false ∨
      OutputDir.Remains (World.placeOf (outDir a w)) w path) :
    o.world.read path = .ok text := by
  have hlogged := h.loads.logged
  -- nothing but the log has been written before the directory is opened
  have hsame : ∀ l, s.logger.writes w l = false → o.before.tree.get? l = w.tree.get? l :=
    fun l hl => Tree.get?_of_only_eq hlogged.kept (by simp [hl])
  have hbefore : o.before.read path = .ok text :=
    World.read_of_extends hread hlogged.here hlogged.extension (hsame _ hlog)
  obtain ⟨-, hmade⟩ | ⟨ht, hne, hmoved⟩ := h.cases
  · exact hmade.read hbefore
  · obtain ⟨hkeep, hlocate⟩ := OutputDir.toMove?_eq_some ht
    obtain hyes | hno | hremains := hplace
    · rw [hkeep] at hyes
      cases hyes
    · rw [World.contains_of_locate hlocate] at hno
      cases hno
    · refine hmoved.read hne hbefore ?_
      have hstart : o.before.start path = w.start path := by
        unfold World.start
        rw [hlogged.here]
      have hdest := World.destination_congr hlogged.here path
      have hpasses : ∀ l, o.before.Passes path l → w.Passes path l := by
        rintro l ⟨ns, hns, rfl⟩
        exact ⟨ns, hns, by rw [hstart]⟩
      cases hremains with
      | outside start way target =>
        exact .outside (hstart ▸ start) (fun l hl => way l (hpasses l hl)) (hdest ▸ target)
      | inside relative way => exact .inside relative fun l hl => way l (hpasses l hl)

/-- **Inputs that have been checked are read as they were when the run started**,
    whenever the run gets to them: unless they are moved aside with the output
    directory, or are the log, or a file has been written in their place. -/
theorem read_of_reaches (hcheck : a.check w = []) (hpath : i.path? a = some path)
    (h : Reaches s a w o i files u)
    (hplace : a.keepOutDir = true ∨ o.before.contains (outDir a w) = false ∨
      OutputDir.Remains (World.placeOf (outDir a w)) w path)
    (hlog : s.logger.writes w (w.destination path) = false)
    (hlog' : s.logger.writes u (u.destination path) = false)
    (hfiles : ∀ file ∈ files, u.destination file ≠ u.destination path) :
    ∃ text, w.read path = .ok text ∧ u.read path = .ok text := by
  obtain ⟨text, hread⟩ := World.exists_read_of_hasFile (Arguments.hasFile_of_check hcheck hpath)
  refine ⟨text, hread, ?_⟩
  obtain ⟨summary, hfill, rfl⟩ := h.filled
  obtain ⟨p, hmakes, hfilled⟩ := fill_eq_ok hfill
  have hdest := World.destination_congr hfilled.here
  refine hfilled.read (h.opens.read hread hlog hplace) ?_ fun output houtput => ?_
  · rwa [← s.logger.writes_congr hfilled.here, ← hdest]
  · rw [← hdest, ← hdest]
    refine hfiles _ ?_
    rw [hmakes.files]
    exact List.mem_map_of_mem houtput

/-- The second of two files to copy, with an output directory that is replaced. -/
theorem read_of_reaches_second :
    let s := Setup.silent
    let a : Arguments := { files := ["a", "b"] }
    let w := World.ofTree "/w"
      ⟨[(["a"], .file "1"), (["b"], .file "2"), (["out"], .directory), (["out", "c"], .file "3")]⟩
    ∃ o u, Reaches s a w o (.file 1) ["/w/out/a"] u ∧ o.before.contains (outDir a w) = true ∧
      ∃ text, w.read "b" = .ok text ∧ u.read "b" = .ok text := by
  intro s a w
  have hmade : (OutputDir.prepare (outDir a w) a.keepOutDir w).1 = .ok () := by decide +kernel
  have hready := Prod.fst_eq_iff.1 hmade
  have hfiles : ((fill s (a.upTo (.file 1)) [] [] (outDir a w)).run.run
      (OutputDir.prepare (outDir a w) a.keepOutDir w).2).1.toOption.map Summary.files =
        some ["/w/out/a"] := by decide +kernel
  have hthere : w.contains (outDir a w) = true := by decide +kernel
  obtain ⟨summary, hs, hfill⟩ := Run.exists_ok_of_map hfiles
  have hopens : Opens s a w ⟨[], [], w, _⟩ := ⟨⟨w, rfl, rfl⟩, hready⟩
  have hreaches : Reaches s a w _ (.file 1) ["/w/out/a"] _ := ⟨hopens, summary, hfill, hs⟩
  refine ⟨_, _, hreaches, hthere, ?_⟩
  exact read_of_reaches (by decide +kernel) rfl hreaches (.inr (.inr (by decide +kernel))) rfl rfl
    (by decide +kernel)

/-- The only input lies in the output directory, passes the check, and is moved aside with
    it. -/
theorem not_read_of_moved :
    let s := Setup.silent
    let a : Arguments := { files := ["out/a"] }
    let w := World.ofTree "/w" ⟨[(["out"], .directory), (["out", "a"], .file "1")]⟩
    a.check w = [] ∧ w.read "out/a" = .ok "1" ∧
      ∃ w', (run s a).run.run w = (.error (.system .noEntry), w') := by
  intro s a w
  have hrun := Failure.run_eq_of_system? (x := run s a) (w := w) (e := .noEntry) (by decide +kernel)
  exact ⟨by decide +kernel, by rfl, _, hrun⟩

end Upload

end Crosspost
