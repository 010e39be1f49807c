/-
  What a run makes is there in the end.

  * `OutputDir.conclude_cases`: after a success, what was moved aside is dropped, and
    no output is in it (`OutputDir.not_backupOf_follow`);
  * `Upload.Keeps` tells what becomes of the outputs of a run, and
    `Upload.keeps_of_run_eq_ok`: **each path that a run returns holds the last of what
    was made for it**.
-/
import Mathlib.Data.List.Nodup
import Crosspost.Proofs.Upload.Steps

namespace Crosspost

open Location

namespace OutputDir

variable {w : World} {place : Location} {path : String}

theorem conclude_cases (path : String) (keep : Bool) (w u : World) :
    conclude path keep w u = u ∨ ∃ place, toMove? path keep w = some place ∧
      conclude path keep w u = u.remove (backupOf w place) := by
  unfold conclude
  cases toMove? path keep w with
  | none => exact .inl rfl
  | some place => exact .inr ⟨place, rfl, rfl⟩

theorem here_conclude (path : String) (keep : Bool) (w u : World) :
    (conclude path keep w u).here = u.here := by
  obtain heq | ⟨place, -, heq⟩ := conclude_cases path keep w u
  · rw [heq]
  · rw [heq]
    rfl

/-- A name like those of the directories that are made for moving aside. -/
def IsReserved (name : String) : Prop := ".gallery-upload-".toList <+: name.toList

instance (name : String) : Decidable (IsReserved name) :=
  inferInstanceAs (Decidable (".gallery-upload-".toList <+: name.toList))

theorem isReserved_freshName (t : Tree) : IsReserved (t.freshName ".gallery-upload-") := by
  simp [IsReserved, Tree.freshName]

/-- No way leads to what is moved aside, unless by a reserved name. -/
theorem not_backupOf_follow (hin : (w.tree.get? place).isSome = true) {ns : List String}
    (hns : ∀ name ∈ ns, ¬ IsReserved name) : ¬ backupOf w place <+: follow place ns := by
  have hfresh : w.tree.freshName ".gallery-upload-" ∉ place := by
    by_cases hne : place = []
    · simp [hne]
    · obtain ⟨e, he, rfl⟩ := Tree.exists_entry_of_isSome hne hin
      exact w.tree.freshName_not_mem _ e he
  -- the fresh name is not on the way to the place, and no name of `ns` adds it
  have hmem : ∀ here : Location, w.tree.freshName ".gallery-upload-" ∉ here →
      w.tree.freshName ".gallery-upload-" ∉ follow here ns := by
    intro here hhere
    induction ns generalizing here with
    | nil => exact hhere
    | cons name ns ih =>
      refine ih (fun n hn => hns n (List.mem_cons_of_mem _ hn)) _ fun hm => ?_
      unfold enter at hm
      split_ifs at hm
      · exact hhere hm
      · exact hhere (List.dropLast_subset _ hm)
      · obtain hm | hm := List.mem_append.1 hm
        · exact hhere hm
        · rw [List.mem_singleton] at hm
          exact hns name List.mem_cons_self (hm ▸ isReserved_freshName _)
  exact fun hp => hmem place hfresh (hp.subset (by simp [backupOf]))

theorem not_backupOf_concat (hne : place ≠ []) (hin : (w.tree.get? place).isSome = true)
    (name : String) : ¬ backupOf w place <+: place ++ [name] := by
  have hlength := length_backupOf w hne
  intro hp
  obtain heq | hp := List.prefix_concat_iff.1 hp
  · rw [heq, List.length_append, List.length_singleton] at hlength
    omega
  · have heq := hp.eq_of_length hlength
    exact not_prefix_backupOf hne hin [] ⟨[], by rw [heq]⟩

end OutputDir

namespace Upload

open OutputDir (IsReserved)

variable {s : Setup} {a : Arguments} {w w' u : World} {o : Opening} {outputs : List Output}
  {summary : Summary} {path text : String}

/-- A file that a run does not move and does not write. -/
structure Stays (s : Setup) (a : Arguments) (w : World) (outputs : List Output) (path : String) :
    Prop where
  here : ¬ World.placeOf (outDir a w) <+: w.here
  unlogged : s.logger.writes w (w.destination path) = false
  unreserved : ∀ name ∈ w.destination path, ¬ IsReserved name
  unwritten : ∀ output ∈ outputs, w.destination (output.path (outDir a w)) ≠ w.destination path

/-- What is read of a file that stays was there when the run started. -/
theorem Opens.get?_of_read (h : Opens s a w o) (hfilled : Filled s (outDir a w) o.world outputs u)
    (hstays : Stays s a w outputs path) (hread : u.read path = .ok text) :
    w.tree.get? (w.destination path) = some (.file text) := by
  have hhere := h.here_eq hstays.here
  have hcongr := World.destination_congr hhere
  have hfile := (World.read_eq_ok_iff.1 hread).2.2
  rw [World.destination_congr hfilled.here, hcongr, hfilled.get?_eq] at hfile
  case hlog =>
    rw [s.logger.writes_congr hhere]
    exact hstays.unlogged
  case hout =>
    simpa only [hcongr] using hstays.unwritten
  have hbefore : o.before.tree.get? (w.destination path) = some (.file text) := by
    have hnot : ¬ w.destination path <+: World.placeOf (outDir a w) := by
      intro hp
      rw [h.directory _ hp] at hfile
      cases hfile
    obtain ⟨-, hmade⟩ | ⟨-, -, hmoved⟩ := h.cases
    · rw [← hmade.other _ hnot, hfile]
    · rw [← hmoved.outside, hfile]
      · intro hp
        rw [hmoved.inside _ hp fun heq => hnot (heq ▸ List.prefix_rfl)] at hfile
        cases hfile
      · intro hp
        have hmem : o.before.tree.freshName ".gallery-upload-" ∈ w.destination path :=
          hp.subset (by simp [OutputDir.backupOf])
        exact hstays.unreserved _ hmem (OutputDir.isReserved_freshName _)
  rw [← Tree.get?_of_only_eq h.loads.logged.kept (by simp [hstays.unlogged]), hbefore]

/-- What becomes of the outputs of a run: a path holds the last of what was made for
    it, and so all of them hold their outputs where they are distinct. -/
structure Keeps (s : Setup) (a : Arguments) (w : World) (o : Opening) (p : Parts)
    (summary : Summary) (w' : World) : Prop where
  makes : Makes s a o.usernames o.flags (outDir a w) o.world p summary
  last : ∀ earlier output later, p.outputs = earlier ++ output :: later →
    (∀ other ∈ later, other.path (outDir a w) ≠ output.path (outDir a w)) →
      w'.read (output.path (outDir a w)) = .ok output.text
  each : summary.files.Nodup → ∀ output ∈ p.outputs,
    w'.read (output.path (outDir a w)) = .ok output.text
  distinct : (∀ site ∈ s.registry.sites, Path.IsPlain site.outputFile) →
    (summary.files.Nodup ↔ (p.outputs.map Output.name).Nodup)
  copies : List.Forall₂ (fun file copy => Stays s a w p.outputs file →
    w.tree.get? (w.destination file) = some (.file copy.text)) a.files p.copies

theorem Opens.forall₂_of_copied (h : Opens s a w o) {earlier copies all : List Output}
    {files : List String} (hcopied : s.Copied (outDir a w) o.world earlier files copies)
    (hall : earlier ++ copies = all) :
    List.Forall₂ (fun file copy => Stays s a w all file →
      w.tree.get? (w.destination file) = some (.file copy.text)) files copies := by
  induction hcopied with
  | nil => exact .nil
  | @cons earlier copies files u file text hfilled hread _ ih =>
    refine .cons (fun hstays => h.get?_of_read hfilled ⟨hstays.here, hstays.unlogged,
      hstays.unreserved, fun output ho => hstays.unwritten output ?_⟩ hread) (ih ?_)
    · exact hall ▸ List.mem_append_left _ ho
    · rw [List.append_assoc, List.singleton_append, hall]

/-- Dropping what was moved aside drops no output. -/
theorem Opens.read_conclude (h : Opens s a w o) {output : Output}
    (hname : (∃ name, o.world.destination (output.path (outDir a w)) =
        World.placeOf (outDir a w) ++ [name]) ∨
      ∀ name ∈ Path.names output.name, ¬ IsReserved name)
    (hhere : u.here = o.world.here) (hread : u.read (output.path (outDir a w)) = .ok text) :
    (OutputDir.conclude (outDir a w) a.keepOutDir o.before u).read (output.path (outDir a w)) =
      .ok text := by
  have habs : Path.isAbsolute (outDir a w) = true := Path.isAbsolute_resolve _ _
  obtain heq | ⟨place, ht, heq⟩ := OutputDir.conclude_cases (outDir a w) a.keepOutDir o.before u
  · rw [heq, hread]
  · rw [heq]
    obtain ⟨hnone, -⟩ | ⟨hsome, hne, -⟩ := h.cases
    · rw [hnone] at ht
      cases ht
    · rw [hsome] at ht
      have hin := (World.locate_eq_ok (OutputDir.toMove?_eq_some hsome).2).2
      have hplace := Option.some.inj ht
      rw [← hplace]
      refine World.read_remove_join habs hread ?_
      rw [World.destination_congr hhere]
      obtain ⟨name, hname⟩ | hname := hname
      · rw [show Path.join (outDir a w) output.name = output.path (outDir a w) from rfl, hname]
        exact OutputDir.not_backupOf_concat hne hin name
      · rw [World.destination_join habs, ← World.placeOf_eq_destination habs]
        exact OutputDir.not_backupOf_follow hin hname

theorem Opens.destination_eq (h : Opens s a w o) (hfilled : Filled s (outDir a w) o.world outputs u)
    {output : Output} (ho : output ∈ outputs) (hn : Path.IsPlain output.name) :
    o.world.destination (output.path (outDir a w)) =
      World.placeOf (outDir a w) ++ [output.name] := by
  have habs : Path.isAbsolute (outDir a w) = true := Path.isAbsolute_resolve _ _
  exact hfilled.destination_eq habs (World.placeOf_eq_destination habs _).symm h.directory ho hn

theorem Makes.isPlain {p : Parts} {usernames : Usernames} {flags : List String} {outDir : String}
    (h : Makes s a usernames flags outDir u p summary)
    (hplain : ∀ site ∈ s.registry.sites, Path.IsPlain site.outputFile) :
    ∀ output ∈ p.outputs, Path.IsPlain output.name := by
  intro output ho
  obtain hn | ⟨site, hsite, hname⟩ := h.name_cases ho
  · exact hn
  · exact hname ▸ hplain site hsite

theorem Opens.nodup_paths_iff (h : Opens s a w o)
    (hfilled : Filled s (outDir a w) o.world outputs u)
    (hplain : ∀ output ∈ outputs, Path.IsPlain output.name) :
    (outputs.map (·.path (outDir a w))).Nodup ↔ (outputs.map Output.name).Nodup := by
  have hpaths : outputs.map (·.path (outDir a w)) =
      (outputs.map Output.name).map (Path.join (outDir a w)) := by
    rw [List.map_map]
    rfl
  rw [hpaths]
  refine ⟨List.Nodup.of_map _, List.Nodup.map_on ?_⟩
  intro name hname other hother heq
  obtain ⟨x, hx, rfl⟩ := List.mem_map.1 hname
  obtain ⟨y, hy, rfl⟩ := List.mem_map.1 hother
  -- equal paths lead to one location, and a plain name is the end of it
  have hdest : o.world.destination (x.path (outDir a w)) =
      o.world.destination (y.path (outDir a w)) := congrArg o.world.destination heq
  rw [h.destination_eq hfilled hx (hplain x hx), h.destination_eq hfilled hy (hplain y hy)] at hdest
  simpa using hdest

/-- An output is read in the end if no later one has its path. -/
theorem Opens.read_last (h : Opens s a w o) {p : Parts}
    (hmakes : Makes s a o.usernames o.flags (outDir a w) o.world p summary)
    (hfilled : Filled s (outDir a w) o.world p.outputs u)
    (hnames : ∀ site ∈ s.registry.sites, Path.IsPlain site.outputFile ∨
      ∀ name ∈ Path.names site.outputFile, ¬ IsReserved name)
    {earlier later : List Output} {output : Output}
    (hlog : s.logger.writes o.world (o.world.destination (output.path (outDir a w))) = false)
    (hsplit : p.outputs = earlier ++ output :: later)
    (hlater : ∀ other ∈ later, other.path (outDir a w) ≠ output.path (outDir a w)) :
    (OutputDir.conclude (outDir a w) a.keepOutDir o.before u).read (output.path (outDir a w)) =
      .ok output.text := by
  have habs : Path.isAbsolute (outDir a w) = true := Path.isAbsolute_resolve _ _
  have hmem : output ∈ p.outputs := by rw [hsplit]; simp
  refine h.read_conclude ?_ hfilled.here ?_
  · obtain hplain | ⟨site, hsite, hname⟩ := hmakes.name_cases hmem
    · exact .inl ⟨_, h.destination_eq hfilled hmem hplain⟩
    · obtain hplain | hunreserved := hnames site hsite
      · exact .inl ⟨_, h.destination_eq hfilled hmem (hname ▸ hplain)⟩
      · exact .inr (hname ▸ hunreserved)
  · refine (hsplit ▸ hfilled).read_of_split hlog fun other hother heq => hlater other hother ?_
    have hother : other ∈ p.outputs := by rw [hsplit]; simp [hother]
    rw [hfilled.path_eq habs hmem, hfilled.path_eq habs hother, heq]

/-- **Each path that a run returns holds the last of what was made for it**, unless the
    log is written there; and the paths are distinct if the names are. -/
theorem keeps_of_run_eq_ok (h : (run s a).run.run w = (.ok summary, w'))
    (hnames : ∀ site ∈ s.registry.sites, Path.IsPlain site.outputFile ∨
      ∀ name ∈ Path.names site.outputFile, ¬ IsReserved name)
    (hlog : ∀ file ∈ summary.files, s.logger.writes w' (w'.destination file) = false) :
    ∃ o p, Opens s a w o ∧ Keeps s a w o p summary w' := by
  obtain ⟨o, u, hopens, hfill, rfl⟩ := exists_opens_of_run_eq_ok h
  obtain ⟨p, hmakes, hfilled⟩ := fill_eq_ok hfill
  have hhere := (OutputDir.here_conclude (outDir a w) a.keepOutDir o.before u).trans hfilled.here
  have hunlogged : ∀ output ∈ p.outputs,
      s.logger.writes o.world (o.world.destination (output.path (outDir a w))) = false := by
    intro output ho
    rw [← s.logger.writes_congr hhere, ← World.destination_congr hhere]
    exact hlog _ (hmakes.files ▸ List.mem_map_of_mem ho)
  have hlast : ∀ earlier output later, p.outputs = earlier ++ output :: later →
      (∀ other ∈ later, other.path (outDir a w) ≠ output.path (outDir a w)) →
        (OutputDir.conclude (outDir a w) a.keepOutDir o.before u).read
          (output.path (outDir a w)) = .ok output.text := fun earlier output later hsplit =>
    hopens.read_last hmakes hfilled hnames (hunlogged output (by rw [hsplit]; simp)) hsplit
  refine ⟨o, p, hopens, hmakes, hlast, fun hnodup output ho => ?_, fun hplain => ?_,
    hopens.forall₂_of_copied hmakes.copies rfl⟩
  · obtain ⟨earlier, later, hsplit⟩ := List.append_of_mem ho
    refine hlast earlier output later hsplit fun other hother heq => ?_
    rw [hmakes.files, hsplit, List.map_append, List.map_cons] at hnodup
    have hnot := (List.nodup_cons.1 (List.nodup_append.1 hnodup).2.1).1
    exact hnot (heq ▸ List.mem_map_of_mem hother)
  · rw [hmakes.files]
    exact hopens.nodup_paths_iff hfilled (hmakes.isPlain hplain)

/-- A description for one site and a copy. -/
theorem keeps_of_run_eq_ok_copy :
    let s := Setup.silent
    let a : Arguments := { description := some "d.txt", files := ["a"] }
    let w := World.ofTree "/w" ⟨[(["config.json"], .file "\x7b\"weasyl\":\"u\"\x7d"),
      (["d.txt"], .file "[b]x[/b]"), (["a"], .file "1")]⟩
    ∃ summary w', (run s a).run.run w = (.ok summary, w') ∧
      summary.files = ["/w/out/desc_weasyl.md", "/w/out/a"] ∧
        ∃ o p, Opens s a w o ∧ Keeps s a w o p summary w' := by
  intro s a w
  have hrun : ((run s a).run.run w).1.toOption.map Summary.files =
      some ["/w/out/desc_weasyl.md", "/w/out/a"] := by decide +kernel
  obtain ⟨summary, hfiles, hrun⟩ := Run.exists_ok_of_map hrun
  refine ⟨summary, _, hrun, hfiles, ?_⟩
  exact keeps_of_run_eq_ok hrun (fun site hsite => .inl (Path.isPlain_builtin site hsite))
    fun file _ => rfl

/-- Of two copies with the same name, the first one is lost. -/
theorem not_distinct_of_copies :
    let s := Setup.silent
    let a : Arguments := { files := ["a/x", "b/x"] }
    let w := World.ofTree "/w" ⟨[(["a"], .directory), (["a", "x"], .file "1"), (["b"], .directory),
      (["b", "x"], .file "2")]⟩
    ∃ summary w', (run s a).run.run w = (.ok summary, w') ∧
      summary.files = ["/w/out/x", "/w/out/x"] ∧
        w.read "a/x" = .ok "1" ∧ w'.read "/w/out/x" = .ok "2" := by
  intro s a w
  have hrun : ((run s a).run.run w).1.toOption.map Summary.files =
      some ["/w/out/x", "/w/out/x"] := by decide +kernel
  have hread : ((run s a).run.run w).2.read "/w/out/x" = .ok "2" := by decide +kernel
  obtain ⟨summary, hfiles, hrun⟩ := Run.exists_ok_of_map hrun
  exact ⟨summary, _, hrun, hfiles, by decide +kernel, hread⟩

end Upload

end Crosspost
