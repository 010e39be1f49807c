/-
  What a run that succeeds changes.

  * `Upload.Settles` tells what is where in the end: the outputs in the output
    directory, beside what was there where that is kept, and all the rest as before;
  * `Upload.settles_of_run_eq_ok`: **a run that succeeds changes nothing else**, if it
    makes outputs with distinct plain names.
-/
import Crosspost.Proofs.Upload.Keeping

namespace Crosspost

open Location

namespace OutputDir

variable {w u : World} {place : Location} {path : String} {keep : Bool}

theorem exists_route_of_prepare {v : World} (h : prepare path keep w = (.ok (), v))
    (ht : toMove? path keep w = none) : ∃ way, w.route path = .ok way := by
  unfold prepare at h
  rw [ht] at h
  unfold World.makeDirs at h
  cases hr : w.route path with
  | error e =>
    rw [hr] at h
    cases h
  | ok way => exact ⟨way, rfl⟩

/-- Nothing stands where there is nothing to move aside. -/
theorem get?_eq_none_of_made {v : World} (hc : place.Clean)
    (hroute : ∃ way, w.route ("/" ++ "/".intercalate place) = .ok way)
    (ht : toMove? ("/" ++ "/".intercalate place) false w = none) (hmade : Made place w v)
    (haround : ∀ k, k <+: place → k ≠ place → (w.tree.get? place).isSome = true →
      w.tree.get? k = some .directory) : w.tree.get? place = none := by
  obtain ⟨way, hroute⟩ := hroute
  by_contra hnot
  have hin := Option.isSome_iff_ne_none.2 hnot
  have hleads : w.tree.Leads [] place := ⟨fun k hk hne => haround k hk hne hin, hmade.short⟩
  unfold toMove? at ht
  rw [World.locate_slash_of_leads hc hroute hleads hin] at ht
  cases ht

/-- What was moved aside is dropped, and nothing else. -/
theorem get?_remove_backupOf (h : Moved place w u) (l : Location) (v : World)
    (hsame : v.tree.get? l = u.tree.get? l) (hpl : ¬ place <+: l) :
    (v.remove (backupOf w place)).tree.get? l = w.tree.get? l := by
  by_cases hp : backupOf w place <+: l
  · rw [World.remove, Tree.get?_remove_of_prefix (by simp [backupOf]) hp]
    by_contra hnot
    exact not_backupOf_of_isSome (Option.isSome_iff_ne_none.2 (Ne.symm hnot)) hp
  · rw [World.remove, Tree.get?_remove hp, hsame, h.outside l hpl hp]

end OutputDir

namespace Upload

variable {s : Setup} {a : Arguments} {w w' u : World} {o : Opening} {p : Parts}
  {summary : Summary} {l : Location}

/-- What is where after a run, but for the log. -/
structure Settles (s : Setup) (a : Arguments) (w : World) (outputs : List Output) (w' : World) :
    Prop where
  output : ∀ output ∈ outputs,
    s.logger.writes w (World.placeOf (outDir a w) ++ [output.name]) = false →
      w'.tree.get? (World.placeOf (outDir a w) ++ [output.name]) = some (.file output.text)
  inside : ∀ l, World.placeOf (outDir a w) <+: l → l ≠ World.placeOf (outDir a w) →
    (∀ output ∈ outputs, l ≠ World.placeOf (outDir a w) ++ [output.name]) →
      s.logger.writes w l = false →
        w'.tree.get? l = if a.keepOutDir then w.tree.get? l else none
  place : w'.tree.get? (World.placeOf (outDir a w)) = some .directory
  around : ∀ l, l <+: World.placeOf (outDir a w) → l ≠ World.placeOf (outDir a w) →
    w'.tree.get? l = some .directory ∧ (w.tree.get? l = none ∨ w.tree.get? l = some .directory)
  outside : ∀ l, ¬ World.placeOf (outDir a w) <+: l → ¬ l <+: World.placeOf (outDir a w) →
    s.logger.writes w l = false → w'.tree.get? l = w.tree.get? l

theorem Opens.get?_before (h : Opens s a w o) (hl : s.logger.writes w l = false) :
    o.before.tree.get? l = w.tree.get? l :=
  Tree.get?_of_only_eq h.loads.logged.kept (by simp [hl])

/-- Nothing is in the place of the output directory, where there is nothing to move
    aside. -/
theorem Opens.get?_place_eq_none (h : Opens s a w o) (hkeep : a.keepOutDir = false)
    (ht : OutputDir.toMove? (outDir a w) a.keepOutDir o.before = none)
    (hmade : OutputDir.Made (World.placeOf (outDir a w)) o.before o.world)
    (hgrounded : w.tree.Grounded)
    (hlog : ∀ l, l <+: World.placeOf (outDir a w) → s.logger.writes w l = false) :
    w.tree.get? (World.placeOf (outDir a w)) = none := by
  have hclean : Clean (World.placeOf (outDir a w)) := Path.clean_resolveNames _
  have heq : outDir a w = "/" ++ "/".intercalate (World.placeOf (outDir a w)) :=
    Path.resolve_eq w.root a.outputDir
  have hroute := OutputDir.exists_route_of_prepare h.ready ht
  rw [hkeep] at ht
  rw [heq] at hroute ht
  rw [← h.get?_before (hlog _ List.prefix_rfl)]
  refine OutputDir.get?_eq_none_of_made hclean hroute ht hmade fun k hk hne hin => ?_
  rw [h.get?_before (hlog k hk)]
  rw [h.get?_before (hlog _ List.prefix_rfl)] at hin
  exact hgrounded.directory_of_prefix hin hk hne

section Filled

variable {outputs : List Output} (h : Opens s a w o)
  (hlog : ∀ l, l <+: World.placeOf (outDir a w) → s.logger.writes w l = false)
  (houtput : ∀ output ∈ outputs,
    s.logger.writes w (World.placeOf (outDir a w) ++ [output.name]) = false →
      u.tree.get? (World.placeOf (outDir a w) ++ [output.name]) = some (.file output.text))
  (hext : Tree.Extends o.world.tree u.tree)
  (hsame : ∀ l, s.logger.writes w l = false →
    (∀ output ∈ outputs, l ≠ World.placeOf (outDir a w) ++ [output.name]) →
      u.tree.get? l = o.world.tree.get? l)

include h hlog houtput hext hsame

/-- A directory that was filled, where it was made. -/
theorem settles_of_made
    (ht : OutputDir.toMove? (outDir a w) a.keepOutDir o.before = none)
    (hmade : OutputDir.Made (World.placeOf (outDir a w)) o.before o.world)
    (hgrounded : w.tree.Grounded) :
    Settles s a w outputs u := by
  refine ⟨houtput, fun l hpl hne hout hl => ?_, hext.directory _ (h.directory _ List.prefix_rfl),
    fun l hpl hne => ⟨hext.directory _ (h.directory _ hpl), ?_⟩, fun l hpl hlp hl => ?_⟩
  · have hnot : ¬ l <+: World.placeOf (outDir a w) := fun hp =>
      hne (hp.eq_of_length_le hpl.length_le)
    rw [hsame l hl hout, hmade.other l hnot, h.get?_before hl]
    split_ifs with hkeep
    · rfl
    -- there was nothing to replace, and so nothing below
    · have hnone := h.get?_place_eq_none (Bool.not_eq_true _ ▸ hkeep) ht hmade hgrounded hlog
      exact hgrounded.eq_none_of_prefix hnone hpl
  · rw [← h.get?_before (hlog l hpl)]
    by_cases hin : (o.before.tree.get? l).isSome = true
    · rw [← hmade.kept l hin]
      exact .inr (h.directory l hpl)
    · exact .inl (by simpa using hin)
  · have hout : ∀ output ∈ outputs, l ≠ World.placeOf (outDir a w) ++ [output.name] := by
      intro output _ heq
      exact hpl (heq ▸ List.prefix_append _ _)
    rw [hsame l hl hout, hmade.other l hlp, h.get?_before hl]

/-- A directory that was filled, where something was moved aside for it. -/
theorem settles_of_moved (hkeep : a.keepOutDir = false)
    (hlocate : o.before.locate (outDir a w) = .ok (World.placeOf (outDir a w)))
    (hne : World.placeOf (outDir a w) ≠ [])
    (hmoved : OutputDir.Moved (World.placeOf (outDir a w)) o.before o.world) :
    Settles s a w outputs
      (u.remove (OutputDir.backupOf o.before (World.placeOf (outDir a w)))) := by
  have hin := (World.locate_eq_ok hlocate).2
  obtain ⟨hclean, -, hwalk⟩ := World.locate_resolve hlocate hne
  have hleads := Tree.leads_of_walk hclean hwalk
  have hplace : ¬ OutputDir.backupOf o.before (World.placeOf (outDir a w)) <+:
      World.placeOf (outDir a w) := fun hp =>
    OutputDir.not_backupOf_concat hne hin "" (hp.trans (List.prefix_append _ _))
  have hkept : ∀ l, ¬ OutputDir.backupOf o.before (World.placeOf (outDir a w)) <+: l →
      (u.remove (OutputDir.backupOf o.before (World.placeOf (outDir a w)))).tree.get? l =
        u.tree.get? l := fun l hl => Tree.get?_remove hl u.tree
  refine ⟨fun output ho hl => ?_, fun l hpl hlne hout hl => ?_, ?_, fun l hpl hlne => ⟨?_, ?_⟩,
    fun l hpl hlp hl => ?_⟩
  · rw [hkept _ (OutputDir.not_backupOf_concat hne hin output.name)]
    exact houtput output ho hl
  · rw [hkeep, if_neg Bool.false_ne_true, hkept l fun hp => hplace ?_, hsame l hl hout,
      hmoved.inside l hpl hlne]
    exact List.prefix_of_prefix_length_le hp hpl
      (Nat.le_of_eq (OutputDir.length_backupOf o.before hne))
  · rw [hkept _ hplace]
    exact hext.directory _ (h.directory _ List.prefix_rfl)
  · rw [hkept l (OutputDir.not_around_backupOf hpl hlne)]
    exact hext.directory _ (h.directory _ hpl)
  · rw [← h.get?_before (hlog l hpl)]
    exact .inr (hleads.directory l hpl hlne)
  · have hout : ∀ output ∈ outputs, l ≠ World.placeOf (outDir a w) ++ [output.name] := by
      intro output _ heq
      exact hpl (heq ▸ List.prefix_append _ _)
    rw [OutputDir.get?_remove_backupOf hmoved l u (hsame l hl hout) hpl, h.get?_before hl]

end Filled

/-- A directory that was filled with outputs that have distinct paths and plain names. -/
theorem Opens.settles {outputs : List Output} (h : Opens s a w o)
    (hfilled : Filled s (outDir a w) o.world outputs u) (hgrounded : w.tree.Grounded)
    (hplain : ∀ output ∈ outputs, Path.IsPlain output.name)
    (hnodup : (outputs.map (·.path (outDir a w))).Nodup)
    (hhere : ¬ World.placeOf (outDir a w) <+: w.here)
    (hlog : ∀ l, l <+: World.placeOf (outDir a w) → s.logger.writes w l = false) :
    Settles s a w outputs (OutputDir.conclude (outDir a w) a.keepOutDir o.before u) := by
  have hworld := h.here_eq hhere
  have hdest : ∀ output ∈ outputs, o.world.destination (output.path (outDir a w)) =
      World.placeOf (outDir a w) ++ [output.name] := fun output ho =>
    h.destination_eq hfilled ho (hplain output ho)
  have hdistinct := hfilled.nodup_destinations (Path.isAbsolute_resolve _ _) hnodup
  have houtput : ∀ output ∈ outputs,
      s.logger.writes w (World.placeOf (outDir a w) ++ [output.name]) = false →
        u.tree.get? (World.placeOf (outDir a w) ++ [output.name]) = some (.file output.text) := by
    intro output ho hl
    rw [← s.logger.writes_congr hworld, ← hdest output ho] at hl
    rw [← hdest output ho]
    exact hfilled.get?_of_nodup hdistinct ho hl
  have hsame : ∀ l, s.logger.writes w l = false →
      (∀ output ∈ outputs, l ≠ World.placeOf (outDir a w) ++ [output.name]) →
        u.tree.get? l = o.world.tree.get? l := by
    intro l hl hout
    refine hfilled.get?_eq (by rwa [s.logger.writes_congr hworld]) fun output ho heq => ?_
    exact hout output ho (heq ▸ hdest output ho)
  obtain ⟨ht, hmade⟩ | ⟨ht, hne, hmoved⟩ := h.cases
  · rw [OutputDir.conclude, ht]
    exact settles_of_made h hlog houtput hfilled.extension hsame ht hmade hgrounded
  · obtain ⟨hkeep, hlocate⟩ := OutputDir.toMove?_eq_some ht
    rw [OutputDir.conclude, ht]
    exact settles_of_moved h hlog houtput hfilled.extension hsame hkeep hlocate hne hmoved

theorem Makes.map_descriptions {usernames : Usernames} {flags : List String} {outDir : String}
    {p : Parts} (h : Makes s a usernames flags outDir u p summary)
    (hsome : a.descriptionPath?.isSome = true) :
    summary.descriptions.map (fun d => (d.site, d.fileName)) =
      (Generated.targets s.registry usernames).map fun site => (site.id, site.outputFile) := by
  obtain ⟨path, hpath⟩ := Option.isSome_iff_exists.1 hsome
  obtain ⟨_, source, generated, -, -, hg, heq⟩ := h.description path hpath
  rw [heq, Generated.map_of_ofSource hg]

/-- **A run that succeeds changes nothing but its output directory**: there its outputs
    are, directly and in the order in which they are asked for, if they have distinct
    plain names. -/
theorem settles_of_run_eq_ok (h : (run s a).run.run w = (.ok summary, w'))
    (hgrounded : w.tree.Grounded)
    (hplain : ∀ site ∈ s.registry.sites, Path.IsPlain site.outputFile)
    (hnodup : summary.files.Nodup) (hhere : ¬ World.placeOf (outDir a w) <+: w.here)
    (hlog : ∀ l, l <+: World.placeOf (outDir a w) → s.logger.writes w l = false) :
    ∃ o p, Opens s a w o ∧ Makes s a o.usernames o.flags (outDir a w) o.world p summary ∧
      (a.descriptionPath?.isSome = true →
        summary.descriptions.map (fun d => (d.site, d.fileName)) =
          (Generated.targets s.registry o.usernames).map fun site => (site.id, site.outputFile)) ∧
      p.copies.map Output.name = a.files.map Path.basename ∧
      (∀ output ∈ p.outputs, w.destination (output.path (outDir a w)) =
        World.placeOf (outDir a w) ++ [output.name]) ∧
      Settles s a w p.outputs w' := by
  obtain ⟨o, u, hopens, hfill, rfl⟩ := exists_opens_of_run_eq_ok h
  obtain ⟨p, hmakes, hfilled⟩ := fill_eq_ok hfill
  have hn := hmakes.isPlain hplain
  refine ⟨o, p, hopens, hmakes, hmakes.map_descriptions, map_name_of_copied hmakes.copies,
    fun output ho => ?_, hopens.settles hfilled hgrounded hn (hmakes.files ▸ hnodup) hhere hlog⟩
  rw [← World.destination_congr (hopens.here_eq hhere)]
  exact hopens.destination_eq hfilled ho (hn output ho)

/-- An output directory that is replaced, with a description and a copy. -/
theorem settles_of_run_eq_ok_copy :
    let s := Setup.silent
    let a : Arguments := { description := some "d.txt", files := ["a"] }
    let w := World.ofTree "/w" ⟨[(["config.json"], .file "\x7b\"weasyl\":\"u\"\x7d"),
      (["d.txt"], .file "x"), (["a"], .file "1"), (["out"], .directory), (["out", "b"], .file "2")]⟩
    ∃ summary w' p, (run s a).run.run w = (.ok summary, w') ∧
      summary.files = ["/w/out/desc_weasyl.md", "/w/out/a"] ∧ Settles s a w p w' := by
  intro s a w
  have hrun : ((run s a).run.run w).1.toOption.map Summary.files =
      some ["/w/out/desc_weasyl.md", "/w/out/a"] := by decide +kernel
  obtain ⟨summary, hfiles, hrun⟩ := Run.exists_ok_of_map hrun
  obtain ⟨o, p, -, -, -, -, -, hsettles⟩ := settles_of_run_eq_ok hrun (by decide +kernel)
    Path.isPlain_builtin (by rw [hfiles]; decide) (by decide +kernel) fun _ _ => rfl
  exact ⟨summary, _, p.outputs, hrun, hfiles, hsettles⟩

/-- A site with the name of a member gets a description although it is not configured. -/
theorem not_one_description_per_name :
    let R : Registry := ⟨[.aryion, { Site.twitter with id := "toString", aliases := [] }],
      by decide +kernel⟩
    let s : Setup := { Setup.silent with registry := R }
    let a : Arguments := { description := some "d.txt" }
    let w := World.ofTree "/w" ⟨[(["config.json"], .file "\x7b\"aryion\":\"u\"\x7d"),
      (["d.txt"], .file "x")]⟩
    (∃ v, (loadUsernames s a).run.run w = (.ok [("aryion", "u")], v)) ∧
      ∃ summary w', (run s a).run.run w = (.ok summary, w') ∧
        summary.files = ["/w/out/desc_aryion.txt", "/w/out/desc_twitter.txt"] := by
  intro R s a w
  have hnames : ((loadUsernames s a).run.run w).1.toOption.map id =
      some ([("aryion", "u")] : Usernames) := by decide +kernel
  have hrun : ((run s a).run.run w).1.toOption.map Summary.files =
      some ["/w/out/desc_aryion.txt", "/w/out/desc_twitter.txt"] := by decide +kernel
  obtain ⟨usernames, rfl, hnames⟩ := Run.exists_ok_of_map hnames
  obtain ⟨summary, hfiles, hrun⟩ := Run.exists_ok_of_map hrun
  exact ⟨⟨_, hnames⟩, summary, _, hrun, hfiles⟩

end Upload

end Crosspost
