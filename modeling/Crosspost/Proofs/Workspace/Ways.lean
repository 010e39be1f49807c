/-
  Ways through two trees.

  * `Tree.walk_eq_ok_of_way`: a way leads through another tree too, where the
    directories on it are there as well, be it at other locations;
  * `World.Passes w path l`: the way of a path comes by a location; then
    `World.read_of_passes` and `World.read_of_extends` tell when a file is read in
    another world as well;
  * `World.read_write`: **what was written is read**, and `World.exists_write_of_read`: what is
    read may be written again.
-/
import Crosspost.Proofs.Workspace.Directories
import Crosspost.Proofs.Workspace.Names

namespace Crosspost

open Location

namespace Tree

variable {t u : Tree} {here l : Location} {ns : List String}

theorem isSome_of_walk (h : t.walk here ns = .ok l) : (t.get? here).isSome = true := by
  cases ns with
  | nil =>
    rw [walk] at h
    split_ifs at h with hs
    exact hs
  | cons name ns =>
    rw [walk] at h
    split at h
    · cases h
    · next hfile => rw [hfile]; rfl
    · next hdir => rw [hdir]; rfl

theorem walk_append {ms : List String} {middle : Location} (h : t.walk here ms = .ok middle) :
    t.walk here (ms ++ ns) = t.walk middle ns := by
  induction ms generalizing here with
  | nil =>
    rw [walk] at h
    split_ifs at h
    cases h
    rfl
  | cons name ms ih =>
    rw [List.cons_append, walk]
    rw [walk] at h
    split at h
    · cases h
    · cases h
    · split_ifs at h ⊢ <;> exact ih h

/-- A way has got to some place after each part of it. -/
theorem exists_of_walk_append {ms : List String} (h : t.walk here (ms ++ ns) = .ok l) :
    ∃ middle, t.walk here ms = .ok middle ∧ t.walk middle ns = .ok l := by
  induction ms generalizing here with
  | nil =>
    refine ⟨here, ?_, h⟩
    rw [walk, if_pos (isSome_of_walk h)]
  | cons name ms ih =>
    rw [List.cons_append, walk] at h
    rw [walk]
    split at h
    · cases h
    · cases h
    · split_ifs at h ⊢ <;> exact ih h

/-- A file may be put in the place of another one. -/
theorem fileLocation_of_walk {name text : String} (hn : Path.IsName name)
    (hwalk : t.walk here (ns ++ [name]) = .ok l) (hfile : t.get? l = some (.file text)) :
    t.fileLocation here (ns ++ [name]) = .ok l := by
  obtain ⟨directory, hfront, hlast⟩ := exists_of_walk_append hwalk
  rw [walk] at hlast
  split at hlast
  · cases hlast
  · cases hlast
  · next hdir =>
    simp only [hn.ne_empty, hn.ne_dot, hn.ne_dots, decide_false, Bool.or_false,
      Bool.false_eq_true, if_false] at hlast
    split_ifs at hlast with hlong
    obtain ⟨rfl, -⟩ := walk_eq_ok hlast
    have hend : follow (directory ++ [name]) [] = directory ++ [name] := rfl
    rw [hend] at hfile
    have hwritten : ((ns ++ [name]).reverse.dropWhile (· == "")).reverse = ns ++ [name] := by
      simp [hn.ne_empty]
    simp only [fileLocation]
    rw [hwritten, List.getLast?_concat, List.dropLast_concat]
    refine bind_eq_ok.2 ⟨directory, hfront, ?_⟩
    simp [hdir, hn.ne_empty, hn.ne_dot, hn.ne_dots, hlong, hfile, hend]
    rfl

/-- A way through one tree leads through another one, each location of it being
    sent to one there by `f`. -/
theorem walk_eq_ok_of_way {f : Location → Location} (h : t.walk here ns = .ok l)
    (hdir : ∀ ms, ms <+: ns → t.get? (follow here ms) = some .directory →
      u.get? (f (follow here ms)) = some .directory)
    (hstep : ∀ ms name, ms ++ [name] <+: ns →
      f (enter (follow here ms) name) = enter (f (follow here ms)) name)
    (hend : (u.get? (f l)).isSome = true) : u.walk (f here) ns = .ok (f l) := by
  induction ns generalizing here with
  | nil =>
    rw [walk] at h ⊢
    split_ifs at h with hs
    cases h
    rw [if_pos hend]
  | cons name ns ih =>
    have hfirst : f (enter here name) = enter (f here) name := hstep [] name (by simp)
    have hrest : ∀ next, next = enter here name → t.walk next ns = .ok l →
        u.walk (f next) ns = .ok (f l) := by
      rintro _ rfl hw
      exact ih hw (fun ms hms => hdir (name :: ms) (List.cons_prefix_cons.2 ⟨rfl, hms⟩))
        fun ms n hms => hstep (name :: ms) n (List.cons_prefix_cons.2 ⟨rfl, hms⟩)
    rw [walk] at h ⊢
    split at h
    · cases h
    · cases h
    · next hhere =>
      have hthere : u.get? (f here) = some .directory := hdir [] (List.nil_prefix) hhere
      rw [hthere]
      simp only
      unfold enter at hfirst hrest
      split_ifs at h hfirst hrest ⊢
      · exact hrest _ rfl h
      · exact hfirst ▸ hrest _ rfl h
      · exact hfirst ▸ hrest _ rfl h

end Tree

namespace Path

/-- The way of a written location comes by what is around it. -/
theorem follow_prefix_of_slash {l : Location} (h : l.Clean) {ns : List String}
    (hns : ns <+: names ("/" ++ "/".intercalate l)) : follow [] ns <+: l := by
  cases l with
  | nil =>
    have hempty : names ("/" ++ "/".intercalate []) = ["", ""] := by simp [names_root]
    rw [hempty] at hns
    have hall : ∀ name ∈ ns, name = "" := fun name hn => by simpa using hns.subset hn
    have hfollow : ∀ here : Location, follow here ns = here := by
      intro here
      clear hns
      induction ns generalizing here with
      | nil => rfl
      | cons name ns ih =>
        rw [follow, List.foldl_cons, ← follow, hall name List.mem_cons_self, enter]
        simpa using ih (fun n hn => hall n (List.mem_cons_of_mem _ hn)) here
    exact ⟨[], by rw [hfollow, List.append_nil]⟩
  | cons first l =>
    rw [names_slash h (by simp)] at hns
    obtain rfl | ⟨ms, rfl, hms⟩ := List.prefix_cons_iff.1 hns
    · exact List.nil_prefix
    · have hclean : Clean ms := fun name hn => h name (hms.subset hn)
      have hfollow : follow [] ("" :: ms) = ms :=
        (follow_of_clean hclean []).trans (List.nil_append _)
      rwa [hfollow]

/-- The way of a normalized path comes by what is around its end. -/
theorem follow_prefix_of_normalize {path : String} (h : isAbsolute path = true) {ns : List String}
    (hns : ns <+: names (normalize path)) : follow [] ns <+: follow [] (names path) := by
  have hclean := clean_resolveNames path
  rw [← resolveNames_eq_follow path]
  obtain heq | heq := normalize_eq_cases h
  · exact follow_prefix_of_slash hclean (heq ▸ hns)
  · rw [heq, names_append_close] at hns
    obtain rfl | hns := List.prefix_concat_iff.1 hns
    · rw [follow_append, follow_names_slash hclean]
      exact List.prefix_rfl
    · exact follow_prefix_of_slash hclean hns

theorem follow_prefix_of_join {directory : String} (h : isAbsolute directory = true)
    (name : String) {ns : List String} (hns : ns <+: names (join directory name)) :
    follow [] ns <+: follow [] (names (join directory name)) := by
  obtain ⟨path, habs, hjoin, -⟩ := join_absolute h name
  rw [hjoin] at hns ⊢
  rw [(normalize_absolute habs).2]
  exact follow_prefix_of_normalize habs hns

end Path

namespace World

variable {w v : World} {path text : String} {l : Location}

/-- Where the way of a path starts. -/
def start (w : World) (path : String) : Location := if Path.isAbsolute path then [] else w.here

/-- The way of a path comes by a location. -/
def Passes (w : World) (path : String) (l : Location) : Prop :=
  ∃ ns, ns <+: Path.names path ∧ l = follow (w.start path) ns

theorem passes_destination (w : World) (path : String) : w.Passes path (w.destination path) :=
  ⟨_, List.prefix_rfl, rfl⟩

theorem read_eq_ok_iff : w.read path = .ok text ↔
    w.route path = .ok (w.start path, Path.names path) ∧
      w.tree.walk (w.start path) (Path.names path) = .ok (w.destination path) ∧
        w.tree.get? (w.destination path) = some (.file text) := by
  constructor
  · intro h
    obtain ⟨⟨begin, ns⟩, hr, h⟩ := bind_eq_ok.1 h
    obtain ⟨hbegin, rfl⟩ := route_eq_ok hr
    obtain rfl : begin = w.start path := hbegin
    obtain ⟨e, hf, h⟩ := bind_eq_ok.1 h
    obtain ⟨l, hw, hl⟩ := bind_eq_ok.1 hf
    obtain rfl : l = w.destination path := (Tree.walk_eq_ok hw).1
    refine ⟨hr, hw, ?_⟩
    cases hg : w.tree.get? (w.destination path) with
    | none => simp [hg] at hl
    | some found =>
      rw [hg] at hl
      obtain rfl : found = e := by simpa using hl
      cases found <;> cases h
      rfl
  · rintro ⟨hr, hw, hg⟩
    refine bind_eq_ok.2 ⟨_, hr, bind_eq_ok.2 ⟨.file text, bind_eq_ok.2 ⟨_, hw, ?_⟩, rfl⟩⟩
    rw [hg]

theorem route_congr (h : w.route path = .ok (w.start path, Path.names path))
    (hhere : (v.tree.get? (v.start path)).isSome = true) :
    v.route path = .ok (v.start path, Path.names path) := by
  unfold route at h ⊢
  obtain ⟨hcheck, h⟩ := then_eq_ok.1 h
  refine then_eq_ok.2 ⟨hcheck, ?_⟩
  unfold start at hhere ⊢
  split_ifs at h hhere ⊢ with _ _ _ hnone
  · rfl
  · rw [Option.isNone_iff_eq_none] at hnone
    rw [hnone] at hhere
    cases hhere
  · rfl

/-- **A file is read in another world** where the directories on its way are there,
    each location of the way being sent to one there by `f`. -/
theorem read_of_passes {f : Location → Location} {text' : String} (h : w.read path = .ok text)
    (hstart : v.start path = f (w.start path))
    (hdir : ∀ l, w.Passes path l → w.tree.get? l = some .directory →
      v.tree.get? (f l) = some .directory)
    (hstep : ∀ l name, w.Passes path l → w.Passes path (enter l name) →
      f (enter l name) = enter (f l) name)
    (hfile : v.tree.get? (f (w.destination path)) = some (.file text')) :
    v.read path = .ok text' ∧ v.destination path = f (w.destination path) := by
  obtain ⟨hroute, hwalk, hget⟩ := read_eq_ok_iff.1 h
  have hmoved := Tree.walk_eq_ok_of_way hwalk (u := v.tree) (f := f)
    (fun ms hms => hdir _ ⟨ms, hms, rfl⟩)
    (fun ms name hms => hstep _ _ ⟨ms, (List.prefix_append _ _).trans hms, rfl⟩
      ⟨ms ++ [name], hms, by simp [follow]⟩)
    (by rw [hfile]; rfl)
  rw [← hstart] at hmoved
  have hdest : f (w.destination path) = v.destination path := (Tree.walk_eq_ok hmoved).1
  exact ⟨read_eq_ok_iff.2 ⟨route_congr hroute (Tree.isSome_of_walk hmoved), hdest ▸ hmoved,
    hdest ▸ hfile⟩, hdest.symm⟩

/-- A file is read where nothing was taken away and a file stands in its place. -/
theorem read_of_stays {text' : String} (h : w.read path = .ok text) (hhere : v.here = w.here)
    (hext : Tree.Extends w.tree v.tree)
    (hfile : v.tree.get? (w.destination path) = some (.file text')) :
    v.read path = .ok text' :=
  (read_of_passes (f := id) h (by rw [start, hhere]; rfl) (fun l _ hl => hext.directory l hl)
    (fun _ _ _ _ => rfl) hfile).1

/-- A file is read where nothing was taken away and the file is the same. -/
theorem read_of_extends (h : w.read path = .ok text) (hhere : v.here = w.here)
    (hext : Tree.Extends w.tree v.tree)
    (hsame : v.tree.get? (w.destination path) = w.tree.get? (w.destination path)) :
    v.read path = .ok text :=
  read_of_stays h hhere hext (hsame.trans (read_eq_ok_iff.1 h).2.2)

theorem read_remove (h : w.read path = .ok text) (hway : ∀ m, w.Passes path m → ¬ l <+: m) :
    (w.remove l).read path = .ok text := by
  have hsame : ∀ m, w.Passes path m → (w.remove l).tree.get? m = w.tree.get? m :=
    fun m hm => Tree.get?_remove (hway m hm) w.tree
  have hfile := (read_eq_ok_iff.1 h).2.2
  exact (read_of_passes (v := w.remove l) (f := id) h rfl (fun m hm hdir => (hsame m hm).trans hdir)
    (fun _ _ _ _ => rfl) ((hsame _ (w.passes_destination path)).trans hfile)).1

theorem read_remove_join {directory name : String} (habs : Path.isAbsolute directory = true)
    (h : w.read (Path.join directory name) = .ok text)
    (hdest : ¬ l <+: w.destination (Path.join directory name)) :
    (w.remove l).read (Path.join directory name) = .ok text := by
  -- a joined path is normalized, so its way comes by nothing but what is around its end
  refine read_remove h fun m hm hp => hdest ?_
  have hjoin := (Path.follow_names_join habs name).1
  obtain ⟨ns, hns, rfl⟩ := hm
  rw [start, if_pos hjoin] at hp
  rw [destination_absolute hjoin]
  exact hp.trans (Path.follow_prefix_of_join habs name hns)

/-- What is at a location is found by the location written out, where the names in it
    lead there. -/
theorem locate_slash_of_leads (hc : l.Clean) {way : Location × List String}
    (hroute : w.route ("/" ++ "/".intercalate l) = .ok way) (hleads : w.tree.Leads [] l)
    (hin : (w.tree.get? l).isSome = true) : w.locate ("/" ++ "/".intercalate l) = .ok l := by
  have hwalk := Tree.walk_eq_ok_of_leads hc hleads hin
  obtain ⟨begin, ns⟩ := way
  obtain ⟨hbegin, rfl⟩ := route_eq_ok hroute
  rw [if_pos (Path.isAbsolute_append _)] at hbegin
  refine bind_eq_ok.2 ⟨_, hroute, ?_⟩
  rw [hbegin]
  cases l with
  | nil => simp [Path.names_root, Tree.walk, Tree.get?]
  | cons name l =>
    rw [Path.names_slash hc (by simp)]
    change Tree.walk w.tree [] ("" :: name :: l) = _
    rw [Tree.walk]
    exact hwalk

/-! ## Writing -/

/-- A file that is read may be written again. -/
theorem exists_write_of_read {name : String} (h : w.read path = .ok text)
    (hend : Path.EndsIn path name) (hn : Path.IsName name) (content : String) :
    ∃ v, w.write path content = .ok v := by
  obtain ⟨hroute, hwalk, hfile⟩ := read_eq_ok_iff.1 h
  obtain ⟨front, hnames⟩ := hend.exists_names hn
  rw [hnames] at hroute hwalk
  have hplace := Tree.fileLocation_of_walk hn hwalk hfile
  exact ⟨_, bind_eq_ok.2 ⟨_, hroute, bind_eq_ok.2 ⟨_, bind_eq_ok.2 ⟨_, hplace, rfl⟩, rfl⟩⟩⟩

/-- **What was written is read.** -/
theorem read_write (h : w.write path text = .ok v) : v.read path = .ok text := by
  obtain ⟨hwritable, rfl⟩ := write_eq_ok h
  obtain ⟨⟨begin, ns⟩, hr, h⟩ := bind_eq_ok.1 h
  obtain ⟨hbegin, rfl⟩ := route_eq_ok hr
  obtain rfl : begin = w.start path := hbegin
  obtain ⟨tree, ht, -⟩ := bind_eq_ok.1 h
  obtain ⟨l, hl, -⟩ := bind_eq_ok.1 ht
  obtain ⟨rfl, -⟩ := fileLocation_of_route hr hl
  obtain ⟨front, name, directory, hns, hw, hdir, ⟨hn, hdot, hdots⟩, hlong, hend, -⟩ :=
    Tree.exists_of_fileLocation_eq_ok hl
  have hext : Tree.Extends w.tree (w.tree.set (w.destination path) (.file text)) :=
    Tree.extends_set hwritable.ne_root hwritable.not_directory _
  have hset : (w.tree.set (w.destination path) (.file text)).get? (w.destination path) =
      some (.file text) := Tree.get?_set_self hwritable.ne_root _ _
  -- the way to the directory is as before, and the file is found there
  have hwalk : (w.tree.set (w.destination path) (.file text)).walk (w.start path)
      (Path.names path) = .ok (w.destination path) := by
    rw [hns, Tree.walk_append (hext.walk_eq_ok hw), Tree.walk, hext.directory _ hdir]
    simp [hn, hdot, hdots, hlong, ← hend, Tree.walk, hset]
  exact read_eq_ok_iff.2 ⟨route_congr hr (Tree.isSome_of_walk hwalk), hwalk, hset⟩

theorem copy_eq_ok {source target : String} (h : w.copy source target = (.ok (), v)) :
    ∃ text, w.read source = .ok text ∧ w.write target text = .ok v := by
  unfold copy at h
  cases hp : w.copyPlan source target with
  | error e =>
    rw [hp] at h
    cases h
  | ok plan =>
    obtain ⟨e, l⟩ := plan
    rw [hp] at h
    obtain ⟨-, hp⟩ := then_eq_ok.1 hp
    obtain ⟨-, hp⟩ := then_eq_ok.1 hp
    obtain ⟨found, hfound, hp⟩ := bind_eq_ok.1 hp
    obtain ⟨⟨start, ns⟩, hr, hp⟩ := bind_eq_ok.1 hp
    obtain ⟨l, hl, hplan⟩ := bind_eq_ok.1 hp
    cases hplan
    cases e with
    | directory => cases h
    | file text =>
      cases h
      obtain ⟨⟨begin, ms⟩, hroute, hfind⟩ := bind_eq_ok.1 hfound
      refine ⟨text, bind_eq_ok.2 ⟨_, hroute, bind_eq_ok.2 ⟨_, hfind, rfl⟩⟩, ?_⟩
      exact bind_eq_ok.2 ⟨_, hr, bind_eq_ok.2 ⟨_, bind_eq_ok.2 ⟨_, hl, rfl⟩, rfl⟩⟩

end World

end Crosspost
