/-
  Where paths lead.

  * `Location.follow here names`: the end of a way as its names alone tell it, and
    `World.destination` that of a path;
  * `Tree.walk_eq_ok`, `Tree.fileLocation_eq_ok`: a way through a tree ends there;
  * `Path.follow_names_join`: a name joined to an absolute path leads on from where
    the path leads.
-/
import Crosspost.Proofs.Results
import Crosspost.Proofs.Text.Splitting
import Crosspost.Workspace.World

namespace Crosspost

/-! ## Names -/

namespace Path

/-- A name without a slash. -/
def IsPlain (name : String) : Prop := '/' ∉ name.toList

theorem names_append_slash (a b : String) : names (a ++ "/" ++ b) = names a ++ names b := by
  have hsplit := Chars.split_append_cons (p := (· == '/')) (c := '/') rfl a.toList b.toList
  simp [names, Text.splitOn, Chars.splitOn, hsplit]

theorem names_of_isPlain {name : String} (h : IsPlain name) : names name = [name] := by
  have hne : ∀ c ∈ name.toList, (c == '/') = false := by
    intro c hc
    rw [beq_eq_false_iff_ne]
    rintro rfl
    exact h hc
  simp [names, Text.splitOn, Chars.splitOn, Chars.split_of_forall_not hne]

theorem names_empty : names "" = [""] := names_of_isPlain (by simp [IsPlain])

theorem isPlain_of_mem_names {name path : String} (h : name ∈ names path) : IsPlain name := by
  obtain ⟨piece, hp, rfl⟩ := List.mem_map.1 h
  intro hs
  rw [String.toList_ofList] at hs
  exact absurd (Chars.forall_not_of_mem_split hp '/' hs) (by simp)

end Path

/-! ## Ways -/

namespace Location

/-- The location after one more name of a way. -/
def enter (here : Location) (name : String) : Location :=
  if name = "" || name = "." then here
  else if name = ".." then here.dropLast
  else here ++ [name]

/-- The location at the end of a way. -/
def follow (here : Location) (names : List String) : Location := names.foldl enter here

/-- Names that lead into directories, as they stand in locations. -/
def Clean (l : Location) : Prop := ∀ name ∈ l, name ≠ "" ∧ name ≠ "." ∧ name ≠ ".." ∧ Path.IsPlain name

theorem follow_append (here : Location) (ns ms : List String) :
    follow here (ns ++ ms) = follow (follow here ns) ms := List.foldl_append

theorem enter_eq_of_clean {name : String} (h : name ≠ "" ∧ name ≠ "." ∧ name ≠ ".." ∧ Path.IsPlain name)
    (here : Location) : enter here name = here ++ [name] := by
  simp [enter, h.1, h.2.1, h.2.2.1]

theorem follow_of_clean {l : Location} (h : l.Clean) (here : Location) : follow here l = here ++ l := by
  induction l generalizing here with
  | nil => simp [follow]
  | cons name l ih =>
    have hl : Clean l := fun n hn => h n (List.mem_cons_of_mem _ hn)
    rw [follow, List.foldl_cons, enter_eq_of_clean (h name List.mem_cons_self), ← follow, ih hl]
    simp

theorem clean_enter {here : Location} (h : here.Clean) {name : String} (hn : Path.IsPlain name) :
    (enter here name).Clean := by
  unfold enter
  split_ifs with h1 h2
  · exact h
  · exact fun n hm => h n (List.dropLast_subset _ hm)
  · rw [Bool.or_eq_true, not_or, decide_eq_true_eq, decide_eq_true_eq] at h1
    intro n hm
    obtain hm | hm := List.mem_append.1 hm
    · exact h n hm
    · obtain rfl := List.mem_singleton.1 hm
      exact ⟨h1.1, h1.2, h2, hn⟩

theorem clean_follow {here : Location} (h : here.Clean) {ns : List String}
    (hn : ∀ name ∈ ns, Path.IsPlain name) : (follow here ns).Clean := by
  induction ns generalizing here with
  | nil => exact h
  | cons name ns ih =>
    exact ih (clean_enter h (hn name List.mem_cons_self)) fun m hm => hn m (List.mem_cons_of_mem _ hm)

end Location

open Location

namespace Path

/-- Two folds agree whose steps agree where an invariant holds. -/
theorem foldl_eq_of_invariant {α β : Type} {f g : β → α → β} {P : β → Prop} {as : List α}
    (h : ∀ b, P b → ∀ a ∈ as, f b a = g b a ∧ P (g b a)) {b : β} (hb : P b) :
    as.foldl f b = as.foldl g b := by
  induction as generalizing b with
  | nil => rfl
  | cons a as ih =>
    obtain ⟨he, hg⟩ := h b hb a List.mem_cons_self
    rw [List.foldl_cons, List.foldl_cons, he]
    exact ih (fun b hb c hc => h b hb c (List.mem_cons_of_mem _ hc)) hg

/-- Resolving the names of an absolute path is following them from the root. -/
theorem resolveNames_eq_follow (path : String) : resolveNames true path = follow [] (names path) := by
  refine foldl_eq_of_invariant (P := Clean) (fun done hdone name hname => ⟨?_, ?_⟩) (by simp [Clean])
  · rw [enter, if_pos rfl]
    split_ifs with h1 h2
    · rfl
    · obtain rfl | ⟨front, last, rfl⟩ := List.eq_nil_or_concat done
      · rfl
      · -- a clean location does not end with `..`
        have hlast : last ≠ ".." := (hdone last (by simp)).2.2.1
        simp [hlast]
    · rfl
  · exact clean_enter hdone (isPlain_of_mem_names hname)

theorem clean_resolveNames (path : String) : Clean (resolveNames true path) := by
  rw [resolveNames_eq_follow]
  exact clean_follow (by simp [Clean]) fun name h => isPlain_of_mem_names h

theorem names_slash_append (text : String) : names ("/" ++ text) = "" :: names text := by
  simpa [names_empty] using names_append_slash "" text

theorem names_root : names "/" = ["", ""] := by
  simpa [names_empty] using names_slash_append ""

/-- The names of a location written as a path. -/
theorem names_slash {l : Location} (h : l.Clean) (hne : l ≠ []) :
    names ("/" ++ "/".intercalate l) = "" :: l := by
  rw [names_slash_append]
  congr 1
  induction l with
  | nil => exact absurd rfl hne
  | cons name l ih =>
    have hplain := names_of_isPlain (h name List.mem_cons_self).2.2.2
    cases l with
    | nil => simpa using hplain
    | cons next l =>
      rw [String.intercalate_cons_cons, names_append_slash, hplain,
        ih (fun m hm => h m (List.mem_cons_of_mem _ hm)) (by simp)]
      rfl

theorem follow_names_slash {l : Location} (h : l.Clean) :
    follow [] (names ("/" ++ "/".intercalate l)) = l := by
  cases l with
  | nil => simp [follow, names, Text.splitOn, Chars.splitOn, Chars.split, enter]
  | cons name l =>
    rw [names_slash h (by simp)]
    exact (follow_of_clean h []).trans (List.nil_append _)

theorem isAbsolute_append (text : String) : isAbsolute ("/" ++ text) = true := by
  simp [isAbsolute]

theorem isAbsolute_resolve (root path : String) : isAbsolute (resolve root path) = true :=
  isAbsolute_append _

/-- A resolved path is the location that it leads to, written out. -/
theorem resolve_eq (root path : String) :
    resolve root path = "/" ++ "/".intercalate (resolveNames true (resolve root path)) := by
  conv_rhs => rw [resolve, resolveNames_eq_follow, follow_names_slash (clean_resolveNames _)]
  rfl

theorem names_append_close (text : String) : names ("/" ++ (text ++ "/")) = names ("/" ++ text) ++ [""] := by
  have happend := names_append_slash ("/" ++ text) ""
  rwa [String.append_empty, String.append_assoc, names_empty] at happend

/-- A normalized path is the location that it leads to, written out; it may be closed
    by a slash. -/
theorem normalize_eq_cases {path : String} (h : isAbsolute path = true) :
    normalize path = "/" ++ "/".intercalate (resolveNames true path) ∨
      normalize path = "/" ++ ("/".intercalate (resolveNames true path) ++ "/") := by
  unfold normalize
  simp only [h, Bool.not_true, Bool.and_false, if_true, Bool.false_eq_true, if_false]
  split_ifs
  · exact .inr rfl
  · exact .inl rfl

/-- An absolute path is normalized to one that leads to the same place. -/
theorem normalize_absolute {path : String} (h : isAbsolute path = true) :
    isAbsolute (normalize path) = true ∧ follow [] (names (normalize path)) = follow [] (names path) := by
  have hclean := clean_resolveNames path
  rw [← resolveNames_eq_follow path]
  obtain heq | heq := normalize_eq_cases h
  · exact heq ▸ ⟨isAbsolute_append _, follow_names_slash hclean⟩
  · refine heq ▸ ⟨isAbsolute_append _, ?_⟩
    rw [names_append_close, follow_append, follow_names_slash hclean]
    rfl

/-- A path joined to an absolute one is an absolute one, normalized. -/
theorem join_absolute {directory : String} (h : isAbsolute directory = true) (name : String) :
    ∃ path, isAbsolute path = true ∧ join directory name = normalize path ∧
      follow [] (names path) = follow (follow [] (names directory)) (names name) := by
  have hne : directory ≠ "" := by
    rintro rfl
    simp [isAbsolute] at h
  unfold join
  simp only [hne, decide_false, Bool.false_and, Bool.false_eq_true, if_false]
  split_ifs with hname
  · subst hname
    refine ⟨directory, h, rfl, ?_⟩
    rw [names_empty]
    rfl
  · have habs : isAbsolute (directory ++ "/" ++ name) = true := by
      unfold isAbsolute at h ⊢
      rw [String.append_assoc, String.toList_append]
      cases hd : directory.toList with
      | nil => simp [hd] at h
      | cons c cs => simpa [hd] using h
    exact ⟨_, habs, rfl, by rw [names_append_slash, follow_append]⟩

/-- A path joined to an absolute one leads on from where that leads. -/
theorem follow_names_join {directory : String} (h : isAbsolute directory = true) (name : String) :
    isAbsolute (join directory name) = true ∧
      follow [] (names (join directory name)) = follow (follow [] (names directory)) (names name) := by
  obtain ⟨path, habs, hjoin, hfollow⟩ := join_absolute h name
  obtain ⟨ha, hf⟩ := normalize_absolute habs
  rw [hjoin]
  exact ⟨ha, hf.trans hfollow⟩

end Path

/-! ## Ways through a tree -/

namespace Tree

variable {t : Tree}

theorem walk_eq_ok {here l : Location} {ns : List String} (h : t.walk here ns = .ok l) :
    l = follow here ns ∧ (t.get? l).isSome = true := by
  induction ns generalizing here with
  | nil =>
    rw [walk] at h
    split_ifs at h with hs
    cases h
    exact ⟨rfl, hs⟩
  | cons name ns ih =>
    rw [walk] at h
    rw [follow, List.foldl_cons, ← follow, enter]
    split at h
    · cases h
    · cases h
    · split_ifs at h ⊢
      · exact ih h
      · exact ih h
      · exact ih h

/-- A file is put into a directory that is there, under the last name of its way. -/
theorem exists_of_fileLocation_eq_ok {here l : Location} {ns : List String}
    (h : t.fileLocation here ns = .ok l) :
    ∃ front name directory, ns = front ++ [name] ∧ t.walk here front = .ok directory ∧
      t.get? directory = some .directory ∧ (name ≠ "" ∧ name ≠ "." ∧ name ≠ "..") ∧
        Path.isNameTooLong name = false ∧ l = directory ++ [name] ∧
          t.get? l ≠ some .directory := by
  simp only [fileLocation] at h
  split at h
  · cases h
  · next name hname =>
    obtain ⟨directory, hw, h⟩ := bind_eq_ok.1 h
    split_ifs at h with hd hn hlong hdir
    cases h
    simp only [Bool.or_eq_true, decide_eq_true_eq, not_or] at hn
    obtain ⟨⟨hdot, hdots⟩, hslash⟩ := hn
    obtain rfl | ⟨front, last, rfl⟩ := List.eq_nil_or_concat ns
    · simp at hname
    · have hlast : last ≠ "" := by simpa using hslash
      have hwritten : ((front.concat last).reverse.dropWhile (· == "")).reverse = front ++ [last] := by
        simp [hlast]
      rw [hwritten, List.getLast?_concat, Option.some.injEq] at hname
      rw [hwritten, List.dropLast_concat] at hw
      subst hname
      exact ⟨front, last, directory, List.concat_eq_append, hw, by simpa using hd,
        ⟨hlast, hdot, hdots⟩, by simpa using hlong, rfl, hdir⟩

/-- A file is put where its way ends, and not in the place of a directory. -/
theorem fileLocation_eq_ok {here l : Location} {ns : List String}
    (h : t.fileLocation here ns = .ok l) :
    l = follow here ns ∧ l ≠ [] ∧ t.get? l ≠ some .directory := by
  obtain ⟨front, name, directory, rfl, hw, -, ⟨hn, hdot, hdots⟩, -, rfl, hdir⟩ :=
    exists_of_fileLocation_eq_ok h
  obtain ⟨rfl, -⟩ := walk_eq_ok hw
  refine ⟨?_, by simp, hdir⟩
  rw [follow_append]
  simp [follow, enter, hn, hdot, hdots]

end Tree

/-! ## Paths in a world -/

namespace World

variable {w w' : World} {path : String}

/-- Where a path leads. -/
def destination (w : World) (path : String) : Location :=
  follow (if Path.isAbsolute path then [] else w.here) (Path.names path)

theorem destination_absolute (h : Path.isAbsolute path = true) (w : World) :
    w.destination path = follow [] (Path.names path) := by
  rw [destination, if_pos h]

/-- A name joined to an absolute path leads on from where that leads. -/
theorem destination_join {directory : String} (h : Path.isAbsolute directory = true) (w : World)
    (name : String) :
    w.destination (Path.join directory name) =
      follow (w.destination directory) (Path.names name) := by
  obtain ⟨ha, hf⟩ := Path.follow_names_join h name
  rw [destination_absolute ha, destination_absolute h, hf]

theorem route_eq_ok {start : Location} {ns : List String} (h : w.route path = .ok (start, ns)) :
    start = (if Path.isAbsolute path then [] else w.here) ∧ ns = Path.names path := by
  unfold route at h
  obtain ⟨-, h⟩ := then_eq_ok.1 h
  split_ifs at h ⊢ <;> cases h <;> exact ⟨rfl, rfl⟩

theorem follow_of_route {start : Location} {ns : List String}
    (h : w.route path = .ok (start, ns)) : follow start ns = w.destination path := by
  obtain ⟨rfl, rfl⟩ := route_eq_ok h
  rfl

/-- An absolute path is the same in every world. -/
theorem route_absolute (h : Path.isAbsolute path = true) (w v : World) :
    w.route path = v.route path := by
  simp only [route, h, if_true]

theorem locate_eq_ok {l : Location} (h : w.locate path = .ok l) :
    l = w.destination path ∧ (w.tree.get? l).isSome = true := by
  obtain ⟨⟨start, ns⟩, hr, hw⟩ := bind_eq_ok.1 h
  obtain ⟨rfl, hs⟩ := Tree.walk_eq_ok hw
  exact ⟨follow_of_route hr, hs⟩

theorem exists_locate_of_contains (h : w.contains path = true) : ∃ l, w.locate path = .ok l := by
  unfold contains at h
  cases hf : w.find path with
  | error e => simp [hf] at h
  | ok e =>
    obtain ⟨⟨start, ns⟩, hr, hf⟩ := bind_eq_ok.1 hf
    obtain ⟨l, hw, -⟩ := bind_eq_ok.1 hf
    exact ⟨l, bind_eq_ok.2 ⟨_, hr, hw⟩⟩

theorem placeOf_eq_destination (h : Path.isAbsolute path = true) (w : World) :
    placeOf path = w.destination path := by
  rw [placeOf, Path.resolveNames_eq_follow, destination_absolute h]

/-- What is at a resolved path is found by the names in it. -/
theorem locate_resolve {root : String} {l : Location}
    (h : w.locate (Path.resolve root path) = .ok l) (hne : l ≠ []) :
    l.Clean ∧ w.route (Path.resolve root path) = .ok ([], "" :: l) ∧ w.tree.walk [] l = .ok l := by
  have hdest := (locate_eq_ok h).1
  rw [destination_absolute (Path.isAbsolute_resolve root path)] at hdest
  obtain ⟨⟨start, ns⟩, hr, hw⟩ := bind_eq_ok.1 h
  obtain ⟨hstart, hns⟩ := route_eq_ok hr
  rw [if_pos (Path.isAbsolute_resolve root path)] at hstart
  have hclean := Path.clean_resolveNames (if Path.isAbsolute path then path else root ++ "/" ++ path)
  rw [Path.resolve, Path.follow_names_slash hclean] at hdest
  rw [← hdest] at hclean
  have hnames : Path.names (Path.resolve root path) = "" :: l := by
    rw [Path.resolve, ← hdest, Path.names_slash hclean hne]
  rw [hns, hnames, hstart] at hr hw
  exact ⟨hclean, hr, hw⟩

/-- A file may be put where a path leads. -/
structure Writable (w : World) (path : String) : Prop where
  ne_root : w.destination path ≠ []
  not_directory : w.tree.get? (w.destination path) ≠ some .directory

/-- A file with a plain name is put below a directory. -/
theorem destination_join_of_isPlain {directory name : String} {place : Location}
    (habs : Path.isAbsolute directory = true) (hdest : w.destination directory = place)
    (hdir : ∀ k, k <+: place → w.tree.get? k = some .directory) (hn : Path.IsPlain name)
    (hw : w.Writable (Path.join directory name)) :
    w.destination (Path.join directory name) = place ++ [name] := by
  have hjoin := destination_join habs w name
  have hnot := hw.not_directory
  rw [hdest, Path.names_of_isPlain hn] at hjoin
  change _ = enter place name at hjoin
  rw [hjoin] at hnot ⊢
  unfold enter at hnot ⊢
  -- `.` and `..` lead to directories, where no file may be put
  split_ifs at hnot ⊢
  · exact absurd (hdir place List.prefix_rfl) hnot
  · exact absurd (hdir _ (List.dropLast_prefix place)) hnot
  · rfl

theorem fileLocation_of_route {start l : Location} {ns : List String}
    (hr : w.route path = .ok (start, ns)) (hl : w.tree.fileLocation start ns = .ok l) :
    l = w.destination path ∧ w.Writable path := by
  obtain ⟨rfl, hne, hd⟩ := Tree.fileLocation_eq_ok hl
  have hdest := follow_of_route hr
  exact ⟨hdest, hdest ▸ hne, hdest ▸ hd⟩

theorem write_eq_ok {content : String} (h : w.write path content = .ok w') :
    w.Writable path ∧
      w' = { w with tree := w.tree.set (w.destination path) (.file content) } := by
  obtain ⟨⟨start, ns⟩, hr, h⟩ := bind_eq_ok.1 h
  obtain ⟨tree, ht, hw⟩ := bind_eq_ok.1 h
  obtain ⟨l, hl, hset⟩ := bind_eq_ok.1 ht
  obtain ⟨rfl, hwritable⟩ := fileLocation_of_route hr hl
  cases hset
  cases hw
  exact ⟨hwritable, rfl⟩

/-- A file that has been written to an absolute directory has the path that is the
    location of it, written out. -/
theorem join_eq_of_write {directory name content : String}
    (habs : Path.isAbsolute directory = true)
    (h : w.write (Path.join directory name) content = .ok w') :
    Path.join directory name =
      "/" ++ "/".intercalate (w.destination (Path.join directory name)) := by
  obtain ⟨path, hpath, hjoin, -⟩ := Path.join_absolute habs name
  have hclean := Path.clean_resolveNames path
  obtain ⟨⟨start, ns⟩, hr, h⟩ := bind_eq_ok.1 h
  obtain ⟨tree, ht, -⟩ := bind_eq_ok.1 h
  obtain ⟨l, hl, -⟩ := bind_eq_ok.1 ht
  obtain ⟨-, hns⟩ := route_eq_ok hr
  obtain ⟨front, last, -, hfront, -, -, ⟨hlast, -⟩, -⟩ := Tree.exists_of_fileLocation_eq_ok hl
  have hdest := destination_absolute (hjoin ▸ (Path.normalize_absolute hpath).1) w
  rw [hjoin] at hns hdest ⊢
  obtain heq | heq := Path.normalize_eq_cases hpath
  · rw [heq, Path.follow_names_slash hclean] at hdest
    rw [heq, hdest]
  · -- no file is written to a path with a slash at its end
    rw [heq, Path.names_append_close, hfront] at hns
    exact absurd (List.append_inj' hns rfl).2 (by simpa using hlast)

theorem append_eq_ok {content : String} (h : w.append path content = .ok w') :
    w.Writable path ∧
      ∃ text, w' = { w with tree := w.tree.set (w.destination path) (.file text) } := by
  obtain ⟨⟨start, ns⟩, hr, h⟩ := bind_eq_ok.1 h
  obtain ⟨tree, ht, hw⟩ := bind_eq_ok.1 h
  obtain ⟨l, hl, hset⟩ := bind_eq_ok.1 ht
  obtain ⟨rfl, hwritable⟩ := fileLocation_of_route hr hl
  cases hw
  refine ⟨hwritable, ?_⟩
  split at hset <;> cases hset <;> exact ⟨_, rfl⟩

/-- Copying changes nothing, or puts a file where the path leads, or takes away
    what is there. -/
theorem copy_cases (w : World) (source target : String) :
    (w.copy source target).2 = w ∨ w.Writable target ∧
      ((∃ text, (w.copy source target).2 =
          { w with tree := w.tree.set (w.destination target) (.file text) }) ∨
        (w.copy source target).2 = { w with tree := w.tree.remove (w.destination target) }) := by
  unfold copy
  cases hp : w.copyPlan source target with
  | error e => exact .inl rfl
  | ok plan =>
    obtain ⟨e, l⟩ := plan
    obtain ⟨-, hp⟩ := then_eq_ok.1 hp
    obtain ⟨-, hp⟩ := then_eq_ok.1 hp
    obtain ⟨found, -, hp⟩ := bind_eq_ok.1 hp
    obtain ⟨⟨start, ns⟩, hr, hp⟩ := bind_eq_ok.1 hp
    obtain ⟨l, hl, hplan⟩ := bind_eq_ok.1 hp
    cases hplan
    obtain ⟨rfl, hwritable⟩ := fileLocation_of_route hr hl
    refine .inr ⟨hwritable, ?_⟩
    cases e with
    | file text => exact .inl ⟨text, rfl⟩
    | directory => exact .inr rfl

end World

end Crosspost
