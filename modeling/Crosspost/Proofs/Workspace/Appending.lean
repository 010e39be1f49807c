/-
  Text added to files.

  * `World.content w path`: what stands in the file at a path, nothing if none does;
  * `World.appends w path`: text can be added to that file; then **what stood there is
    kept, the text follows, and more can be added** (`World.append_of_appends`).
-/
import Crosspost.Proofs.Workspace.Ways

namespace Crosspost

open Location

namespace Tree

variable {t u : Tree} {here l : Location} {ns : List String}

/-- The way to a place for a file ends there, if something is there. -/
theorem walk_of_fileLocation (h : t.fileLocation here ns = .ok l) :
    t.walk here ns = if (t.get? l).isSome then .ok l else .error .noEntry := by
  obtain ⟨front, name, directory, rfl, hw, hdir, ⟨hn, hdot, hdots⟩, hlong, rfl, -⟩ :=
    exists_of_fileLocation_eq_ok h
  rw [walk_append hw, walk, hdir]
  simp [hn, hdot, hdots, hlong, walk]

/-- A place for a file is one in a larger tree, where no directory came to be there. -/
theorem Extends.fileLocation_eq_ok (h : Extends t u) (hl : t.fileLocation here ns = .ok l)
    (hd : u.get? l ≠ some .directory) : u.fileLocation here ns = .ok l := by
  obtain ⟨front, name, directory, rfl, hw, hdir, ⟨hn, hdot, hdots⟩, hlong, rfl, -⟩ :=
    exists_of_fileLocation_eq_ok hl
  have hwritten : ((front ++ [name]).reverse.dropWhile (· == "")).reverse = front ++ [name] := by
    simp [hn]
  simp only [fileLocation, hwritten, List.getLast?_concat, List.dropLast_concat]
  refine bind_eq_ok.2 ⟨directory, h.walk_eq_ok hw, ?_⟩
  simp [h.directory _ hdir, hn, hdot, hdots, hlong, hd]
  rfl

end Tree

namespace World

variable {w v : World} {path text : String}

/-- What stands in the file at a path, nothing where no file can be read. -/
def content (w : World) (path : String) : String := (w.read path).toOption.getD ""

/-- Whether text can be added to the file at a path. -/
def appends (w : World) (path : String) : Bool := (w.append path "").isOk

/-- A path leads to a place for a file. -/
structure HasPlace (w : World) (path : String) : Prop where
  route : w.route path = .ok (w.start path, Path.names path)
  place : w.tree.fileLocation (w.start path) (Path.names path) = .ok (w.destination path)

theorem hasPlace_of_append (h : w.append path text = .ok v) : w.HasPlace path := by
  obtain ⟨⟨begin, ns⟩, hr, h⟩ := bind_eq_ok.1 h
  obtain ⟨hbegin, rfl⟩ := route_eq_ok hr
  obtain rfl : begin = w.start path := hbegin
  obtain ⟨tree, ht, -⟩ := bind_eq_ok.1 h
  obtain ⟨l, hl, -⟩ := bind_eq_ok.1 ht
  exact ⟨hr, (fileLocation_of_route hr hl).1 ▸ hl⟩

namespace HasPlace

theorem writable (h : w.HasPlace path) : w.Writable path := (fileLocation_of_route h.route h.place).2

theorem content (h : w.HasPlace path) :
    w.content path = match w.tree.get? (w.destination path) with
      | some (.file text) => text
      | _ => "" := by
  have hread : w.read path = w.tree.read (w.start path) (Path.names path) := by
    rw [read, h.route]
    rfl
  rw [World.content, hread, Tree.read, Tree.find, Tree.walk_of_fileLocation h.place]
  cases hg : w.tree.get? (w.destination path) with
  | none => rfl
  | some e => cases e <;> simp [hg, bind, Except.bind, Except.toOption]

theorem append (h : w.HasPlace path) (text : String) :
    w.append path text =
      .ok { w with tree := w.tree.set (w.destination path) (.file (w.content path ++ text)) } := by
  rw [h.content]
  refine bind_eq_ok.2 ⟨_, h.route, bind_eq_ok.2 ⟨_, bind_eq_ok.2 ⟨_, h.place, ?_⟩, rfl⟩⟩
  cases hg : w.tree.get? (w.destination path) with
  | none => simp
  | some e => cases e <;> simp

/-- The place remains when a file is written there. -/
theorem of_set (h : w.HasPlace path) {tree : Tree}
    (htree : tree = w.tree.set (w.destination path) (.file text)) :
    HasPlace { w with tree } path ∧ World.content { w with tree } path = text := by
  have hget : tree.get? (w.destination path) = some (.file text) :=
    htree ▸ Tree.get?_set_self h.writable.ne_root _ _
  have hext : Tree.Extends w.tree tree :=
    htree ▸ Tree.extends_set h.writable.ne_root h.writable.not_directory _
  have hplace := hext.fileLocation_eq_ok h.place (by simp [hget])
  have hwalk := Tree.walk_of_fileLocation hplace
  rw [hget, Option.isSome_some, if_pos rfl] at hwalk
  have hafter : HasPlace { w with tree } path :=
    ⟨route_congr h.route (Tree.isSome_of_walk hwalk), hplace⟩
  have hdest : destination { w with tree } path = w.destination path := rfl
  exact ⟨hafter, by rw [hafter.content, hdest, hget]⟩

end HasPlace

theorem appends_iff : w.appends path = true ↔ w.HasPlace path := by
  constructor
  · intro h
    obtain ⟨v, h⟩ := exists_of_isOk h
    exact hasPlace_of_append h
  · intro h
    rw [appends, h.append]
    rfl

theorem appends_congr (hhere : v.here = w.here) (htree : v.tree = w.tree) :
    v.appends path = w.appends path := by
  obtain ⟨_, here, tree, _, _, _⟩ := v
  obtain rfl : here = w.here := hhere
  obtain rfl : tree = w.tree := htree
  rw [Bool.eq_iff_iff, appends_iff, appends_iff]
  exact ⟨fun h => ⟨h.route, h.place⟩, fun h => ⟨h.route, h.place⟩⟩

/-- **What stood in the file is kept, the text follows, and more can be added.** -/
theorem append_of_appends (h : w.appends path = true) (text : String) :
    ∃ tree, w.append path text = .ok { w with tree } ∧
      content { w with tree } path = w.content path ++ text ∧
        appends { w with tree } path = true := by
  have hplace := appends_iff.1 h
  obtain ⟨hafter, hcontent⟩ := hplace.of_set rfl
  exact ⟨_, hplace.append text, hcontent, appends_iff.2 hafter⟩

theorem append_of_not_appends (h : w.appends path = false) (text : String) :
    ∃ e, w.append path text = .error e := by
  cases happend : w.append path text with
  | error e => exact ⟨e, rfl⟩
  | ok v => exact absurd (appends_iff.2 (hasPlace_of_append happend)) (by simp [h])

end World

end Crosspost
