/-
  The files that a run makes.

  * `Output` is a file below the output directory, by its name and its text;
  * `Filled s outDir v outputs u`: from `v` to `u`, these files have been written one
    after another, and nothing else but the log;
  * `Filled.read_of_split`: **each output is read again**, unless a later one is
    written to its place, and `Filled.read`: so is what was there before;
    `Filled.read_of_mem`, `Filled.read_of_agrees`: so they are if it is the same text;
  * `Filled.get?_cases`: what stands at a place, and `Filled.get?_eq`: elsewhere nothing has
    changed.
-/
import Mathlib.Data.List.Nodup
import Crosspost.Proofs.Upload.Opening

namespace Crosspost

open Location

/-- A file that a run makes: its name below the output directory, and its text. -/
structure Output where
  name : String
  text : String
  deriving DecidableEq, Repr

def Output.path (outDir : String) (o : Output) : String := Path.join outDir o.name

/-- Files are written to a directory one after another, and nothing else but the
    log. -/
inductive Filled (s : Setup) (outDir : String) (v : World) : List Output → World → Prop
  | start : Filled s outDir v [] v
  | record {outputs : List Output} {u : World} (event : LogEvent) :
      Filled s outDir v outputs u → Filled s outDir v outputs (s.record event u)
  | ask {outputs : List Output} {u : World} (call : ConverterCall) :
      Filled s outDir v outputs u →
        Filled s outDir v outputs { u with calls := u.calls ++ [call] }
  | write {outputs : List Output} {u u' : World} (o : Output) :
      Filled s outDir v outputs u → u.write (o.path outDir) o.text = .ok u' →
        Filled s outDir v (outputs ++ [o]) u'

namespace Filled

variable {s : Setup} {outDir path text : String} {u v w : World} {outputs others : List Output}
  {l : Location}

theorem single {o : Output} (h : v.write (o.path outDir) o.text = .ok u) :
    Filled s outDir v [o] u := .write o .start h

theorem trans (h : Filled s outDir v outputs u) (h' : Filled s outDir u others w) :
    Filled s outDir v (outputs ++ others) w := by
  induction h' with
  | start => rwa [List.append_nil]
  | record event _ ih => exact ih.record event
  | ask call _ ih => exact ih.ask call
  | write o _ hw ih =>
    rw [← List.append_assoc]
    exact ih.write o hw

theorem recordAll (h : Filled s outDir v outputs u) (events : List LogEvent) :
    Filled s outDir v outputs (s.recordAll events u) := by
  unfold Setup.recordAll
  induction events generalizing u with
  | nil => exact h
  | cons event events ih => exact ih (h.record event)

/-- What each step keeps is kept. -/
theorem obeys {N : String → Prop} {P : World → Prop} (h : Filled s outDir v outputs u)
    (hstable : Stable s outDir N P) (hn : ∀ o ∈ outputs, N o.name) (hv : P v) : P u := by
  induction h with
  | start => exact hv
  | record event _ ih => exact hstable.record event _ (ih hn)
  | ask call _ ih => exact hstable.ask call _ (ih hn)
  | write o _ hw ih =>
    exact hstable.write o.name o.text _ _ (hn o (by simp))
      (ih fun o' ho' => hn o' (List.mem_append_left _ ho')) hw

theorem here (h : Filled s outDir v outputs u) : u.here = v.here := by
  induction h with
  | start => rfl
  | record event _ ih => exact (s.record_cases event _).2.1.trans ih
  | ask _ _ ih => exact ih
  | write o _ hw ih =>
    obtain ⟨-, rfl⟩ := World.write_eq_ok hw
    exact ih

/-- What was there is there, and directories are directories. -/
theorem extension (h : Filled s outDir v outputs u) : Tree.Extends v.tree u.tree := by
  induction h with
  | start => exact .refl _
  | @record outputs u event _ ih =>
    obtain ⟨-, -, htree | ⟨path, -, hwritable, text, htree⟩⟩ := s.record_cases event u
    · exact htree ▸ ih
    · exact htree ▸ ih.trans (hwritable.extends text)
  | ask _ _ ih => exact ih
  | write o _ hw ih =>
    obtain ⟨hwritable, rfl⟩ := World.write_eq_ok hw
    exact ih.trans (hwritable.extends o.text)

/-- Where the log is not written, nothing changes, or there is the text of an output that goes
    there. -/
theorem get?_cases (h : Filled s outDir v outputs u) (hlog : s.logger.writes v l = false) :
    u.tree.get? l = v.tree.get? l ∨
      ∃ o ∈ outputs, v.destination (o.path outDir) = l ∧ u.tree.get? l = some (.file o.text) := by
  induction h with
  | start => exact .inl rfl
  | @record outputs u event hu ih =>
    obtain ⟨-, -, htree | ⟨path, hpath, hwritable, text, htree⟩⟩ := s.record_cases event u
    · rwa [htree]
    · rwa [htree, Tree.get?_set_of_ne]
      -- the working directory stays, so the log is where it was in `v`
      rintro rfl
      rw [← s.logger.writes_congr hu.here, s.logger.writesTo_writes u path hpath] at hlog
      exact absurd hlog (by decide)
  | ask _ _ ih => exact ih
  | @write outputs u u' o hu hw ih =>
    obtain ⟨hwritable, rfl⟩ := World.write_eq_ok hw
    by_cases hl : v.destination (o.path outDir) = l
    · refine .inr ⟨o, by simp, hl, ?_⟩
      rw [← World.destination_congr hu.here] at hl
      rw [← hl]
      exact Tree.get?_set_self hwritable.ne_root _ _
    · have hne : l ≠ u.destination (o.path outDir) := by
        rw [World.destination_congr hu.here]
        exact Ne.symm hl
      simp only [Tree.get?_set_of_ne hne]
      refine ih.imp_right ?_
      rintro ⟨other, hother, hplace⟩
      exact ⟨other, List.mem_append_left _ hother, hplace⟩

/-- Nothing changes where neither an output nor the log is written. -/
theorem get?_eq (h : Filled s outDir v outputs u) (hlog : s.logger.writes v l = false)
    (hout : ∀ o ∈ outputs, v.destination (o.path outDir) ≠ l) : u.tree.get? l = v.tree.get? l := by
  obtain heq | ⟨o, ho, hl, -⟩ := h.get?_cases hlog
  · exact heq
  · exact absurd hl (hout o ho)

/-- A file stays as it is if it is only ever written with the same text. -/
theorem read_of_agrees (h : Filled s outDir v outputs u) (hread : v.read path = .ok text)
    (hlog : s.logger.writes v (v.destination path) = false)
    (hout : ∀ o ∈ outputs, v.destination (o.path outDir) = v.destination path → o.text = text) :
    u.read path = .ok text := by
  refine World.read_of_extends hread h.here h.extension ?_
  obtain heq | ⟨o, ho, hl, htext⟩ := h.get?_cases hlog
  · exact heq
  · rw [htext, hout o ho hl]
    exact (World.read_eq_ok_iff.1 hread).2.2.symm

/-- A file stays a file. -/
theorem exists_read (h : Filled s outDir v outputs u) (hread : v.read path = .ok text)
    (hlog : s.logger.writes v (v.destination path) = false) : ∃ text', u.read path = .ok text' := by
  have hfile := (World.read_eq_ok_iff.1 hread).2.2
  have hthere : ∃ text', u.tree.get? (v.destination path) = some (.file text') := by
    obtain heq | ⟨o, -, -, htext⟩ := h.get?_cases hlog
    · exact ⟨text, heq.trans hfile⟩
    · exact ⟨o.text, htext⟩
  obtain ⟨text', htext⟩ := hthere
  exact ⟨text', World.read_of_stays hread h.here h.extension htext⟩

theorem read (h : Filled s outDir v outputs u) (hread : v.read path = .ok text)
    (hlog : s.logger.writes v (v.destination path) = false)
    (hout : ∀ o ∈ outputs, v.destination (o.path outDir) ≠ v.destination path) :
    u.read path = .ok text :=
  World.read_of_extends hread h.here h.extension (h.get?_eq hlog hout)

/-- The moment at which an output is written. -/
theorem split {o : Output} (h : Filled s outDir v (outputs ++ o :: others) u) :
    ∃ w w', Filled s outDir v outputs w ∧ w.write (o.path outDir) o.text = .ok w' ∧
      Filled s outDir w' others u := by
  generalize hall : outputs ++ o :: others = all at h
  induction h generalizing others with
  | start => simp at hall
  | record event _ ih =>
    obtain ⟨w, w', hw, hwrite, hrest⟩ := ih hall
    exact ⟨w, w', hw, hwrite, hrest.record event⟩
  | ask call _ ih =>
    obtain ⟨w, w', hw, hwrite, hrest⟩ := ih hall
    exact ⟨w, w', hw, hwrite, hrest.ask call⟩
  | @write all u u' last hu hlast ih =>
    -- the last write is that of `o` itself, or comes after it
    obtain rfl | ⟨front, o', rfl⟩ := List.eq_nil_or_concat others
    · obtain ⟨rfl, rfl⟩ : outputs = all ∧ o = last := by simpa using List.append_inj' hall rfl
      exact ⟨u, u', hu, hlast, .start⟩
    · rw [List.concat_eq_append, ← List.cons_append, ← List.append_assoc] at hall
      obtain ⟨hfront, hl⟩ := List.append_inj' hall rfl
      obtain rfl : o' = last := by simpa using hl
      obtain ⟨w, w', hw, hwrite, hrest⟩ := ih hfront
      rw [List.concat_eq_append]
      exact ⟨w, w', hw, hwrite, hrest.write o' hlast⟩

/-- An output is read when it has just been written. -/
theorem exists_read_of_split {o : Output} (h : Filled s outDir v (outputs ++ o :: others) u) :
    ∃ w, w.here = v.here ∧ w.read (o.path outDir) = .ok o.text ∧ Filled s outDir w others u := by
  obtain ⟨w, w', hw, hwrite, hrest⟩ := h.split
  have hhere : w'.here = v.here := by
    obtain ⟨-, rfl⟩ := World.write_eq_ok hwrite
    exact hw.here
  exact ⟨w', hhere, World.read_write hwrite, hrest⟩

/-- **An output is read again** if none of those after it goes to its place. -/
theorem read_of_split {o : Output} (h : Filled s outDir v (outputs ++ o :: others) u)
    (hlog : s.logger.writes v (v.destination (o.path outDir)) = false)
    (hout : ∀ o' ∈ others, v.destination (o'.path outDir) ≠ v.destination (o.path outDir)) :
    u.read (o.path outDir) = .ok o.text := by
  obtain ⟨w, hhere, hread, hrest⟩ := h.exists_read_of_split
  have hdest := World.destination_congr hhere
  refine hrest.read hread ?_ ?_
  · rwa [s.logger.writes_congr hhere, hdest]
  · simpa only [hdest] using hout

/-- An output is read again if all that goes to its place is the same text. -/
theorem read_of_mem {o : Output} (h : Filled s outDir v outputs u) (ho : o ∈ outputs)
    (hlog : s.logger.writes v (v.destination (o.path outDir)) = false)
    (hout : ∀ other ∈ outputs, v.destination (other.path outDir) = v.destination (o.path outDir) →
      other.text = o.text) : u.read (o.path outDir) = .ok o.text := by
  obtain ⟨earlier, later, rfl⟩ := List.append_of_mem ho
  obtain ⟨w, hhere, hread, hrest⟩ := h.exists_read_of_split
  have hdest := World.destination_congr hhere
  refine hrest.read_of_agrees hread ?_ fun other hother => ?_
  · rwa [s.logger.writes_congr hhere, hdest]
  · rw [hdest, hdest]
    exact hout other (by simp [hother])

/-- Where an output has gone, there is a file. -/
theorem exists_read_of_mem {o : Output} (h : Filled s outDir v outputs u) (ho : o ∈ outputs)
    (hlog : s.logger.writes v (v.destination (o.path outDir)) = false) :
    ∃ text', u.read (o.path outDir) = .ok text' := by
  obtain ⟨earlier, later, rfl⟩ := List.append_of_mem ho
  obtain ⟨w, hhere, hread, hrest⟩ := h.exists_read_of_split
  refine hrest.exists_read hread ?_
  rwa [s.logger.writes_congr hhere, World.destination_congr hhere]

theorem get?_of_nodup {o : Output} (h : Filled s outDir v outputs u)
    (hnodup : (outputs.map fun o => v.destination (o.path outDir)).Nodup) (ho : o ∈ outputs)
    (hlog : s.logger.writes v (v.destination (o.path outDir)) = false) :
    u.tree.get? (v.destination (o.path outDir)) = some (.file o.text) := by
  have hread := h.read_of_mem ho hlog fun other hother heq =>
    congrArg Output.text (List.inj_on_of_nodup_map hnodup hother ho heq)
  rw [← World.destination_congr h.here]
  exact (World.read_eq_ok_iff.1 hread).2.2

theorem exists_write {o : Output} (h : Filled s outDir v outputs u) (ho : o ∈ outputs) :
    ∃ w w' : World, w.here = v.here ∧ Tree.Extends v.tree w.tree ∧
      w.write (o.path outDir) o.text = .ok w' := by
  obtain ⟨earlier, later, rfl⟩ := List.append_of_mem ho
  obtain ⟨w, w', hw, hwrite, -⟩ := h.split
  exact ⟨w, w', hw.here, hw.extension, hwrite⟩

/-- The path of an output is the location of it, written out. -/
theorem path_eq {o : Output} (h : Filled s outDir v outputs u)
    (habs : Path.isAbsolute outDir = true) (ho : o ∈ outputs) :
    o.path outDir = "/" ++ "/".intercalate (v.destination (o.path outDir)) := by
  obtain ⟨w, w', hhere, -, hwrite⟩ := h.exists_write ho
  rw [← World.destination_congr hhere]
  exact World.join_eq_of_write habs hwrite

theorem nodup_destinations (h : Filled s outDir v outputs u)
    (habs : Path.isAbsolute outDir = true) (hnodup : (outputs.map (·.path outDir)).Nodup) :
    (outputs.map fun o => v.destination (o.path outDir)).Nodup := by
  refine List.pairwise_map.2 ((List.pairwise_map.1 hnodup).imp_of_mem fun hx hy hne heq => hne ?_)
  rw [h.path_eq habs hx, h.path_eq habs hy, heq]

theorem destination_eq {o : Output} {place : Location} (h : Filled s outDir v outputs u)
    (habs : Path.isAbsolute outDir = true) (hdest : v.destination outDir = place)
    (hdir : ∀ k, k <+: place → v.tree.get? k = some .directory) (ho : o ∈ outputs)
    (hn : Path.IsPlain o.name) : v.destination (o.path outDir) = place ++ [o.name] := by
  obtain ⟨w, w', hhere, hext, hwrite⟩ := h.exists_write ho
  have hcongr := World.destination_congr hhere
  rw [← hcongr]
  exact World.destination_join_of_isPlain habs ((hcongr outDir).trans hdest)
    (fun k hk => hext.directory k (hdir k hk)) hn (World.write_eq_ok hwrite).1

end Filled

end Crosspost
