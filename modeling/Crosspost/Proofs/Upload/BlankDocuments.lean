/-
  Documents without text.

  The run looks at a document as it has been read; the descriptions look at it once its lines
  are normalized.

  * `Setup.emptySource_of_writeDescriptions_iff`: a document is refused for having no text where
    the run is strict and the normalized text is blank;
  * `Setup.finishes_and_isBlank_agrees`: **finished text is a normal form that keeps what is
    written, and all that ask whether a document is blank agree**: the run, the descriptions,
    which leave reading and rendering out then, and the finished text itself.
-/
import Crosspost.Proofs.Description.Finishing
import Crosspost.Proofs.Upload.Opening

namespace Crosspost.Setup

open Run

variable {s : Setup} {usernames : Usernames} {flags : List String} {outDir path source : String}
  {ignoreEmpty : Bool} {w v : World}

/-- An empty document is refused where the run is strict, if nothing after it fails so. -/
theorem run_unlessEmpty_eq_error_iff {α : Type} {empty strict : Prop} [Decidable empty]
    [Decidable strict] {message : String} {e : Failure} {x : Run Failure α}
    (hx : Obeys (fun _ => True) (· ≠ e) x) :
    ((if empty then
      if strict then do
        throw e
        s.log .warn message
        x
      else do
        s.log .warn message
        x
    else x : Run Failure α).run.run v).1 = .error e ↔ empty ∧ strict := by
  have hlogged : Obeys (fun _ => True) (· ≠ e) (do s.log .warn message; x) :=
    .bind (.modify fun _ _ => trivial) fun _ => hx
  split_ifs with hempty hstrict
  · exact iff_of_true rfl ⟨hempty, hstrict⟩
  · exact iff_of_false (fun h => (hlogged v trivial).2 e h rfl) fun h => hstrict h.2
  · exact iff_of_false (fun h => (hx v trivial).2 e h rfl) fun h => hempty h.1

/-- **A document is refused as empty exactly where its normalized text is blank**, unless that is
    to be ignored. -/
theorem emptySource_of_writeDescriptions_iff
    (h : (s.readDocument path).run.run w = (.ok source, v)) :
    ((s.writeDescriptions usernames flags path outDir ignoreEmpty).run.run w).1 =
        .error (.emptySource ⟨path⟩) ↔
      Text.isBlank (Source.normalize source) = true ∧ ignoreEmpty = false := by
  simp only [writeDescriptions]
  rw [run_bind_of_ok h, Source.isBlank_normalize, ← Bool.not_eq_true']
  refine run_unlessEmpty_eq_error_iff ?_
  cases Generated.ofSource s.registry usernames flags source with
  | error e =>
    refine .throw ?_
    cases e <;> exact Failure.noConfusion
  | ok generated =>
    have hwrites : ∀ d ∈ generated.descriptions,
        Obeys (fun _ => True) (· ≠ Failure.emptySource ⟨path⟩) (writeDescription outDir d) :=
      fun d _ => .bind (.attempt (fun _ _ _ _ => trivial) fun _ _ _ => Failure.noConfusion)
        fun _ => .pure _
    exact .bind (.modify fun _ _ => trivial) fun _ => .bind (.mapM hwrites) fun _ =>
      .bind (.modify fun _ _ => trivial) fun _ => .pure _

/-- **Finished text is a normal form that keeps what is written, and blank texts are told alike
    wherever they are told**: a blank document makes what reading, rendering and finishing it
    would make, without doing so, and a strict run refuses these documents and no others. -/
theorem finishes_and_isBlank_agrees :
    (∀ text, Source.Finishes text (Source.finalize text) ∧
      Source.finalize (Source.finalize text) = Source.finalize text) ∧
    (∀ R usernames flags source, Generated.ofSource R usernames flags source =
      if Text.isBlank source then .ok ⟨Generated.blank R usernames, []⟩
      else Generated.ofNormalized R usernames flags (Source.normalize source)) ∧
    (∀ R usernames flags source, Text.isBlank (Source.normalize source) = true →
      (Generated.ofNormalized R usernames flags (Source.normalize source)).map (·.descriptions) =
        (Generated.ofSource R usernames flags source).map (·.descriptions)) ∧
    ∀ (s : Setup) usernames flags path outDir ignoreEmpty w v source,
      (s.readDocument path).run.run w = (.ok source, v) →
        (((s.writeDescriptions usernames flags path outDir ignoreEmpty).run.run w).1 =
            .error (.emptySource ⟨path⟩) ↔
          Text.isBlank (Source.normalize source) = true ∧ ignoreEmpty = false) := by
  refine ⟨fun text => ⟨Source.finishes_finalize text, Source.finalize_finalize text⟩,
    Generated.ofSource_eq, fun R usernames flags source hblank => ?_,
    fun s usernames flags path outDir ignoreEmpty w v source hread =>
      emptySource_of_writeDescriptions_iff hread⟩
  have hraw : Text.isBlank source = true := by rwa [← Source.isBlank_normalize]
  rw [Generated.map_descriptions_ofNormalized R usernames flags hblank, Generated.ofSource_eq,
    if_pos hraw]
  rfl

/-- A document of white space alone, with a carriage return that normalizing takes away. -/
theorem finishes_and_isBlank_agrees_white :
    let s := Setup.silent
    let names : Usernames := [("weasyl", "u")]
    let w := World.ofTree "/w" ⟨[(["d.txt"], .file " \r\n\t")]⟩
    Text.isBlank (Source.normalize " \r\n\t") = true ∧
      (Generated.ofNormalized .builtin names [] (Source.normalize " \r\n\t")).map (·.descriptions) =
        (Generated.ofSource .builtin names [] " \r\n\t").map (·.descriptions) ∧
      (s.readDocument "d.txt").run.run w = (.ok " \r\n\t", w) ∧
        ((s.writeDescriptions names [] "d.txt" "out" false).run.run w).1 =
          .error (.emptySource ⟨"d.txt"⟩) := by
  intro s names w
  obtain ⟨-, -, hsame, hrefused⟩ := finishes_and_isBlank_agrees
  have hblank : Text.isBlank (Source.normalize " \r\n\t") = true := by decide +kernel
  have hread : (s.readDocument "d.txt").run.run w = (.ok " \r\n\t", w) := by rfl
  exact ⟨hblank, hsame _ _ _ _ hblank, hread, (hrefused s _ _ _ _ _ w w _ hread).2 ⟨hblank, rfl⟩⟩

end Crosspost.Setup
