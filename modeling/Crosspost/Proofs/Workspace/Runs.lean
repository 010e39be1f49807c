/-
  Rules for computations on a world.

  * `Run.Obeys P E x`: from a world with `P`, the computation `x` ends in one with
    `P`, also where it fails, and it fails only with errors in `E`;
  * `Run.Obeys.bind`, `Run.Obeys.mapM` and the others are the rules for the ways in
    which computations are made;
  * `Run.exists_run_mapM`: what succeeds wherever `P` holds succeeds again and again.
-/
import Mathlib.Tactic.Common
import Crosspost.Workspace.World

namespace Crosspost.Run

variable {ε α β : Type} {P : World → Prop} {E : ε → Prop}

/-- A computation keeps `P`, and its errors are in `E`. -/
def Obeys (P : World → Prop) (E : ε → Prop) (x : Run ε α) : Prop :=
  ∀ w, P w → P (x.run.run w).2 ∧ ∀ e, (x.run.run w).1 = .error e → E e

theorem run_bind (x : Run ε α) (f : α → Run ε β) (w : World) :
    (x >>= f).run.run w =
      match x.run.run w with
      | (.ok a, w) => (f a).run.run w
      | (.error e, w) => (.error e, w) := by
  rw [ExceptT.run_bind, StateT.run_bind]
  cases h : x.run.run w with
  | mk r w' => cases r <;> rfl

/-- A failure comes from the first computation or from the one after it. -/
theorem run_bind_eq_error {x : Run ε α} {f : α → Run ε β} {w w' : World} {e : ε}
    (h : (x >>= f).run.run w = (.error e, w')) :
    x.run.run w = (.error e, w') ∨
      ∃ a v, x.run.run w = (.ok a, v) ∧ (f a).run.run v = (.error e, w') := by
  rw [run_bind] at h
  cases hx : x.run.run w with
  | mk r v =>
    rw [hx] at h
    cases r with
    | error e' =>
      cases h
      exact .inl rfl
    | ok a => exact .inr ⟨a, v, rfl, h⟩

/-- A success comes from both computations. -/
theorem run_bind_eq_ok {x : Run ε α} {f : α → Run ε β} {w w' : World} {b : β}
    (h : (x >>= f).run.run w = (.ok b, w')) :
    ∃ a v, x.run.run w = (.ok a, v) ∧ (f a).run.run v = (.ok b, w') := by
  rw [run_bind] at h
  cases hx : x.run.run w with
  | mk r v =>
    rw [hx] at h
    cases r with
    | error e => cases h
    | ok a => exact ⟨a, v, rfl, h⟩

theorem run_bind_of_ok {x : Run ε α} {f : α → Run ε β} {w v : World} {a : α}
    (h : x.run.run w = (.ok a, v)) : (x >>= f).run.run w = (f a).run.run v := by
  rw [run_bind, h]

/-- A computation for each element of a list has been one for the first of them before
    the others. -/
theorem exists_of_run_mapM_append {f : α → Run ε β} {as bs : List α} {cs : List β} {w w' : World}
    (h : ((as ++ bs).mapM f).run.run w = (.ok cs, w')) :
    ∃ front v, (as.mapM f).run.run w = (.ok front, v) ∧
      ∃ back, (bs.mapM f).run.run v = (.ok back, w') := by
  rw [List.mapM_append] at h
  obtain ⟨front, v, hfront, h⟩ := run_bind_eq_ok h
  obtain ⟨back, v', hback, h⟩ := run_bind_eq_ok h
  cases h
  exact ⟨front, v, hfront, back, hback⟩

theorem exists_error_of_isOk {x : Run ε α} {w : World} (h : (x.run.run w).1.isOk = false) :
    ∃ e, x.run.run w = (.error e, (x.run.run w).2) := by
  cases hx : x.run.run w with
  | mk r w' =>
    rw [hx] at h
    cases r with
    | ok a => cases h
    | error e => exact ⟨e, rfl⟩

theorem exists_ok_of_map {γ : Type} {x : Run ε α} {f : α → γ} {w : World} {c : γ}
    (h : (x.run.run w).1.toOption.map f = some c) :
    ∃ a, f a = c ∧ x.run.run w = (.ok a, (x.run.run w).2) := by
  cases hx : x.run.run w with
  | mk r w' =>
    rw [hx] at h
    cases r with
    | ok a => exact ⟨a, Option.some.inj h, rfl⟩
    | error e => cases h

theorem run_tryCatch (x : Run ε α) (h : ε → Run ε α) (w : World) :
    (tryCatch x h).run.run w =
      match x.run.run w with
      | (.ok a, w) => (.ok a, w)
      | (.error e, w) => (h e).run.run w := by
  rw [ExceptT.run_tryCatch, StateT.run_bind]
  cases hx : x.run.run w with
  | mk r w' => cases r <;> rfl

/-- A computation after which the world is changed, in one way after a success and in
    another one after a failure. -/
theorem run_try (x : Run ε α) (f g : World → World) (w : World) :
    (do
      try
        let a ← x
        modify f
        return a
      catch e =>
        modify g
        throw e : Run ε α).run.run w =
      match x.run.run w with
      | (.ok a, w) => (.ok a, f w)
      | (.error e, w) => (.error e, g w) := by
  rw [run_bind, run_tryCatch]
  simp only [ExceptT.run, StateT.run, bind, ExceptT.bind, ExceptT.mk, StateT.bind]
  cases x w with
  | mk r w' => cases r <;> rfl

theorem run_set (v w : World) : (set v : Run ε PUnit).run.run w = (.ok (), v) := rfl

theorem run_get (f : World → Run ε α) (w : World) :
    (MonadState.get >>= f).run.run w = (f w).run.run w := rfl

theorem run_attempt (fail : FsError → ε) (step : World → Except FsError World) (w : World) :
    (attempt fail step).run.run w =
      match step w with
      | .ok w' => (.ok (), w')
      | .error e => (.error (fail e), w) := by
  have hget : (attempt fail step).run.run w =
      (match step w with
        | .ok w => set w
        | .error e => throw (fail e) : Run ε Unit).run.run w := rfl
  rw [hget]
  cases step w <;> rfl

theorem run_perform (fail : FsError → ε) (step : World → Except FsError Unit × World) (w : World) :
    (perform fail step).run.run w = ((step w).1.mapError fail, (step w).2) := by
  rw [perform, run_get]
  cases h : step w with
  | mk r w' =>
    cases r <;> rfl

namespace Obeys

theorem pure (a : α) : Obeys P E (Pure.pure a : Run ε α) :=
  fun _ hw => ⟨hw, by rintro _ ⟨⟩⟩

theorem throw {e : ε} (he : E e) : Obeys P E (throw e : Run ε α) := by
  refine fun _ hw => ⟨hw, ?_⟩
  rintro _ ⟨⟩
  exact he

theorem bind {x : Run ε α} {f : α → Run ε β} (hx : Obeys P E x) (hf : ∀ a, Obeys P E (f a)) :
    Obeys P E (x >>= f) := by
  intro w hw
  obtain ⟨hP, hE⟩ := hx w hw
  rw [run_bind]
  cases h : x.run.run w with
  | mk r w' =>
    rw [h] at hP hE
    cases r with
    | error e =>
      refine ⟨hP, ?_⟩
      rintro _ ⟨⟩
      exact hE e rfl
    | ok a => exact hf a w' hP

/-- Nothing is done after a failure. -/
theorem throw_bind {e : ε} {f : α → Run ε β} (he : E e) :
    Obeys P E (MonadExcept.throw e >>= f) := by
  refine fun _ hw => ⟨hw, ?_⟩
  rintro _ ⟨⟩
  exact he

theorem ite {c : Prop} [Decidable c] {x y : Run ε α} (hx : Obeys P E x) (hy : Obeys P E y) :
    Obeys P E (if c then x else y) := by
  split_ifs
  · exact hx
  · exact hy

/-- A computation that looks at the world. -/
theorem get {f : World → Run ε α} (hf : ∀ w, Obeys P E (f w)) : Obeys P E (MonadState.get >>= f) :=
  fun w hw => hf w w hw

theorem modify {f : World → World} (hf : ∀ w, P w → P (f w)) :
    Obeys P E (modify f : Run ε Unit) :=
  fun w hw => ⟨hf w hw, by rintro _ ⟨⟩⟩

theorem set {w : World} (hw : P w) : Obeys P E (MonadStateOf.set w : Run ε PUnit) :=
  fun _ _ => ⟨hw, by rintro _ ⟨⟩⟩

theorem tryCatch {x : Run ε α} {h : ε → Run ε α} (hx : Obeys P E x)
    (hh : ∀ e, E e → Obeys P E (h e)) : Obeys P E (MonadExcept.tryCatch x h) := by
  intro w hw
  obtain ⟨hP, hE⟩ := hx w hw
  have hrun := run_tryCatch x h w
  cases hr : x.run.run w with
  | mk r w' =>
    rw [hr] at hP hE hrun
    cases r with
    | ok a => exact hrun ▸ ⟨hP, by rintro _ ⟨⟩⟩
    | error e => exact hrun ▸ hh e (hE e rfl) w' hP

theorem mapM {f : α → Run ε β} {as : List α} (hf : ∀ a ∈ as, Obeys P E (f a)) :
    Obeys P E (as.mapM f) := by
  induction as with
  | nil =>
    rw [List.mapM_nil]
    exact .pure _
  | cons a as ih =>
    rw [List.mapM_cons]
    exact (hf a List.mem_cons_self).bind fun _ =>
      (ih fun b hb => hf b (List.mem_cons_of_mem _ hb)).bind fun _ => .pure _

theorem attempt {fail : FsError → ε} {step : World → Except FsError World}
    (hP : ∀ w w', P w → step w = .ok w' → P w')
    (hE : ∀ w e, step w = .error e → E (fail e)) : Obeys P E (attempt fail step) := by
  intro w hw
  rw [run_attempt]
  cases h : step w with
  | ok w' => exact ⟨hP w w' hw h, by rintro _ ⟨⟩⟩
  | error e =>
    refine ⟨hw, ?_⟩
    rintro _ ⟨⟩
    exact hE w e h

theorem perform {fail : FsError → ε} {step : World → Except FsError Unit × World}
    (hP : ∀ w, P w → P (step w).2) (hE : ∀ w e, (step w).1 = .error e → E (fail e)) :
    Obeys P E (perform fail step) := by
  intro w hw
  rw [run_perform]
  have hstep := hP w hw
  cases h : step w with
  | mk r w' =>
    rw [h] at hstep
    cases r with
    | ok u => exact ⟨hstep, by rintro _ ⟨⟩⟩
    | error e =>
      refine ⟨hstep, ?_⟩
      rintro _ ⟨⟩
      exact hE w e (congrArg Prod.fst h)

end Obeys

/-- Computations that succeed wherever `P` holds, and keep it, succeed one after another. -/
theorem exists_run_mapM {f : α → Run ε β} {as : List α}
    (hkeep : ∀ a ∈ as, Obeys P (fun _ => True) (f a))
    (hok : ∀ a ∈ as, ∀ w, P w → ∃ b w', (f a).run.run w = (.ok b, w')) {w : World} (hw : P w) :
    ∃ bs w', (as.mapM f).run.run w = (.ok bs, w') := by
  induction as generalizing w with
  | nil => exact ⟨[], w, by rw [List.mapM_nil]; rfl⟩
  | cons a as ih =>
    obtain ⟨b, v, hfirst⟩ := hok a List.mem_cons_self w hw
    have hv := (hkeep a List.mem_cons_self w hw).1
    rw [hfirst] at hv
    obtain ⟨bs, v', hrest⟩ := ih (fun a' ha' => hkeep a' (List.mem_cons_of_mem _ ha'))
      (fun a' ha' => hok a' (List.mem_cons_of_mem _ ha')) hv
    refine ⟨b :: bs, v', ?_⟩
    rw [List.mapM_cons, run_bind_of_ok hfirst, run_bind_of_ok hrest]
    rfl

end Crosspost.Run
