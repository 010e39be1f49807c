/-
  Variables that are one of some choices.

  Only the value of the variable is lowered before it is looked for, not the choices.

  * `Variables.spelled? choices value`: the first choice that the value spells in any letter case,
    and `Variables.anyCase`: what a variable is read as by that rule;
  * `Variables.choice_of_set`: **what a variable is read as, and that this is the rule just where
    the first choice that the value spells is in lower case.**
-/
import Mathlib.Tactic.Common
import Crosspost.Config.Environment
import Crosspost.Proofs.Text.Lowered

namespace Crosspost.Variables

variable {env : Variables} {key value : String} {choices : List String}

/-- The first choice that a value spells in any letter case. -/
def spelled? (choices : List String) (value : String) : Option String :=
  choices.find? fun c => Text.lower c == Text.lower value

/-- A value read as the choice that it spells in any letter case. -/
def anyCase (key : String) (choices : List String) (value : String) : Except ConfigError String :=
  match spelled? choices value with
  | some c => .ok c
  | none => .error (.invalidChoice key value choices)

/-- A choice is found as the lower-case form of the value, or not at all. -/
theorem find?_lower (choices : List String) (value : String) :
    choices.find? (· == Text.lower value) =
      if Text.lower value ∈ choices then some (Text.lower value) else none := by
  induction choices with
  | nil => rfl
  | cons c choices ih =>
    rw [List.find?_cons, ih]
    by_cases hc : c = Text.lower value
    · simp [hc]
    · have hother : (c == Text.lower value) = false := by simpa using hc
      simp [hother, Ne.symm hc]

theorem choice_eq (h : env.get? key = some value) (hne : value ≠ "") (choices : List String)
    (default : String) : env.choice key choices default =
      if Text.lower value ∈ choices then .ok (Text.lower value)
      else .error (.invalidChoice key value choices) := by
  have hheld : env.held? key = some (.own value) := by simp [held?, Held.find?, h, hne]
  rw [choice, hheld]
  simp only [find?_lower]
  split_ifs <;> rfl

/-- A choice in lower case that a value spells is its lower-case form. -/
theorem eq_lower_of_spelled? {c : String} (h : spelled? choices value = some c)
    (hc : Text.lower c = c) : c = Text.lower value := by
  have hspells := List.find?_some h
  rw [beq_iff_eq, hc] at hspells
  exact hspells

/-- Some choice is spelled where the lower-case form of the value is one. -/
theorem exists_spelled? (h : Text.lower value ∈ choices) :
    ∃ c, spelled? choices value = some c := by
  refine Option.isSome_iff_exists.1 (List.find?_isSome.2 ⟨_, h, ?_⟩)
  rw [beq_iff_eq, Text.lower_lower]

/-- **What a variable that is set is read as.** It is the lower-case form of the value if that is
    one of the choices, letter by letter, and else the variable is refused. That is the choice
    which the value spells in any letter case just where the first such choice is in lower case,
    as it is in a list without capitals. -/
theorem choice_of_set (h : env.get? key = some value) (hne : value ≠ "") (choices : List String)
    (default : String) :
    (∀ c, env.choice key choices default = .ok c ↔ c ∈ choices ∧ c = Text.lower value) ∧
      (∀ e, env.choice key choices default = .error e ↔
        Text.lower value ∉ choices ∧ e = .invalidChoice key value choices) ∧
      (env.choice key choices default = anyCase key choices value ↔
        ∀ c, spelled? choices value = some c → Text.lower c = c) := by
  rw [choice_eq h hne]
  by_cases hm : Text.lower value ∈ choices
  · rw [if_pos hm]
    obtain ⟨c, hc⟩ := exists_spelled? hm
    refine ⟨fun d => ?_, fun e => by simp [hm], ?_⟩
    · rw [Except.ok.injEq, eq_comm]
      exact ⟨fun hd => ⟨hd ▸ hm, hd⟩, fun hd => hd.2⟩
    · simp only [anyCase, hc, Except.ok.injEq, Option.some.injEq, forall_eq']
      constructor
      · rintro rfl
        exact Text.lower_lower value
      · exact fun hlower => (eq_lower_of_spelled? hc hlower).symm
  · rw [if_neg hm]
    refine ⟨fun d => ?_, fun e => ?_, ?_⟩
    · constructor
      · rintro ⟨⟩
      · rintro ⟨hd, rfl⟩
        exact absurd hd hm
    · rw [Except.error.injEq, eq_comm]
      exact (and_iff_right hm).symm
    · cases hc : spelled? choices value with
      | none => simp [anyCase, hc]
      | some c =>
        simp only [anyCase, hc, Option.some.injEq, forall_eq']
        refine ⟨by rintro ⟨⟩, fun hlower => absurd ?_ hm⟩
        exact eq_lower_of_spelled? hc hlower ▸ List.mem_of_find?_eq_some hc

/-- A value with capitals among choices without them, and one among the same choice twice. -/
theorem choice_of_set_capitals :
    let env : Variables := [("LOG_LEVEL", "WARN")]
    env.choice "LOG_LEVEL" ["info", "warn"] "info" = .ok "warn" ∧
      env.choice "LOG_LEVEL" ["info", "warn"] "info" =
        anyCase "LOG_LEVEL" ["info", "warn"] "WARN" ∧
      env.choice "LOG_LEVEL" ["Warn", "warn"] "info" = .ok "warn" ∧
      env.choice "LOG_LEVEL" ["Warn", "warn"] "info" ≠
        anyCase "LOG_LEVEL" ["Warn", "warn"] "WARN" := by
  intro env
  have hget : env.get? "LOG_LEVEL" = some "WARN" := by decide +kernel
  obtain ⟨hok, -, hrule⟩ := choice_of_set hget (by decide) ["info", "warn"] "info"
  obtain ⟨hokTwice, -, hruleTwice⟩ := choice_of_set hget (by decide) ["Warn", "warn"] "info"
  have hspelled : spelled? ["info", "warn"] "WARN" = some "warn" := by decide +kernel
  have hspelledTwice : spelled? ["Warn", "warn"] "WARN" = some "Warn" := by decide +kernel
  have hlower : Text.lower "warn" = "warn" := by decide +kernel
  refine ⟨(hok "warn").2 ⟨by simp, by decide +kernel⟩, hrule.2 fun c hc => ?_,
    (hokTwice "warn").2 ⟨by simp, by decide +kernel⟩, fun h => ?_⟩
  · rw [hspelled] at hc
    obtain rfl := Option.some.inj hc
    exact hlower
  · exact absurd (hruleTwice.1 h "Warn" hspelledTwice) (by decide +kernel)

/-- A value that is one of the choices is refused for its capital. -/
theorem not_anyCase_of_capital :
    let env : Variables := [("LOG_LEVEL", "Debug")]
    env.get? "LOG_LEVEL" = some "Debug" ∧ "Debug" ∈ ["Info", "Debug"] ∧
      anyCase "LOG_LEVEL" ["Info", "Debug"] "Debug" = .ok "Debug" ∧
      env.choice "LOG_LEVEL" ["Info", "Debug"] "Info" =
        .error (.invalidChoice "LOG_LEVEL" "Debug" ["Info", "Debug"]) := by
  decide +kernel

end Crosspost.Variables
