/-
  What is read as a condition.

  * `Condition.Sound`: the form of the operands of a condition;
  * `Condition.sound_of_parse`: **whatever is read as a condition has it**.
-/
import Crosspost.Proofs.Description.Steps
import Crosspost.Proofs.Site.Lookup

namespace Crosspost

namespace Condition

/-- The operands of a condition: at least one, just one in a plain comparison,
    and sites by their ids. -/
structure Sound (R : Registry) (c : Condition) : Prop where
  nonempty : c.operands ≠ []
  single : c.comparison ≠ .among → c.operands.length = 1
  site : c.subject = .site → ∀ o ∈ c.operands, ∃ s, R.get? o = some s
  identifier : c.subject ≠ .site → ∀ o ∈ c.operands, isIdentifier o = true

theorem length_writtenOperands {parts : Parts} (h : parts.comparison ≠ .among) :
    (writtenOperands parts).length = 1 := by
  unfold writtenOperands
  split <;> simp_all

theorem readOperand_site {R : Registry} {operand o : String}
    (h : readOperand R .site operand = .ok o) : ∃ s, R.get? o = some s := by
  unfold readOperand at h
  split_ifs at h
  cases hr : R.resolve? operand with
  | none => simp [hr] at h
  | some s =>
    simp only [hr, Except.ok.injEq] at h
    exact ⟨s, h ▸ Registry.get?_of_mem (Registry.mem_of_resolve? hr)⟩

theorem readOperand_flag {R : Registry} {subject : Subject} (hs : subject ≠ .site)
    {operand o : String} (h : readOperand R subject operand = .ok o) : isIdentifier o = true := by
  unfold readOperand at h
  split_ifs at h with hi
  cases subject with
  | site => exact absurd rfl hs
  | _ =>
    cases h
    simpa using hi

theorem exists_of_mem_mapM {f : String → Except ConditionProblem String} {as bs : List String}
    (h : as.mapM f = .ok bs) : ∀ b ∈ bs, ∃ a, f a = .ok b := by
  intro b hb
  have hf := mapM_eq_ok.1 h
  clear h
  induction hf with
  | nil => simp at hb
  | cons ha _ ih =>
    obtain rfl | hb := List.mem_cons.1 hb
    · exact ⟨_, ha⟩
    · exact ih hb

theorem sound_of_ofParts {R : Registry} {parts : Parts} {c : Condition}
    (h : ofParts R parts = .ok c) : Sound R c := by
  unfold ofParts at h
  cases hs : subject? parts.name with
  | none => simp [hs] at h
  | some subject =>
    simp only [hs] at h
    split at h
    · simp at h
    · simp at h
    · next hne _ =>
      obtain ⟨operands, ho, hc⟩ := bind_eq_ok.1 h
      cases hc
      have hlen := (mapM_eq_ok.1 ho).length_eq
      refine ⟨?_, ?_, ?_, ?_⟩
      · rintro rfl
        exact hne (List.length_eq_zero_iff.1 hlen)
      · intro hc
        exact hlen ▸ length_writtenOperands hc
      · rintro rfl o hm
        obtain ⟨a, ha⟩ := exists_of_mem_mapM ho o hm
        exact readOperand_site ha
      · intro hsub o hm
        obtain ⟨a, ha⟩ := exists_of_mem_mapM ho o hm
        exact readOperand_flag hsub ha

/-- **Whatever is read as a condition is sound.** -/
theorem sound_of_parse {R : Registry} {expression : String} {c : Condition}
    (h : parse R expression = .ok c) : Sound R c := by
  unfold parse at h
  cases hs : split? expression.toList with
  | none => simp [hs] at h
  | some parts =>
    simp only [hs] at h
    cases hp : ofParts R parts with
    | error e => simp [hp, Except.mapError] at h
    | ok c' =>
      simp only [hp, Except.mapError, Except.ok.injEq] at h
      exact h ▸ sound_of_ofParts hp

end Condition

end Crosspost
