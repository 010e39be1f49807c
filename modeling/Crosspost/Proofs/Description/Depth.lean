/-
  Trees of descriptions at every depth.

  * `Node.list_induction`: what holds of a list if it holds of the lists inside its
    first node and of the rest holds of all lists;
  * `Node.Every P ns`: the nodes in `ns`, at whatever depth, satisfy `P`, which
    `Node.every_cons` takes apart along that induction.
-/
import Crosspost.Proofs.Description.Trees

namespace Crosspost.Node

theorem sizeOf_lt_of_mem_parts {n : Node} {part : List Node} (h : part ∈ n.parts) :
    sizeOf part < sizeOf n := by
  cases n with
  | text | self => cases h
  | format kind ns =>
    obtain rfl := List.mem_singleton.1 h
    simp only [format.sizeOf_spec]
    omega
  | link url ns =>
    obtain rfl := List.mem_singleton.1 h
    simp only [link.sizeOf_spec]
    omega
  | switch kind chain p =>
    obtain ⟨b, hb, hd⟩ := List.mem_filterMap.1 h
    have hlt := List.sizeOf_lt_of_mem hb
    obtain ⟨site, attr, display⟩ := b
    cases hd
    simp only [Binding.mk.sizeOf_spec, Option.some.sizeOf_spec] at hlt
    simp only [switch.sizeOf_spec]
    omega
  | conditional c yes no =>
    rcases List.mem_cons.1 h with rfl | h
    · simp only [conditional.sizeOf_spec]
      omega
    · obtain rfl := Option.mem_def.1 (Option.mem_toList.1 h)
      simp only [conditional.sizeOf_spec, Option.some.sizeOf_spec]
      omega

/-- Induction over the lists of a tree. -/
theorem list_induction {P : List Node → Prop} (nil : P [])
    (cons : ∀ n ns, (∀ part ∈ n.parts, P part) → P ns → P (n :: ns)) (ns : List Node) : P ns := by
  induction hs : sizeOf ns using Nat.strong_induction_on generalizing ns with
  | _ s ih =>
    subst hs
    cases ns with
    | nil => exact nil
    | cons n ns =>
      have hsize := List.cons.sizeOf_spec n ns
      refine cons n ns (fun part hpart => ih _ ?_ part rfl) (ih _ ?_ ns rfl)
      · have := sizeOf_lt_of_mem_parts hpart
        omega
      · omega

/-- Every node in a list, at whatever depth, satisfies `P`. -/
def Every (P : Node → Prop) (ns : List Node) : Prop := ∀ l, Part l ns → ∀ n ∈ l, P n

variable {P Q : Node → Prop} {n : Node} {ns : List Node}

@[simp] theorem every_nil : Every P [] := by
  intro l hl n hn
  cases hl with
  | whole => simp at hn
  | inside hm => simp at hm

theorem every_cons :
    Every P (n :: ns) ↔ P n ∧ (∀ part ∈ n.parts, Every P part) ∧ Every P ns := by
  constructor
  · intro h
    refine ⟨h _ .whole n List.mem_cons_self, fun part hp l hl => ?_, fun l hl m hm => ?_⟩
    · exact h l (.inside List.mem_cons_self hp hl)
    · cases hl with
      | whole => exact h _ .whole m (List.mem_cons_of_mem _ hm)
      | inside hn hp hl => exact h l (.inside (List.mem_cons_of_mem _ hn) hp hl) m hm
  · rintro ⟨hn, hparts, hns⟩ l hl m hm
    cases hl with
    | whole =>
      rcases List.mem_cons.1 hm with rfl | hm
      · exact hn
      · exact hns _ .whole m hm
    | inside hk hp hl =>
      rcases List.mem_cons.1 hk with rfl | hk
      · exact hparts _ hp l hl m hm
      · exact hns l (.inside hk hp hl) m hm

theorem Every.mono (h : Every P ns) (hPQ : ∀ n, P n → Q n) : Every Q ns :=
  fun l hl n hn => hPQ n (h l hl n hn)

end Crosspost.Node
