/-
  Trees without positions.

  * `Document.tree? R source`: the tree of a source without the positions in it, if it has
    one;
  * `Document.tree?_eq`: **the tree depends on the lexemes of the source only**;
  * `Document.render_unplaced`: nodes are rendered as they are without their positions, but
    for the positions of gaps, and so nodes that differ in positions only are rendered alike
    (`Document.render_eq_of_unplaced`).
-/
import Crosspost.Proofs.Description.Conditionals

namespace Crosspost

/-- The position of everything in a tree without positions. -/
def Position.nowhere : Position := ⟨0, 0, 0⟩

/-- Nodes without their positions. -/
def Node.unplaced (ns : List Node) : List Node := moveAll (fun _ => .nowhere) ns

/-- What is written, without the positions of its gaps. -/
def Rendered.unplaced (r : Rendered) : Rendered := r.move fun _ => .nowhere

/-- A lexeme as a token without a position. -/
def Lexeme.token (l : Lexeme) : Token := ⟨l, .nowhere⟩

theorem toOption_congr {ε α : Type} {x y : Except ε α} (h : ∀ a, x = .ok a ↔ y = .ok a) :
    x.toOption = y.toOption := by
  cases x with
  | ok a => rw [(h a).1 rfl]
  | error e =>
    cases y with
    | ok a => cases (h a).2 rfl
    | error e => rfl

theorem toOption_bind {ε α β : Type} (x : Except ε α) (f : α → Except ε β) :
    (x >>= f).toOption = x.toOption.bind fun a => (f a).toOption := by
  cases x <;> rfl

theorem toOption_moved {α β : Type} (f : Position → Position) (g : α → β)
    (x : Except ParseError α) : (moved f g x).toOption = x.toOption.map g := by
  cases x <;> rfl

namespace Document

variable {R : Registry}

/-- The tree of a source without positions; nothing if the source is refused. -/
def tree? (R : Registry) (source : String) : Option (List Node) :=
  (parse R source).toOption.map Node.unplaced

/-- Positions are carried along only. -/
theorem toOption_run_token (R : Registry) (ts : List Token) :
    (Reading.start.run R ((ts.map (·.lexeme)).map Lexeme.token)).toOption =
      (ofTokens R ts).toOption.map Node.unplaced := by
  have hmove := ofTokens_move R (fun _ => .nowhere) ts
  rw [ofTokens_eq_run] at hmove
  rw [List.map_map, ← toOption_moved fun _ => .nowhere]
  exact congrArg _ hmove

/-- **The tree depends on the lexemes of the source only.** -/
theorem tree?_eq (R : Registry) (source : String) : tree? R source =
    (Reading.start.run R ((Lexeme.scan source.toList).map Lexeme.token)).toOption := by
  rw [tree?, parse, ← toOption_run_token, Token.ofSource, Token.map_lexeme_place]

/-- A source has the tree that the grammar derives its lexemes as. -/
theorem tree?_eq_some_iff {source : String} {ns : List Node} : tree? R source = some ns ↔
    Grammar.Derives R (.nodes .block ns) ((Lexeme.scan source.toList).map Lexeme.token) := by
  rw [tree?_eq, ← ofTokens_eq_ok_iff, ofTokens_eq_run]
  cases Reading.start.run R ((Lexeme.scan source.toList).map Lexeme.token) <;>
    simp [Except.toOption]

theorem exists_parse_of_tree? {source : String} {ns : List Node} (h : tree? R source = some ns) :
    ∃ ms, parse R source = .ok ms ∧ Node.unplaced ms = ns := by
  obtain ⟨ms, hparse, hms⟩ := Option.map_eq_some_iff.1 h
  cases hr : parse R source with
  | error e => simp [hr, Except.toOption] at hparse
  | ok ns' =>
    rw [hr, Except.toOption, Option.some.injEq] at hparse
    exact ⟨ns', rfl, hparse ▸ hms⟩

/-- Without their positions nodes are rendered as they are, but for the positions of gaps. -/
theorem render_unplaced (R : Registry) (usernames : Usernames) (flags : List String)
    (ns : List Node) (target : String) :
    render R usernames flags (Node.unplaced ns) target =
      (render R usernames flags ns target).unplaced := by
  unfold render
  cases R.get? target with
  | none => rfl
  | some site => exact Node.renderAll_move ns

/-- Nodes that differ in positions only are rendered alike, but for the positions of
    gaps. -/
theorem render_eq_of_unplaced {ms ns : List Node} (h : Node.unplaced ms = Node.unplaced ns)
    (usernames : Usernames) (flags : List String) (target : String) :
    (render R usernames flags ms target).unplaced =
      (render R usernames flags ns target).unplaced := by
  rw [← render_unplaced, ← render_unplaced, h]

end Document

end Crosspost
