/-
  Description trees.

  A description is a list of nodes: text, formatting, links, mentions of the
  author, switches between destinations, and conditional parts.

  * `Node.plainText` is the text of a list of nodes without its markup;
  * `Node.trimEnds` removes white space at both ends of a list.
-/
import Crosspost.Description.Chain
import Crosspost.Description.Condition
import Crosspost.Description.Position

namespace Crosspost

/-- A node of a description. -/
inductive Node where
  | text (value : String)
  | format (kind : FormatKind) (children : List Node)
  | link (url : String) (children : List Node)
  /-- The author's account at the destination. -/
  | self (position : Position)
  | switch (kind : SwitchKind) (chain : List (Binding String (List Node))) (position : Position)
  /-- A part shown when the condition holds, and one shown when it does not. -/
  | conditional (condition : Condition) (whenTrue : List Node) (whenFalse : Option (List Node))

namespace Node

mutual
/-- The text of a node, without markup. -/
def plain : Node → String
  | text value => value
  | format _ children => plainText children
  | link _ children => plainText children
  | _ => ""

/-- The text of a list of nodes, without markup. -/
def plainText : List Node → String
  | [] => ""
  | n :: ns => n.plain ++ plainText ns
end

/-- A node with its text, if it is text, passed through a function. -/
def mapText (f : String → String) : Node → Node
  | text value => text (f value)
  | n => n

/-- Whether a node is an empty text. -/
def isEmptyText : Node → Bool
  | text value => value == ""
  | _ => false

/-- The nodes without white space before a first text and after a last text,
    and without the texts that are then empty. -/
def trimEnds (nodes : List Node) : List Node :=
  let started := nodes.modifyHead (mapText Text.trimStart)
  let ended := (started.reverse.modifyHead (mapText Text.trimEnd)).reverse
  ended.filter (!·.isEmptyText)

end Node

end Crosspost
