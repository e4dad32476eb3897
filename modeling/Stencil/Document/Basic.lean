import Stencil.Tag.Basic

/-!
# Documents

The tree of a template: runs of text, echo tags, and loops around further nodes.

`Document.events` lists the nodes of a document in the order of the template, with one event where a
loop opens and one where it closes.
-/

namespace Stencil

/-- A node of a document.  A loop knows the offset of the tag that opens it. -/
inductive Node
  | text (content : Text)
  | echo (tokens : List Token)
  | loop (head : LoopHead) (offset : Nat) (body : List Node)

/-- A document is the list of its outermost nodes. -/
abbrev Document := List Node

/-- What a template does to the tree, in the order of the template. -/
inductive Event
  | text (content : Text)
  | echo (tokens : List Token)
  | enter (head : LoopHead) (offset : Nat)
  | leave
deriving DecidableEq

mutual

/-- The events of a node. -/
def Node.events : Node → List Event
  | .text content => [.text content]
  | .echo tokens => [.echo tokens]
  | .loop head offset body => .enter head offset :: (Document.events body ++ [.leave])

/-- The events of a list of nodes. -/
def Document.events : List Node → List Event
  | [] => []
  | node :: rest => node.events ++ Document.events rest

end

end Stencil
