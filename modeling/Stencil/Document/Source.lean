import Stencil.Document.Basic

/-!
# Documents as they are written

`Document.source` writes a document as a template, and `Document.outline` as a list of its nodes,
one on each line, indented by their depth.
-/

namespace Stencil

/-- The arguments of a loop, in order. -/
def LoopHead.arguments (head : LoopHead) : List Token :=
  [.var head.counter, head.first, head.last] ++ head.step.toList

/-- A run of text, with a backslash before each bracket. -/
def Segment.sourceText (content : Text) : Text :=
  content.flatMap fun c => if c = .char '[' then [.char '\\', c] else [c]

mutual

/-- A node as a template. -/
def Node.source : Node → Text
  | .text content => Segment.sourceText content
  | .echo tokens => "[$= ".toText ++ Token.sources tokens ++ " $]".toText
  | .loop head _ body =>
      "[$FOR ".toText ++ Token.sources head.arguments ++ " $]".toText
        ++ Document.source body ++ "[$END$]".toText

/-- A list of nodes as a template. -/
def Document.source : List Node → Text
  | [] => []
  | node :: rest => node.source ++ Document.source rest

end

/-- One line about a node. -/
def Node.summary : Node → Text
  | .text content => "Text(".toText ++ Text.quoted (Text.excerpt content 64) ++ [.char ')']
  | .echo tokens => "Echo(".toText ++ Token.sources tokens ++ [.char ')']
  | .loop head _ body =>
      "For(".toText ++ Text.joinWith ", ".toText (head.arguments.map Token.source) ++ ")[".toText
        ++ Text.ofNat body.length ++ [.char ']']

/-- One line about a document. -/
def Document.summary (d : Document) : Text :=
  "Document[".toText ++ Text.ofNat d.length ++ [.char ']']

mutual

/-- The lines about a node at a depth and what it holds. -/
def Node.outlineLines (indent : Text) (depth : Nat) : Node → List Text
  | .text content => [(List.replicate depth indent).flatten ++ (Node.text content).summary]
  | .echo tokens => [(List.replicate depth indent).flatten ++ (Node.echo tokens).summary]
  | .loop head offset body =>
      ((List.replicate depth indent).flatten ++ (Node.loop head offset body).summary)
        :: Document.outlineLines indent (depth + 1) body

/-- The lines about a list of nodes at a depth. -/
def Document.outlineLines (indent : Text) (depth : Nat) : List Node → List Text
  | [] => []
  | node :: rest =>
      node.outlineLines indent depth ++ Document.outlineLines indent depth rest

end

/-- The document and its nodes, one on each line. -/
def Document.outline (indent : Text) (d : Document) : Text :=
  Text.joinWith ['\n'] (d.summary :: Document.outlineLines indent 1 d)

end Stencil
