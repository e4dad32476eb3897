import Stencil.Document.Basic
import Stencil.Segment

/-!
# Building the tree of a template

The tree is built from the segments in one pass.  A `Builder` holds the nodes found so far in the
innermost open container, and for each open loop around it what was found before the loop.

A template is refused at the first of its faults, in the order of the segments: a tag that says
nothing known, an end tag outside of all loops, then what is wrong with the text after the last
segment, and at last a loop that is still open, of which the innermost is reported.
-/

namespace Stencil

/-- A loop whose end tag has not been read, and the nodes before it, in reverse. -/
structure OpenLoop where
  head : LoopHead
  offset : Nat
  earlier : List Node

/-- The nodes of the innermost open container, in reverse, and the open loops, innermost first. -/
structure Builder where
  nodes : List Node
  loops : List OpenLoop

namespace Builder

/-- Nothing has been read. -/
def empty : Builder := ⟨[], []⟩

/-- One more node in the innermost container. -/
def push (b : Builder) (node : Node) : Builder := ⟨node :: b.nodes, b.loops⟩

/-- Adds what a tag at an offset says. -/
def addTag (b : Builder) (offset : Nat) : Tag → Except (Malformed × Nat) Builder
  | .echo tokens => .ok (b.push (.echo tokens))
  | .loop head => .ok ⟨[], ⟨head, offset, b.nodes⟩ :: b.loops⟩
  | .close =>
      match b.loops with
      | [] => .error (.unmatchedEnd, offset)
      | loop :: outer =>
          .ok ⟨.loop loop.head loop.offset b.nodes.reverse :: loop.earlier, outer⟩

/-- Adds a segment. -/
def add (b : Builder) : Segment → Except (Malformed × Nat) Builder
  | .text content _ => .ok (b.push (.text content))
  | .tag body offset =>
      match Tag.ofBody body with
      | .ok tag => b.addTag offset tag
      | .error cause => .error (cause, offset)

/-- The document, once all segments have been added. -/
def finish (b : Builder) : Except (Malformed × Nat) Document :=
  match b.loops with
  | [] => .ok b.nodes.reverse
  | loop :: _ => .error (.openLoop loop.head.counter, loop.offset)

end Builder

namespace Document

/-- The document of a scanned template, or the first fault with its offset. -/
def ofScan (scan : Segment.Scan) : Except (Malformed × Nat) Document := do
  let b ← scan.1.foldlM Builder.add Builder.empty
  match scan.2 with
  | some failure => .error failure
  | none => b.finish

/-- Reads a template. -/
def parse (text : Text) : Except ParseFailure Document :=
  (ofScan (Segment.scan text)).mapError fun fault => .locate text fault.1 fault.2

end Document
end Stencil
