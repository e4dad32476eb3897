import Stencil.Proofs.Document.Events
import Stencil.Proofs.Tag.Tokens
import Stencil.Proofs.Token.Read

/-!
# The tokens of a document

The tokens of a document are those of its events, and each of them has been read from a field of a
tag (`readable_of_mem_tokens`).
-/

namespace Stencil

/-- What a tag at an offset does to the tree. -/
def Tag.event (offset : Nat) : Tag → Event
  | .echo tokens => .echo tokens
  | .loop head => .enter head offset
  | .close => .leave

theorem Segment.says_tag_iff {body : Text} {offset : Nat} {e : Event} :
    (Segment.tag body offset).Says e ↔ ∃ tag, Tag.ofBody body = .ok tag ∧ e = tag.event offset := by
  constructor
  · intro h
    cases h with
    | echo h => exact ⟨_, h, rfl⟩
    | enter h => exact ⟨_, h, rfl⟩
    | leave h => exact ⟨_, h, rfl⟩
  · rintro ⟨tag, h, rfl⟩
    cases tag with
    | echo tokens => exact .echo h
    | loop head => exact .enter h
    | close => exact .leave h

mutual

/-- The tokens of a node, at every depth. -/
def Node.tokens : Node → List Token
  | .text _ => []
  | .echo tokens => tokens
  | .loop head _ body => head.arguments ++ Document.tokens body

/-- The tokens of a document, at every depth. -/
def Document.tokens : List Node → List Token
  | [] => []
  | node :: rest => node.tokens ++ Document.tokens rest

end

/-- The tokens of an event. -/
def Event.tokens : Event → List Token
  | .text _ => []
  | .echo tokens => tokens
  | .enter head _ => head.arguments
  | .leave => []

mutual

theorem Node.tokens_eq_flatMap : ∀ node : Node, node.tokens = node.events.flatMap Event.tokens
  | .text _ => rfl
  | .echo _ => by
      simp [Node.tokens, Node.events, Event.tokens]
  | .loop head offset body => by
      rw [Node.tokens, Document.tokens_eq_flatMap body]
      simp [Node.events, Event.tokens]

theorem Document.tokens_eq_flatMap :
    ∀ d : List Node, Document.tokens d = (Document.events d).flatMap Event.tokens
  | [] => rfl
  | node :: rest => by
      rw [Document.tokens, Document.events, List.flatMap_append, Node.tokens_eq_flatMap node,
        Document.tokens_eq_flatMap rest]

end

/-- A segment says tokens that have been read. -/
theorem Segment.readable_of_says {s : Segment} {e : Event} (h : s.Says e) :
    ∀ token ∈ e.tokens, token.Readable := by
  intro token htoken
  cases s with
  | text content offset =>
      cases h
      simp [Event.tokens] at htoken
  | tag body offset =>
      obtain ⟨tag, hread, rfl⟩ := says_tag_iff.1 h
      have hmem : token ∈ tag.tokens := by
        cases tag with
        | echo tokens => exact htoken
        | loop head => exact htoken
        | close => exact htoken
      obtain ⟨fields, -, hfields⟩ := Tag.fields_of_ofBody hread
      obtain ⟨field, -, hfield⟩ := exists_of_forall₂ hfields hmem
      exact Token.readable_of_ofField hfield

namespace Document

/-- The tokens of an event of a document that was read have been read. -/
theorem readable_of_mem_events {t : Text} {d : Document} (h : parse t = .ok d) {e : Event}
    (he : e ∈ events d) : ∀ token ∈ e.tokens, token.Readable := by
  obtain ⟨segments, -, hall⟩ := parse_eq_ok_iff.1 h
  obtain ⟨segment, -, hsays⟩ := exists_of_forall₂ hall he
  exact Segment.readable_of_says hsays

/-- The tokens of a document that was read have been read. -/
theorem readable_of_mem_tokens {t : Text} {d : Document} (h : parse t = .ok d) :
    ∀ token ∈ tokens d, token.Readable := by
  intro token htoken
  rw [tokens_eq_flatMap] at htoken
  obtain ⟨e, he, htoken⟩ := List.mem_flatMap.1 htoken
  exact readable_of_mem_events h he token htoken

end Document
end Stencil
