import Stencil.Proofs.Document.Tokens
import Stencil.Proofs.Segmentation
import Stencil.Proofs.Tag.Source

/-!
# The segments of a document that is written

A document is written event by event.  Its runs of text are written as they stood in the template,
unit by unit, and its tags in one form.

**Results.**
* `source_eq_flatMap`: the text of a document is that of its events.
* `scan_source`: the text of a document that has been read is scanned into segments that say the
  same events, with the text literals as `Escape.reread` says.
-/

namespace Stencil

/-- A tag as a template. -/
def Tag.enclosed (tag : Tag) : Text := '[' :: '$' :: (tag.source ++ [.char '$', .char ']'])

namespace Event

/-- An event as a template. -/
def source : Event → Text
  | .text content => Segment.sourceText content
  | .echo tokens => (Tag.echo tokens).enclosed
  | .enter head _ => (Tag.loop head).enclosed
  | .leave => Tag.close.enclosed

/-- An event after it has been written and read again at an offset. -/
def reread (offset : Nat) : Event → Event
  | .text content => .text content
  | .echo tokens => .echo (tokens.map Token.reread)
  | .enter head _ => .enter head.reread offset
  | .leave => .leave

/-- The second event is the first one, written and read again at some offset. -/
def Rereads (e e' : Event) : Prop := ∃ offset, e' = e.reread offset

end Event

theorem Tag.source_event (tag : Tag) (offset : Nat) : (tag.event offset).source = tag.enclosed := by
  cases tag <;> rfl

theorem Tag.reread_event (tag : Tag) (offset offset' : Nat) :
    (tag.event offset).reread offset' = tag.reread.event offset' := by
  cases tag <;> rfl

theorem Node.source_text (content : Text) :
    (Node.text content).source = Segment.sourceText content := rfl

theorem Node.source_echo (tokens : List Token) :
    (Node.echo tokens).source = "[$= ".toText ++ Token.sources tokens ++ " $]".toText := rfl

theorem Node.source_loop (head : LoopHead) (offset : Nat) (body : List Node) :
    (Node.loop head offset body).source =
      "[$FOR ".toText ++ Token.sources head.arguments ++ " $]".toText
        ++ Document.source body ++ "[$END$]".toText := rfl

theorem Document.source_cons (node : Node) (rest : List Node) :
    Document.source (node :: rest) = node.source ++ Document.source rest := rfl

mutual

theorem Node.source_eq_flatMap : ∀ node : Node, node.source = node.events.flatMap Event.source
  | .text content => by
      rw [Node.source_text]
      simp [Node.events, Event.source]
  | .echo tokens => by
      rw [Node.source_echo]
      simp [Node.events, Event.source, Tag.enclosed, Tag.source]
  | .loop head offset body => by
      rw [Node.source_loop, Document.source_eq_flatMap body]
      simp [Node.events, Event.source, Tag.enclosed, Tag.source]

/-- The text of a document is that of its events. -/
theorem Document.source_eq_flatMap :
    ∀ d : List Node, Document.source d = (Document.events d).flatMap Event.source
  | [] => rfl
  | node :: rest => by
      rw [Document.source_cons, Document.events, List.flatMap_append, Node.source_eq_flatMap node,
        Document.source_eq_flatMap rest]

end

namespace Segment

theorem sourceText_append (s t : Text) : sourceText (s ++ t) = sourceText s ++ sourceText t := by
  simp [sourceText]

/-- Text is written as it stood in the template. -/
theorem sourceText_content (units : List TextUnit) :
    sourceText (units.flatMap TextUnit.content) = units.flatMap TextUnit.raw := by
  induction units with
  | nil =>
      rfl
  | cons u units ih =>
      have hunit : sourceText u.content = u.raw := by
        cases u with
        | plain c hbracket hslash =>
            simp [TextUnit.content, TextUnit.raw, sourceText, hbracket]
        | escaped c =>
            by_cases hc : c = '['
            · subst hc
              rfl
            · simp [TextUnit.content, TextUnit.raw, sourceText, hc]
      rw [List.flatMap_cons, List.flatMap_cons, sourceText_append, hunit, ih]

/-- A tag that can be written, as it is written. -/
def written (tag : Tag) (h : tag.Writable) : WrittenTag where
  opening := 0
  body := tag.source
  closing := 0
  body_ne_nil := tag.source_ne_nil
  dollar_not_mem := Tag.dollar_not_mem_source h

theorem raw_written (tag : Tag) (h : tag.Writable) : (written tag h).raw = tag.enclosed := rfl

/-- A part that says an event becomes a part of the same kind, which is written as the event is. -/
theorem exists_part_source {part : Part} {offset : Nat} {e : Event}
    (h : (part.segment offset).Says e) :
    ∃ part' : Part, part'.raw = e.source ∧ part'.isRun = part.isRun ∧
      ∀ offset', ∃ e', (part'.segment offset').Says e' ∧ e.Rereads e' := by
  cases part with
  | run units hne =>
      cases h with
      | text =>
          exact ⟨.run units hne, (sourceText_content units).symm, rfl,
            fun offset' => ⟨_, .text, offset', rfl⟩⟩
  | tag t =>
      obtain ⟨tag, hread, rfl⟩ := says_tag_iff.1 h
      have hwritable := Tag.writable_of_ofBody t.dollar_not_mem hread
      refine ⟨.tag (written tag hwritable), ?_, rfl, fun offset' => ?_⟩
      · rw [Tag.source_event]
        exact raw_written tag hwritable
      · refine ⟨tag.reread.event offset', ?_, offset', (tag.reread_event offset offset').symm⟩
        exact says_tag_iff.2 ⟨tag.reread, Tag.ofBody_source hwritable, rfl⟩

theorem exists_parts_source {parts : List Part} {offset : Nat} {events : List Event}
    (h : List.Forall₂ Says (segmentsFrom offset parts) events) :
    ∃ parts' : List Part, raws parts' = events.flatMap Event.source ∧
      parts'.map Part.isRun = parts.map Part.isRun ∧
      ∀ offset', ∃ events', List.Forall₂ Says (segmentsFrom offset' parts') events' ∧
        List.Forall₂ Event.Rereads events events' := by
  induction parts generalizing offset events with
  | nil =>
      cases h
      exact ⟨[], rfl, rfl, fun _ => ⟨[], .nil, .nil⟩⟩
  | cons part parts ih =>
      cases h with
      | @cons _ e _ events hsays hrest =>
          obtain ⟨part', hraw, hrun, hpart⟩ := exists_part_source hsays
          obtain ⟨parts', hraws, hruns, hparts⟩ := ih hrest
          refine ⟨part' :: parts', ?_, ?_, fun offset' => ?_⟩
          · rw [raws_cons, hraw, hraws, List.flatMap_cons]
          · rw [List.map_cons, List.map_cons, hrun, hruns]
          -- The parts behind are moved by the length of what the first part has become.
          · obtain ⟨e', he', hreread⟩ := hpart offset'
            obtain ⟨events', hevents', hall⟩ := hparts (offset' + part'.raw.length)
            exact ⟨e' :: events', .cons he' hevents', .cons hreread hall⟩

theorem separated_iff {parts : List Part} :
    Separated parts ↔ (parts.map Part.isRun).IsChain fun p q => (p && q) = false := by
  unfold Separated
  rw [List.isChain_map]

end Segment

namespace Document

/-- The text of a document that has been read is scanned into segments that say the same events,
with the text literals as `Escape.reread` says. -/
theorem scan_source {t : Text} {d : Document} (h : parse t = .ok d) :
    ∃ segments events', Segment.scan (source d) = (segments, none) ∧
      List.Forall₂ Segment.Says segments events' ∧
      List.Forall₂ Event.Rereads (events d) events' := by
  obtain ⟨parts, hsep, rfl, hall⟩ := parse_eq_ok_iff_parts.1 h
  obtain ⟨parts', hraws, hruns, hparts⟩ := Segment.exists_parts_source hall
  obtain ⟨events', hsays, hreread⟩ := hparts 0
  have hsep' : Segment.Separated parts' := by
    rw [Segment.separated_iff] at hsep ⊢
    rw [hruns]
    exact hsep
  refine ⟨_, events', ?_, hsays, hreread⟩
  rw [source_eq_flatMap, ← hraws]
  exact Segment.scan_raws hsep'

end Document
end Stencil
