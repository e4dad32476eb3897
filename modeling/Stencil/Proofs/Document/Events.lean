import Mathlib.Data.List.Forall2
import Stencil.Document.Builder
import Stencil.Proofs.Action
import Stencil.Proofs.Segmentation

/-!
# Trees and the events they are built from

The builder makes of the segments of a template what the events of a tree are made from.  A segment
`Says` one event, the builder adds events one at a time (`add_eq_ok_iff`), and a builder knows the
events that it has been given (`Builder.events`).

**Results.**  `parse_eq_ok_iff` says that a text is read as a tree exactly if its segments say the
events of the tree, in their order; `parse_eq_ok_iff_parts` says the same of the parts that it is
cut into.
-/

namespace Stencil

/-- What a segment does to the tree. -/
inductive Segment.Says : Segment → Event → Prop
  | text {content : Text} {offset : Nat} : Says (.text content offset) (.text content)
  | echo {body : Text} {offset : Nat} {tokens : List Token}
      (h : Tag.ofBody body = .ok (.echo tokens)) : Says (.tag body offset) (.echo tokens)
  | enter {body : Text} {offset : Nat} {head : LoopHead}
      (h : Tag.ofBody body = .ok (.loop head)) : Says (.tag body offset) (.enter head offset)
  | leave {body : Text} {offset : Nat}
      (h : Tag.ofBody body = .ok .close) : Says (.tag body offset) .leave

theorem Document.events_append (nodes nodes' : List Node) :
    Document.events (nodes ++ nodes') = Document.events nodes ++ Document.events nodes' := by
  induction nodes with
  | nil =>
      rfl
  | cons node nodes ih =>
      simp [Document.events, ih]

namespace Builder

/-- Adds an event, unless it closes a loop that has not been opened. -/
def addEvent (b : Builder) : Event → Option Builder
  | .text content => some (b.push (.text content))
  | .echo tokens => some (b.push (.echo tokens))
  | .enter head offset => some ⟨[], ⟨head, offset, b.nodes⟩ :: b.loops⟩
  | .leave =>
      match b.loops with
      | [] => none
      | loop :: outer =>
          some ⟨.loop loop.head loop.offset b.nodes.reverse :: loop.earlier, outer⟩

theorem add_eq_ok_iff {b b' : Builder} {s : Segment} :
    b.add s = .ok b' ↔ ∃ e, s.Says e ∧ b.addEvent e = some b' := by
  constructor
  · intro h
    cases s with
    | text content offset =>
        exact ⟨_, .text, congrArg some (Except.ok.inj h)⟩
    | tag body offset =>
        cases htag : Tag.ofBody body with
        | error cause =>
            simp [add, htag] at h
        | ok tag =>
            simp only [add, htag] at h
            cases tag with
            | echo tokens =>
                exact ⟨_, .echo htag, congrArg some (Except.ok.inj h)⟩
            | loop head =>
                exact ⟨_, .enter htag, congrArg some (Except.ok.inj h)⟩
            | close =>
                refine ⟨_, .leave htag, ?_⟩
                cases hloops : b.loops with
                | nil =>
                    simp [addTag, hloops] at h
                | cons loop outer =>
                    simpa [addTag, addEvent, hloops] using h
  · rintro ⟨e, hsays, h⟩
    cases hsays with
    | text =>
        exact congrArg Except.ok (Option.some.inj h)
    | echo htag =>
        simpa [add, htag, addTag, addEvent] using h
    | enter htag =>
        simpa [add, htag, addTag, addEvent] using h
    | leave htag =>
        cases hloops : b.loops with
        | nil =>
            simp [addEvent, hloops] at h
        | cons loop outer =>
            simpa [add, htag, addTag, addEvent, hloops] using h

theorem foldlM_add_eq_ok_iff {segments : List Segment} {b b' : Builder} :
    segments.foldlM add b = .ok b' ↔
      ∃ events, List.Forall₂ Segment.Says segments events ∧ events.foldlM addEvent b = some b' := by
  induction segments generalizing b with
  | nil =>
      simp [pure, Except.pure]
  | cons s segments ih =>
      rw [List.foldlM_cons, bind_eq_ok_iff]
      constructor
      · rintro ⟨b₁, hadd, hrest⟩
        obtain ⟨e, hsays, hevent⟩ := add_eq_ok_iff.1 hadd
        obtain ⟨events, hall, hfold⟩ := ih.1 hrest
        exact ⟨e :: events, .cons hsays hall, by simp [hevent, hfold]⟩
      · rintro ⟨events, hall, hfold⟩
        cases hall with
        | @cons _ e _ events hsays hall =>
            rw [List.foldlM_cons, Option.bind_eq_bind, Option.bind_eq_some_iff] at hfold
            obtain ⟨b₁, hevent, hfold⟩ := hfold
            exact ⟨b₁, add_eq_ok_iff.2 ⟨e, hsays, hevent⟩, ih.2 ⟨events, hall, hfold⟩⟩

/-- The events of the loops that are open, and of what was found before each of them. -/
def loopEvents : List OpenLoop → List Event
  | [] => []
  | loop :: outer =>
      loopEvents outer ++ (Document.events loop.earlier.reverse ++ [.enter loop.head loop.offset])

/-- The events that a builder has been given. -/
def events (b : Builder) : List Event := loopEvents b.loops ++ Document.events b.nodes.reverse

theorem events_push (b : Builder) (node : Node) :
    (b.push node).events = b.events ++ node.events := by
  simp [events, push, Document.events_append, Document.events]

theorem events_addEvent {b b' : Builder} {e : Event} (h : b.addEvent e = some b') :
    b'.events = b.events ++ [e] := by
  cases e with
  | text content =>
      obtain rfl := Option.some.inj h
      exact events_push b _
  | echo tokens =>
      obtain rfl := Option.some.inj h
      exact events_push b _
  | enter head offset =>
      obtain rfl := Option.some.inj h
      simp [events, loopEvents, Document.events]
  | leave =>
      cases hloops : b.loops with
      | nil =>
          simp [addEvent, hloops] at h
      | cons loop outer =>
          simp only [addEvent, hloops, Option.some.injEq] at h
          subst h
          simp [events, hloops, loopEvents, Document.events, Document.events_append, Node.events]

theorem events_foldlM {events : List Event} {b b' : Builder}
    (h : events.foldlM addEvent b = some b') : b'.events = b.events ++ events := by
  induction events generalizing b with
  | nil =>
      obtain rfl := Option.some.inj h
      simp
  | cons e events ih =>
      rw [List.foldlM_cons, Option.bind_eq_bind, Option.bind_eq_some_iff] at h
      obtain ⟨b₁, hevent, hfold⟩ := h
      rw [ih hfold, events_addEvent hevent, List.append_assoc, List.singleton_append]

mutual

/-- The events of a node build the node. -/
theorem foldlM_node : ∀ (node : Node) (b : Builder),
    node.events.foldlM addEvent b = some (b.push node)
  | .text _, _ => rfl
  | .echo _, _ => rfl
  | .loop head offset body, b => by
      rw [Node.events, List.foldlM_cons]
      show (Document.events body ++ [Event.leave]).foldlM addEvent
        ⟨[], ⟨head, offset, b.nodes⟩ :: b.loops⟩ = _
      rw [List.foldlM_append, foldlM_nodes body]
      simp [addEvent, push]

/-- The events of a list of nodes build the nodes. -/
theorem foldlM_nodes : ∀ (nodes : List Node) (b : Builder),
    (Document.events nodes).foldlM addEvent b = some ⟨nodes.reverse ++ b.nodes, b.loops⟩
  | [], _ => rfl
  | node :: nodes, b => by
      rw [Document.events, List.foldlM_append, foldlM_node node]
      show (Document.events nodes).foldlM addEvent (b.push node) = _
      rw [foldlM_nodes nodes]
      simp [push]

end

end Builder

namespace Document

/-- A text is read as a tree exactly if its segments say the events of the tree. -/
theorem parse_eq_ok_iff {t : Text} {d : Document} :
    parse t = .ok d ↔ ∃ segments, Segment.scan t = (segments, none) ∧
      List.Forall₂ Segment.Says segments (events d) := by
  have hmap : parse t = .ok d ↔ ofScan (Segment.scan t) = .ok d := by
    unfold parse
    cases ofScan (Segment.scan t) with
    | error fault =>
        exact ⟨nofun, nofun⟩
    | ok d' =>
        constructor
        · intro h
          exact congrArg Except.ok (Except.ok.inj h)
        · intro h
          exact congrArg Except.ok (Except.ok.inj h)
  rw [hmap]
  obtain ⟨segments, failure⟩ := Segment.scan t
  simp only [ofScan, bind_eq_ok_iff]
  constructor
  · rintro ⟨b, hfold, hend⟩
    obtain ⟨es, hall, hfold⟩ := Builder.foldlM_add_eq_ok_iff.1 hfold
    cases failure with
    | some failure =>
        simp at hend
    | none =>
        obtain ⟨nodes, loops⟩ := b
        cases loops with
        | cons loop outer =>
            simp [Builder.finish] at hend
        | nil =>
            obtain rfl : nodes.reverse = d := Except.ok.inj hend
            have hevents : events nodes.reverse = es := Builder.events_foldlM hfold
            exact ⟨segments, rfl, hevents ▸ hall⟩
  · rintro ⟨segments', hscan, hall⟩
    obtain ⟨rfl, rfl⟩ := Prod.mk.inj hscan
    refine ⟨⟨d.reverse, []⟩, Builder.foldlM_add_eq_ok_iff.2 ⟨_, hall, ?_⟩, ?_⟩
    · rw [Builder.foldlM_nodes d]
      simp [Builder.empty]
    · simp [Builder.finish]

open Segment in
/-- A text is read exactly if it is cut into parts whose segments say the events of the tree. -/
theorem parse_eq_ok_iff_parts {t : Text} {d : Document} :
    parse t = .ok d ↔ ∃ parts, Separated parts ∧ raws parts = t ∧
      List.Forall₂ Says (segmentsFrom 0 parts) (events d) := by
  rw [parse_eq_ok_iff]
  constructor
  · rintro ⟨segments, hscan, hall⟩
    obtain ⟨parts, hsep, rfl⟩ := exists_parts (congrArg Prod.snd hscan)
    obtain ⟨rfl, -⟩ := Prod.mk.inj ((scan_raws hsep).symm.trans hscan)
    exact ⟨parts, hsep, rfl, hall⟩
  · rintro ⟨parts, hsep, rfl, hall⟩
    exact ⟨_, scan_raws hsep, hall⟩

end Document
end Stencil
