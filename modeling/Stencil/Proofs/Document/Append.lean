import Stencil.Proofs.Document.Events

/-!
# Templates one after the other

The tree of two templates that are put together.

`Document.join` puts the nodes of two documents one behind the other and makes one of the runs of
text that meet.  `Document.shift` moves the offsets of the loops.

**Argument.**  A text that is scanned is cut into parts in one way, and so is the other one.  If a
run of units ends the first text and another one begins the second, the two runs are one run of the
whole text, which stands for what they stand for; otherwise the parts stay what they were.  What a
segment says does not depend on its offset, but for the offset of a loop.

**Results.**  `Document.parse_append_eq`: if two texts are read, then so is the one put together
from them, as the two trees joined.
-/

namespace Stencil

mutual

/-- A node, with every offset moved. -/
def Node.shift (n : Nat) : Node → Node
  | .text content => .text content
  | .echo tokens => .echo tokens
  | .loop head offset body => .loop head (offset + n) (Document.shift n body)

/-- A document, with every offset moved. -/
def Document.shift (n : Nat) : List Node → List Node
  | [] => []
  | node :: rest => node.shift n :: Document.shift n rest

end

/-- An event, with its offset moved. -/
def Event.shift (n : Nat) : Event → Event
  | .enter head offset => .enter head (offset + n)
  | e => e

/-- A segment, with its offset moved. -/
def Segment.shift (n : Nat) : Segment → Segment
  | .text content offset => .text content (offset + n)
  | .tag body offset => .tag body (offset + n)

mutual

theorem Node.events_shift (n : Nat) : ∀ node : Node,
    (node.shift n).events = node.events.map (Event.shift n)
  | .text _ => rfl
  | .echo _ => rfl
  | .loop head offset body => by
      simp [Node.shift, Node.events, Event.shift, Document.events_shift n body]

theorem Document.events_shift (n : Nat) : ∀ nodes : List Node,
    Document.events (Document.shift n nodes) = (Document.events nodes).map (Event.shift n)
  | [] => rfl
  | node :: nodes => by
      simp [Document.shift, Document.events, Node.events_shift n node,
        Document.events_shift n nodes]

end

/-- What a segment says moves with it. -/
theorem Segment.Says.shift {s : Segment} {e : Event} (h : s.Says e) (n : Nat) :
    (s.shift n).Says (e.shift n) := by
  cases h with
  | text =>
      exact .text
  | echo h =>
      exact .echo h
  | enter h =>
      exact .enter h
  | leave h =>
      exact .leave h

namespace Segment

theorem Part.segment_shift (part : Part) (offset n : Nat) :
    part.segment (offset + n) = (part.segment offset).shift n := by
  cases part <;> rfl

theorem segmentsFrom_shift (parts : List Part) (offset n : Nat) :
    segmentsFrom (offset + n) parts = (segmentsFrom offset parts).map (Segment.shift n) := by
  induction parts generalizing offset with
  | nil =>
      rfl
  | cons part parts ih =>
      rw [segmentsFrom, segmentsFrom, Nat.add_right_comm, ih, List.map_cons, part.segment_shift]

theorem segmentsFrom_append (parts parts' : List Part) (offset : Nat) :
    segmentsFrom offset (parts ++ parts') =
      segmentsFrom offset parts ++ segmentsFrom (offset + (raws parts).length) parts' := by
  induction parts generalizing offset with
  | nil =>
      rfl
  | cons part parts ih =>
      rw [List.cons_append, segmentsFrom, segmentsFrom, ih, List.cons_append, raws_cons,
        List.length_append, Nat.add_assoc]

theorem raws_append (parts parts' : List Part) :
    raws (parts ++ parts') = raws parts ++ raws parts' := by
  simp [raws]

end Segment

namespace Document

/-- The nodes of two documents, where a run of text at the end of the first one and one at the
beginning of the second one are made one. -/
def join : Document → Document → Document
  | [], e => e
  | [.text s], .text t :: e => .text (s ++ t) :: e
  | node :: d, e => node :: join d e

theorem join_cons_cons (node node' : Node) (d e : Document) :
    join (node :: node' :: d) e = node :: join (node' :: d) e := by
  cases node <;> rfl

theorem join_text (d e : Document) (s t : Text) :
    join (d ++ [.text s]) (.text t :: e) = d ++ .text (s ++ t) :: e := by
  induction d with
  | nil =>
      rfl
  | cons node d ih =>
      rw [List.cons_append, List.cons_append, ← ih]
      cases d <;> exact join_cons_cons _ _ _ _

/-- Nothing is made one unless a run of text ends the first document and one begins the second. -/
theorem join_eq_append {d e : Document}
    (h : ∀ s t, d.getLast? = some (.text s) → e.head? ≠ some (.text t)) : join d e = d ++ e := by
  induction d with
  | nil =>
      rfl
  | cons node d ih =>
      cases d with
      | cons node' d =>
          rw [join_cons_cons, ih fun s t hs => h s t (by simpa using hs)]
          rfl
      | nil =>
          cases node with
          | echo tokens | loop head offset body =>
              rfl
          | text s =>
              cases e with
              | nil =>
                  rfl
              | cons node e =>
                  cases node with
                  | text t =>
                      exact absurd rfl (h s t rfl)
                  | echo tokens | loop head offset body =>
                      rfl

/-- A document ends with a run of text if its last event is one. -/
theorem eq_append_text {d : Document} {events : List Event} {s : Text}
    (h : Document.events d = events ++ [.text s]) :
    ∃ d₀, d = d₀ ++ [.text s] ∧ Document.events d₀ = events := by
  rcases List.eq_nil_or_concat' d with rfl | ⟨d₀, node, rfl⟩
  · simp [Document.events] at h
  · have hlast := congrArg List.getLast? h
    cases node with
    | text content =>
        rw [events_append] at h
        obtain ⟨hevents, hcontent⟩ := List.append_inj' h rfl
        simp only [Document.events, Node.events, List.append_nil, List.cons.injEq,
          and_true] at hcontent
        obtain rfl := Event.text.inj hcontent
        exact ⟨d₀, rfl, hevents⟩
    | echo tokens | loop head offset body =>
        simp [events_append, Document.events, Node.events, List.getLast?_cons] at hlast

/-- A document begins with a run of text if its first event is one. -/
theorem eq_cons_text {d : Document} {events : List Event} {s : Text}
    (h : Document.events d = .text s :: events) :
    ∃ d₀, d = .text s :: d₀ ∧ Document.events d₀ = events := by
  cases d with
  | nil =>
      simp [Document.events] at h
  | cons node d₀ =>
      cases node with
      | text content =>
          obtain ⟨hcontent, hevents⟩ := List.cons.inj h
          obtain rfl := Event.text.inj hcontent
          exact ⟨d₀, rfl, hevents⟩
      | echo tokens | loop head offset body =>
          simp [Document.events, Node.events] at h

end Document

/-- The last elements of related lists are related. -/
theorem forall₂_concat_iff {α β : Type} {R : α → β → Prop} {xs : List α} {ys : List β} {x : α}
    {y : β} : List.Forall₂ R (xs ++ [x]) (ys ++ [y]) ↔ List.Forall₂ R xs ys ∧ R x y := by
  rw [← List.forall₂_reverse_iff, List.reverse_concat, List.reverse_concat, List.forall₂_cons,
    List.forall₂_reverse_iff, and_comm]

open Segment Document

namespace Segment

/-- The segments of a text that begins later say the events with their offsets moved. -/
theorem says_shift {parts : List Part} {offset : Nat} {e : Document}
    (h : List.Forall₂ Says (segmentsFrom offset parts) (events e)) (n : Nat) :
    List.Forall₂ Says (segmentsFrom (offset + n) parts) (events (Document.shift n e)) := by
  rw [segmentsFrom_shift, Document.events_shift, List.forall₂_map_left_iff,
    List.forall₂_map_right_iff]
  exact h.imp fun _ _ hsays => hsays.shift n

/-- A document that ends with a run of text comes from parts that end with a run. -/
theorem exists_run_of_getLast {parts : List Part} {offset : Nat} {d : Document} {s : Text}
    (h : List.Forall₂ Says (segmentsFrom offset parts) (events d))
    (hd : d.getLast? = some (.text s)) :
    ∃ p ∈ parts.getLast?, p.isRun = true ∧ s ≠ [] := by
  obtain ⟨d₀, rfl⟩ := List.getLast?_eq_some_iff.1 hd
  rw [events_append] at h
  rcases List.eq_nil_or_concat' parts with rfl | ⟨parts, p, rfl⟩
  · have hlength := h.length_eq
    simp [segmentsFrom, Document.events, Node.events] at hlength
  · rw [segmentsFrom_append] at h
    have hlast := (forall₂_concat_iff.1 h).2
    refine ⟨p, by simp, ?_⟩
    cases p with
    | run units hne =>
        cases hlast with
        | text =>
            exact ⟨rfl, TextUnit.flatMap_content_ne_nil hne⟩
    | tag t =>
        cases hlast

/-- A document that begins with a run of text comes from parts that begin with a run. -/
theorem exists_run_of_head {parts : List Part} {offset : Nat} {d : Document} {s : Text}
    (h : List.Forall₂ Says (segmentsFrom offset parts) (events d))
    (hd : d.head? = some (.text s)) : ∃ p ∈ parts.head?, p.isRun = true := by
  obtain ⟨d₀, rfl⟩ := List.head?_eq_some_iff.1 hd
  cases parts with
  | nil =>
      cases h
  | cons p parts =>
      refine ⟨p, rfl, ?_⟩
      cases p with
      | run units hne =>
          rfl
      | tag t =>
          have hfirst := (List.forall₂_cons.1 h).1
          cases hfirst

/-- Parts that do not meet say the nodes of both documents, one behind the other. -/
theorem says_append {parts parts' : List Part} {d e : Document}
    (h : List.Forall₂ Says (segmentsFrom 0 parts) (events d))
    (h' : List.Forall₂ Says (segmentsFrom 0 parts') (events e)) :
    List.Forall₂ Says (segmentsFrom 0 (parts ++ parts'))
      (events (d ++ Document.shift (raws parts).length e)) := by
  rw [segmentsFrom_append, events_append]
  exact List.rel_append h (says_shift h' _)

/-- A run at the end of the parts says a run of text at the end of the document. -/
theorem exists_of_says_concat_run {parts : List Part} {units : List TextUnit} {hne : units ≠ []}
    {offset : Nat} {d : Document}
    (h : List.Forall₂ Says (segmentsFrom offset (parts ++ [.run units hne])) (events d)) :
    ∃ d₀, d = d₀ ++ [.text (units.flatMap TextUnit.content)] ∧
      List.Forall₂ Says (segmentsFrom offset parts) (events d₀) := by
  rw [segmentsFrom_append] at h
  rcases List.eq_nil_or_concat' (events d) with hnil | ⟨es, last, hlast⟩
  · rw [hnil] at h
    have hlength := h.length_eq
    simp [segmentsFrom] at hlength
  · rw [hlast] at h
    obtain ⟨hd, hrun⟩ := forall₂_concat_iff.1 h
    cases hrun
    obtain ⟨d₀, rfl, rfl⟩ := eq_append_text hlast
    exact ⟨d₀, rfl, hd⟩

/-- A run at the beginning of the parts says a run of text at the beginning of the document. -/
theorem exists_of_says_cons_run {parts : List Part} {units : List TextUnit} {hne : units ≠ []}
    {offset : Nat} {d : Document}
    (h : List.Forall₂ Says (segmentsFrom offset (.run units hne :: parts)) (events d)) :
    ∃ d₀, d = .text (units.flatMap TextUnit.content) :: d₀ ∧
      List.Forall₂ Says (segmentsFrom (offset + (Part.run units hne).raw.length) parts)
        (events d₀) := by
  cases hevents : events d with
  | nil =>
      rw [hevents] at h
      cases h
  | cons first es =>
      rw [hevents] at h
      obtain ⟨hrun, hd⟩ := List.forall₂_cons.1 h
      cases hrun
      obtain ⟨d₀, rfl, rfl⟩ := eq_cons_text hevents
      exact ⟨d₀, rfl, hd⟩

/-- Two runs that meet are one run, which says both texts. -/
theorem says_join {parts parts' : List Part} {units units' : List TextUnit}
    {hne : units ≠ []} {hne' : units' ≠ []} {d e : Document}
    (h : List.Forall₂ Says (segmentsFrom 0 (parts ++ [.run units hne])) (events d))
    (h' : List.Forall₂ Says (segmentsFrom 0 (.run units' hne' :: parts')) (events e)) :
    List.Forall₂ Says
      (segmentsFrom 0 (parts ++ .run (units ++ units') (by simp [hne]) :: parts'))
      (events (join d (Document.shift (raws (parts ++ [.run units hne])).length e))) := by
  obtain ⟨d₀, rfl, hd⟩ := exists_of_says_concat_run h
  obtain ⟨e₀, rfl, he⟩ := exists_of_says_cons_run h'
  have hoffset : 0 + (raws parts).length + (Part.run (units ++ units') (by simp [hne])).raw.length =
      0 + (Part.run units' hne').raw.length + (raws (parts ++ [.run units hne])).length := by
    simp only [raws, Part.raw, List.flatMap_append, List.flatMap_cons, List.flatMap_nil,
      List.length_append, List.append_nil]
    omega
  rw [segmentsFrom_append, segmentsFrom, hoffset, Document.shift, Node.shift, join_text,
    events_append, Document.events, Node.events]
  refine List.rel_append hd (.cons ?_ (says_shift he _))
  rw [Part.segment, List.flatMap_append]
  exact .text

end Segment

namespace Document

/-- A run of text at the end of a document that is read is not empty. -/
theorem ne_nil_of_getLast {t s : Text} {d : Document} (hparse : parse t = .ok d)
    (h : d.getLast? = some (.text s)) : s ≠ [] := by
  obtain ⟨parts, -, -, hsays⟩ := parse_eq_ok_iff_parts.1 hparse
  obtain ⟨-, -, -, hne⟩ := exists_run_of_getLast hsays h
  exact hne

/-- If two texts are read, then so is the one put together from them, as the nodes of both, where
two runs of text that meet are one, and where the offsets in the second text are counted from the
beginning of the first one. -/
theorem parse_append_eq {a b : Text} {d e : Document} (ha : parse a = .ok d)
    (hb : parse b = .ok e) : parse (a ++ b) = .ok (join d (shift a.length e)) := by
  obtain ⟨parts, hsep, rfl, h⟩ := parse_eq_ok_iff_parts.1 ha
  obtain ⟨parts', hsep', rfl, h'⟩ := parse_eq_ok_iff_parts.1 hb
  rw [parse_eq_ok_iff_parts]
  by_cases hmeet : ∀ p ∈ parts.getLast?, ∀ q ∈ parts'.head?, (p.isRun && q.isRun) = false
  · have hjoin : join d (shift (raws parts).length e) = d ++ shift (raws parts).length e := by
      refine join_eq_append fun s t hs ht => ?_
      obtain ⟨p, hp, hprun, -⟩ := exists_run_of_getLast h hs
      obtain ⟨q, hq, hqrun⟩ := exists_run_of_head (says_shift h' (raws parts).length) ht
      have hnone := hmeet p hp q hq
      rw [hprun, hqrun] at hnone
      simp at hnone
    rw [hjoin]
    exact ⟨parts ++ parts', List.isChain_append.2 ⟨hsep, hsep', hmeet⟩, raws_append _ _,
      says_append h h'⟩
  · push Not at hmeet
    obtain ⟨p, hp, q, hq, hruns⟩ := hmeet
    obtain ⟨parts, rfl⟩ := List.getLast?_eq_some_iff.1 hp
    obtain ⟨parts', rfl⟩ := List.head?_eq_some_iff.1 hq
    cases p with
    | tag t =>
        simp [Part.isRun] at hruns
    | run units hne =>
        cases q with
        | tag t =>
            simp [Part.isRun] at hruns
        | run units' hne' =>
            obtain ⟨hfront, -, hbefore⟩ := List.isChain_append.1 hsep
            refine ⟨_, List.isChain_append.2 ⟨hfront, ?_, fun p hp q hq => ?_⟩, ?_, says_join h h'⟩
            · exact List.isChain_cons.2 (List.isChain_cons.1 hsep')
            · obtain rfl := Option.some.inj hq
              exact hbefore p hp (.run units hne) rfl
            · simp [raws, Part.raw]

end Document
end Stencil
