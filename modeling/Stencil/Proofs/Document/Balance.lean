import Stencil.Proofs.Document.Tokens
import Stencil.Proofs.Segmentation

/-!
# Balanced templates

Which templates are read as a tree, and what is wrong with the others, once their segments are found
and each of their tags says something.

**Argument.**  The segments of a template say events, one each (`Segment.event`).  The builder takes
the events one by one, and its number of open loops is that of the loops opened and not yet closed.
So it refuses an end exactly where no loop is open, and at the end it holds the loops that stay
open, of which the first is the one that was opened last and is never closed.

**Results.**
* `Builder.exists_foldlM`: the builder takes events that never close more loops than are open.
* `exists_exceedsAt`: among other events, one is the first that closes too much.
* `Builder.innermostOpenAt_of_loops`: the loop that a builder has on top is the innermost open one.
* `parse_inverts_events`: a template is read exactly as the tree of its events.
-/

namespace Stencil

/-- What a segment does to the tree, unless it is a tag that says nothing known. -/
def Segment.event : Segment → Except Malformed Event
  | .text content _ => .ok (.text content)
  | .tag body offset => (Tag.ofBody body).map (Tag.event offset)

namespace Event

/-- The event opens a loop. -/
def opens : Event → Bool
  | .enter _ _ => true
  | _ => false

/-- The event closes a loop. -/
def closes : Event → Bool
  | .leave => true
  | _ => false

/-- The number of loops that are opened. -/
def opened (events : List Event) : Nat := events.countP opens

/-- The number of loops that are closed. -/
def closed (events : List Event) : Nat := events.countP closes

/-- Where `depth` loops are open, no beginning of the events closes more loops than are open. -/
def Nested (depth : Nat) (events : List Event) : Prop :=
  ∀ earlier, earlier <+: events → closed earlier ≤ depth + opened earlier

/-- No beginning of the events closes more loops than it opens, and all loops are closed. -/
structure Balanced (events : List Event) : Prop where
  nested : Nested 0 events
  settled : closed events = opened events

/-- After `i` events there is the first end that exceeds the loops opened before it. -/
structure ExceedsAt (events : List Event) (i : Nat) : Prop where
  leave : events[i]? = some .leave
  nested : Nested 0 (events.take i)
  exceeds : opened (events.take i) < closed (events.take (i + 1))

/-- After `i` events there is opened the innermost of the loops that are open at the end. -/
structure InnermostOpenAt (events : List Event) (i : Nat) (head : LoopHead) (offset : Nat) :
    Prop where
  enter : events[i]? = some (.enter head offset)
  stays_open : Nested 0 (events.drop (i + 1))
  innermost : ∀ j head' offset', i < j → events[j]? = some (.enter head' offset') →
    ¬ Nested 0 (events.drop (j + 1))

@[simp] theorem opened_nil : opened [] = 0 := rfl

@[simp] theorem closed_nil : closed [] = 0 := rfl

@[simp] theorem opened_cons (e : Event) (events : List Event) :
    opened (e :: events) = opened events + e.opens.toNat := by
  cases h : e.opens <;> simp [opened, h]

@[simp] theorem closed_cons (e : Event) (events : List Event) :
    closed (e :: events) = closed events + e.closes.toNat := by
  cases h : e.closes <;> simp [closed, h]

@[simp] theorem opened_append (s t : List Event) : opened (s ++ t) = opened s + opened t := by
  simp [opened]

@[simp] theorem closed_append (s t : List Event) : closed (s ++ t) = closed s + closed t := by
  simp [closed]

theorem Nested.closed_le {depth : Nat} {events : List Event} (h : Nested depth events) :
    closed events ≤ depth + opened events :=
  h events List.prefix_rfl

theorem nested_nil (depth : Nat) : Nested depth [] := by
  intro earlier h
  simp [List.prefix_nil.1 h]

/-- Events are nested if the first one is and the others are at the depth after it. -/
theorem nested_cons {depth : Nat} {e : Event} {events : List Event} :
    Nested depth (e :: events) ↔ e.closes.toNat ≤ depth + e.opens.toNat ∧
      Nested (depth + e.opens.toNat - e.closes.toNat) events := by
  constructor
  · intro h
    have hfirst := h [e] (List.prefix_append [e] events)
    refine ⟨by simpa using hfirst, fun earlier hearlier => ?_⟩
    have hlonger := h (e :: earlier) (List.cons_prefix_cons.2 ⟨rfl, hearlier⟩)
    simp only [closed_cons, opened_cons] at hlonger hfirst
    omega
  · rintro ⟨hfirst, hrest⟩ earlier hearlier
    rcases List.prefix_cons_iff.1 hearlier with rfl | ⟨others, rfl, hothers⟩
    · simp
    · have hlater := hrest others hothers
      simp only [closed_cons, opened_cons]
      omega

theorem nested_append {depth : Nat} {s t : List Event} :
    Nested depth (s ++ t) ↔ Nested depth s ∧ Nested (depth + opened s - closed s) t := by
  induction s generalizing depth with
  | nil =>
      simp [nested_nil]
  | cons e s ih =>
      rw [List.cons_append, nested_cons, nested_cons, ih, and_assoc]
      refine and_congr_right fun hfirst => and_congr_right fun hrest => ?_
      have hle := hrest.closed_le
      have hdepth : depth + e.opens.toNat - e.closes.toNat + opened s - closed s =
          depth + opened (e :: s) - closed (e :: s) := by
        simp only [opened_cons, closed_cons]
        omega
      rw [hdepth]

theorem Nested.mono {depth depth' : Nat} {events : List Event} (h : Nested depth events)
    (hle : depth ≤ depth') : Nested depth' events := by
  intro earlier hearlier
  have hfew := h earlier hearlier
  omega

theorem Balanced.append {s t : List Event} (hs : Balanced s) (ht : Balanced t) :
    Balanced (s ++ t) where
  nested := nested_append.2 ⟨hs.nested, ht.nested.mono (Nat.zero_le _)⟩
  settled := by
    rw [closed_append, opened_append, hs.settled, ht.settled]

/-- A loop around balanced events is balanced. -/
theorem Balanced.loop {events : List Event} (h : Balanced events) (head : LoopHead)
    (offset : Nat) : Balanced (.enter head offset :: (events ++ [.leave])) where
  nested := by
    refine nested_cons.2 ⟨by simp [opens, closes], nested_append.2 ⟨?_, ?_⟩⟩
    · exact h.nested.mono (Nat.zero_le _)
    · have hsettled := h.settled
      refine nested_cons.2 ⟨?_, nested_nil _⟩
      simp only [opens, closes, Bool.toNat_true, Bool.toNat_false]
      omega
  settled := by
    have hsettled := h.settled
    simp [opens, closes, hsettled]

mutual

theorem balanced_node : ∀ node : Node, Balanced node.events
  | .text _ => ⟨nested_cons.2 ⟨by simp [closes], nested_nil _⟩, rfl⟩
  | .echo _ => ⟨nested_cons.2 ⟨by simp [closes], nested_nil _⟩, rfl⟩
  | .loop head offset body => by
      rw [Node.events]
      exact (balanced_nodes body).loop head offset

/-- The events of a tree are balanced. -/
theorem balanced_nodes : ∀ nodes : List Node, Balanced (Document.events nodes)
  | [] => ⟨nested_nil 0, rfl⟩
  | node :: nodes => by
      rw [Document.events]
      exact (balanced_node node).append (balanced_nodes nodes)

end

/-- Events that are not nested have a first end that closes too much. -/
theorem exists_exceeding {depth : Nat} {events : List Event} (h : ¬ Nested depth events) :
    ∃ earlier later, events = earlier ++ .leave :: later ∧ Nested depth earlier ∧
      depth + opened earlier = closed earlier := by
  induction events generalizing depth with
  | nil =>
      exact absurd (nested_nil depth) h
  | cons e events ih =>
      by_cases hfirst : e.closes.toNat ≤ depth + e.opens.toNat
      · have hrest : ¬ Nested (depth + e.opens.toNat - e.closes.toNat) events :=
          fun hrest => h (nested_cons.2 ⟨hfirst, hrest⟩)
        obtain ⟨earlier, later, rfl, hnested, hfull⟩ := ih hrest
        refine ⟨e :: earlier, later, rfl, nested_cons.2 ⟨hfirst, hnested⟩, ?_⟩
        simp only [opened_cons, closed_cons]
        omega
      · cases e with
        | text content | echo tokens | enter head offset =>
            simp [closes] at hfirst
        | leave =>
            refine ⟨[], events, rfl, nested_nil depth, ?_⟩
            simp only [opens, closes, Bool.toNat_true, Bool.toNat_false] at hfirst
            simp only [opened_nil, closed_nil]
            omega

/-- In events that are not nested, some end is the first that exceeds the loops before it. -/
theorem exists_exceedsAt {events : List Event} (h : ¬ Nested 0 events) :
    ∃ i, ExceedsAt events i := by
  obtain ⟨earlier, later, rfl, hnested, hfull⟩ := exists_exceeding h
  refine ⟨earlier.length, by simp, by simpa using hnested, ?_⟩
  have htake : (earlier ++ .leave :: later).take (earlier.length + 1) = earlier ++ [.leave] := by
    simp [List.take_append, List.take_of_length_le]
  have hleave : closed [.leave] = 1 := rfl
  rw [htake, List.take_left, closed_append]
  omega

/-- An end that exceeds the loops before it keeps the events from being nested. -/
theorem ExceedsAt.not_nested {events : List Event} {i : Nat} (h : ExceedsAt events i) :
    ¬ Nested 0 events := by
  intro hnested
  have hfew := hnested (events.take (i + 1)) (List.take_prefix _ _)
  have hexceeds := h.exceeds
  obtain ⟨hlt, hleave⟩ := List.getElem?_eq_some_iff.1 h.leave
  rw [List.take_succ_eq_append_getElem hlt, hleave, opened_append] at hfew
  have hnone : opened [.leave] = 0 := rfl
  rw [List.take_succ_eq_append_getElem hlt, hleave] at hexceeds
  omega

/-- A loop that balanced events open is closed in what follows. -/
theorem not_nested_of_balanced {s t : List Event} {head : LoopHead} {offset : Nat}
    (h : Balanced (s ++ .enter head offset :: t)) : ¬ Nested 0 t := by
  intro ht
  have hs := (nested_append.1 h.nested).1.closed_le
  have hclosed := ht.closed_le
  have hsettled := h.settled
  simp only [closed_append, opened_append, closed_cons, opened_cons, closes, opens,
    Bool.toNat_false, Bool.toNat_true] at hsettled
  omega

/-- A loop is the innermost open one if balanced events follow. -/
theorem innermostOpenAt_append {before inner : List Event} {head : LoopHead} {offset : Nat}
    (h : Balanced inner) :
    InnermostOpenAt (before ++ .enter head offset :: inner) before.length head offset where
  enter := by simp
  stays_open := by
    have hdrop : (before ++ .enter head offset :: inner).drop (before.length + 1) = inner := by
      simp [← List.drop_drop]
    rw [hdrop]
    exact h.nested
  innermost := by
    intro j head' offset' hj henter
    obtain ⟨k, rfl⟩ := Nat.exists_eq_add_of_lt hj
    have hshift (i : Nat) : (before ++ Event.enter head offset :: inner).drop
        (before.length + i + 1) = inner.drop i := by
      rw [Nat.add_assoc, ← List.drop_drop]
      simp
    have hinner : inner.drop k = .enter head' offset' :: inner.drop (k + 1) := by
      rw [← hshift k, ← hshift (k + 1), ← Nat.add_assoc]
      obtain ⟨hlt, hget⟩ := List.getElem?_eq_some_iff.1 henter
      rw [List.drop_eq_getElem_cons hlt, hget]
    rw [Nat.add_assoc before.length k 1, hshift (k + 1)]
    have hcut : Balanced (inner.take k ++ .enter head' offset' :: inner.drop (k + 1)) := by
      rw [← hinner, List.take_append_drop]
      exact h
    exact not_nested_of_balanced hcut

end Event

open Event

namespace Segment

theorem event_eq_ok_iff {s : Segment} {e : Event} : s.event = .ok e ↔ s.Says e := by
  cases s with
  | text content offset =>
      constructor
      · intro h
        obtain rfl := Except.ok.inj h
        exact .text
      · rintro ⟨⟩
        rfl
  | tag body offset =>
      rw [says_tag_iff, event]
      cases htag : Tag.ofBody body with
      | error cause =>
          simp [Except.map]
      | ok tag =>
          simp [Except.map, eq_comm]

/-- The events of segments are those that they say, one each. -/
theorem mapM_event_iff {segments : List Segment} {events : List Event} :
    segments.mapM Segment.event = .ok events ↔ List.Forall₂ Says segments events := by
  simp only [mapM_eq_ok_iff, event_eq_ok_iff]

/-- A tag that is given out stands in the text at its offset. -/
theorem exists_tag_of_mem {parts : List Part} {start offset : Nat} {body : Text}
    (h : Segment.tag body offset ∈ segmentsFrom start parts) :
    ∃ (before : Text) (tag : WrittenTag) (after : Text), raws parts = before ++ tag.raw ++ after ∧
      start + before.length = offset ∧ tag.body = body := by
  induction parts generalizing start with
  | nil =>
      simp [segmentsFrom] at h
  | cons part parts ih =>
      rcases List.mem_cons.1 h with hpart | hparts
      · cases part with
        | run units hne =>
            simp [Part.segment] at hpart
        | tag t =>
            obtain ⟨rfl, rfl⟩ := Segment.tag.inj hpart
            exact ⟨[], t, raws parts, rfl, rfl, rfl⟩
      · obtain ⟨before, tag, after, hraws, hlength, hbody⟩ := ih hparts
        refine ⟨part.raw ++ before, tag, after, ?_, ?_, hbody⟩
        · rw [raws_cons, hraws]
          simp
        · rw [List.length_append]
          omega

end Segment

namespace Builder

/-- The builder takes an event that does not close more loops than are open. -/
theorem exists_addEvent {b : Builder} {e : Event}
    (h : e.closes.toNat ≤ b.loops.length + e.opens.toNat) : ∃ b', b.addEvent e = some b' ∧
      b'.loops.length = b.loops.length + e.opens.toNat - e.closes.toNat := by
  cases e with
  | text content | echo tokens | enter head offset =>
      exact ⟨_, rfl, rfl⟩
  | leave =>
      obtain ⟨nodes, loops⟩ := b
      cases loops with
      | nil =>
          simp [opens, closes] at h
      | cons loop outer =>
          exact ⟨_, rfl, rfl⟩

/-- The builder takes nested events, and then holds the loops that are open. -/
theorem exists_foldlM {events : List Event} {b : Builder} (h : Nested b.loops.length events) :
    ∃ b', events.foldlM addEvent b = some b' ∧
      b'.loops.length + closed events = b.loops.length + opened events := by
  induction events generalizing b with
  | nil =>
      exact ⟨b, rfl, rfl⟩
  | cons e events ih =>
      obtain ⟨hfirst, hrest⟩ := nested_cons.1 h
      obtain ⟨b₁, hb₁, hlength⟩ := exists_addEvent hfirst
      rw [← hlength] at hrest
      obtain ⟨b', hb', hopen⟩ := ih hrest
      refine ⟨b', by simp [hb₁, hb'], ?_⟩
      simp only [opened_cons, closed_cons]
      omega

/-- A segment that is refused ends the building. -/
theorem foldlM_add_of_error {before after : List Segment} {s : Segment} {b b' : Builder}
    {fault : Malformed × Nat} (h : before.foldlM add b = .ok b') (hadd : b'.add s = .error fault) :
    (before ++ s :: after).foldlM add b = .error fault := by
  rw [List.foldlM_append, h]
  show (s :: after).foldlM add b' = .error fault
  rw [List.foldlM_cons, hadd]
  rfl

/-- An end without an open loop is refused where it stands. -/
theorem add_leave_of_nil {b : Builder} {body : Text} {offset : Nat}
    (hmeans : (Segment.tag body offset).Says .leave) (h : b.loops = []) :
    b.add (.tag body offset) = .error (.unmatchedEnd, offset) := by
  cases hmeans with
  | leave htag =>
      simp [add, htag, addTag, h]

/-- The loop that a builder has on top is the innermost of those that stay open. -/
theorem innermostOpenAt_of_loops {b : Builder} {loop : OpenLoop} {outer : List OpenLoop}
    (h : b.loops = loop :: outer) : ∃ i, InnermostOpenAt b.events i loop.head loop.offset := by
  have hevents : b.events = loopEvents outer ++ Document.events loop.earlier.reverse ++
      .enter loop.head loop.offset :: Document.events b.nodes.reverse := by
    simp [Builder.events, h, loopEvents]
  rw [hevents]
  exact ⟨_, innermostOpenAt_append (balanced_nodes b.nodes.reverse)⟩

end Builder

namespace Document

theorem parse_eq_of_scan {t : Text} {segments : List Segment}
    (h : Segment.scan t = (segments, none)) :
    parse t = (segments.foldlM Builder.add Builder.empty >>= Builder.finish).mapError
      fun fault => .locate t fault.1 fault.2 := by
  simp [parse, ofScan, h]

/-- The first end that exceeds the loops before it is reported, at its tag. -/
theorem parse_of_exceedsAt {t : Text} {segments : List Segment} {events : List Event} {i : Nat}
    (hscan : Segment.scan t = (segments, none)) (hmeans : List.Forall₂ Segment.Says segments events)
    (h : ExceedsAt events i) : ∃ body offset, segments[i]? = some (.tag body offset) ∧
      parse t = .error (.locate t .unmatchedEnd offset) := by
  obtain ⟨hlt, hleave⟩ := List.getElem?_eq_some_iff.1 h.leave
  have hlt' : i < segments.length := hmeans.length_eq ▸ hlt
  have hmeansLeave : segments[i].Says .leave := hleave ▸ hmeans.get hlt' hlt
  obtain ⟨b, hfold, hopen⟩ := Builder.exists_foldlM (b := Builder.empty) h.nested
  have hfold' : (segments.take i).foldlM Builder.add Builder.empty = .ok b :=
    Builder.foldlM_add_eq_ok_iff.2 ⟨_, List.forall₂_take i hmeans, hfold⟩
  have hloops : b.loops = [] := by
    have htake : closed (events.take (i + 1)) = closed (events.take i) + 1 := by
      rw [List.take_succ_eq_append_getElem hlt, hleave, closed_append]
      rfl
    have hexceeds := h.exceeds
    have hempty : Builder.empty.loops.length = 0 := rfl
    exact List.length_eq_zero_iff.1 (by omega)
  have hsegments : segments = segments.take i ++ segments[i] :: segments.drop (i + 1) := by
    rw [← List.drop_eq_getElem_cons, List.take_append_drop]
  cases hsegment : segments[i] with
  | text content offset =>
      rw [hsegment] at hmeansLeave
      cases hmeansLeave
  | tag body offset =>
      rw [hsegment] at hmeansLeave hsegments
      refine ⟨body, offset, by rw [List.getElem?_eq_getElem hlt', hsegment], ?_⟩
      rw [parse_eq_of_scan hscan, hsegments,
        Builder.foldlM_add_of_error hfold' (Builder.add_leave_of_nil hmeansLeave hloops)]
      rfl

/-- If no end exceeds the loops before it, the innermost loop that stays open is reported, at its
tag. -/
theorem parse_of_nested {t : Text} {segments : List Segment} {events : List Event}
    (hscan : Segment.scan t = (segments, none)) (hmeans : List.Forall₂ Segment.Says segments events)
    (hnested : Nested 0 events) (hopen : closed events ≠ opened events) :
    ∃ i head offset, InnermostOpenAt events i head offset ∧
      parse t = .error (.locate t (.openLoop head.counter) offset) := by
  obtain ⟨b, hfold, hlength⟩ := Builder.exists_foldlM (b := Builder.empty) hnested
  have hevents : b.events = events := Builder.events_foldlM hfold
  have hfold' : segments.foldlM Builder.add Builder.empty = .ok b :=
    Builder.foldlM_add_eq_ok_iff.2 ⟨_, hmeans, hfold⟩
  cases hloops : b.loops with
  | nil =>
      rw [hloops] at hlength
      exact absurd (by simpa [Builder.empty] using hlength) hopen
  | cons loop outer =>
      obtain ⟨i, hi⟩ := Builder.innermostOpenAt_of_loops hloops
      refine ⟨i, loop.head, loop.offset, hevents ▸ hi, ?_⟩
      rw [parse_eq_of_scan hscan, hfold']
      show (b.finish).mapError _ = _
      simp [Builder.finish, hloops, Except.mapError]

/-- Balanced events are those of a tree, and the template is read as it. -/
theorem exists_parse_of_balanced {t : Text} {segments : List Segment} {events : List Event}
    (hscan : Segment.scan t = (segments, none)) (hmeans : List.Forall₂ Segment.Says segments events)
    (h : Balanced events) : ∃ d, parse t = .ok d := by
  obtain ⟨b, hfold, hlength⟩ := Builder.exists_foldlM (b := Builder.empty) h.nested
  have hfold' : segments.foldlM Builder.add Builder.empty = .ok b :=
    Builder.foldlM_add_eq_ok_iff.2 ⟨_, hmeans, hfold⟩
  have hloops : b.loops = [] := by
    have hsettled := h.settled
    have hempty : Builder.empty.loops.length = 0 := rfl
    exact List.length_eq_zero_iff.1 (by omega)
  refine ⟨b.nodes.reverse, ?_⟩
  rw [parse_eq_of_scan hscan, hfold']
  show (b.finish).mapError _ = _
  simp [Builder.finish, hloops, Except.mapError]

/-- **Reading a template inverts listing the events of its tree.**  Take a template that is scanned
without a failure, and the events that its segments say.

* The template is read as a tree exactly if these are the events of the tree.
* The offset of a loop is that of the tag which opens it.
* The template is read as some tree exactly if the events are balanced.
* Else the first end that exceeds the loops opened before it is reported at its tag, or, if there is
  none, the innermost loop that stays open is. -/
theorem parse_inverts_events {t : Text} {segments : List Segment} {events : List Event}
    (hscan : Segment.scan t = (segments, none))
    (hread : segments.mapM Segment.event = .ok events) :
    (∀ d, parse t = .ok d ↔ Document.events d = events) ∧
    (∀ d head offset, parse t = .ok d → .enter head offset ∈ Document.events d →
      ∃ (before : Text) (tag : Segment.WrittenTag) (after : Text), t = before ++ tag.raw ++ after ∧
        before.length = offset ∧ Tag.ofBody tag.body = .ok (.loop head)) ∧
    ((∃ d, parse t = .ok d) ↔ Balanced events) ∧
    (¬ Balanced events →
      (∃ i body offset, ExceedsAt events i ∧ segments[i]? = some (.tag body offset) ∧
        parse t = .error (.locate t .unmatchedEnd offset)) ∨
      Nested 0 events ∧ ∃ i head offset, InnermostOpenAt events i head offset ∧
        parse t = .error (.locate t (.openLoop head.counter) offset)) := by
  have hmeans := Segment.mapM_event_iff.1 hread
  have htree : ∀ d, parse t = .ok d ↔ Document.events d = events := by
    intro d
    rw [parse_eq_ok_iff]
    constructor
    · rintro ⟨segments', hscan', hall⟩
      obtain ⟨rfl, -⟩ := Prod.mk.inj (hscan.symm.trans hscan')
      exact Except.ok.inj ((Segment.mapM_event_iff.2 hall).symm.trans hread)
    · rintro rfl
      exact ⟨segments, hscan, hmeans⟩
  refine ⟨htree, fun d head offset hparse hmem => ?_, ⟨?_, ?_⟩, fun hunbalanced => ?_⟩
  · obtain rfl := (htree d).1 hparse
    obtain ⟨segment, hsegment, hsegmentSays⟩ := exists_of_forall₂ hmeans hmem
    cases hsegmentSays with
    | @enter body _ _ htag =>
        obtain ⟨parts, hsep, rfl⟩ := Segment.exists_parts (t := t) (by rw [hscan])
        rw [Segment.scan_raws hsep] at hscan
        obtain ⟨rfl, -⟩ := Prod.mk.inj hscan
        obtain ⟨before, tag, after, hraws, hlength, rfl⟩ := Segment.exists_tag_of_mem hsegment
        exact ⟨before, tag, after, hraws, by omega, htag⟩
  · rintro ⟨d, hparse⟩
    rw [← (htree d).1 hparse]
    exact balanced_nodes d
  · exact exists_parse_of_balanced hscan hmeans
  · by_cases hnested : Nested 0 events
    · refine .inr ⟨hnested, parse_of_nested hscan hmeans hnested fun hsettled => ?_⟩
      exact hunbalanced ⟨hnested, hsettled⟩
    · obtain ⟨i, hi⟩ := exists_exceedsAt hnested
      obtain ⟨body, offset, hsegment, herror⟩ := parse_of_exceedsAt hscan hmeans hi
      exact .inl ⟨i, body, offset, hi, hsegment, herror⟩

/-- Two loops, of which the inner one is closed. -/
def innerLoopClosed : Text := "[$FOR i 1 2$]a[$FOR j 1 2$][$END$]".toText

/-- Their segments. -/
def innerLoopClosedSegments : List Segment :=
  [.tag "FOR i 1 2".toText 0, .text ['a'] 13, .tag "FOR j 1 2".toText 14, .tag "END".toText 27]

/-- Their events. -/
def innerLoopClosedEvents : List Event :=
  [.enter ⟨['i'], .number (.int 1), .number (.int 2), none⟩ 0, .text ['a'],
    .enter ⟨['j'], .number (.int 1), .number (.int 2), none⟩ 14, .leave]

/-- The loop that was opened last is closed, and so it is the outer one that is reported. -/
theorem parse_of_innerLoopClosed :
    Segment.scan innerLoopClosed = (innerLoopClosedSegments, none) ∧
      innerLoopClosedSegments.mapM Segment.event = .ok innerLoopClosedEvents ∧
      ¬ Balanced innerLoopClosedEvents ∧
      ∃ i head offset, InnermostOpenAt innerLoopClosedEvents i head offset ∧
        parse innerLoopClosed =
          .error (.locate innerLoopClosed (.openLoop head.counter) offset) := by
  have hscan : Segment.scan innerLoopClosed = (innerLoopClosedSegments, none) := by rfl
  have hread : innerLoopClosedSegments.mapM Segment.event = .ok innerLoopClosedEvents := by rfl
  have hunbalanced : ¬ Balanced innerLoopClosedEvents := fun h => absurd h.settled (by decide)
  have hnested : Nested 0 innerLoopClosedEvents := by
    simp [innerLoopClosedEvents, nested_cons, nested_nil, opens, closes]
  obtain ⟨-, -, -, hother⟩ := parse_inverts_events hscan hread
  rcases hother hunbalanced with ⟨i, _, _, hexceeds, -⟩ | ⟨-, hopen⟩
  · exact absurd hnested hexceeds.not_nested
  · exact ⟨hscan, hread, hunbalanced, hopen⟩

end Document
end Stencil
