import Stencil.Proofs.Document.Balance
import Stencil.Proofs.Number.Grammar
import Stencil.Proofs.Tag.Source
import Stencil.Proofs.Text.Position

/-!
# Where a template is refused

What stands in a template at the place where it is refused.

**Places.**  `Malformed.FoundAt` says for each cause what a text looks like around the place where
the cause is found, without a machine.  What is before the place is a sequence of units and tags.  A
tag that is at fault is found at the bracket that opens it; a character that must not stand where it
stands, and a backslash with nothing after it, are found where they are.

**Argument.**  In every mode of the scanner it is known what the text that has been read looks like
(`Mode.After`).  So the tags that are given out stand in the text at their offsets, and a failure is
found where it is reported (`scanFrom_found`).  The builder refuses a tag that it is given, or at
the end a loop that one of the tags has opened.

**Results.**
* `Document.foundAt_of_parse`: a template is refused for a cause at a place where it is found.
* `Malformed.not_mention_suffix`: no cause that a template is refused for mentions a position.
* `Document.parse_failure_located`: what is known of the failure of a template that is not read.
-/

namespace Stencil

open CodePoint (char)

namespace Segment

/-- The text is a sequence of units and tags. -/
def IsComplete (t : Text) : Prop := ∃ items : List Item, items.flatMap Item.raw = t

theorem isComplete_nil : IsComplete [] := ⟨[], rfl⟩

theorem IsComplete.concat {t : Text} (h : IsComplete t) (item : Item) :
    IsComplete (t ++ item.raw) := by
  obtain ⟨items, rfl⟩ := h
  exact ⟨items ++ [item], by simp⟩

/-- At an offset a tag is opened, and its body ends with a dollar sign. -/
def TagAt (t : Text) (offset : Nat) (body : Text) : Prop :=
  ∃ (before : Text) (opening : Nat) (after : Text), IsComplete before ∧ before.length = offset ∧
    char '$' ∉ body ∧
      t = before ++ char '[' :: (List.replicate opening (char ' ') ++ char '$' ::
        (body ++ char '$' :: after))

end Segment

open Segment (IsComplete TagAt WrittenTag TextUnit Item)
open Numeral (WrittenInteger)

/-- A cause is found at an offset of a text. -/
inductive Malformed.FoundAt (t : Text) : Malformed → Nat → Prop
  /-- The character where a dollar sign is needed. -/
  | badOpening {before after : Text} {opening : Nat} {c : CodePoint} (complete : IsComplete before)
      (not_space : c ≠ ' ') (not_dollar : c ≠ '$')
      (text : t = before ++ char '[' :: List.replicate opening (char ' ') ++ c :: after) :
      FoundAt t .badOpening
        (before ++ char '[' :: List.replicate opening (char ' ')).length
  /-- The character where a bracket is needed. -/
  | badClosing {before body after : Text} {opening closing : Nat} {c : CodePoint}
      (complete : IsComplete before) (body_ne_nil : body ≠ []) (dollar_not_mem : char '$' ∉ body)
      (not_space : c ≠ ' ') (not_bracket : c ≠ ']')
      (text : t = before ++ char '[' :: (List.replicate opening (char ' ') ++ char '$' ::
        (body ++ char '$' :: List.replicate closing (char ' '))) ++ c :: after) :
      FoundAt t .badClosing (before ++ char '[' ::
        (List.replicate opening (char ' ') ++ char '$' ::
          (body ++ char '$' :: List.replicate closing (char ' ')))).length
  /-- The backslash at the end. -/
  | openEscape {before : Text} (complete : IsComplete before) (text : t = before ++ [char '\\']) :
      FoundAt t .openEscape before.length
  /-- The bracket of a tag of which only a beginning is there. -/
  | openTag {before rest : Text} (tag : WrittenTag) (complete : IsComplete before)
      (beginning : rest <+: tag.raw) (ne_nil : rest ≠ []) (unfinished : rest ≠ tag.raw)
      (text : t = before ++ rest) : FoundAt t .openTag before.length
  /-- The bracket of a tag whose body is refused. -/
  | body {cause : Malformed} {offset : Nat} {body : Text} (tag : TagAt t offset body)
      (refused : Tag.ofBody body = .error cause) : FoundAt t cause offset
  /-- The bracket of an end tag. -/
  | unmatchedEnd {offset : Nat} {body : Text} (tag : TagAt t offset body)
      (meaning : Tag.ofBody body = .ok .close) : FoundAt t .unmatchedEnd offset
  /-- The bracket of the tag that opens the loop. -/
  | openLoop {offset : Nat} {body : Text} {head : LoopHead} (tag : TagAt t offset body)
      (meaning : Tag.ofBody body = .ok (.loop head)) : FoundAt t (.openLoop head.counter) offset

namespace Segment

/-- What the text that has been read looks like in each mode. -/
inductive Mode.After : Text → Mode → Prop
  | text {s run : Text} {start : Nat} (h : IsComplete s) : After s (.text run start)
  | escape {s run : Text} {start : Nat} (h : IsComplete s) :
      After (s ++ [char '\\']) (.escape run start)
  | bracket {s : Text} (opening : Nat) (h : IsComplete s) :
      After (s ++ char '[' :: List.replicate opening (char ' ')) (.bracket s.length)
  | dollar {s : Text} (opening : Nat) (h : IsComplete s) :
      After (s ++ char '[' :: (List.replicate opening (char ' ') ++ [char '$']))
        (.dollar s.length)
  | body {s read : Text} (opening : Nat) (h : IsComplete s) (hne : read ≠ [])
      (hdollar : char '$' ∉ read) :
      After (s ++ char '[' :: (List.replicate opening (char ' ') ++ char '$' :: read.reverse))
        (.body read s.length)
  | closing {s body : Text} (opening closing : Nat) (h : IsComplete s) (hne : body ≠ [])
      (hdollar : char '$' ∉ body) :
      After (s ++ char '[' :: (List.replicate opening (char ' ') ++ char '$' :: (body ++
        char '$' :: List.replicate closing (char ' ')))) (.closing s.length)

/-- What a step makes of a text that has been read: the text with one more character, of which the
tags that are given out are part, or a text in which the failure is found, whatever follows. -/
theorem Mode.After.step {s : Text} {mode : Mode} (h : mode.After s) (c : CodePoint) :
    match mode.step s.length c with
    | .ok (segments, next) => next.After (s ++ [c]) ∧
        ∀ body offset, Segment.tag body offset ∈ segments → ∀ t, TagAt (s ++ c :: t) offset body
    | .error (cause, place) => ∀ t, cause.FoundAt (s ++ c :: t) place := by
  have hspaces (n : Nat) : List.replicate n (CodePoint.char ' ') ++ [.char ' '] =
      List.replicate (n + 1) (.char ' ') :=
    List.replicate_succ'.symm
  cases h with
  | @text s run start hs =>
      by_cases hbracket : c = '['
      · subst hbracket
        refine ⟨.bracket 0 hs, fun body offset hmem => ?_⟩
        unfold Mode.flush at hmem
        split at hmem <;> simp at hmem
      · by_cases hescape : c = '\\'
        · simpa [Mode.step, hescape] using Mode.After.escape hs
        · have hunit : IsComplete (s ++ [c]) := hs.concat (.unit (.plain c hbracket hescape))
          simpa [Mode.step, hbracket, hescape] using Mode.After.text hunit
  | @escape s run start hs =>
      have hunit := hs.concat (.unit (.escaped c))
      refine ⟨?_, by simp⟩
      rw [List.append_assoc]
      exact .text hunit
  | @bracket s n hs =>
      by_cases hspace : c = ' '
      · subst hspace
        refine ⟨?_, by simp⟩
        rw [List.append_assoc, List.cons_append, hspaces]
        exact .bracket (n + 1) hs
      · by_cases hdollar : c = '$'
        · subst hdollar
          refine ⟨?_, by simp⟩
          rw [List.append_assoc, List.cons_append]
          exact .dollar n hs
        · simp only [Mode.step, hspace, hdollar, if_false]
          exact fun t => .badOpening hs hspace hdollar rfl
  | @dollar s n hs =>
      by_cases hdollar : c = '$'
      · subst hdollar
        intro t
        -- The scanner refuses the tag here for what its empty body would be refused for.
        have htag : TagAt (s ++ .char '[' :: (List.replicate n (.char ' ') ++ [.char '$']) ++
            .char '$' :: t) s.length [] :=
          ⟨s, n, t, hs, rfl, by simp, by simp⟩
        exact .body htag rfl
      · simp only [Mode.step, hdollar, if_false]
        refine ⟨?_, by simp⟩
        simpa using Mode.After.body n hs (List.cons_ne_nil c []) (by simpa using Ne.symm hdollar)
  | @body s read n hs hne hread =>
      by_cases hdollar : c = '$'
      · subst hdollar
        refine ⟨?_, fun body offset hmem t => ?_⟩
        · simpa using Mode.After.closing n 0 hs (List.reverse_ne_nil_iff.2 hne)
            (by simpa using hread)
        · obtain ⟨rfl, rfl⟩ : body = read.reverse ∧ offset = s.length := by simpa using hmem
          exact ⟨s, n, t, hs, rfl, by simpa using hread, by simp⟩
      · simp only [Mode.step, hdollar, if_false]
        refine ⟨?_, by simp⟩
        simpa using Mode.After.body n hs (List.cons_ne_nil c read)
          (by simp [Ne.symm hdollar, hread])
  | @closing s body n k hs hne hbody =>
      by_cases hspace : c = ' '
      · subst hspace
        refine ⟨?_, by simp⟩
        have hlonger := Mode.After.closing n (k + 1) hs hne hbody
        rw [← hspaces] at hlonger
        simpa using hlonger
      · by_cases hbracket : c = ']'
        · subst hbracket
          refine ⟨?_, by simp⟩
          have htag := hs.concat (.tag ⟨n, body, k, hne, hbody⟩)
          have hraw : (Item.tag ⟨n, body, k, hne, hbody⟩).raw =
              .char '[' :: (List.replicate n (.char ' ') ++ .char '$' ::
                (body ++ .char '$' :: List.replicate k (.char ' '))) ++ [.char ']'] := by
            simp [Item.raw, WrittenTag.raw, WrittenTag.inner]
          rw [List.append_assoc, ← hraw]
          exact .text htag
        · simp only [Mode.step, hspace, hbracket, if_false]
          exact fun t => .badClosing hs hne hbody hspace hbracket rfl

/-- What is wrong at the end of a text that has been read is found in it. -/
theorem Mode.After.finish {s : Text} {mode : Mode} (h : mode.After s) {cause : Malformed}
    {place : Nat} (hfail : mode.finish s.length = .error (cause, place)) :
    cause.FoundAt s place := by
  cases h with
  | text hs =>
      simp [Mode.finish] at hfail
  | @escape s run start hs =>
      obtain ⟨rfl, rfl⟩ := Prod.mk.inj (Except.error.inj hfail)
      simpa using Malformed.FoundAt.openEscape hs rfl
  | @bracket s n hs =>
      obtain ⟨rfl, rfl⟩ := Prod.mk.inj (Except.error.inj hfail)
      -- What is there begins, for one, the tag that goes on with a space and is closed.
      refine .openTag ⟨n, [' '], 0, by simp, by simp⟩ hs ?_ (by simp) ?_ rfl
      · simp [WrittenTag.raw, WrittenTag.inner]
      · simp [WrittenTag.raw, WrittenTag.inner]
  | @dollar s n hs =>
      obtain ⟨rfl, rfl⟩ := Prod.mk.inj (Except.error.inj hfail)
      refine .openTag ⟨n, [' '], 0, by simp, by simp⟩ hs ?_ (by simp) ?_ rfl
      · simp [WrittenTag.raw, WrittenTag.inner]
      · simp [WrittenTag.raw, WrittenTag.inner]
  | @body s read n hs hne hread =>
      obtain ⟨rfl, rfl⟩ := Prod.mk.inj (Except.error.inj hfail)
      refine .openTag ⟨n, read.reverse, 0, by simpa using hne, by simpa using hread⟩ hs ?_
        (by simp) ?_ rfl
      · simp [WrittenTag.raw, WrittenTag.inner]
      · simp [WrittenTag.raw, WrittenTag.inner]
  | @closing s body n k hs hne hbody =>
      obtain ⟨rfl, rfl⟩ := Prod.mk.inj (Except.error.inj hfail)
      refine .openTag ⟨n, body, k, hne, hbody⟩ hs ?_ (by simp) ?_ rfl
      · simp [WrittenTag.raw, WrittenTag.inner]
      · simp [WrittenTag.raw, WrittenTag.inner]

/-- The tags that are given out stand in the text at their offsets, and a failure is found where it
is reported.  The induction is on what is left to read. -/
theorem scanFrom_found {s : Text} {mode : Mode} (h : mode.After s) (t : Text) :
    (∀ body offset, Segment.tag body offset ∈ (scanFrom mode s.length t).1 →
      TagAt (s ++ t) offset body) ∧
    ∀ cause place, (scanFrom mode s.length t).2 = some (cause, place) →
      cause.FoundAt (s ++ t) place := by
  induction t generalizing s mode with
  | nil =>
      rw [List.append_nil, scanFrom]
      cases hfinish : mode.finish s.length with
      | error failure =>
          refine ⟨by simp, fun cause place hfail => ?_⟩
          obtain rfl := Option.some.inj hfail
          exact h.finish hfinish
      | ok segments =>
          refine ⟨fun body offset hmem => ?_, by simp⟩
          cases h with
          | text hs =>
              obtain rfl := Except.ok.inj hfinish
              simp only [Mode.flush] at hmem
              split at hmem <;> simp at hmem
          | escape hs | bracket n hs | dollar n hs | body n hs | closing n k hs =>
              simp [Mode.finish] at hfinish
  | cons c t ih =>
      have hstep := h.step c
      rw [scanFrom]
      cases hnext : mode.step s.length c with
      | error failure =>
          rw [hnext] at hstep
          refine ⟨by simp, fun cause place hfail => ?_⟩
          obtain rfl := Option.some.inj hfail
          exact hstep t
      | ok result =>
          obtain ⟨segments, next⟩ := result
          rw [hnext] at hstep
          obtain ⟨hafter, hgiven⟩ := hstep
          obtain ⟨htags, hfailure⟩ := ih hafter
          rw [List.length_append, List.append_assoc] at htags hfailure
          refine ⟨fun body offset hmem => ?_, hfailure⟩
          rcases List.mem_append.1 hmem with hmem | hmem
          · exact hgiven body offset hmem t
          · exact htags body offset hmem

theorem scan_found (t : Text) :
    (∀ body offset, Segment.tag body offset ∈ (scan t).1 → TagAt t offset body) ∧
    ∀ cause place, (scan t).2 = some (cause, place) → cause.FoundAt t place :=
  scanFrom_found (s := []) (.text isComplete_nil) t

end Segment

namespace Builder

/-- A segment is refused for what it says, or because it closes a loop that is not open. -/
theorem add_error {b : Builder} {s : Segment} {cause : Malformed} {place : Nat}
    (h : b.add s = .error (cause, place)) : ∃ body, s = .tag body place ∧
      (Tag.ofBody body = .error cause ∨ Tag.ofBody body = .ok .close ∧ cause = .unmatchedEnd) := by
  cases s with
  | text content offset =>
      simp [add] at h
  | tag body offset =>
      cases htag : Tag.ofBody body with
      | error cause' =>
          simp only [add, htag, Except.error.injEq, Prod.mk.injEq] at h
          obtain ⟨rfl, rfl⟩ := h
          exact ⟨body, rfl, .inl htag⟩
      | ok tag =>
          simp only [add, htag] at h
          cases tag with
          | echo tokens | loop head =>
              simp [addTag] at h
          | close =>
              cases hloops : b.loops with
              | cons loop outer =>
                  simp [addTag, hloops] at h
              | nil =>
                  simp only [addTag, hloops, Except.error.injEq, Prod.mk.injEq] at h
                  obtain ⟨rfl, rfl⟩ := h
                  exact ⟨body, rfl, .inr ⟨htag, rfl⟩⟩

/-- Where building fails, one of the segments is refused. -/
theorem foldlM_add_error {segments : List Segment} {b : Builder} {fault : Malformed × Nat}
    (h : segments.foldlM add b = .error fault) :
    ∃ s ∈ segments, ∃ b' : Builder, b'.add s = .error fault := by
  induction segments generalizing b with
  | nil =>
      simp [pure, Except.pure] at h
  | cons s segments ih =>
      rw [List.foldlM_cons, bind_eq_error_iff] at h
      rcases h with h | ⟨b', -, h⟩
      · exact ⟨s, List.mem_cons_self, b, h⟩
      · obtain ⟨s', hs', hadd⟩ := ih h
        exact ⟨s', List.mem_cons_of_mem _ hs', hadd⟩

/-- The innermost loop that stays open has been opened by one of the segments. -/
theorem exists_tag_of_loops {segments : List Segment} {b : Builder} {loop : OpenLoop}
    {outer : List OpenLoop} (h : segments.foldlM add empty = .ok b)
    (hloops : b.loops = loop :: outer) :
    ∃ body, Segment.tag body loop.offset ∈ segments ∧ Tag.ofBody body = .ok (.loop loop.head) := by
  obtain ⟨events, hsays, hfold⟩ := foldlM_add_eq_ok_iff.1 h
  have hevents : b.events = events := events_foldlM hfold
  have henter : .enter loop.head loop.offset ∈ events := by
    rw [← hevents]
    simp [Builder.events, hloops, loopEvents]
  obtain ⟨segment, hsegment, hsaysEnter⟩ := exists_of_forall₂ hsays henter
  cases hsaysEnter with
  | @enter body _ _ htag =>
      exact ⟨body, hsegment, htag⟩

end Builder

namespace Document

/-- The fault of a template that is refused is found where it is reported. -/
theorem foundAt_of_ofScan {t : Text} {cause : Malformed} {place : Nat}
    (h : ofScan (Segment.scan t) = .error (cause, place)) : cause.FoundAt t place := by
  obtain ⟨htags, hfailure⟩ := Segment.scan_found t
  rcases bind_eq_error_iff.1 h with hbuild | ⟨b, hbuild, hend⟩
  · obtain ⟨s, hs, b, hadd⟩ := Builder.foldlM_add_error hbuild
    obtain ⟨body, rfl, hbody | ⟨hbody, rfl⟩⟩ := Builder.add_error hadd
    · exact .body (htags body place hs) hbody
    · exact .unmatchedEnd (htags body place hs) hbody
  · cases hscan : (Segment.scan t).2 with
    | some failure =>
        rw [hscan] at hend
        exact hfailure cause place (hscan.trans (congrArg some (Except.error.inj hend)))
    | none =>
        rw [hscan] at hend
        cases hloops : b.loops with
        | nil =>
            simp [Builder.finish, hloops] at hend
        | cons loop outer =>
            simp only [Builder.finish, hloops, Except.error.injEq, Prod.mk.injEq] at hend
            obtain ⟨rfl, rfl⟩ := hend
            obtain ⟨body, hmem, hbody⟩ := Builder.exists_tag_of_loops hbuild hloops
            exact .openLoop (htags body _ hmem) hbody

/-- The failure of a template that is not read is located in it. -/
theorem parse_eq_error_iff {t : Text} {failure : ParseFailure} : parse t = .error failure ↔
    ∃ cause place, ofScan (Segment.scan t) = .error (cause, place) ∧
      failure = .locate t cause place := by
  unfold parse
  cases ofScan (Segment.scan t) with
  | ok d =>
      simp [Except.mapError]
  | error fault =>
      simp only [Except.mapError, Except.error.injEq]
      constructor
      · rintro rfl
        exact ⟨fault.1, fault.2, rfl, rfl⟩
      · rintro ⟨cause, place, rfl, rfl⟩
        rfl

end Document

namespace ParseFailure

/-- A failure is refused for every cause but one. -/
theorem locate_cases (t : Text) (cause : Malformed) (place : Nat) :
    (∃ e, cause = .tooManyDigits e ∧ locate t cause place = .tooManyDigits e) ∨
      locate t cause place = .refused (.locate t cause place) := by
  cases cause with
  | tooManyDigits e => exact Or.inl ⟨e, rfl, rfl⟩
  | _ => exact Or.inr rfl

end ParseFailure

namespace Tag

/-- The fields of a tag that are read as tokens: those after the equals sign of an echo tag, or
after the word that opens a loop. -/
def arguments (body : Text) : List Text :=
  match Text.strip body with
  | '=' :: rest => (Field.split? rest).getD []
  | stripped => ((afterFor? stripped).map Text.words).getD []

end Tag

/-- The cause is one that the body of a tag can be refused for, given its fields. -/
def Malformed.IsOfBody (fields : List Text) : Malformed → Prop
  | .emptyTag | .openString _ | .emptyEcho | .loopArguments _ => True
  | .loopCounter _ | .unknownTag _ | .badCall _ | .badToken _ => True
  | .tooManyDigits e => ∃ field ∈ fields, Number.int64? field = .error e
  | _ => False

namespace Tag

variable {fields : List Text}

theorem meets_ofField {field : Text} (h : field ∈ fields) :
    Meets (fun _ => True) (Malformed.IsOfBody fields) (Token.ofField field) := by
  unfold Token.ofField
  split
  · next e heq =>
      refine ⟨field, h, ?_⟩
      unfold Number.ofLiteral? at heq
      split at heq <;> simp_all
  · exact trivial
  · unfold Token.ofWord
    split
    · split
      · exact trivial
      · exact trivial
    · split
      · exact trivial
      · exact trivial
      · split
        · exact trivial
        · exact trivial

theorem meets_counterOf {field : Text} (h : field ∈ fields) :
    Meets (fun _ => True) (Malformed.IsOfBody fields) (counterOf field) := by
  refine (meets_ofField h).bind fun token _ => ?_
  cases token with
  | var name =>
      exact trivial
  | number n | text t | call name | operator op =>
      exact trivial

theorem meets_ofLoop (fields : List Text) :
    Meets (fun _ => True) (Malformed.IsOfBody fields) (ofLoop fields) := by
  unfold ofLoop
  split
  · exact (meets_counterOf (by simp)).bind fun _ _ => (meets_ofField (by simp)).bind fun _ _ =>
      (meets_ofField (by simp)).bind fun _ _ => trivial
  · exact (meets_counterOf (by simp)).bind fun _ _ => (meets_ofField (by simp)).bind fun _ _ =>
      (meets_ofField (by simp)).bind fun _ _ => (meets_ofField (by simp)).bind fun _ _ => trivial
  · exact trivial

theorem meets_ofEcho (body : Text) :
    Meets (fun _ => True) (Malformed.IsOfBody ((Field.split? body).getD [])) (ofEcho body) := by
  unfold ofEcho Tag.fields
  cases Field.split? body with
  | none =>
      exact trivial
  | some fields =>
      cases fields with
      | nil =>
          exact trivial
      | cons field rest =>
          exact (meets_mapM fun field hfield => meets_ofField hfield).bind fun _ _ => trivial

/-- The body of a tag is refused for a cause of its own. -/
theorem isOfBody_of_ofBody {body : Text} {cause : Malformed} (h : ofBody body = .error cause) :
    cause.IsOfBody (arguments body) := by
  have hmeets : Meets (fun _ => True) (Malformed.IsOfBody (arguments body)) (ofBody body) := by
    unfold ofBody ofStripped arguments
    generalize Text.strip body = stripped
    split
    · next rest =>
        exact meets_ofEcho rest
    · next hecho =>
        split
        · exact trivial
        · exact absurd rfl (hecho _)
        · split
          · exact trivial
          · split
            · next rest hfor =>
                rw [hfor]
                exact meets_ofLoop _
            · exact trivial
  rw [h] at hmeets
  exact hmeets

/-- The counter of a loop that a tag opens has a name. -/
theorem isName_counter {body : Text} {head : LoopHead} (h : ofBody body = .ok (.loop head)) :
    isName head.counter = true := by
  obtain ⟨fields, -, hfields⟩ := fields_of_ofBody h
  have hmem : Token.var head.counter ∈ (Tag.loop head).tokens := List.mem_cons_self
  obtain ⟨field, -, hfield⟩ := exists_of_forall₂ hfields hmem
  exact (Token.readable_of_ofField hfield).1

end Tag

/-- How a message names a position. -/
def Position.mention (p : Position) : Text :=
  " at line ".toText ++ Text.ofNat p.line ++ ", column ".toText ++ Text.ofNat p.column

theorem ParseError.message_eq (e : ParseError) :
    e.message = e.cause.message ++ e.position.mention := by
  unfold message Position.mention
  generalize " at line ".toText = before, ", column ".toText = between
  simp only [List.append_assoc]

namespace Text

/-- The character before the last space of a text. -/
def beforeLastSpace (t : Text) : Option CodePoint :=
  (t.reverse.dropWhile (· ≠ .char ' ')).tail.head?

theorem beforeLastSpace_append {word : Text} (h : .char ' ' ∉ word) (s : Text) (c : CodePoint) :
    beforeLastSpace (s ++ [c, ' '] ++ word) = some c := by
  have hword : ∀ d ∈ word.reverse, decide (d ≠ ' ') = true := by
    intro d hd
    simp only [decide_eq_true_eq]
    rintro rfl
    exact h (List.mem_reverse.1 hd)
  unfold beforeLastSpace
  rw [List.reverse_append, List.dropWhile_append_of_pos hword, List.reverse_append]
  rfl

theorem space_not_mem_ofNat (n : Nat) : .char ' ' ∉ ofNat n :=
  fun h => absurd (isDigit_of_mem_ofNat h) (by decide)

/-- A quoted text ends in its quote, and so in no digit. -/
theorem isDigit_getLast_quoted (s t : Text) :
    ∀ c ∈ (s ++ quoted t).getLast?, c.isDigit = false := by
  have hquote : (quoteFor t).isDigit = false := by
    unfold quoteFor
    split <;> decide
  simpa [quoted, List.getLast?_cons] using hquote

end Text

/-- A text that ends by naming a position ends in a digit, and the last word before the digits is
`column`. -/
theorem Position.of_mention_suffix {p : Position} {t : Text} (h : p.mention <:+ t) :
    t.beforeLastSpace = some (.char 'n') ∧ ∃ c ∈ t.getLast?, c.isDigit = true := by
  obtain ⟨s, rfl⟩ := h
  have hcolumn : ", column ".toText = ", colum".toText ++ [.char 'n', .char ' '] := by
    decide +kernel
  have hsplit :
      ∃ before, s ++ p.mention = before ++ [.char 'n', .char ' '] ++ Text.ofNat p.column := by
    unfold mention
    rw [hcolumn]
    generalize " at line ".toText = line, ", colum".toText = colum
    exact ⟨s ++ (line ++ Text.ofNat p.line ++ colum), by simp only [List.append_assoc]⟩
  obtain ⟨before, hbefore⟩ := hsplit
  have hne : Text.ofNat p.column ≠ [] := Text.ofNat_ne_nil _
  rw [hbefore]
  refine ⟨Text.beforeLastSpace_append (Text.space_not_mem_ofNat _) before 'n',
    (Text.ofNat p.column).getLast hne, ?_, Text.isDigit_of_mem_ofNat (List.getLast_mem hne)⟩
  rw [List.getLast?_append, List.getLast?_eq_some_getLast hne]
  rfl

/-- The message about a number with too many digits ends in the words `the limit`. -/
theorem TooManyDigits.message_eq (e : TooManyDigits) :
    ∃ before, e.message = before ++ [.char 'e', .char ' '] ++ "limit".toText := by
  have hlimit : " digits; use sys.set_int_max_str_digits() to increase the limit".toText =
      " digits; use sys.set_int_max_str_digits() to increase th".toText ++
        ([.char 'e', .char ' '] ++ "limit".toText) := by decide +kernel
  unfold message
  rw [hlimit]
  generalize "Exceeds the limit (".toText = first,
    " digits) for integer string conversion: value has ".toText = second,
    " digits; use sys.set_int_max_str_digits() to increase th".toText = third
  exact ⟨first ++ Text.ofNat digitLimit ++ second ++ Text.ofNat e.count ++ third,
    by simp only [List.append_assoc]⟩

/-- No cause mentions a position at the end of its wording, unless the counter of a loop does. -/
theorem Malformed.not_mention_suffix {cause : Malformed}
    (hcounter : ∀ x, cause = .openLoop x → .char ' ' ∉ x) (p : Position) :
    ¬ p.mention <:+ cause.message := by
  intro h
  obtain ⟨hspace, c, hc, hdigit⟩ := Position.of_mention_suffix h
  have hquoted : ∀ s t : Text, cause.message = s ++ Text.quoted t → False := by
    intro s t heq
    rw [heq] at hc
    exact absurd (Text.isDigit_getLast_quoted s t c hc) (by simp [hdigit])
  cases cause with
  | openString t | loopCounter t | unknownTag t | badCall t | badToken t =>
      exact hquoted _ t rfl
  | loopArguments n =>
      have hgot : "FOR tag takes 3 or 4 arguments, got ".toText =
          "FOR tag takes 3 or 4 arguments, go".toText ++ [.char 't', .char ' '] := by decide +kernel
      have hword := Text.beforeLastSpace_append (Text.space_not_mem_ofNat n)
        "FOR tag takes 3 or 4 arguments, go".toText 't'
      rw [← hgot] at hword
      exact absurd (hword.symm.trans hspace) (by decide)
  | tooManyDigits e =>
      obtain ⟨before, hbefore⟩ := e.message_eq
      have hword := Text.beforeLastSpace_append
        (show .char ' ' ∉ "limit".toText by decide) before 'e'
      rw [← hbefore] at hword
      exact absurd (hword.symm.trans hspace) (by decide)
  | openLoop x =>
      have hfor : "unclosed FOR ".toText = "unclosed FO".toText ++ [.char 'R', .char ' '] := by
        decide +kernel
      have hword := Text.beforeLastSpace_append (hcounter x rfl) "unclosed FO".toText 'R'
      rw [← hfor] at hword
      exact absurd (hword.symm.trans hspace) (by decide)
  | badOpening | emptyTag | badClosing | openEscape | openTag | emptyEcho | unmatchedEnd =>
      exact absurd hspace (by decide +kernel)

namespace Malformed.FoundAt

variable {t : Text} {cause : Malformed} {offset : Nat}

/-- A cause is found at a character. -/
theorem offset_lt (h : cause.FoundAt t offset) : offset < t.length := by
  cases h with
  | badOpening hs hspace hdollar htext | badClosing hs hne hbody hspace hbracket htext =>
      subst htext
      simp
  | openEscape hs htext =>
      subst htext
      simp
  | openTag tag hs hbeginning hne hunfinished htext =>
      subst htext
      simpa [List.length_pos_iff] using hne
  | body htag hbody | unmatchedEnd htag hbody | openLoop htag hbody =>
      obtain ⟨before, opening, after, -, rfl, -, rfl⟩ := htag
      simp

/-- A fault of a tag is found at the bracket that opens it. -/
theorem bracket (h : cause.FoundAt t offset) (hopening : cause ≠ .badOpening)
    (hclosing : cause ≠ .badClosing) (hescape : cause ≠ .openEscape) :
    t[offset]? = some (.char '[') ∧ IsComplete (t.take offset) := by
  cases h with
  | badOpening hs hspace hdollar htext =>
      exact absurd rfl hopening
  | badClosing hs hne hbody hspace hbracket htext =>
      exact absurd rfl hclosing
  | openEscape hs htext =>
      exact absurd rfl hescape
  | @openTag before rest tag hs hbeginning hne hunfinished htext =>
      obtain ⟨more, hmore⟩ := hbeginning
      cases rest with
      | nil =>
          exact absurd rfl hne
      | cons c rest =>
          obtain rfl : c = '[' := (List.cons.inj hmore).1
          subst htext
          simpa using hs
  | body htag hbody | unmatchedEnd htag hbody | openLoop htag hbody =>
      obtain ⟨before, opening, after, hs, rfl, -, rfl⟩ := htag
      simpa using hs

/-- A backslash that nothing follows is found where it stands. -/
theorem backslash (h : Malformed.openEscape.FoundAt t offset) :
    t[offset]? = some (.char '\\') ∧ offset + 1 = t.length := by
  cases h with
  | openEscape hs htext =>
      subst htext
      simp
  | body htag hbody =>
      exact (Tag.isOfBody_of_ofBody hbody).elim

/-- The counter of a loop that stays open has no space in it. -/
theorem space_not_mem {x : Text} (h : (Malformed.openLoop x).FoundAt t offset) : .char ' ' ∉ x := by
  cases h with
  | body htag hbody =>
      exact (Tag.isOfBody_of_ofBody hbody).elim
  | openLoop htag hbody =>
      intro hspace
      have hinert := isInert_of_mem_name (Tag.isName_counter hbody) hspace
      exact absurd (Text.isBlank_of_isInert hinert) (by decide)

end Malformed.FoundAt

/-- An error names the position of a character of a text, once and at the end of its message, and
the position denotes this character.  It is the bracket of the tag that is at fault, unless it is
itself a character that must not stand there, or the last backslash. -/
structure ParseError.IsLocated (t : Text) (e : ParseError) : Prop where
  offset_lt : e.offset < t.length
  position_eq : e.position = .ofOffset t e.offset
  message_eq : e.message = e.cause.message ++ e.position.mention
  once : ∀ p : Position, ¬ p.mention <:+ e.cause.message
  denotes : ∃ c, t[e.offset]? = some c ∧ e.position.Denotes t c
  bracket : e.cause ≠ .badOpening → e.cause ≠ .badClosing → e.cause ≠ .openEscape →
    t[e.offset]? = some (.char '[') ∧ IsComplete (t.take e.offset)
  backslash : e.cause = .openEscape → t[e.offset]? = some (.char '\\') ∧ e.offset + 1 = t.length
  found : e.cause.FoundAt t e.offset

/-- An error that is located where its cause is found has a position. -/
theorem Malformed.FoundAt.isLocated {t : Text} {e : ParseError} (h : e.cause.FoundAt t e.offset)
    (hposition : e.position = .ofOffset t e.offset) : e.IsLocated t := by
  obtain ⟨c, hc⟩ : ∃ c, t[e.offset]? = some c := ⟨_, List.getElem?_eq_getElem h.offset_lt⟩
  exact {
    offset_lt := h.offset_lt
    position_eq := hposition
    message_eq := e.message_eq
    once := Malformed.not_mention_suffix fun x hx => (hx ▸ h).space_not_mem
    denotes := ⟨c, hc, hposition ▸ Position.ofOffset_denotes hc⟩
    bracket := h.bracket
    backslash := fun hescape => (hescape ▸ h).backslash
    found := h }

theorem Text.strip_eq_self {t : Text} (h : ∀ c ∈ t, isBlank c = false) : strip t = t := by
  have hdrop {s : Text} (hs : ∀ c ∈ s, isBlank c = false) : s.dropWhile isBlank = s := by
    cases s with
    | nil => rfl
    | cons c s => exact List.dropWhile_cons_of_neg (by simp [hs])
  rw [strip, trim, hdrop h, hdrop fun c hc => h c (List.mem_reverse.1 hc), List.reverse_reverse]

theorem Numeral.WrittenInteger.isInert_of_mem_raw (w : WrittenInteger) {c : CodePoint}
    (h : c ∈ w.raw) :
    Text.isInert c = true := by
  rcases w.mem_raw h with hdigit | rfl | rfl
  · exact Text.isInert_of_isPlain (Text.isPlain_of_isDigit hdigit)
  · decide
  · decide

/-- An echo tag with one field is read as this field is. -/
theorem Tag.ofBody_echo_tooManyDigits {w : WrittenInteger} (h : w.IsLong) :
    Tag.ofBody (.char '=' :: w.raw) = .error (.tooManyDigits ⟨w.digits.length⟩) := by
  have hstrip : Text.strip (.char '=' :: w.raw) = .char '=' :: w.raw :=
    Text.strip_eq_self (List.forall_mem_cons.2 ⟨by decide, fun c hc =>
      Text.isBlank_of_isInert (w.isInert_of_mem_raw hc)⟩)
  have hne : w.raw ≠ [] := by simp [WrittenInteger.raw, w.digits_ne_nil]
  have hwhole := Field.isWhole_of_isInert hne fun c hc => w.isInert_of_mem_raw hc
  have hsplit : Field.split? w.raw = some [w.raw] := by
    have hjoined := Field.split?_joinWith (List.forall_mem_singleton.2 hwhole)
    rwa [Text.joinWith_singleton] at hjoined
  have hfield : Token.ofField w.raw = .error (.tooManyDigits ⟨w.digits.length⟩) := by
    unfold Token.ofField Number.ofLiteral?
    rw [Numeral.int64?_eq_error_iff.2 ⟨w, rfl, h, rfl⟩]
  rw [ofBody, hstrip]
  show ofEcho w.raw = _
  simp [ofEcho, fields, hsplit, hfield, Bind.bind, Except.bind]

/-- A number with too many digits is an argument of a tag of the text. -/
theorem Malformed.FoundAt.exists_overlong {t : Text} {e : TooManyDigits} {offset : Nat}
    (h : (Malformed.tooManyDigits e).FoundAt t offset) :
    ∃ (body : Text) (w : WrittenInteger), TagAt t offset body ∧ w.raw ∈ Tag.arguments body ∧
      w.IsLong ∧ e = ⟨w.digits.length⟩ := by
  cases h with
  | body htag hbody =>
      obtain ⟨field, hfield, hread⟩ := Tag.isOfBody_of_ofBody hbody
      obtain ⟨w, rfl, hlong, rfl⟩ := Numeral.int64?_eq_error_iff.1 hread
      exact ⟨_, w, htag, hfield, hlong, rfl⟩

namespace Document

/-- A template is refused for a cause that is found in it, and at that place. -/
theorem foundAt_of_parse {t : Text} {e : ParseError} (h : parse t = .error (.refused e)) :
    e.cause.FoundAt t e.offset ∧ e.position = .ofOffset t e.offset := by
  obtain ⟨cause, place, hfault, hlocate⟩ := parse_eq_error_iff.1 h
  rcases ParseFailure.locate_cases t cause place with ⟨d, -, hdigits⟩ | hrefused
  · simp [hdigits] at hlocate
  · obtain rfl := ParseFailure.refused.inj (hlocate.trans hrefused)
    exact ⟨foundAt_of_ofScan hfault, rfl⟩

/-- Reading a template fails with an error that is located in it, unless one of its tags has a
number with too many digits among its arguments.  Then the failure is that of the number alone, and
its message mentions no position. -/
theorem parse_failure_located {t : Text} {failure : ParseFailure} (h : parse t = .error failure) :
    (∃ e, failure = .refused e ∧ e.IsLocated t) ∨
      ∃ (offset : Nat) (body : Text) (w : WrittenInteger), TagAt t offset body ∧
        w.raw ∈ Tag.arguments body ∧ w.IsLong ∧ failure = .tooManyDigits ⟨w.digits.length⟩ ∧
        ∀ p : Position, ¬ p.mention <:+ failure.message := by
  obtain ⟨cause, place, hfault, rfl⟩ := parse_eq_error_iff.1 h
  have hfound := foundAt_of_ofScan hfault
  rcases ParseFailure.locate_cases t cause place with ⟨e, rfl, hdigits⟩ | hrefused
  · obtain ⟨body, w, htag, harguments, hlong, rfl⟩ := hfound.exists_overlong
    have hmessage : ∀ p : Position, ¬ p.mention <:+ (ParseFailure.tooManyDigits _).message :=
      @Malformed.not_mention_suffix (.tooManyDigits ⟨w.digits.length⟩) (by simp)
    exact .inr ⟨place, body, w, htag, harguments, hlong, hdigits, hdigits ▸ hmessage⟩
  · exact .inl ⟨_, hrefused, hfound.isLocated rfl⟩

/-- A bracket that is protected, a tag, and an end tag in the second line that closes nothing. -/
theorem parse_failure_located_unmatchedEnd :
    parse "a\n\\[[$= 1 $][ $END$]".toText = .error (.refused ⟨.unmatchedEnd, 12, ⟨2, 11⟩⟩) ∧
      Position.Denotes ⟨2, 11⟩ "a\n\\[[$= 1 $][ $END$]".toText '[' := by
  have hparse : parse "a\n\\[[$= 1 $][ $END$]".toText =
      .error (.refused ⟨.unmatchedEnd, 12, ⟨2, 11⟩⟩) := by rfl
  rcases parse_failure_located hparse with ⟨e, he, hlocated⟩ | ⟨-, -, w, -, -, -, hfailure, -⟩
  · obtain rfl := ParseFailure.refused.inj he
    obtain ⟨c, hc, hdenotes⟩ := hlocated.denotes
    have hat := (hlocated.bracket (by decide) (by decide) (by decide)).1
    obtain rfl : c = '[' := Option.some.inj (hc.symm.trans hat)
    exact ⟨hparse, hdenotes⟩
  · cases hfailure

/-- A number with too many digits is the only field of an echo tag. -/
theorem parse_echo_tooManyDigits {w : WrittenInteger} (h : w.IsLong) :
    parse (.char '[' :: .char '$' :: .char '=' :: (w.raw ++ [.char '$', .char ']'])) =
      .error (.tooManyDigits ⟨w.digits.length⟩) := by
  have hdollar : .char '$' ∉ .char '=' :: w.raw := by
    intro hmem
    rcases List.mem_cons.1 hmem with heq | hraw
    · exact absurd heq (by decide)
    · exact Text.ne_dollar_of_isInert (w.isInert_of_mem_raw hraw) rfl
  have hscan : Segment.scan ('[' :: '$' :: '=' :: (w.raw ++ [.char '$', .char ']'])) =
      ([.tag (.char '=' :: w.raw) 0], none) := by
    have hparts := Segment.scan_raws (List.isChain_singleton
      (Segment.Part.tag ⟨0, .char '=' :: w.raw, 0, List.cons_ne_nil _ _, hdollar⟩))
    simpa [Segment.Part.raw, WrittenTag.raw, WrittenTag.inner, Segment.segmentsFrom,
      Segment.Part.segment] using hparts
  have hadd : Builder.empty.add (.tag (.char '=' :: w.raw) 0) =
      .error (.tooManyDigits ⟨w.digits.length⟩, 0) := by
    simp only [Builder.add, Tag.ofBody_echo_tooManyDigits h]
  refine parse_eq_error_iff.2 ⟨.tooManyDigits ⟨w.digits.length⟩, 0, ?_, rfl⟩
  rw [ofScan, hscan, List.foldlM_cons, hadd]
  rfl

/-- An echo of a number with one digit too many is not read, and is not refused with a position. -/
theorem parse_echo_overlong :
    parse ("[$=".toText ++ WrittenInteger.overlong.raw ++ "$]".toText) =
        .error (.tooManyDigits ⟨4301⟩) ∧
      ¬ ∃ e, parse ("[$=".toText ++ WrittenInteger.overlong.raw ++ "$]".toText) =
        .error (.refused e) := by
  have hparse : parse ("[$=".toText ++ WrittenInteger.overlong.raw ++ "$]".toText) =
      .error (.tooManyDigits ⟨digitLimit + 1⟩) := by
    rw [← WrittenInteger.length_overlong]
    exact parse_echo_tooManyDigits WrittenInteger.isLong_overlong
  refine ⟨hparse, ?_⟩
  rintro ⟨e, he⟩
  cases hparse.symm.trans he

end Document
end Stencil
