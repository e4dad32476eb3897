import Mathlib.Algebra.Group.Nat.Even
import Stencil.Proofs.Document.Source
import Stencil.Proofs.Run.Append
import Stencil.Proofs.Run.Budget

/-!
# Runs of text

Which texts a run of a template can stand for, and what becomes of a template that is one run.

**Pairs.**  A text is `Paired` if its backslashes come in pairs wherever they stand before a bracket
or at the end.  A backslash that is left over there would protect the bracket, or nothing.

**Argument.**  A run is a sequence of units, and what the units stand for is written as the run
itself.  So a text can be a run exactly if it is what some units stand for, and these are found from
left to right: a backslash makes a unit with the character after it (`paired_iff_exists_units`).

**Results.**
* `Document.runs_of_text`: the texts of runs are the paired ones; in a template without brackets
  only the backslashes at its end matter, and it is rendered as it is unless UTF-8 lacks a part of
  it.
* `Document.not_rendered_surrogate`: a text that is read and cannot be rendered.
-/

namespace Stencil
namespace Segment

/-- Backslashes before a bracket or at the end come in pairs: wherever a longest sequence of them is
followed by a bracket or by nothing, their number is even. -/
def Paired (s : Text) : Prop :=
  ∀ (before : Text) (n : Nat) (after : Text),
    s = before ++ List.replicate n (.char '\\') ++ after → before.getLast? ≠ some (.char '\\') →
    after = [] ∨ after.head? = some (.char '[') → Even n

theorem getLast?_cons_ne_iff {c : CodePoint} {s : Text} (hc : c ≠ '\\') :
    (c :: s).getLast? ≠ some (.char '\\') ↔ s.getLast? ≠ some (.char '\\') := by
  cases s <;> simp [List.getLast?_cons, hc]

theorem paired_nil : Paired [] := by
  intro before n after h _ _
  obtain ⟨-, hn, -⟩ : before = [] ∧ n = 0 ∧ after = [] := by simpa using h.symm
  rw [hn]
  exact Even.zero

theorem paired_cons_iff {c : CodePoint} {s : Text} (hc : c ≠ '\\') :
    Paired (c :: s) ↔ Paired s := by
  constructor
  · intro h before n after heq hlast hafter
    exact h (c :: before) n after (by rw [heq]; rfl) ((getLast?_cons_ne_iff hc).2 hlast) hafter
  · intro h before n after heq hlast hafter
    cases before with
    | nil =>
        cases n with
        | zero =>
            exact Even.zero
        | succ n =>
            exact absurd (List.cons.inj heq).1 hc
    | cons d before =>
        simp only [List.cons_append, List.cons.injEq] at heq
        obtain ⟨rfl, heq⟩ := heq
        exact h before n after heq ((getLast?_cons_ne_iff hc).1 hlast) hafter

theorem not_paired_singleton : ¬ Paired ['\\'] := fun h =>
  absurd (h [] 1 [] rfl (by decide) (.inl rfl)) (by decide)

theorem not_paired_bracket (s : Text) : ¬ Paired (.char '\\' :: .char '[' :: s) := fun h =>
  absurd (h [] 1 (.char '[' :: s) rfl (by decide) (.inr rfl)) (by decide)

/-- A backslash and the character after it make a unit, so that they do not matter. -/
theorem paired_pair_iff {c : CodePoint} {s : Text} (hc : c ≠ '[') :
    Paired (.char '\\' :: c :: s) ↔ Paired s := by
  constructor
  · intro h before n after heq hlast hafter
    by_cases hslash : c = '\\'
    · cases before with
      | nil =>
          -- The two backslashes are the first ones of a longer sequence.
          have heven := h [] (n + 2) after (by rw [hslash, heq]; rfl) hlast hafter
          exact (Nat.even_add.1 heven).2 even_two
      | cons d before =>
          refine h (.char '\\' :: c :: d :: before) n after (by rw [heq]; rfl) ?_ hafter
          simpa only [List.getLast?_cons_cons] using hlast
    · refine h (.char '\\' :: c :: before) n after (by rw [heq]; rfl) ?_ hafter
      rw [List.getLast?_cons_cons]
      exact (getLast?_cons_ne_iff hslash).2 hlast
  · intro h before n after heq hlast hafter
    match before, n with
    | [], 0 =>
        exact Even.zero
    | [], 1 =>
        obtain rfl : c :: s = after := (List.cons.inj heq).2
        rcases hafter with hafter | hafter
        · exact absurd hafter (List.cons_ne_nil _ _)
        · exact absurd (Option.some.inj hafter) hc
    | [], n + 2 =>
        have hrest : s = List.replicate n (.char '\\') ++ after :=
          (List.cons.inj (List.cons.inj heq).2).2
        exact (h [] n after hrest (by decide) hafter).add even_two
    | [d], n =>
        simp only [List.cons_append, List.cons.injEq] at heq
        rw [← heq.1] at hlast
        exact absurd rfl hlast
    | d :: e :: before, n =>
        simp only [List.cons_append, List.cons.injEq] at heq
        refine h before n after heq.2.2 (fun hbefore => hlast ?_) hafter
        rw [List.getLast?_cons_cons, List.getLast?_cons, hbefore]
        rfl

theorem TextUnit.paired_content_append (u : TextUnit) (s : Text) :
    Paired (u.content ++ s) ↔ Paired s := by
  cases u with
  | plain c hbracket hslash =>
      exact paired_cons_iff hslash
  | escaped c =>
      by_cases hc : c = '['
      · rw [TextUnit.content, if_pos hc]
        exact paired_cons_iff (by decide)
      · rw [TextUnit.content, if_neg hc]
        exact paired_pair_iff hc

/-- A character other than a backslash can be had from one unit. -/
theorem exists_unit {c : CodePoint} (hc : c ≠ '\\') : ∃ u : TextUnit, u.content = [c] := by
  by_cases hbracket : c = '['
  · exact ⟨.escaped '[', by rw [hbracket]; rfl⟩
  · exact ⟨.plain c hbracket hc, rfl⟩

theorem Paired.exists_units {s : Text} (h : Paired s) :
    ∃ units : List TextUnit, units.flatMap TextUnit.content = s := by
  induction s using List.twoStepInduction with
  | nil =>
      exact ⟨[], rfl⟩
  | singleton c =>
      have hc : c ≠ '\\' := fun hc => not_paired_singleton (hc ▸ h)
      obtain ⟨u, hu⟩ := exists_unit hc
      exact ⟨[u], by simp [hu]⟩
  | cons_cons c d s ih ih' =>
      by_cases hc : c = '\\'
      · subst hc
        have hd : d ≠ '[' := fun hd => not_paired_bracket s (hd ▸ h)
        obtain ⟨units, hunits⟩ := ih ((paired_pair_iff hd).1 h)
        exact ⟨.escaped d :: units, by simp [TextUnit.content, hd, hunits]⟩
      · obtain ⟨u, hu⟩ := exists_unit hc
        obtain ⟨units, hunits⟩ := ih' d ((paired_cons_iff hc).1 h)
        exact ⟨u :: units, by simp [hu, hunits]⟩

/-- A text is what some units stand for exactly if it is paired. -/
theorem paired_iff_exists_units {s : Text} :
    Paired s ↔ ∃ units : List TextUnit, units.flatMap TextUnit.content = s := by
  refine ⟨Paired.exists_units, ?_⟩
  rintro ⟨units, rfl⟩
  induction units with
  | nil =>
      exact paired_nil
  | cons u units ih =>
      rw [List.flatMap_cons]
      exact (u.paired_content_append _).2 ih

/-- A part says an event: a run says a paired text, as which it is written, and a tag says something
else. -/
def Part.Writes (part : Part) : Event → Prop
  | .text s => part.isRun = true ∧ s ≠ [] ∧ Paired s ∧ part.raw = sourceText s
  | .echo _ | .enter _ _ | .leave => part.isRun = false

theorem Part.writes_of_says {part : Part} {offset : Nat} {e : Event}
    (h : (part.segment offset).Says e) : part.Writes e := by
  cases part with
  | run units hne =>
      cases h with
      | text =>
          exact ⟨rfl, TextUnit.flatMap_content_ne_nil hne,
            paired_iff_exists_units.2 ⟨units, rfl⟩, (sourceText_content units).symm⟩
  | tag t =>
      cases h <;> rfl

theorem forall₂_writes {parts : List Part} {offset : Nat} {events : List Event}
    (h : List.Forall₂ Says (segmentsFrom offset parts) events) :
    List.Forall₂ Part.Writes parts events := by
  induction parts generalizing offset events with
  | nil =>
      cases h
      exact .nil
  | cons part parts ih =>
      cases h with
      | cons hsays hrest =>
          exact .cons (Part.writes_of_says hsays) (ih hrest)

theorem sourceText_of_notMem {s : Text} (h : .char '[' ∉ s) : sourceText s = s := by
  induction s with
  | nil =>
      rfl
  | cons c s ih =>
      obtain ⟨hc, hs⟩ := not_or.1 (List.mem_cons.not.1 h)
      rw [sourceText, List.flatMap_cons, if_neg (Ne.symm hc), ← sourceText, ih hs]
      rfl

/-- The number of backslashes at the end of a text. -/
def trailing (s : Text) : Nat := (s.reverse.takeWhile (· = .char '\\')).length

theorem trailing_append {before : Text} (h : before.getLast? ≠ some (.char '\\')) (n : Nat) :
    trailing (before ++ List.replicate n (.char '\\')) = n := by
  have hbefore : before.reverse.takeWhile (· = .char '\\') = [] := by
    cases hreverse : before.reverse with
    | nil =>
        rfl
    | cons c rest =>
        rw [← List.head?_reverse, hreverse] at h
        exact List.takeWhile_cons_of_neg (by simpa using h)
  rw [trailing, List.reverse_append, List.reverse_replicate, List.takeWhile_append_of_pos, hbefore]
  · simp
  · intro c hc
    simpa using List.eq_of_mem_replicate hc

theorem exists_trailing (s : Text) :
    ∃ before, s = before ++ List.replicate (trailing s) (.char '\\') ∧
      before.getLast? ≠ some (.char '\\') := by
  refine ⟨(s.reverse.dropWhile (· = .char '\\')).reverse, ?_, ?_⟩
  · have hslashes :
        s.reverse.takeWhile (· = .char '\\') = List.replicate (trailing s) (.char '\\') := by
      refine List.eq_replicate_iff.2 ⟨rfl, fun c hc => ?_⟩
      simpa using List.mem_takeWhile_imp hc
    have hsplit := congrArg List.reverse
      (List.takeWhile_append_dropWhile (p := (· = .char '\\')) (l := s.reverse))
    rw [List.reverse_append, List.reverse_reverse, hslashes, List.reverse_replicate] at hsplit
    exact hsplit.symm
  · rw [List.getLast?_reverse]
    intro hhead
    have hnot := List.head?_dropWhile_not (p := (· = .char '\\')) s.reverse
    rw [hhead] at hnot
    simp at hnot

/-- Without brackets only the backslashes at the end matter. -/
theorem paired_iff_even_trailing {s : Text} (h : .char '[' ∉ s) : Paired s ↔ Even (trailing s) := by
  constructor
  · intro hpaired
    obtain ⟨before, hs, hlast⟩ := exists_trailing s
    exact hpaired before (trailing s) [] (by rw [List.append_nil]; exact hs) hlast (.inl rfl)
  · rintro heven before n after rfl hlast (rfl | hafter)
    · rwa [List.append_nil, trailing_append hlast] at heven
    · have hmem : .char '[' ∈ after := List.mem_of_mem_head? hafter
      exact absurd (List.mem_append_right _ hmem) h

/-- A backslash that is left over at the end protects nothing. -/
theorem scan_of_odd_trailing {s : Text} (h : .char '[' ∉ s) (hodd : ¬ Even (trailing s)) :
    scan s = ([], some (.openEscape, s.length - 1)) := by
  obtain ⟨before, hs, hlast⟩ := exists_trailing s
  obtain ⟨k, hk⟩ := Nat.not_even_iff_odd.1 hodd
  -- What stands before the last backslash is a sequence of units.
  have hsplit : s = before ++ List.replicate (2 * k) (.char '\\') ++ [.char '\\'] := by
    rw [hs, hk, List.replicate_succ', List.append_assoc]
  have hbracket : .char '[' ∉ before ++ List.replicate (2 * k) (.char '\\') := fun hmem =>
    h (hsplit ▸ List.mem_append_left _ hmem)
  have hpaired : Paired (before ++ List.replicate (2 * k) (.char '\\')) := by
    rw [paired_iff_even_trailing hbracket, trailing_append hlast]
    exact even_two_mul k
  obtain ⟨units, hunits⟩ := hpaired.exists_units
  have hraw : units.flatMap TextUnit.raw = before ++ List.replicate (2 * k) (.char '\\') := by
    rw [← sourceText_content, hunits, sourceText_of_notMem hbracket]
  rw [hsplit, ← hraw, scan, Mode.initial, scanFrom_units]
  simp [scanFrom, Mode.step, Mode.finish, Scan.after]

end Segment

namespace Machine

theorem perform_document {limit : Option Int} {nodes : List Node} {m m₁ : Machine}
    (h : (charge limit).runIn m = (.ok (), m₁)) :
    (perform limit (.document nodes)).runIn m = (.ok (nodes.map .visit), m₁) := by
  simp only [perform, Action.runIn_bind, h]
  rfl

end Machine

open Segment

namespace Document

/-- The runs of a template that is read are paired texts, and are written as they stand in it. -/
theorem exists_parts_of_parse {t : Text} {d : Document} (h : parse t = .ok d) :
    ∃ parts, Separated parts ∧ raws parts = t ∧ List.Forall₂ Part.Writes parts (events d) := by
  obtain ⟨parts, hsep, htext, hsays⟩ := parse_eq_ok_iff_parts.1 h
  exact ⟨parts, hsep, htext, forall₂_writes hsays⟩

/-- A text that is not empty is read back from what is written for it exactly if it is paired. -/
theorem parse_sourceText_iff {s : Text} (hne : s ≠ []) :
    parse (sourceText s) = .ok [.text s] ↔ Paired s := by
  constructor
  · intro h
    obtain ⟨parts, -, -, hwrites⟩ := exists_parts_of_parse h
    cases hwrites with
    | cons hpart _ =>
        exact hpart.2.2.1
  · intro h
    obtain ⟨units, rfl⟩ := h.exists_units
    have hunits : units ≠ [] := fun hnil => hne (by rw [hnil]; rfl)
    have hraw : raws [.run units hunits] = sourceText (units.flatMap TextUnit.content) := by
      rw [sourceText_content, raws_cons]
      exact List.append_nil _
    exact parse_eq_ok_iff_parts.2 ⟨_, List.isChain_singleton _, hraw, .cons .text .nil⟩

/-- The document of a text that is one run, or of the empty text. -/
def ofText (s : Text) : Document := if s = [] then [] else [.text s]

theorem parse_of_paired {s : Text} (hbracket : .char '[' ∉ s) (h : Paired s) :
    parse s = .ok (ofText s) := by
  unfold ofText
  split
  · next hnil =>
      subst hnil
      rfl
  · next hne =>
      have hparse := (parse_sourceText_iff hne).2 h
      rwa [sourceText_of_notMem hbracket] at hparse

theorem parse_of_odd_trailing {s : Text} (hbracket : .char '[' ∉ s) (hodd : ¬ Even (trailing s)) :
    parse s = .error (.refused (.locate s .openEscape (s.length - 1))) := by
  rw [parse, scan_of_odd_trailing hbracket hodd]
  rfl

/-- The context that a template is rendered in: nothing has been sent, no header will be, and texts
are in UTF-8. -/
def renderContext (request persistent : Index Text) : Context :=
  .start request persistent [] { sendsHeader := false }

theorem isUtf8_renderContext (request persistent : Index Text) :
    (renderContext request persistent).IsUtf8 := by
  show Charset.codec? "UTF-8".toText = some Charset.utf8.encode
  have hname : Charset.ofName? "UTF-8".toText = some .utf8 := by decide +kernel
  rw [Charset.codec?, hname]
  rfl

/-- A text that is rendered is written as it is, if it has bytes in UTF-8. -/
theorem runIn_write_renderContext (request persistent : Index Text) {s : Text}
    {bytes : List UInt8} (h : Charset.utf8.encode s = .ok bytes) :
    ∃ c, (Context.write s).runIn (renderContext request persistent) = (.ok (), c) ∧
      c.output = bytes.toArray := by
  have hheader : (renderContext request persistent).markSent.headerBytes = .ok [] := rfl
  rw [(isUtf8_renderContext request persistent).runIn_write_of_ok h]
  simp only [Context.runIn_writeBytes, hheader]
  exact ⟨_, rfl, by simp [renderContext, Context.start, Context.append, Context.markSent]⟩

/-- With two steps a document of one run is worked off. -/
theorem work_ofText {limit : Option Int} (hlimit : Machine.Allows limit 2) (s : Text)
    (request persistent : Index Text) :
    match Charset.utf8.encode s with
    | .ok bytes => ∃ m,
        Machine.work limit 2 [.document (ofText s)] (.start (renderContext request persistent)) =
          (.finished, m) ∧ m.context.output = bytes.toArray
    | .error e => ∃ m,
        Machine.work limit 2 [.document (ofText s)] (.start (renderContext request persistent)) =
          (.failed (.unencodable e), m) := by
  let m₁ : Machine := ⟨.empty, renderContext request persistent, 1⟩
  have hfirst : (Machine.charge limit).runIn (.start (renderContext request persistent)) =
      (.ok (), m₁) :=
    Machine.runIn_charge_of_lt hlimit (show ((0 : Nat) : Int) < 2 by decide)
  have hsecond : (Machine.charge limit).runIn m₁ = (.ok (), { m₁ with steps := 2 }) :=
    Machine.runIn_charge_of_lt hlimit (show ((1 : Nat) : Int) < 2 by decide)
  rw [Machine.work, Machine.perform_document hfirst]
  by_cases hs : s = []
  · subst hs
    exact ⟨m₁, rfl, rfl⟩
  · have hperform := Machine.perform_text_of_charge hsecond s
    simp only [ofText, if_neg hs, List.map_cons, List.map_nil, List.append_nil, Machine.work]
    cases hencode : Charset.utf8.encode s with
    | ok bytes =>
        obtain ⟨c, hwrite, houtput⟩ := runIn_write_renderContext request persistent hencode
        simp only [m₁, hwrite] at hperform
        exact ⟨{ m₁ with context := c, steps := 2 }, by simp only [m₁, hperform]; rfl, houtput⟩
    | error e =>
        have hwrite := (isUtf8_renderContext request persistent).runIn_write_of_lacked hencode
        simp only [m₁, hwrite] at hperform
        exact ⟨_, by simp only [m₁, hperform]; rfl⟩

/-- A template of one run is rendered as it is, if the budget allows two steps and the text has
bytes in UTF-8. -/
theorem render_of_parse {s : Text} (h : parse s = .ok (ofText s)) (request persistent : Index Text)
    {limit : Option Int} (hlimit : Machine.Allows limit 2) :
    render s request persistent limit =
      match Charset.utf8.encode s with
      | .ok bytes => .ok bytes.toArray
      | .error e => .error (.fault (.unencodable e)) := by
  have hbound : 2 ≤ boundFor limit := by
    cases limit with
    | none => exact show 2 ≤ 2 ^ 62 by decide
    | some k => exact Nat.le_add_left 2 _
  obtain ⟨more, hmore⟩ := Nat.exists_eq_add_of_le hbound
  have hrun {outcome : Outcome} {m : Machine}
      (hwork : Machine.work limit 2 [.document (ofText s)]
        (.start (renderContext request persistent)) = (outcome, m))
      (hne : outcome ≠ .unfinished) :
      (ofText s).run limit (.start request persistent [] { sendsHeader := false }) =
        (outcome, m) := by
    rw [run, hmore]
    exact Machine.work_add more hwork hne
  have hwork := work_ofText hlimit s request persistent
  cases hencode : Charset.utf8.encode s with
  | ok bytes =>
      rw [hencode] at hwork
      obtain ⟨m, hfinished, houtput⟩ := hwork
      simp only [render, h, hrun hfinished (by decide), houtput]
  | error e =>
      rw [hencode] at hwork
      obtain ⟨m, hfailed⟩ := hwork
      simp only [render, h, hrun hfailed (by simp)]

/-- Which texts the runs of templates are.

* A text that is not empty is read back from what is written for it, as the only node of a document,
  exactly if it is paired.
* The runs of any template that is read are paired texts that are not empty, and each stands in the
  template as it is written.
* A text without brackets is paired if an even number of backslashes stands at its end, and then it
  is rendered as it is, unless a surrogate stands in it by itself, for which UTF-8 has no bytes:
  then its write fails.  With an odd number of backslashes the text is refused at the last of
  them. -/
theorem runs_of_text :
    (∀ s, s ≠ [] → (parse (sourceText s) = .ok [.text s] ↔ Paired s)) ∧
    (∀ t d, parse t = .ok d → ∃ parts, Separated parts ∧ raws parts = t ∧
      List.Forall₂ Part.Writes parts (events d)) ∧
    ∀ s, .char '[' ∉ s →
      (Even (trailing s) → ∀ request persistent limit, Machine.Allows limit 2 →
        ((∀ c ∈ s, Charset.utf8.has c = true) →
          render s request persistent limit = .ok (Charset.utf8.bytes s).toArray) ∧
        ∀ c ∈ s, Charset.utf8.has c = false → ∃ e, Charset.utf8.encode s = .error e ∧
          render s request persistent limit = .error (.fault (.unencodable e))) ∧
      (¬ Even (trailing s) → ∃ e, parse s = .error (.refused e) ∧
        e = .locate s .openEscape (s.length - 1) ∧
        e.cause.message = "unterminated escape".toText) := by
  refine ⟨fun s hne => parse_sourceText_iff hne, fun t d h => exists_parts_of_parse h,
    fun s hbracket => ⟨fun heven request persistent limit hlimit => ?_, fun hodd => ?_⟩⟩
  · have hpaired := (paired_iff_even_trailing hbracket).2 heven
    have hrender := render_of_parse (parse_of_paired hbracket hpaired) request persistent hlimit
    refine ⟨fun hall => ?_, fun c hc hlacks => ?_⟩
    · rw [hrender, Charset.encode_of_has hall]
      rfl
    · cases hencode : Charset.utf8.encode s with
      | ok bytes =>
          have hall := Charset.has_of_encode hencode c hc
          rw [hlacks] at hall
          cases hall
      | error e =>
          exact ⟨e, rfl, by rw [hrender, hencode]⟩
  · exact ⟨_, parse_of_odd_trailing hbracket hodd, rfl, rfl⟩

/-- A text with pairs of backslashes and a bracket, a template with a tag, and texts that end in two
and in three backslashes. -/
theorem runs_of_text_with_backslashes :
    parse (sourceText "a\\\\[b\\c".toText) = .ok [.text "a\\\\[b\\c".toText] ∧
    (∃ parts, Separated parts ∧ raws parts = "x\\[[$= 1 $]".toText ∧
      List.Forall₂ Part.Writes parts [.text "x[".toText, .echo [.number (.int 1)]]) ∧
    render "a\\\\".toText .empty .empty none = .ok #[97, 92, 92] ∧
    ∃ e, parse "a\\\\\\".toText = .error (.refused e) ∧ e.offset = 3 := by
  obtain ⟨hread, hparts, htext⟩ := runs_of_text
  have hpaired : Paired "a\\\\[b\\c".toText := paired_iff_exists_units.2
    ⟨[.plain 'a' (by decide) (by decide), .escaped '\\', .escaped '[',
      .plain 'b' (by decide) (by decide), .escaped 'c'], by rfl⟩
  have hparse : parse "x\\[[$= 1 $]".toText =
      .ok [.text "x[".toText, .echo [.number (.int 1)]] := by rfl
  have heven : trailing "a\\\\".toText = 2 := by rfl
  have hodd : trailing "a\\\\\\".toText = 3 := by rfl
  obtain ⟨e, he, rfl, -⟩ := (htext "a\\\\\\".toText (by decide)).2 (by rw [hodd]; decide)
  exact ⟨(hread _ (by decide)).2 hpaired, hparts _ _ hparse,
    ((htext "a\\\\".toText (by decide)).1 (by rw [heven]; decide) .empty .empty none nofun).1
      (by decide),
    _, he, rfl⟩

/-- A text of one surrogate is read, but it is not rendered as it is. -/
theorem not_rendered_surrogate :
    .char '[' ∉ ([.surrogate 0] : Text) ∧ Even (trailing [.surrogate 0]) ∧
      parse [.surrogate 0] = .ok [.text [.surrogate 0]] ∧
      render [.surrogate 0] .empty .empty none =
        .error (.fault (.unencodable (Charset.utf8.error (.surrogate 0) 0 1))) := by
  have hparse : parse [.surrogate 0] = .ok (ofText [.surrogate 0]) := by rfl
  exact ⟨by decide, by decide, by rfl, render_of_parse hparse .empty .empty nofun⟩

end Document
end Stencil
