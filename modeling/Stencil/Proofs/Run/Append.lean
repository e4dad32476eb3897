import Stencil.Proofs.Context.Operation
import Stencil.Proofs.Document.Append
import Stencil.Proofs.Run.Alike
import Stencil.Proofs.Text.Charset

/-!
# Templates run one after the other

Two templates that are put together do what they do one after the other.

**Argument.**  A run of a document that succeeds leaves all stacks empty, so that the second part of
the nodes begins as a run of its own.  The offsets of loops are not read by a run.  In UTF-8 a text
is encoded character by character, so that two texts may be written at once, unless the second one
adds to what UTF-8 lacks: then the two texts put together send nothing, while the first one by
itself is sent or fails for another reason.

**Results.**
* `Document.parse_append`: what is read from two texts put together, and when a run of it does what
  the two runs do one after the other.
* `Document.parse_append_unencodable`: a case in which it does not.
-/

namespace Stencil

open Machine

namespace Context

/-- Texts are written in UTF-8. -/
def IsUtf8 (c : Context) : Prop :=
  c.settings.codec? c.settings.charset = some Charset.utf8.encode

theorem IsUtf8.encode {c : Context} (h : c.IsUtf8) (t : Text) :
    c.encode t = (Charset.utf8.encode t).mapError .unencodable := by
  rw [Context.encode, show c.settings.codec? c.settings.charset = some Charset.utf8.encode from h]

/-- The character set is what it was. -/
def SameCharset (c c' : Context) : Prop :=
  c'.settings.codec? c'.settings.charset = c.settings.codec? c.settings.charset

instance : IsPreorder Context SameCharset where
  refl _ := rfl
  trans _ _ _ h h' := h'.trans h

theorem SameCharset.isUtf8 {c c' : Context} (h : SameCharset c c') (hc : c.IsUtf8) : c'.IsUtf8 :=
  h.trans hc

theorem sameCharset_write (t : Text) : Action.Preserves SameCharset (write t) :=
  preserves_write (R := SameCharset) (fun _ => rfl) (fun _ _ => rfl) t

theorem sameCharset_call (f : Builtin) (values : List Value) :
    Action.Preserves SameCharset (f.call values) :=
  preserves_call (R := SameCharset) (fun _ _ => rfl) (fun which _ _ => by cases which <;> rfl) f
    values

/-- Once the header has been sent it is not sent again. -/
theorem runIn_writeBytes_append (bytes bytes' : List UInt8) (c : Context) :
    (writeBytes (bytes ++ bytes')).runIn c =
      (do writeBytes bytes; writeBytes bytes' : Action Context Unit).runIn c := by
  rw [Action.runIn_bind, runIn_writeBytes, runIn_writeBytes]
  split
  · next hsent =>
      have hstill : (append bytes c).headerSent = true := hsent
      show _ = (writeBytes bytes').runIn (append bytes c)
      rw [runIn_writeBytes, if_pos hstill, append_append]
  · cases c.markSent.headerBytes with
    | error fault =>
        rfl
    | ok header =>
        have hstill : (append bytes (append header c.markSent)).headerSent = true := rfl
        simp only [runIn_writeBytes, if_pos hstill, append_append]

theorem runIn_write_of_encode {c : Context} {t : Text} {bytes : List UInt8}
    (h : c.encode t = .ok bytes) : (write t).runIn c = (writeBytes bytes).runIn c := by
  rw [runIn_write, h]

theorem runIn_write_of_error {c : Context} {t : Text} {fault : Fault}
    (h : c.encode t = .error fault) : (write t).runIn c = (.error fault, c) := by
  rw [runIn_write, h]

theorem IsUtf8.runIn_write_of_ok {c : Context} (h : c.IsUtf8) {t : Text} {bytes : List UInt8}
    (ht : Charset.utf8.encode t = .ok bytes) :
    (write t).runIn c = (writeBytes bytes).runIn c := by
  refine runIn_write_of_encode ?_
  rw [h.encode, ht]
  rfl

theorem IsUtf8.runIn_write_of_lacked {c : Context} (h : c.IsUtf8) {t : Text} {e : Unencodable}
    (ht : Charset.utf8.encode t = .error e) : (write t).runIn c = (.error (.unencodable e), c) := by
  refine runIn_write_of_error ?_
  rw [h.encode, ht]
  rfl

/-- Two texts in UTF-8 may be written at once, if what cannot be written of them ends in the
first. -/
theorem IsUtf8.write_append {c : Context} (h : c.IsUtf8) {s t : Text}
    (hsplits : Charset.utf8.Splits s t) :
    (write (s ++ t)).runIn c = (do write s; write t : Action Context Unit).runIn c := by
  rw [Action.runIn_bind]
  rcases Charset.encode_append rfl hsplits with ⟨hboth, hs, ht⟩ | ⟨e, hboth, hs⟩
  · rw [h.runIn_write_of_ok hboth, runIn_writeBytes_append, Action.runIn_bind,
      h.runIn_write_of_ok hs]
    have hsame := sameCharset_write s c
    rw [h.runIn_write_of_ok hs] at hsame
    split
    · next hwritten =>
        rw [hwritten] at hsame
        exact ((hsame.isUtf8 h).runIn_write_of_ok ht).symm
    · rfl
  · rw [h.runIn_write_of_lacked hboth, h.runIn_write_of_lacked hs]

theorem size_append (bytes : List UInt8) (c : Context) :
    (append bytes c).output.size = c.output.size + bytes.length := by
  rw [append, ← Array.length_toList]
  simp

/-- A text that is not empty and has bytes in UTF-8 makes the output longer, or the header is sent
in vain. -/
theorem IsUtf8.write_leaves {c : Context} (h : c.IsUtf8) {s : Text} (hs : s ≠ [])
    {bytes : List UInt8} (hencode : Charset.utf8.encode s = .ok bytes) :
    (∃ c', (write s).runIn c = (.ok (), c') ∧ c.output.size < c'.output.size) ∨
    ∃ fault c', (write s).runIn c = (.error fault, c') ∧ c'.headerSent ≠ c.headerSent := by
  have hbytes : 0 < bytes.length :=
    List.length_pos_of_ne_nil (Charset.ne_nil_of_encode_utf8 hs hencode)
  rw [h.runIn_write_of_ok hencode, runIn_writeBytes]
  split
  · refine Or.inl ⟨_, rfl, ?_⟩
    rw [size_append]
    exact Nat.lt_add_of_pos_right hbytes
  · next hunsent =>
      cases c.markSent.headerBytes with
      | ok header =>
          refine Or.inl ⟨_, rfl, ?_⟩
          rw [size_append, size_append]
          exact Nat.lt_of_le_of_lt (Nat.le_add_right _ _) (Nat.lt_add_of_pos_right hbytes)
      | error fault =>
          exact Or.inr ⟨fault, _, rfl, fun hsent => hunsent (hsent ▸ rfl)⟩

end Context

namespace Machine

/-- The character set is what it was. -/
def SameCharset (m m' : Machine) : Prop := m.context.SameCharset m'.context

instance : IsPreorder Machine SameCharset where
  refl _ := rfl
  trans _ _ _ h h' := h'.trans h

/-- No task changes the character set. -/
theorem sameCharset_perform (limit : Option Int) (task : Task) :
    Action.Preserves SameCharset (perform limit task) := by
  refine preserves_perform (fun _ _ => rfl) (fun f values m => Context.sameCharset_call f values _)
    (fun t m => Context.sameCharset_write t _) (fun m => ?_) task
  obtain ⟨outcome, steps, hcharge⟩ := runIn_charge limit m
  rw [hcharge]
  rfl

/-- The character set is what it was when some tasks have been worked off. -/
theorem Completes.isUtf8 {limit : Option Int} {tasks : List Task} {m m' : Machine}
    {outcome : Outcome} (h : Completes limit tasks m outcome m') (hm : m.context.IsUtf8) :
    m'.context.IsUtf8 :=
  (h.preserves (sameCharset_perform limit) fun _ _ => rfl).isUtf8 hm

theorem perform_text_of_charge {limit : Option Int} {m m₁ : Machine}
    (h : (charge limit).runIn m = (.ok (), m₁)) (content : Text) :
    (perform limit (.visit (.text content))).runIn m =
      match (Context.write content).runIn m₁.context with
      | (.ok _, c) => (.ok [], { m₁ with context := c })
      | (.error fault, c) => (.error fault, { m₁ with context := c }) := by
  simp only [perform, Action.runIn_bind, h, runIn_onContext]
  rcases (Context.write content).runIn m₁.context with ⟨_ | _, c⟩ <;> rfl

theorem perform_text (content : Text) (m : Machine) :
    (perform none (.visit (.text content))).runIn m =
      match (Context.write content).runIn m.context with
      | (.ok _, c) => (.ok [], { m with context := c, steps := m.steps + 1 })
      | (.error fault, c) => (.error fault, { m with context := c, steps := m.steps + 1 }) :=
  perform_text_of_charge (runIn_charge_none m) content

/-- A text after which nothing is left to do. -/
theorem completes_text {content : Text} {m m' : Machine} {outcome : Outcome} :
    Completes none [.visit (.text content)] m outcome m' ↔
      match (Context.write content).runIn m.context with
      | (.ok _, c) => outcome = .finished ∧ m' = { m with context := c, steps := m.steps + 1 }
      | (.error fault, c) =>
          outcome = .failed fault ∧ m' = { m with context := c, steps := m.steps + 1 } := by
  have hperform := perform_text content m
  cases hwrite : (Context.write content).runIn m.context with
  | mk result c =>
      rw [hwrite] at hperform
      cases result with
      | ok _ =>
          exact (completes_cons_of_ok hperform).trans completes_nil
      | error fault =>
          exact completes_cons_of_error hperform

/-- How a text that is not empty can end: it cannot be written, it has made the output longer, or the
header has been sent in vain. -/
theorem text_cases {s : Text} {m m' : Machine} {outcome : Outcome} (hutf8 : m.context.IsUtf8)
    (hs : s ≠ []) (h : Completes none [.visit (.text s)] m outcome m') :
    (∃ e, Charset.utf8.encode s = .error e ∧ outcome = .failed (.unencodable e)) ∨
    (outcome = .finished ∧ m.context.output.size < m'.context.output.size) ∨
    ∃ fault, outcome = .failed fault ∧ m'.context.headerSent ≠ m.context.headerSent := by
  have hends := completes_text.1 h
  cases hencode : Charset.utf8.encode s with
  | error e =>
      rw [hutf8.runIn_write_of_lacked hencode] at hends
      exact Or.inl ⟨e, rfl, hends.1⟩
  | ok bytes =>
      rcases hutf8.write_leaves hs hencode with ⟨c, hwrite, hlonger⟩ | ⟨fault, c, hwrite, hheader⟩
      · rw [hwrite] at hends
        obtain ⟨rfl, rfl⟩ := hends
        exact Or.inr (Or.inl ⟨rfl, hlonger⟩)
      · rw [hwrite] at hends
        obtain ⟨rfl, rfl⟩ := hends
        exact Or.inr (Or.inr ⟨fault, rfl, hheader⟩)

/-- The same tasks do the same to machines that show the same. -/
theorem endAlike_self {tasks : List Task} {m m' : Machine} (h : SameView m m') :
    EndAlike SameView tasks m tasks m' := by
  have hsame : ∀ task : Task, task.map id id = task := by
    intro task
    cases task <;> simp [Task.map, Loop.map]
  have hrespects : ∀ task : Task, task.Respects id id := by
    intro task
    cases task with
    | visit node =>
        cases node with
        | text content | echo tokens =>
            simp [Task.Respects]
        | loop head offset body =>
            exact ⟨offset, by simp⟩
    | document nodes | emit | test loop | next loop =>
        trivial
    | token t =>
        rfl
  have hend : EndAlike SameView tasks m (tasks.map (Task.map id id)) m' :=
    (simulation_map hrespects).endAlike h
  rwa [List.map_congr_left fun task _ => hsame task, List.map_id'] at hend

/-- A text in UTF-8 may be written in two parts, if what cannot be written of it ends in the
first. -/
theorem endAlike_text {m m' : Machine} (hutf8 : m.context.IsUtf8) (h : SameView m m') {s t : Text}
    (hsplits : Charset.utf8.Splits s t) :
    EndAlike SameView [.visit (.text (s ++ t))] m [.visit (.text s), .visit (.text t)] m' := by
  have hwhole := perform_text (s ++ t) m
  have hfirst := perform_text s m'
  rw [hutf8.write_append hsplits, Action.runIn_bind, h.context] at hwhole
  cases hs : (Context.write s).runIn m'.context with
  | mk outcome c =>
      rw [hs] at hwhole hfirst
      cases outcome with
      | error fault =>
          exact .of_fault hwhole hfirst (by simp [Task.counter?]) (by simp [Task.counter?])
            ⟨rfl, h.stack⟩
      | ok _ =>
          refine .of_step_right hfirst ?_
          have hsecond := perform_text t { m' with context := c, steps := m'.steps + 1 }
          cases ht : (Context.write t).runIn c with
          | mk outcome c' =>
              simp only [ht] at hwhole hsecond
              cases outcome with
              | error fault =>
                  exact .of_fault hwhole hsecond (by simp [Task.counter?])
                    (by simp [Task.counter?]) ⟨rfl, h.stack⟩
              | ok _ =>
                  exact .of_step hwhole (.of_step_right hsecond (.nil ⟨rfl, h.stack⟩))

end Machine

namespace Document

theorem join_cases (d e : Document) : join d e = d ++ e ∨
    ∃ d₀ s t e₀, d = d₀ ++ [.text s] ∧ e = .text t :: e₀ ∧
      join d e = d₀ ++ .text (s ++ t) :: e₀ := by
  by_cases hmeet : ∀ s t, d.getLast? = some (.text s) → e.head? ≠ some (.text t)
  · exact Or.inl (join_eq_append hmeet)
  · push Not at hmeet
    obtain ⟨s, t, hs, ht⟩ := hmeet
    obtain ⟨d₀, rfl⟩ := List.getLast?_eq_some_iff.1 hs
    obtain ⟨e₀, rfl⟩ := List.head?_eq_some_iff.1 ht
    exact Or.inr ⟨d₀, s, t, e₀, rfl, rfl, join_text d₀ e₀ s t⟩

/-- Where runs of text of two documents meet, what UTF-8 lacks of the two texts, if anything, ends
in the first. -/
def Splits (d e : Document) : Prop :=
  ∀ s t, d.getLast? = some (.text s) → e.head? = some (.text t) → Charset.utf8.Splits s t

/-- A joined document does what its two parts do one after the other. -/
theorem endAlike_join {m m' : Machine} (hutf8 : m.context.IsUtf8) (h : SameView m m')
    {d e : Document} (hsplits : d.Splits e) :
    EndAlike SameView ((join d e).map .visit) m (d.map .visit ++ e.map .visit) m' := by
  rcases join_cases d e with hjoin | ⟨d₀, s, t, e₀, rfl, rfl, hjoin⟩
  · rw [hjoin, List.map_append]
    exact endAlike_self h
  · rw [hjoin]
    rw [← List.map_append, List.append_assoc, List.map_append, List.map_append]
    refine ((endAlike_self h).and_left fun hends => hends.isUtf8 hutf8).append_visits
      (fun _ _ => And.left) ?_
    rintro m₁ m₁' ⟨h₁, hutf8₁⟩
    have hmeet : Charset.utf8.Splits s t := hsplits s t List.getLast?_concat rfl
    exact (endAlike_text hutf8₁ h₁ hmeet).append_visits (fun _ _ => id) fun _ _ => endAlike_self

theorem shift_eq_map (n : Nat) (nodes : List Node) :
    Document.shift n nodes = nodes.map (Node.shift n) := by
  induction nodes with
  | nil =>
      rfl
  | cons node nodes ih =>
      rw [Document.shift, ih, List.map_cons]

/-- Moving the offsets makes no difference to a run. -/
theorem endAlike_shift {m m' : Machine} (h : SameView m m') (e : Document) (n : Nat) :
    EndAlike SameView (e.map .visit) m ((shift n e).map .visit) m' := by
  have hrespects : ∀ task : Task, task.Respects (Node.shift n) id := by
    intro task
    cases task with
    | visit node =>
        cases node with
        | text content =>
            rfl
        | echo tokens =>
            simp [Task.Respects, Node.shift]
        | loop head offset body =>
            exact ⟨offset + n, by rw [Node.shift, shift_eq_map]⟩
    | document nodes | emit | test loop | next loop =>
        trivial
    | token t =>
        rfl
  have hend : EndAlike SameView (e.map .visit) m
      ((e.map .visit).map (Task.map (Node.shift n) id)) m' :=
    (simulation_map hrespects).endAlike h
  rw [List.map_map] at hend
  rw [shift_eq_map, List.map_map]
  exact hend

/-- A run without a budget visits the nodes after one step. -/
theorem endsAs_none_iff {d : Document} {context : Context} {outcome : Outcome} {m : Machine} :
    d.EndsAs none context outcome m ↔
      Completes none (d.map .visit) ⟨.empty, context, 1⟩ outcome m := by
  have hperform : (perform none (.document d)).runIn (.start context) =
      (.ok (d.map .visit), ⟨.empty, context, 1⟩) := rfl
  rw [EndsAs, completes_cons_of_ok hperform, List.append_nil]

/-- A run that succeeds leaves all stacks empty. -/
theorem store_of_finished {t : Text} {d : Document} {context : Context} {m : Machine}
    (hparse : parse t = .ok d) (h : d.EndsAs none context .finished m) : m.store = .empty :=
  ((Point.scoped_start d context).visit_finished (named_of_parse hparse) rfl rfl h).1

theorem Splits.shift {d e : Document} (h : d.Splits e) (n : Nat) : d.Splits (shift n e) := by
  intro s t hs ht
  cases e with
  | nil =>
      simp [Document.shift] at ht
  | cons node e =>
      cases node with
      | text content =>
          exact h s t hs (by simpa [Document.shift, Node.shift] using ht)
      | echo tokens | loop head offset body =>
          simp [Document.shift, Node.shift] at ht

/-- Two documents are run one after the other: the second one in the context that the first one
leaves, unless that fails. -/
def EndsInTurn (d e : Document) (context : Context) (outcome : Outcome) (context' : Context) :
    Prop :=
  (∃ fault m, outcome = .failed fault ∧ d.EndsAs none context outcome m ∧ m.context = context') ∨
  ∃ m₁ m₂, d.EndsAs none context .finished m₁ ∧ e.EndsAs none m₁.context outcome m₂ ∧
    m₂.context = context'

/-- A joined document is run as its two parts, if what cannot be written of two runs of text that
meet ends in the first. -/
theorem endsAs_join_iff {a : Text} {d e : Document} (ha : parse a = .ok d) (n : Nat)
    {context context' : Context} {outcome : Outcome} (hutf8 : context.IsUtf8)
    (hsplits : d.Splits e) :
    (∃ m, (join d (shift n e)).EndsAs none context outcome m ∧ m.context = context') ↔
      EndsInTurn d e context outcome context' := by
  have hjoin : EndAlike SameView ((join d (shift n e)).map .visit) ⟨.empty, context, 1⟩
      (d.map .visit ++ (shift n e).map .visit) ⟨.empty, context, 1⟩ :=
    endAlike_join hutf8 ⟨rfl, fun _ => rfl⟩ (hsplits.shift n)
  -- The run of the second document begins with empty stacks, as a run of its own does.
  have hsecond : ∀ m₁ : Machine, m₁.store = .empty →
      EndAlike SameView (e.map .visit) ⟨.empty, m₁.context, 1⟩ ((shift n e).map .visit) m₁ := by
    intro m₁ hempty
    have hview : SameView ⟨.empty, m₁.context, 1⟩ m₁ := ⟨rfl, fun x => by rw [hempty]⟩
    exact endAlike_shift hview e n
  constructor
  · rintro ⟨m, hends, rfl⟩
    obtain ⟨m', hends', hview⟩ := hjoin.forth (endsAs_none_iff.1 hends)
    rw [hview.context]
    rcases completes_append_visits.1 hends' with ⟨m₁, hd, he⟩ | ⟨fault, rfl, hd⟩
    · have hd := endsAs_none_iff.2 hd
      obtain ⟨m₂, he, hview₂⟩ := (hsecond m₁ (store_of_finished ha hd)).back he
      exact Or.inr ⟨m₁, m₂, hd, endsAs_none_iff.2 he, hview₂.context⟩
    · exact Or.inl ⟨fault, m', rfl, endsAs_none_iff.2 hd, rfl⟩
  · rintro (⟨fault, m, rfl, hd, rfl⟩ | ⟨m₁, m₂, hd, he, rfl⟩)
    · obtain ⟨m', hends, hview⟩ :=
        hjoin.back (completes_append_visits.2 (Or.inr ⟨fault, rfl, endsAs_none_iff.1 hd⟩))
      exact ⟨m', endsAs_none_iff.2 hends, hview.context⟩
    · obtain ⟨m₂', he', hview⟩ :=
        (hsecond m₁ (store_of_finished ha hd)).forth (endsAs_none_iff.1 he)
      obtain ⟨m', hends, hview'⟩ :=
        hjoin.back (completes_append_visits.2 (Or.inl ⟨m₁, endsAs_none_iff.1 hd, he'⟩))
      exact ⟨m', endsAs_none_iff.2 hends, hview'.context.trans hview.context.symm⟩

/-- A run of a document that begins with some nodes goes on from where these have succeeded, or ends
as they do. -/
theorem endsAs_append {d₀ d : Document} {context : Context} {outcome : Outcome} {m : Machine} :
    (d₀ ++ d).EndsAs none context outcome m ↔
      (∃ m₁, d₀.EndsAs none context .finished m₁ ∧
        Completes none (d.map .visit) m₁ outcome m) ∨
      ∃ fault, outcome = .failed fault ∧ d₀.EndsAs none context outcome m := by
  simp only [endsAs_none_iff, List.map_append]
  exact completes_append_visits

/-- What follows some nodes does not matter to a run in which these do not succeed. -/
theorem endsAs_append_of_unfinished {d₀ : Document} {context : Context}
    (h : ¬ ∃ m, d₀.EndsAs none context .finished m) (d : Document) {outcome : Outcome}
    {m : Machine} : (d₀ ++ d).EndsAs none context outcome m ↔
      ∃ fault, outcome = .failed fault ∧ d₀.EndsAs none context outcome m :=
  endsAs_append.trans (or_iff_right fun ⟨m₁, hfinished, _⟩ => h ⟨m₁, hfinished⟩)

/-- Runs of text that are not come to may meet in any way. -/
theorem endsAs_append_text_iff {d₀ e₀ e : Document} {s t : Text} {context context' : Context}
    {outcome : Outcome} (h : ¬ ∃ m, d₀.EndsAs none context .finished m) :
    (∃ m, (d₀ ++ .text (s ++ t) :: e₀).EndsAs none context outcome m ∧ m.context = context') ↔
      EndsInTurn (d₀ ++ [.text s]) e context outcome context' := by
  simp only [EndsInTurn, endsAs_append_of_unfinished h]
  constructor
  · rintro ⟨m, ⟨fault, rfl, hends⟩, rfl⟩
    exact Or.inl ⟨fault, m, rfl, ⟨fault, rfl, hends⟩, rfl⟩
  · rintro (⟨fault, m, -, hends, rfl⟩ | ⟨m₁, m₂, ⟨fault, hfault, -⟩, -⟩)
    · exact ⟨m, hends, rfl⟩
    · cases hfault

/-- A run takes back no byte of the output. -/
theorem size_output_of_endsAs {d : Document} {context : Context} {outcome : Outcome} {m : Machine}
    (h : d.EndsAs none context outcome m) : context.output.size ≤ m.context.output.size := by
  have hgrows : Grows (.start context) m := Completes.preserves (grows_perform none)
    (fun m s => ⟨Nat.le_refl _, refl_of Context.Extends m.context⟩) h
  simpa [Machine.start] using hgrows.2.length_le

/-- Runs of text that are come to must meet so that what cannot be written of them ends in the
first. -/
theorem stop_le_of_endsAs_append_text {d₀ e₀ e : Document} {s t : Text} {context : Context}
    {m₁ : Machine} {x : Unencodable} (hutf8 : context.IsUtf8) (hs : s ≠ [])
    (hbefore : d₀.EndsAs none context .finished m₁) (hx : Charset.utf8.encode (s ++ t) = .error x)
    (halike : ∀ outcome context',
      (∃ m, (d₀ ++ .text (s ++ t) :: e₀).EndsAs none context outcome m ∧ m.context = context') ↔
        EndsInTurn (d₀ ++ [.text s]) e context outcome context') : x.stop ≤ s.length := by
  have hutf8₁ : m₁.context.IsUtf8 := (endsAs_none_iff.1 hbefore).isUtf8 hutf8
  -- Where the first text begins nothing fails but its write.
  have hfirst {outcome : Outcome} {m : Machine}
      (h : (d₀ ++ [Node.text s]).EndsAs none context outcome m) :
      Completes none [.visit (.text s)] m₁ outcome m := by
    rcases endsAs_append.1 h with ⟨m₂, hfinished, hrest⟩ | ⟨fault, rfl, hfailed⟩
    · obtain ⟨-, rfl⟩ := hbefore.unique hfinished
      exact hrest
    · cases (hbefore.unique hfailed).1
  have hmerged : ∃ m, (d₀ ++ .text (s ++ t) :: e₀).EndsAs none context
      (.failed (.unencodable x)) m ∧ m.context = m₁.context := by
    have hperform := perform_text (s ++ t) m₁
    rw [hutf8₁.runIn_write_of_lacked hx] at hperform
    have hends : Completes none ((.text (s ++ t) :: e₀).map .visit) m₁ _ _ :=
      (completes_cons_of_error hperform).2 ⟨rfl, rfl⟩
    rw [← List.map_cons (f := Task.visit), giveUp_visits] at hends
    exact ⟨_, endsAs_append.2 (Or.inl ⟨m₁, hbefore, hends⟩), rfl⟩
  rcases (halike _ _).1 hmerged with ⟨_, m, -, hends, hcontext⟩ | ⟨m, m₂, hends, hsecond, hcontext⟩
  · rcases text_cases hutf8₁ hs (hfirst hends) with ⟨y, hy, hfails⟩ | ⟨hfinishes, -⟩ | ⟨_, -, hheader⟩
    · obtain rfl := Fault.unencodable.inj (Outcome.failed.inj hfails)
      exact Charset.stop_le_of_encode hy
    · cases hfinishes
    · exact absurd (congrArg Context.headerSent hcontext) hheader
  · rcases text_cases hutf8₁ hs (hfirst hends) with ⟨_, -, hfails⟩ | ⟨-, hlonger⟩ | ⟨_, hfails, -⟩
    · cases hfails
    · have hsize := size_output_of_endsAs hsecond
      rw [hcontext] at hsize
      exact absurd hlonger (Nat.not_lt.2 hsize)
    · cases hfails

/-- Two templates put together are read as the nodes of both, and do what the two of them do one
after the other.  For texts `a` and `b` that are read as `d` and `e`:

* the text put together from them is read, as the nodes of `d` and those of `e`, with the offsets
  in the latter counted from the beginning of `a`, where two runs of text that meet are one;
* in a context that writes UTF-8 and without a budget, a run of that document ends if the run of
  `d` fails, with the same fault, or if it succeeds and the run of `e` in the context that it
  leaves ends, with the same outcome; and it leaves the same context.  This is so exactly unless
  the run of `d` comes to a run of text at its end, one begins `e`, and what cannot be written of
  the two does not end in the first. -/
theorem parse_append {a b : Text} {d e : Document} (ha : parse a = .ok d) (hb : parse b = .ok e) :
    parse (a ++ b) = .ok (join d (shift a.length e)) ∧
    ∀ context : Context, context.IsUtf8 →
      ((∀ outcome context',
        (∃ m, (join d (shift a.length e)).EndsAs none context outcome m ∧ m.context = context') ↔
          EndsInTurn d e context outcome context') ↔
      ((∃ m, Document.EndsAs d.dropLast none context .finished m) → d.Splits e)) := by
  refine ⟨parse_append_eq ha hb, fun context hutf8 => ⟨?_, fun hmeet outcome context' => ?_⟩⟩
  · rintro halike ⟨m₁, hbefore⟩ s t hs ht x hx
    obtain ⟨d₀, rfl⟩ := List.getLast?_eq_some_iff.1 hs
    obtain ⟨e₀, rfl⟩ := List.head?_eq_some_iff.1 ht
    rw [List.dropLast_concat] at hbefore
    rw [Document.shift, Node.shift, join_text] at halike
    exact stop_le_of_endsAs_append_text hutf8 (ne_nil_of_getLast ha hs) hbefore hx halike
  · by_cases hsplits : d.Splits e
    · exact endsAs_join_iff ha a.length hutf8 hsplits
    · have hunfinished := mt hmeet hsplits
      unfold Splits at hsplits
      push Not at hsplits
      obtain ⟨s, t, hs, ht, -⟩ := hsplits
      obtain ⟨d₀, rfl⟩ := List.getLast?_eq_some_iff.1 hs
      obtain ⟨e₀, rfl⟩ := List.head?_eq_some_iff.1 ht
      rw [List.dropLast_concat] at hunfinished
      rw [Document.shift, Node.shift, join_text]
      exact endsAs_append_text_iff hunfinished

/-- A text that UTF-8 has no bytes for. -/
def unencodable : Document := [.text [.surrogate 0]]

/-- The first of two texts is written before the second one fails, but the two put together fail at
once. -/
theorem parse_append_unencodable :
    parse [.char 'x'] = .ok [.text ['x']] ∧ parse [.surrogate 0] = .ok unencodable ∧
      parse ([.char 'x'] ++ [.surrogate 0]) = .ok [.text [.char 'x', .surrogate 0]] ∧
      bareContext.IsUtf8 ∧
      ∃ first second merged fault fault', EndsAs [.text ['x']] none bareContext .finished first ∧
        unencodable.EndsAs none first.context (.failed fault) second ∧
        second.context.output = #[120] ∧ second.context.headerSent = true ∧
        EndsAs [.text [.char 'x', .surrogate 0]] none bareContext (.failed fault') merged ∧
        merged.context.output = #[] ∧ merged.context.headerSent = false := by
  let first := Machine.work none 2 [.document [.text ['x']]] (.start bareContext)
  let second := Machine.work none 2 [.document unencodable] (.start first.2.context)
  let merged := Machine.work none 2 [.document [.text [.char 'x', .surrogate 0]]]
    (.start bareContext)
  have hfirst : first.1 = .finished := by decide
  have hsecond : second.1 = .failed (.unencodable (Charset.utf8.error (.surrogate 0) 0 1)) := by
    decide
  have hmerged : merged.1 = .failed (.unencodable (Charset.utf8.error (.surrogate 0) 1 2)) := by
    decide
  exact ⟨by rfl, by rfl, by rfl, rfl, first.2, second.2, merged.2, _, _,
    ⟨2, Prod.ext hfirst rfl, by simp⟩, ⟨2, Prod.ext hsecond rfl, by simp⟩, by decide, by decide,
    ⟨2, Prod.ext hmerged rfl, by simp⟩, by decide, by decide⟩

/-- Text on both sides of an echo tag. -/
def echoInText : Document := [.text ['x'], .echo [.number (.int 1)], .text ['y']]

/-- Text before a loop. -/
def textAndLoop : Document :=
  [.text ['z'], .loop ⟨['i'], .number (.int 1), .number (.int 2), none⟩ 1 [.echo [.var ['i']]]]

/-- The texts between the echo tag and the loop are one, and all is written in order. -/
theorem echoInText_append_textAndLoop :
    parse "x[$= 1 $]yz[$FOR i 1 2 $][$= i $][$END$]".toText =
        .ok [.text ['x'], .echo [.number (.int 1)], .text ['y', 'z'],
          .loop ⟨['i'], .number (.int 1), .number (.int 2), none⟩ 11 [.echo [.var ['i']]]] ∧
      ∃ m, (join echoInText (shift 10 textAndLoop)).EndsAs none bareContext .finished m ∧
        m.context.output = #[120, 49, 121, 122, 49, 50] := by
  have ha : parse "x[$= 1 $]y".toText = .ok echoInText := by rfl
  have hb : parse "z[$FOR i 1 2 $][$= i $][$END$]".toText = .ok textAndLoop := by rfl
  obtain ⟨hparse, hrun⟩ := parse_append ha hb
  have hfirst : (Machine.work none 20 [.document echoInText] (.start bareContext)).1 =
      .finished := by decide
  have hsecond : (Machine.work none 20 [.document textAndLoop]
      (.start (Machine.work none 20 [.document echoInText] (.start bareContext)).2.context)).1 =
      .finished := by decide
  have houtput : (Machine.work none 20 [.document textAndLoop]
      (.start (Machine.work none 20 [.document echoInText] (.start bareContext)).2.context)
      ).2.context.output = #[120, 49, 121, 122, 49, 50] := by decide
  have hsplits : echoInText.Splits textAndLoop := by
    intro s t hs ht error herror
    obtain rfl : (['y'] : Text) = s := Node.text.inj (Option.some.inj hs)
    obtain rfl : (['z'] : Text) = t := Node.text.inj (Option.some.inj ht)
    cases herror
  obtain ⟨m, hends, hcontext⟩ := ((hrun bareContext rfl).2 (fun _ => hsplits) .finished _).2
    (Or.inr ⟨_, _, ⟨20, Prod.ext hfirst rfl, by simp⟩, ⟨20, Prod.ext hsecond rfl, by simp⟩, rfl⟩)
  exact ⟨hparse, m, hends, hcontext ▸ houtput⟩

end Document

end Stencil
