import Stencil.Proofs.Run.Append
import Stencil.Proofs.Run.Operations
import Stencil.Proofs.Run.Values

/-!
# When a script may set the type of the body

A script may set the type of the body up to the first text or echo tag that ends.

**Argument.**  A text is encoded before anything is sent.  A task that hands a text to the response
sends the header if the text has bytes in UTF-8, be there any or none, also when the header itself
cannot be encoded (`IsUtf8.headerSent_write`); a text with a surrogate by itself sends nothing.  No
other task sends the header (`Point.headerSent_perform`), and a task that writes a text without
bytes fails (`Point.sends_of_ok`).  The type of the body is changed by a call of `setMimeType`
alone, and by such a call only if it succeeds (`Point.mimeType_perform`).  By induction on the
number of tasks both hold for all that has been done.

**Results.**
* `Point.headerSent_after` and `Point.mimeType_after`: the header and the type of the body after a
  number of tasks.
* `Document.mimeType_until_first_write`: when the header has been sent, when a call that sets the
  type succeeds, and which type there is, at every point of a run and at its end.
* `Document.failed_write_unsent`: a write may fail before the header is sent.
-/

namespace Stencil

open Machine
open Value (MayBeOn)

/-- The task writes to the response when it is done: it is a text, or the end of an echo tag. -/
def Task.isWrite : Task → Bool
  | .visit (.text _) | .emit => true
  | _ => false

namespace Context

/-- A write in UTF-8 sends the header if the text has bytes, whether the write succeeds or not. -/
theorem IsUtf8.headerSent_write {c : Context} (h : c.IsUtf8) (t : Text) :
    ((write t).runIn c).2.headerSent = (c.headerSent || (Charset.utf8.encode t).isOk) := by
  rw [runIn_write, h.encode]
  cases Charset.utf8.encode t with
  | error e =>
      exact (Bool.or_false _).symm
  | ok bytes =>
      simp only [Except.mapError, runIn_writeBytes, Except.isOk, Except.toBool, Bool.or_true]
      split
      · next hsent =>
          exact hsent
      · cases c.markSent.headerBytes <;> rfl

/-- A write in UTF-8 succeeds only if the text has bytes. -/
theorem IsUtf8.isOk_of_write {c : Context} (h : c.IsUtf8) {t : Text}
    (hwrite : ((write t).runIn c).1 = .ok ()) : (Charset.utf8.encode t).isOk = true := by
  rw [runIn_write, h.encode] at hwrite
  cases hencode : Charset.utf8.encode t with
  | error e =>
      simp [hencode, Except.mapError] at hwrite
  | ok bytes =>
      rfl

/-- The settings are what they were. -/
def SameSettings (c c' : Context) : Prop := c'.settings = c.settings

instance : IsPreorder Context SameSettings where
  refl _ := rfl
  trans _ _ _ h h' := h'.trans h

theorem sameSettings_write (t : Text) : Action.Preserves SameSettings (write t) :=
  preserves_write (R := SameSettings) (fun _ => rfl) (fun _ _ => rfl) t

end Context

/-- No function but the one for it changes the type of the body. -/
theorem Builtin.settings_operations {f : Builtin} (h : f ≠ .setMimeType) (values : List Value)
    (c : Context) : (Context.Operation.applyAll c (f.operations values)).settings = c.settings := by
  have hstore (which : Context.Store) (g : Index Text → Index Text) :
      (c.modifyStore which g).settings = c.settings := by
    cases which <;> rfl
  unfold operations
  split
  · exact absurd rfl h
  · split
    · exact hstore _ (·.put _ _)
    · rfl
  · split
    · exact hstore _ (·.erase _)
    · rfl
  · rfl

/-- The values on the register of a run have texts. -/
theorem exists_text_of_mayBeOn {v : Value} (h : MayBeOn register v) :
    ∃ t, v.toText = .ok t := by
  rcases h with hnumber | ⟨-, t, rfl⟩
  · cases v with
    | number n =>
        exact ⟨n.toText, rfl⟩
    | absent | text t | foreign data =>
        exact absurd hnumber id
  · exact ⟨t, rfl⟩

namespace Point

variable {limit : Option Int} {m m' : Machine} {p q : Point}

/-- The next task comes to a write, and its text has bytes in UTF-8. -/
def sends (limit : Option Int) (p : Point) : Bool :=
  (written limit p).any fun t => (Charset.utf8.encode t).isOk

/-- A task sends the header if it hands a text with bytes to the response, and only then. -/
theorem headerSent_perform (limit : Option Int) (hutf8 : m.context.IsUtf8) (task : Task)
    (rest : List Task) (frames : List Frame) : ((perform limit task).runIn m).2.context.headerSent =
      (m.context.headerSent || sends limit ⟨task :: rest, frames, m⟩) := by
  by_cases htoken : ∃ t, task = .token t
  · obtain ⟨t, rfl⟩ := htoken
    rw [(silent_perform_token limit t m).2]
    simp [sends, written]
  · rw [context_perform rest frames m fun t h => htoken ⟨t, h⟩, sends]
    rcases perform_cases limit rest frames m fun t h => htoken ⟨t, h⟩ with
      ⟨hnone, -⟩ | ⟨t, -, ht, -⟩
    · simp [hnone]
    · simp [ht, hutf8.headerSent_write t]

/-- A task that succeeds has made its write. -/
theorem runIn_write_of_perform {task : Task} {brought : List Task} {t : Text} {rest : List Task}
    {frames : List Frame} (h : (perform limit task).runIn m = (.ok brought, m'))
    (ht : written limit ⟨task :: rest, frames, m⟩ = [t]) :
    ((Context.write t).runIn m.context).1 = .ok () := by
  have htoken : ∀ t', task ≠ .token t' := by
    rintro t' rfl
    simp [written] at ht
  rcases perform_cases limit rest frames m htoken with
    ⟨hnone, -⟩ | ⟨t', m₁, ht', hcontext, hrun⟩
  · simp [hnone] at ht
  · obtain rfl : t' = t := by simpa [ht'] using ht
    rw [hrun] at h
    simp only [Action.runIn_bind, runIn_onContext, hcontext] at h
    cases hwrite : (Context.write t').runIn m.context with
    | mk outcome c =>
        cases outcome with
        | ok _ =>
            rfl
        | error fault =>
            simp [hwrite] at h

/-- The end of an echo tag always comes to its write. -/
theorem written_emit (hvalues : m.Holds MayBeOn) (rest : List Task) (frames : List Frame) :
    ∃ t, written limit ⟨.emit :: rest, frames, m⟩ = [t] := by
  have hmeets : Meets (fun _ => True) (fun _ : Fault => False)
      ((m.store.drain register).1.mapM Value.toText) := by
    refine meets_mapM fun v hv => ?_
    obtain ⟨t, ht⟩ := exists_text_of_mayBeOn (hvalues register v (List.mem_reverse.1 hv))
    rw [ht]
    trivial
  cases htexts : (m.store.drain register).1.mapM Value.toText with
  | ok texts =>
      exact ⟨texts.flatten, by simp only [written, htexts]⟩
  | error fault =>
      rw [htexts] at hmeets
      exact absurd hmeets id

/-- A text comes to its write once its step has been charged. -/
theorem written_text (hcharge : ((charge limit).runIn m).1 = .ok ()) (content : Text)
    (rest : List Task) (frames : List Frame) :
    written limit ⟨.visit (.text content) :: rest, frames, m⟩ = [content] := by
  simp only [written, hcharge]

theorem written_of_not_isWrite {task : Task} (h : task.isWrite = false) (rest : List Task)
    (frames : List Frame) (m : Machine) : written limit ⟨task :: rest, frames, m⟩ = [] := by
  cases task with
  | document nodes | token t | test loop | next loop =>
      rfl
  | emit =>
      simp [Task.isWrite] at h
  | visit node =>
      cases node with
      | echo tokens | loop head offset body =>
          rfl
      | text content =>
          simp [Task.isWrite] at h

/-- A task that writes comes to its write if it succeeds. -/
theorem exists_written_of_ok {task : Task} {brought : List Task} (hvalues : m.Holds MayBeOn)
    (htask : task.isWrite = true) (h : (perform limit task).runIn m = (.ok brought, m'))
    (rest : List Task) (frames : List Frame) :
    ∃ t, written limit ⟨task :: rest, frames, m⟩ = [t] := by
  cases task with
  | document nodes | token t | test loop | next loop =>
      simp [Task.isWrite] at htask
  | emit =>
      exact written_emit hvalues rest frames
  | visit node =>
      cases node with
      | echo tokens | loop head offset body =>
          simp [Task.isWrite] at htask
      | text content =>
          cases hcharge : (charge limit).runIn m with
          | mk outcome m₁ =>
              cases outcome with
              | error fault =>
                  simp [perform, Action.runIn_bind, hcharge] at h
              | ok _ =>
                  exact ⟨content, written_text (by rw [hcharge]) content rest frames⟩

/-- A task that succeeds has sent a text if it is one that writes. -/
theorem sends_of_ok {task : Task} {brought : List Task} (hutf8 : m.context.IsUtf8)
    (hvalues : m.Holds MayBeOn) (h : (perform limit task).runIn m = (.ok brought, m'))
    (rest : List Task) (frames : List Frame) :
    sends limit ⟨task :: rest, frames, m⟩ = task.isWrite := by
  cases htask : task.isWrite with
  | false =>
      rw [sends, written_of_not_isWrite htask rest frames m]
      rfl
  | true =>
      obtain ⟨t, ht⟩ := exists_written_of_ok hvalues htask h rest frames
      have hok := hutf8.isOk_of_write (runIn_write_of_perform h ht)
      rw [sends, ht, List.any_cons, hok]
      rfl

/-- The type of the body that the next task of a point sets if it succeeds. -/
def typeSet : Point → List Text
  | ⟨.token (.call x) :: _, _, m⟩ =>
      if x = Builtin.setMimeType.name then
        ((m.store.stack register).take 1).filterMap fun v => v.toText.toOption
      else []
  | _ => []

/-- A call that sets the type of the body, with an operand that has a text. -/
theorem perform_setMimeType {steps : Nat} {v : Value} {t : Text} {below : List Value}
    (hcharge : (charge limit).runIn m = (.ok (), { m with steps := steps }))
    (hstack : m.store.stack register = v :: below) (ht : v.toText = .ok t) :
    (perform limit (.token (.call Builtin.setMimeType.name))).runIn m =
      if m.context.headerSent then
        (.error (.headerSent .mimeType),
          { m with store := m.store.set register below, steps := steps })
      else
        (.ok [], {
          store := m.store.set register below
          context := { m.context with settings := { m.context.settings with mimeType := t } }
          steps := steps }) := by
  have hlookup : Builtin.lookup Builtin.setMimeType.name = .ok .setMimeType := by rfl
  have hdepth : ¬ m.store.depth register < Builtin.setMimeType.arity := by
    simp [NamedStacks.depth, hstack, Builtin.arity]
  have hpop : (popMany Builtin.setMimeType.arity).runIn { m with steps := steps } =
      (.ok [v], { m with store := m.store.set register below, steps := steps }) := by
    simp only [Builtin.arity, popMany, Action.runIn_bind, runIn_pop,
      NamedStacks.pop_of_stack hstack, Action.runIn_pure]
  have hcall : (Builtin.setMimeType.call [v]).runIn m.context =
      if m.context.headerSent then (.error (.headerSent .mimeType), m.context)
      else (.ok [],
        { m.context with settings := { m.context.settings with mimeType := t } }) := by
    simp only [Builtin.call, Action.runIn_bind, Action.runIn_ofExcept, ht, Context.setMimeType,
      Context.changeSettings, Context.runIn_change]
    cases m.context.headerSent <;> rfl
  simp only [perform, evaluate, require, Action.runIn_bind, Action.runIn_ofExcept,
    Action.runIn_get, hcharge, hlookup, hdepth, if_false, Action.runIn_pure, hpop,
    runIn_onContext, hcall]
  cases m.context.headerSent <;> rfl

/-- Every other task leaves the settings alone. -/
theorem settings_perform {task : Task} (h : task ≠ .token (.call Builtin.setMimeType.name))
    (m : Machine) : ((perform limit task).runIn m).2.context.settings = m.context.settings := by
  by_cases htoken : ∃ t, task = .token t
  · obtain ⟨t, rfl⟩ := htoken
    rw [context_perform_token t [] [] m]
    unfold called
    split
    · next x rest frames m hpoint =>
        obtain ⟨htasks, rfl, rfl⟩ := Point.mk.inj hpoint
        obtain rfl := Task.token.inj (List.cons.inj htasks).1
        split
        · next f hcharge hlookup =>
            split
            · rfl
            · refine Builtin.settings_operations (fun hf => h ?_) _ _
              rw [Builtin.name_of_lookup hlookup, hf]
        · rfl
    · rfl
  · rw [context_perform [] [] m fun t ht => htoken ⟨t, ht⟩]
    generalize written limit ⟨[task], [], m⟩ = texts
    generalize m.context = c
    induction texts generalizing c with
    | nil =>
        rfl
    | cons t texts ih =>
        exact (ih _).trans (Context.sameSettings_write t c)

/-- A task that fails leaves the type of the body as it was, and one that succeeds sets it if it is
a call that does so. -/
theorem mimeType_perform (limit : Option Int) (hvalues : m.Holds MayBeOn) (task : Task)
    (rest : List Task) (frames : List Frame) :
    ((perform limit task).runIn m).2.context.settings.mimeType =
      match ((perform limit task).runIn m).1 with
      | .ok _ => (typeSet ⟨task :: rest, frames, m⟩).getLast?.getD m.context.settings.mimeType
      | .error _ => m.context.settings.mimeType := by
  by_cases htask : task = .token (.call Builtin.setMimeType.name)
  · subst htask
    obtain ⟨outcome, steps, hcharge⟩ := runIn_charge limit m
    cases outcome with
    | error fault =>
        simp [perform, Action.runIn_bind, hcharge]
    | ok _ =>
        cases hstack : m.store.stack register with
        | nil =>
            have hlookup : Builtin.lookup Builtin.setMimeType.name = .ok .setMimeType := by rfl
            simp [perform, evaluate, require, Action.runIn_bind, hcharge, hlookup,
              NamedStacks.depth, hstack, Builtin.arity]
        | cons v below =>
            obtain ⟨t, ht⟩ :=
              exists_text_of_mayBeOn (hvalues register v (hstack ▸ List.mem_cons_self))
            rw [perform_setMimeType hcharge hstack ht]
            cases m.context.headerSent with
            | true =>
                rfl
            | false =>
                simp [typeSet, hstack, ht, Except.toOption]
  · have hnone : typeSet ⟨task :: rest, frames, m⟩ = [] := by
      unfold typeSet
      split
      · next x _ _ _ hpoint =>
          obtain ⟨htasks, -, -⟩ := Point.mk.inj hpoint
          obtain rfl := (List.cons.inj htasks).1
          exact if_neg fun hx => htask (by rw [hx])
      · rfl
    rw [settings_perform htask m, hnone]
    split <;> rfl

/-- The tasks that a run does first. -/
def done (limit : Option Int) (k : Nat) (p : Point) : List Task :=
  log limit (fun q => q.tasks.take 1) k p

/-- The types of the body that the first tasks of a run set. -/
def typesSet (limit : Option Int) (k : Nat) (p : Point) : List Text := log limit typeSet k p

theorem isUtf8_step (hutf8 : p.machine.context.IsUtf8) (h : Step limit p q) :
    q.machine.context.IsUtf8 := by
  cases h with
  | @mk task rest brought frames m m' hperform =>
      have hsame := sameCharset_perform limit task m
      rw [hperform] at hsame
      exact hsame.isUtf8 hutf8

theorem isUtf8_run (hutf8 : p.machine.context.IsUtf8) (h : Run limit p q) :
    q.machine.context.IsUtf8 := by
  induction h with
  | refl =>
      exact hutf8
  | tail _ hstep ih =>
      exact isUtf8_step ih hstep

/-- The header has been sent if one of the tasks that have been done is one that writes. -/
theorem headerSent_after {k : Nat} (hutf8 : p.machine.context.IsUtf8)
    (hvalues : p.machine.Holds MayBeOn) (h : after? limit k p = some q) :
    q.machine.context.headerSent =
      (p.machine.context.headerSent || (done limit k p).any Task.isWrite) := by
  induction k generalizing p with
  | zero =>
      obtain rfl := Option.some.inj h
      simp [done, log]
  | succ k ih =>
      obtain ⟨r, hr, hq⟩ := Option.bind_eq_some_iff.1 h
      have hstep := step_of_next hr
      have hlater := ih (isUtf8_step hutf8 hstep) (holds_step suits_mayBeOn hvalues hstep) hq
      rw [hlater, done, done, log_succ_of_step hstep, List.any_append, ← Bool.or_assoc]
      congr 1
      cases hstep with
      | @mk task rest brought frames m m' hperform =>
          have hsent := headerSent_perform limit hutf8 task rest frames
          rw [hperform, sends_of_ok hutf8 hvalues hperform] at hsent
          simpa using hsent

/-- The type of the body is the one that was set last. -/
theorem mimeType_after {k : Nat} (hvalues : p.machine.Holds MayBeOn)
    (h : after? limit k p = some q) :
    q.machine.context.settings.mimeType =
      (typesSet limit k p).getLast?.getD p.machine.context.settings.mimeType := by
  induction k generalizing p with
  | zero =>
      obtain rfl := Option.some.inj h
      rfl
  | succ k ih =>
      obtain ⟨r, hr, hq⟩ := Option.bind_eq_some_iff.1 h
      have hstep := step_of_next hr
      rw [ih (holds_step suits_mayBeOn hvalues hstep) hq, typesSet, typesSet,
        log_succ_of_step hstep, List.getLast?_append]
      cases hstep with
      | @mk task rest brought frames m m' hperform =>
          have htype := mimeType_perform limit hvalues task rest frames
          rw [hperform] at htype
          rw [htype]
          generalize log limit typeSet k _ = later
          cases later.getLast? <;> rfl

end Point

namespace Document

open Point

/-- When a script may set the type of the body.  Take a run of a document, with a budget or without,
in a fresh context whose texts are written in UTF-8, headers being sent or not.  At the point after
its first `k` tasks,

* the header has been sent if a text, or the end of an echo tag, is among these tasks, and only
  then;
* the type of the body is the one that the last of their calls has set, or the initial one;
* the next task does not send the header if it is neither a text nor the end of an echo tag, be it a
  loop, an iteration or a token, and whether it fails or not; the end of an echo tag comes to its
  write with whatever is on the register, and so does a text whose step is granted, and these send
  the header, also if the write fails, unless their text has no bytes in UTF-8;
* a call that sets the type of the body, whose step is granted and whose operand is there, succeeds
  if none of these tasks is a text or the end of an echo tag.  It then sets the type to the text of
  its operand; else it fails because the header has been sent, and changes nothing in the context;
* if the run ends there, the header has been sent if it had been before or if the task that fails
  has come to its write with a text that has bytes in UTF-8, and the type of the body is the
  same. -/
theorem mimeType_until_first_write {d : Document} {limit : Option Int}
    {request persistent : Index Text} {cookies : List Cookie} {settings : Settings} {k : Nat}
    {p : Point} (hutf8 : settings.codec? settings.charset = some Charset.utf8.encode)
    (hafter : after? limit k (.start d (.start request persistent cookies settings)) = some p) :
    let p₀ := Point.start d (.start request persistent cookies settings)
    let sent := (done limit k p₀).any Task.isWrite
    let mimeType := (typesSet limit k p₀).getLast?.getD settings.mimeType
    p.machine.context.headerSent = sent ∧
    p.machine.context.settings.mimeType = mimeType ∧
    (∀ task rest, p.tasks = task :: rest →
      (task.isWrite = false →
        ((perform limit task).runIn p.machine).2.context.headerSent = sent) ∧
      (task = .emit → ∃ t, written limit p = [t] ∧
        ((perform limit task).runIn p.machine).2.context.headerSent =
          (sent || (Charset.utf8.encode t).isOk)) ∧
      ∀ content, task = .visit (.text content) → ((charge limit).runIn p.machine).1 = .ok () →
        ((perform limit task).runIn p.machine).2.context.headerSent =
          (sent || (Charset.utf8.encode content).isOk)) ∧
    (∀ rest v below, p.tasks = .token (.call Builtin.setMimeType.name) :: rest →
      p.machine.store.stack register = v :: below →
      ((charge limit).runIn p.machine).1 = .ok () →
        ∃ t m, v.toText = .ok t ∧
          (perform limit (.token (.call Builtin.setMimeType.name))).runIn p.machine =
            (if sent then .error (.headerSent .mimeType) else .ok [], m) ∧
          m.context = if sent then p.machine.context else
            { p.machine.context with
              settings := { p.machine.context.settings with mimeType := t } }) ∧
    ∀ outcome m, EndsAt limit p outcome m →
      (m.context.headerSent = true ↔ sent = true ∨ sends limit p = true) ∧
        m.context.settings.mimeType = mimeType := by
  intro p₀ sent mimeType
  have hvalues₀ : p₀.machine.Holds MayBeOn := holds_start d _
  have hutf8₀ : p₀.machine.context.IsUtf8 := hutf8
  have hrun : Run limit p₀ p := run_of_after hafter
  have hvalues : p.machine.Holds MayBeOn := holds_run suits_mayBeOn hvalues₀ hrun
  have hutf8 : p.machine.context.IsUtf8 := isUtf8_run hutf8₀ hrun
  have hsent : p.machine.context.headerSent = sent := headerSent_after hutf8₀ hvalues₀ hafter
  have htype : p.machine.context.settings.mimeType = mimeType := mimeType_after hvalues₀ hafter
  obtain ⟨tasks, frames, m⟩ := p
  replace hsent : m.context.headerSent = sent := hsent
  refine ⟨hsent, htype, fun task rest htasks => ?_, fun rest v below htasks hstack hcharge => ?_,
    fun outcome m' hend => ?_⟩
  · obtain rfl : tasks = task :: rest := htasks
    have hheader := headerSent_perform limit hutf8 task rest frames
    rw [hsent, sends] at hheader
    refine ⟨fun htask => ?_, fun htask => ?_, fun content htask hcharge => ?_⟩
    · rw [hheader, written_of_not_isWrite htask]
      exact Bool.or_false _
    · subst htask
      obtain ⟨t, ht⟩ : ∃ t, written limit ⟨.emit :: rest, frames, m⟩ = [t] :=
        written_emit hvalues rest frames
      refine ⟨t, ht, ?_⟩
      rw [hheader, ht, List.any_cons, List.any_nil, Bool.or_false]
    · subst htask
      rw [hheader, written_text hcharge content, List.any_cons, List.any_nil, Bool.or_false]
  · obtain rfl : tasks = _ := htasks
    obtain ⟨t, ht⟩ := exists_text_of_mayBeOn (hvalues register v (hstack ▸ List.mem_cons_self))
    obtain ⟨outcome, steps, hrun⟩ := runIn_charge limit m
    obtain rfl : outcome = .ok () := (congrArg Prod.fst hrun).symm.trans hcharge
    have hperform := perform_setMimeType hrun hstack ht
    rw [hsent] at hperform
    cases hcase : sent with
    | true | false =>
        rw [hcase] at hperform
        exact ⟨t, _, ht, hperform, rfl⟩
  · cases hend with
    | finished =>
        refine ⟨?_, htype⟩
        simp [sends, written, hsent]
    | @failed task rest _ _ m₁ fault hperform =>
        have hheader := headerSent_perform limit hutf8 task rest frames
        have hkept := mimeType_perform limit hvalues task rest frames
        rw [hperform] at hheader hkept
        refine ⟨?_, hkept.trans htype⟩
        show m₁.context.headerSent = true ↔ _
        rw [hheader, hsent]
        simp

/-- A loop whose echo tag sets the type of the body and writes nothing. -/
def typingLoop : Loop where
  counter := ['i']
  last := .int 2
  step := .int 1
  body := [.echo [.text ['x'], .call Builtin.setMimeType.name]]

/-- The document of the loop. -/
def typingDocument : Document :=
  [.loop ⟨['i'], .number (.int 1), .number (.int 2), none⟩ 0 typingLoop.body]

/-- Where the second iteration is about to set the type. -/
def atSecondType : Point where
  tasks := [.token (.call Builtin.setMimeType.name), .emit, .next typingLoop]
  frames := [⟨typingLoop, .int 1, 1⟩]
  machine := ⟨(NamedStacks.empty.push ['i'] (.number (.int 2))).push register (.text ['x']),
    { bareContext with
      settings := { bareContext.settings with mimeType := ['x'] }
      headerSent := true }, 8⟩

/-- The empty text of the first iteration has sent the header, so that the type cannot be set in the
second one. -/
theorem mimeType_of_secondType :
    parse "[$FOR i 1 2 $][$= \"x\" @setMimeType $][$END$]".toText = .ok typingDocument ∧
      after? (some 9) 11 (.start typingDocument bareContext) = some atSecondType ∧
      typesSet (some 9) 11 (.start typingDocument bareContext) = [[.char 'x']] ∧
      ∃ m, (perform (some 9) (.token (.call Builtin.setMimeType.name))).runIn
          atSecondType.machine = (.error (.headerSent .mimeType), m) ∧
        m.context = atSecondType.machine.context := by
  have hparse : parse "[$FOR i 1 2 $][$= \"x\" @setMimeType $][$END$]".toText =
      .ok typingDocument := by rfl
  have hafter : after? (some 9) 11 (.start typingDocument bareContext) = some atSecondType := by
    rfl
  have htypes : typesSet (some 9) 11 (.start typingDocument bareContext) = [[.char 'x']] := by
    decide
  obtain ⟨-, -, -, hcall, -⟩ := mimeType_until_first_write (by rfl) hafter
  obtain ⟨t, m, -, hperform, hcontext⟩ := hcall _ _ _ rfl rfl rfl
  exact ⟨hparse, hafter, htypes, m, hperform, hcontext⟩

/-- A text fails in its write before the header is sent, so that the run ends without it. -/
theorem failed_write_unsent :
    parse [.surrogate 0] = .ok unencodable ∧
      ∃ p fault m, after? none 1 (.start unencodable bareContext) = some p ∧
        written none p = [[.surrogate 0]] ∧ EndsAt none p (.failed fault) m ∧
        m.context.headerSent = false := by
  let p : Point := ⟨[.visit (.text [.surrogate 0])], [], ⟨.empty, bareContext, 1⟩⟩
  have hafter : after? none 1 (.start unencodable bareContext) = some p := by rfl
  have hperform : (perform none (.visit (.text [.surrogate 0]))).runIn p.machine =
      (.error (.unencodable (Charset.utf8.error (.surrogate 0) 0 1)),
        ⟨.empty, bareContext, 2⟩) := by rfl
  exact ⟨by rfl, p, _, _, hafter, by rfl, .failed hperform, rfl⟩

end Document
end Stencil
