import Stencil.Proofs.Run.Scope

/-!
# Control flow and data

What a run executes does not depend on the context that it runs in.

Two runs of a document with the same budget go in `Lockstep` as long as neither fails: at each
moment they have the same tasks left, they run the same loops, and they have taken the same number
of steps.  The values on the register and everything in the contexts may differ.

**Argument.**  What a task brings is written in the document, apart from the test of a loop, which
looks at its counter.  The counter is a number that began as a literal and that only literals have
been added to, and by the invariant of `Scope` it is on top of its stack in both runs.  A task takes
a step or none, whatever it computes.  So only a failure can tell the runs apart, and it ends one of
them.

**Results.**
* `context_perform`: what a task writes is all that it does to the response, unless it is a token.
* `Lockstep.step`: the runs stay in lockstep while both go on.
* `control_flow_independent`: one of the traces is a beginning of the other, and two runs that
  succeed have the same trace, as many writes and as many steps.
-/

namespace Stencil

/-- The task executes a node, or the document, or a token. -/
def Task.isExecution : Task → Bool
  | .document _ | .visit _ | .token _ => true
  | _ => false

namespace Machine

/-- Whether a charge is granted depends on the steps taken before. -/
theorem charge_congr (limit : Option Int) {m m' : Machine} (h : m.steps = m'.steps) :
    ((charge limit).runIn m).1 = ((charge limit).runIn m').1 := by
  cases limit with
  | none =>
      rw [runIn_charge_none, runIn_charge_none]
  | some n =>
      rw [runIn_charge_some, runIn_charge_some, h]
      split <;> rfl

end Machine

open Machine

namespace Point

variable {d : Document} {base : List Frame} {limit : Option Int}

/-- What is seen at the points of a run before each of its first tasks. -/
def log {α : Type} (limit : Option Int) (observe : Point → List α) : Nat → Point → List α
  | 0, _ => []
  | k + 1, p =>
      observe p ++ match next? limit p with
        | some q => log limit observe k q
        | none => []

/-- A node or token that is executed, and the stacks of the counters at that moment. -/
structure Executed where
  task : Task
  counters : NamedStacks

/-- What is executed at a point: its next task, if that is a node or a token and its step is
granted. -/
def executed (limit : Option Int) : Point → List Executed
  | ⟨task :: _, _, m⟩ =>
      match task.isExecution, ((charge limit).runIn m).1 with
      | true, .ok _ => [⟨task, m.store.set register []⟩]
      | _, _ => []
  | ⟨[], _, _⟩ => []

/-- The text that the next task of a point hands to the response, if it comes to that. -/
def written (limit : Option Int) : Point → List Text
  | ⟨.visit (.text content) :: _, _, m⟩ =>
      match ((charge limit).runIn m).1 with
      | .ok _ => [content]
      | .error _ => []
  | ⟨.emit :: _, _, m⟩ =>
      match (m.store.drain register).1.mapM Value.toText with
      | .ok texts => [texts.flatten]
      | .error _ => []
  | _ => []

/-- The context is as it was. -/
def SameContext (m m' : Machine) : Prop := m'.context = m.context

instance : IsPreorder Machine SameContext where
  refl _ := rfl
  trans _ _ _ h h' := h'.trans h

theorem sameContext_charge (limit : Option Int) :
    Action.Preserves SameContext (charge limit) := by
  intro m
  obtain ⟨outcome, steps, hcharge⟩ := runIn_charge limit m
  rw [hcharge]
  rfl

/-- A task that is neither a text, a token nor the end of an echo tag leaves the context alone. -/
theorem sameContext_perform {task : Task} (htext : ∀ content, task ≠ .visit (.text content))
    (htoken : ∀ t, task ≠ .token t) (hemit : task ≠ .emit) :
    Action.Preserves SameContext (perform limit task) := by
  have hcharge := sameContext_charge limit
  cases task with
  | document nodes =>
      exact hcharge.bind fun _ => .pure _
  | visit node =>
      cases node with
      | text content =>
          exact absurd rfl (htext content)
      | echo tokens =>
          exact hcharge.bind fun _ => .pure _
      | loop head offset body =>
          exact hcharge.bind fun _ => (Action.Preserves.ofExcept _).bind fun _ =>
            Action.Preserves.bind (fun _ => rfl) fun _ => .pure _
  | token t =>
      exact absurd rfl (htoken t)
  | emit =>
      exact absurd rfl hemit
  | test loop =>
      exact preserves_test (fun _ _ => rfl) loop
  | next loop =>
      rw [perform_of_charged limit rfl]
      exact (preserves_prepare (fun _ _ => rfl) (.next loop)).bind fun _ =>
        hcharge.bind fun _ => .pure _

theorem context_write_then (t : Text) (m : Machine) :
    ((do onContext (Context.write t); return [] : Action Machine (List Task)).runIn m).2.context =
      ((Context.write t).runIn m.context).2 := by
  simp only [Action.runIn_bind, runIn_onContext]
  split
  · next hm =>
      exact congrArg Machine.context (Prod.mk.inj hm).2.symm
  · next hm =>
      exact congrArg Machine.context (Prod.mk.inj hm).2.symm

/-- A task comes to one write at most, which is the last that it does. -/
theorem perform_cases (limit : Option Int) {task : Task} (rest : List Task) (frames : List Frame)
    (m : Machine) (htoken : ∀ t, task ≠ .token t) :
    (written limit ⟨task :: rest, frames, m⟩ = [] ∧
      ((perform limit task).runIn m).2.context = m.context) ∨
    ∃ t m₁, written limit ⟨task :: rest, frames, m⟩ = [t] ∧ m₁.context = m.context ∧
      (perform limit task).runIn m =
        (do onContext (Context.write t); return [] : Action Machine (List Task)).runIn m₁ := by
  by_cases htext : ∃ content, task = .visit (.text content)
  · obtain ⟨content, rfl⟩ := htext
    obtain ⟨outcome, steps, hcharge⟩ := runIn_charge limit m
    cases outcome with
    | error fault =>
        exact Or.inl (by simp [perform, written, Action.runIn_bind, hcharge])
    | ok _ =>
        refine Or.inr ⟨content, { m with steps := steps }, ?_, rfl, ?_⟩
        · simp only [written, hcharge]
        · rw [perform, Action.runIn_bind, hcharge]
  · by_cases hemit : task = .emit
    · subst hemit
      cases htexts : (m.store.drain register).1.mapM Value.toText with
      | error fault =>
          exact Or.inl (by simp [perform, emit, written, Action.runIn_bind, htexts])
      | ok texts =>
          refine Or.inr ⟨texts.flatten, { m with store := (m.store.drain register).2 }, ?_, rfl, ?_⟩
          · simp only [written, htexts]
          · simp only [perform, emit, Action.runIn_bind, Action.runIn_get, Action.runIn_modify,
              Action.runIn_ofExcept, htexts]
    · have hnone : written limit ⟨task :: rest, frames, m⟩ = [] := by
        unfold written
        split <;> simp_all
      exact Or.inl
        ⟨hnone, sameContext_perform (fun content h => htext ⟨content, h⟩) htoken hemit m⟩

/-- The response changes by the text that is written, apart from what a token does to it. -/
theorem context_perform {task : Task} (rest : List Task) (frames : List Frame) (m : Machine)
    (htoken : ∀ t, task ≠ .token t) : ((perform limit task).runIn m).2.context =
      (written limit ⟨task :: rest, frames, m⟩).foldl
        (fun c t => ((Context.write t).runIn c).2) m.context := by
  rcases perform_cases limit rest frames m htoken with
    ⟨hnone, hsame⟩ | ⟨t, m₁, ht, hcontext, hrun⟩
  · rw [hnone, hsame]
    rfl
  · rw [ht, hrun, context_write_then, hcontext]
    rfl

/-- Two runs at the same place of a document, with different values and contexts. -/
structure Lockstep (d : Document) (base : List Frame) (p q : Point) : Prop where
  tasks : p.tasks = q.tasks
  frames : p.frames = q.frames
  steps : p.machine.steps = q.machine.steps
  left : Scoped d base p
  right : Scoped d base q

theorem Lockstep.symm {p q : Point} (h : Lockstep d base p q) : Lockstep d base q p :=
  ⟨h.tasks.symm, h.frames.symm, h.steps.symm, h.right, h.left⟩

theorem lockstep_start (d : Document) (context context' : Context) :
    Lockstep d [] (start d context) (start d context') :=
  ⟨rfl, rfl, rfl, scoped_start d context, scoped_start d context'⟩

/-- Emptying the register leaves the counters alone. -/
theorem Scoped.counters (hnamed : d.Named) {p : Point} (h : Scoped d base p) :
    p.machine.store.set register [] = Frame.store p.frames := by
  apply NamedStacks.ext_stack (h.tidy.set _ _) (Frame.tidy_store _)
  intro x
  rw [NamedStacks.stack_set, Frame.stack_store]
  by_cases hx : x = register
  · rw [if_pos hx, hx, h.path.values_register hnamed]
  · rw [if_neg hx, h.held x hx]

/-- A task brings the same tasks in both runs. -/
theorem brought_congr (hnamed : d.Named) {task : Task} {rest brought brought' : List Task}
    {frames : List Frame} {m m' m₁ m₁' : Machine}
    (h : Scoped d base ⟨task :: rest, frames, m⟩) (h' : Scoped d base ⟨task :: rest, frames, m'⟩)
    (hperform : (perform limit task).runIn m = (.ok brought, m₁))
    (hperform' : (perform limit task).runIn m' = (.ok brought', m₁')) : brought = brought' := by
  cases hbrings : bringsOf task with
  | some tasks =>
      exact (returns_bringsOf limit hbrings m _ _ hperform).trans
        (returns_bringsOf limit hbrings m' _ _ hperform').symm
  | none =>
      cases task with
      | document nodes | token t | emit | next loop =>
          simp [bringsOf] at hbrings
      | visit node =>
          cases node with
          | text content | echo tokens =>
              simp [bringsOf] at hbrings
          | loop head offset body =>
              obtain ⟨_, ⟨_, hfail⟩ | ⟨first, loop, hloop, hok⟩⟩ :=
                perform_visit_loop limit head offset body m
              · simp [hperform] at hfail
              obtain ⟨_, ⟨_, hfail⟩ | ⟨first', loop', hloop', hok'⟩⟩ :=
                perform_visit_loop limit head offset body m'
              · simp [hperform'] at hfail
              obtain ⟨rfl, rfl⟩ := Prod.mk.inj (Except.ok.inj (hloop.symm.trans hloop'))
              obtain ⟨hbrought, -⟩ := Prod.mk.inj (hperform.symm.trans hok)
              obtain ⟨hbrought', -⟩ := Prod.mk.inj (hperform'.symm.trans hok')
              exact (Except.ok.inj hbrought).trans (Except.ok.inj hbrought').symm
      | test loop =>
          obtain ⟨f, outer, rfl, rfl, hstack⟩ := h.exists_frame hnamed (.inl rfl)
          obtain ⟨f', outer', hframes, -, hstack'⟩ := h'.exists_frame hnamed (.inl rfl)
          obtain ⟨rfl, rfl⟩ := List.cons.inj hframes
          rw [perform_test limit hstack] at hperform
          rw [perform_test limit hstack'] at hperform'
          split at hperform <;> rename_i hcompare
          · rw [if_pos hcompare] at hperform'
            exact Except.ok.inj ((Prod.mk.inj hperform).1.symm.trans (Prod.mk.inj hperform').1)
          · rw [if_neg hcompare] at hperform'
            exact Except.ok.inj ((Prod.mk.inj hperform).1.symm.trans (Prod.mk.inj hperform').1)

/-- Two runs in lockstep stay so while both go on. -/
theorem Lockstep.step (hnamed : d.Named) {p q p' q' : Point} (h : Lockstep d base p q)
    (hp : Step limit p p') (hq : Step limit q q') : Lockstep d base p' q' := by
  have hleft := scoped_step hnamed h.left hp
  have hright := scoped_step hnamed h.right hq
  cases hp with
  | @mk task rest brought frames m m₁ hperform =>
      cases hq with
      | @mk task' rest' brought' frames' m' m₁' hperform' =>
          obtain ⟨rfl, rfl⟩ := List.cons.inj h.tasks
          obtain rfl : frames = frames' := h.frames
          obtain rfl := brought_congr hnamed h.left h.right hperform hperform'
          have hsteps : m.steps = m'.steps := h.steps
          refine ⟨rfl, rfl, ?_, hleft, hright⟩
          show m₁.steps = m₁'.steps
          rw [steps_of_ok hperform, steps_of_ok hperform', hsteps]

/-- The same is executed in both runs. -/
theorem Lockstep.executed_eq (hnamed : d.Named) {p q : Point} (h : Lockstep d base p q) :
    executed limit p = executed limit q := by
  obtain ⟨tasks, frames, m⟩ := p
  obtain ⟨tasks', frames', m'⟩ := q
  obtain rfl : tasks = tasks' := h.tasks
  obtain rfl : frames = frames' := h.frames
  have hcounters : m.store.set register [] = m'.store.set register [] :=
    (h.left.counters hnamed).trans (h.right.counters hnamed).symm
  cases tasks with
  | nil =>
      rfl
  | cons task rest =>
      simp only [executed, charge_congr limit h.steps, hcounters]

/-- As many texts are written in both runs, where neither fails. -/
theorem Lockstep.forall₂_written {p q p' q' : Point} (h : Lockstep d base p q)
    (hp : Step limit p p') (hq : Step limit q q') :
    List.Forall₂ (fun _ _ => True) (written limit p) (written limit q) := by
  -- The end of an echo tag that succeeds has found a text for each value.
  have hemit : ∀ {m m₁ : Machine} {brought : List Task},
      (perform limit .emit).runIn m = (.ok brought, m₁) →
        ∃ texts, (m.store.drain register).1.mapM Value.toText = .ok texts := by
    intro m m₁ brought hperform
    cases htexts : (m.store.drain register).1.mapM Value.toText with
    | ok texts =>
        exact ⟨texts, rfl⟩
    | error fault =>
        simp [perform, emit, Action.runIn_bind, htexts] at hperform
  cases hp with
  | @mk task rest brought frames m m₁ hperform =>
      cases hq with
      | @mk task' rest' brought' frames' m' m₁' hperform' =>
          obtain ⟨rfl, rfl⟩ := List.cons.inj h.tasks
          cases task with
          | document nodes | token t | test loop | next loop =>
              exact .nil
          | visit node =>
              cases node with
              | echo tokens | loop head offset body =>
                  exact .nil
              | text content =>
                  simp only [written, charge_congr limit h.steps]
                  cases ((charge limit).runIn m').1 with
                  | error fault =>
                      exact .nil
                  | ok _ =>
                      exact .cons trivial .nil
          | emit =>
              obtain ⟨texts, htexts⟩ := hemit hperform
              obtain ⟨texts', htexts'⟩ := hemit hperform'
              simp [written, htexts, htexts']

/-- The run from `p` goes on no longer than the one from `q`. -/
def StopsFirst (limit : Option Int) (p q : Point) : Prop :=
  ∀ k, after? limit k q = none → after? limit k p = none

theorem after_mono {p : Point} {k n : Nat} (h : after? limit k p = none) (hle : k ≤ n) :
    after? limit n p = none := by
  induction k generalizing p n with
  | zero =>
      simp [after?] at h
  | succ k ih =>
      obtain ⟨n, rfl⟩ := Nat.exists_eq_add_of_le' hle
      rw [← Nat.add_assoc]
      cases hnext : next? limit p with
      | none =>
          simp [after?, hnext]
      | some q =>
          simp only [after?, hnext, Option.bind_some] at h ⊢
          exact ih h (by omega)

theorem stopsFirst_total (p q : Point) : StopsFirst limit p q ∨ StopsFirst limit q p := by
  by_cases h : StopsFirst limit p q
  · exact .inl h
  · right
    unfold StopsFirst at h
    push Not at h
    obtain ⟨k, hq, hp⟩ := h
    intro n hn
    have hlt : k ≤ n := by
      by_contra hlt
      exact hp (after_mono hn (by omega))
    exact after_mono hq hlt

/-- What the run that stops first shows is a beginning of what the other one shows. -/
theorem Lockstep.log_prefix (hnamed : d.Named) {α : Type} {observe : Point → List α}
    (hobserve : ∀ p q, Lockstep d base p q → observe p = observe q) {p q : Point}
    (h : Lockstep d base p q) (hstops : StopsFirst limit p q) (k : Nat) :
    log limit observe k p <+: log limit observe k q := by
  induction k generalizing p q with
  | zero =>
      exact List.prefix_rfl
  | succ k ih =>
      rw [log, log, hobserve p q h, List.prefix_append_right_inj]
      cases hp : next? limit p with
      | none =>
          exact List.nil_prefix
      | some p' =>
          cases hq : next? limit q with
          | none =>
              have hnone : after? limit 1 p = none := hstops 1 (by simp [after?, hq])
              simp [after?, hp] at hnone
          | some q' =>
              refine ih (h.step hnamed (step_of_next hp) (step_of_next hq)) fun n hn => ?_
              have hlater := hstops (n + 1) (by simp [after?, hq, hn])
              simpa [after?, hp] using hlater

theorem log_succ_of_step {α : Type} {observe : Point → List α} {p q : Point}
    (h : Step limit p q) (k : Nat) :
    log limit observe (k + 1) p = observe p ++ log limit observe k q := by
  simp only [log, next_of_step h]

theorem log_of_nil {α : Type} {observe : Point → List α} {p : Point} (htasks : p.tasks = [])
    (hnil : observe p = []) (k : Nat) : log limit observe k p = [] := by
  obtain ⟨tasks, frames, m⟩ := p
  obtain rfl : tasks = [] := htasks
  cases k with
  | zero =>
      rfl
  | succ k =>
      rw [log, hnil]
      rfl

/-- Runs in lockstep that succeed take as many steps, and what is seen of them corresponds if it
does for every task that succeeds in both. -/
theorem Lockstep.finished (hnamed : d.Named) {α : Type} {observe : Point → List α}
    {R : α → α → Prop} (hnil : ∀ p, p.tasks = [] → observe p = [])
    (hobserve : ∀ {p q p' q'}, Lockstep d base p q → Step limit p p' → Step limit q q' →
      List.Forall₂ R (observe p) (observe q))
    {p q : Point} {m m' : Machine} (h : Lockstep d base p q) (hp : Ends limit p .finished m)
    (hq : Ends limit q .finished m') :
    m.steps = m'.steps ∧ ∀ k, List.Forall₂ R (log limit observe k p) (log limit observe k q) := by
  obtain ⟨r, hrun, hend⟩ := hp
  obtain ⟨r', hrun', hend'⟩ := hq
  induction hrun using Relation.ReflTransGen.head_induction_on generalizing q with
  | refl =>
      obtain ⟨htasks, rfl⟩ := tasks_of_finished hend
      have htasks' := h.tasks.symm.trans htasks
      obtain rfl := eq_of_run_of_nil htasks' hrun'
      obtain ⟨-, rfl⟩ := tasks_of_finished hend'
      refine ⟨h.steps, fun k => ?_⟩
      rw [log_of_nil htasks (hnil _ htasks), log_of_nil htasks' (hnil _ htasks')]
      exact .nil
  | @head p p₁ hstep _ ih =>
      rcases hrun'.cases_head with rfl | ⟨q₁, hstep', hrest⟩
      · -- The other run cannot be over, since it has the same tasks left.
        have htasks := h.tasks.trans (tasks_of_finished hend').1
        cases hstep
        simp at htasks
      · obtain ⟨hsteps, hlogs⟩ := ih (h.step hnamed hstep hstep') hrest
        refine ⟨hsteps, fun k => ?_⟩
        cases k with
        | zero =>
            exact .nil
        | succ k =>
            rw [log_succ_of_step hstep, log_succ_of_step hstep']
            exact List.rel_append (hobserve h hstep hstep') (hlogs k)

end Point

namespace Document

open Point

/-- What a run of a document executes with its first tasks. -/
def trace (d : Document) (limit : Option Int) (context : Context) (tasks : Nat) :
    List Executed :=
  log limit (executed limit) tasks (.start d context)

/-- The texts that a run of a document writes with its first tasks. -/
def writes (d : Document) (limit : Option Int) (context : Context) (tasks : Nat) : List Text :=
  log limit (written limit) tasks (.start d context)

/-- What a run executes does not depend on the context that it runs in.  Take two runs of a document
that was read, with the same budget.

* The trace of one of them is a beginning of the trace of the other.
* If both succeed, they have the same trace, they write as many texts, and they take as many
  steps. -/
theorem control_flow_independent {t : Text} {d : Document} {limit : Option Int}
    (hparse : parse t = .ok d) (context context' : Context) :
    ((∀ k, d.trace limit context k <+: d.trace limit context' k) ∨
      ∀ k, d.trace limit context' k <+: d.trace limit context k) ∧
    ∀ m m', d.EndsAs limit context .finished m → d.EndsAs limit context' .finished m' →
      (∀ k, d.trace limit context k = d.trace limit context' k) ∧
      (∀ k, (d.writes limit context k).length = (d.writes limit context' k).length) ∧
      m.steps = m'.steps := by
  have hnamed := named_of_parse hparse
  have hstart := lockstep_start d context context'
  constructor
  · have hexecuted : ∀ p q, Lockstep d [] p q → executed limit p = executed limit q :=
      fun _ _ h => h.executed_eq hnamed
    rcases stopsFirst_total (.start d context) (.start d context') with hstops | hstops
    · exact Or.inl (hstart.log_prefix hnamed hexecuted hstops)
    · exact Or.inr (hstart.symm.log_prefix hnamed hexecuted hstops)
  · intro m m' hends hends'
    have hp := endsAs_iff_ends.1 hends
    have hq := endsAs_iff_ends.1 hends'
    have hnil : ∀ p : Point, p.tasks = [] → executed limit p = [] ∧ written limit p = [] := by
      rintro ⟨tasks, frames, m⟩ rfl
      exact ⟨rfl, rfl⟩
    obtain ⟨hsteps, htrace⟩ := hstart.finished hnamed (R := (· = ·)) (fun p hp => (hnil p hp).1)
      (fun h _ _ => List.forall₂_eq_eq_eq ▸ h.executed_eq hnamed) hp hq
    obtain ⟨-, hwrites⟩ := hstart.finished hnamed (R := fun _ _ => True)
      (fun p hp => (hnil p hp).2) (fun h hstep hstep' => h.forall₂_written hstep hstep') hp hq
    refine ⟨fun k => ?_, fun k => (hwrites k).length_eq, hsteps⟩
    exact List.forall₂_eq_eq_eq ▸ htrace k

/-- A loop around an echo tag that writes a parameter, or the counter if there is none. -/
def parameterLoop : Document :=
  [.loop ⟨['i'], .number (.int 1), .number (.int 2), none⟩ 0
    [.echo [.text ['n'], .var ['i'], .call "paramGet".toText]]]

/-- A request with the parameter. -/
def namedContext : Context :=
  .start (Index.empty.put ['n'] "ab".toText) .empty [] { sendsHeader := false }

/-- With the parameter and without it the loop writes different texts, by the same steps. -/
theorem parameterLoop_independent :
    parse "[$FOR i 1 2 $][$= \"n\" i @paramGet $][$END$]".toText = .ok parameterLoop ∧
      (parameterLoop.run (some 13) namedContext).2.context.output = #[97, 98, 97, 98] ∧
      (parameterLoop.run (some 13) bareContext).2.context.output = #[49, 50] ∧
      (∀ k, parameterLoop.trace (some 13) namedContext k =
        parameterLoop.trace (some 13) bareContext k) ∧
      (parameterLoop.run (some 13) namedContext).2.steps =
        (parameterLoop.run (some 13) bareContext).2.steps := by
  have hparse : parse "[$FOR i 1 2 $][$= \"n\" i @paramGet $][$END$]".toText =
      .ok parameterLoop := by rfl
  have hnamed : (parameterLoop.run (some 13) namedContext).1 = .finished := by decide
  have hbare : (parameterLoop.run (some 13) bareContext).1 = .finished := by decide
  obtain ⟨-, hfinished⟩ := @control_flow_independent _ _ (some 13) hparse namedContext bareContext
  obtain ⟨htrace, -, hsteps⟩ := hfinished _ _ (endsAs_some_iff.2 (Prod.ext hnamed rfl))
    (endsAs_some_iff.2 (Prod.ext hbare rfl))
  exact ⟨hparse, by decide, by decide, htrace, hsteps⟩

end Document
end Stencil
