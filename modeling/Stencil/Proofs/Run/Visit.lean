import Stencil.Proofs.Run.Scope

/-!
# Visits

What a visit of a node leaves on the stacks, whether it succeeds or fails.

**Argument.**  A visit that begins at some point is a run of its own, over the loops of that point.
Where it succeeds, the invariant of `Scope` says that the stacks hold the counters of these loops,
as they did when it began.  Where it fails, the loops that it entered are given up, and each of them
finds its counter on top of its stack (`giveUp_pending`).  So the stacks are again those of the
loops of the point, and the fault is the one that the failing task has raised.

**Results.**
* `Scoped.visit_finished` and `Scoped.visit_failed`: what is on the stacks after a visit.
* `Scoped.unbound_iff`: which names are unbound.
* `stacks_hold_enclosing_counters`: the stacks at every point of a run of a document that was read.
-/

namespace Stencil

/-- The task visits a node or the whole document. -/
def Task.isVisit : Task → Bool
  | .document _ | .visit _ => true
  | _ => false

namespace Machine

theorem charge_error {limit : Option Int} {m m' : Machine} {f : Fault}
    (h : (charge limit).runIn m = (.error f, m')) :
    ∃ n, limit = some n ∧ f = .stepLimit n ∧ n ≤ m.steps ∧ m' = m := by
  cases limit with
  | none =>
      rw [runIn_charge_none] at h
      simp at h
  | some n =>
      rw [runIn_charge_some] at h
      split at h
      · next hle =>
          simp only [Prod.mk.injEq, Except.error.injEq] at h
          exact ⟨n, rfl, h.1.symm, hle, h.2.symm⟩
      · simp at h

/-- The tasks in front are given up first. -/
theorem giveUp_append (s t : List Task) (fault : Fault) (store : NamedStacks) :
    giveUp (s ++ t) fault store =
      giveUp t (giveUp s fault store).1 (giveUp s fault store).2 := by
  induction s generalizing fault store with
  | nil =>
      rfl
  | cons task s ih =>
      rw [List.cons_append, giveUp, giveUp]
      cases task.counter? with
      | none =>
          exact ih fault store
      | some x =>
          cases hpop : store.pop x with
          | ok result =>
              simp only [hpop]
              exact ih fault result.2
          | error fault' =>
              simp only [hpop]
              exact ih fault' store

/-- Tasks without a counter are given up at once. -/
theorem giveUp_of_no_counter {tasks : List Task} (h : ∀ task ∈ tasks, task.counter? = none)
    (fault : Fault) (store : NamedStacks) : giveUp tasks fault store = (fault, store) := by
  induction tasks with
  | nil =>
      rfl
  | cons task tasks ih =>
      rw [giveUp, h task List.mem_cons_self]
      exact ih fun t ht => h t (List.mem_cons_of_mem _ ht)

/-- A variable whose stack is not empty is read from its top; else it is unbound. -/
theorem evaluate_var (x : Text) (m : Machine) :
    ((evaluate (.var x)).runIn m).1 =
      if m.store.stack x = [] then .error (.unbound x) else .ok () := by
  cases hstack : m.store.stack x with
  | nil =>
      simp [evaluate, Action.runIn_bind, NamedStacks.isEmpty, hstack]
  | cons v rest =>
      simp [evaluate, Action.runIn_bind, NamedStacks.isEmpty, hstack,
        NamedStacks.peek_of_stack hstack]

end Machine

open Machine

/-- The loops that are left to do are given up with their counters on top of their stacks, and the
fault stays what it was. -/
theorem Document.giveUp_pending {d : Document} (hnamed : d.Named) {base frames : List Frame}
    {tasks : List Task} {s : NamedStacks} (fault : Fault) (hpath : d.Path frames) (htidy : s.Tidy)
    (hheld : Frame.Held frames s) (hpending : d.Pending base tasks frames) :
    ∃ s', giveUp tasks fault s = (fault, s') ∧ Frame.Held base s' ∧ s'.Tidy := by
  induction tasks generalizing frames s with
  | nil =>
      cases hpending
      exact ⟨s, rfl, hheld, htidy⟩
  | cons task rest ih =>
      -- A loop that is given up is the innermost one, so the loops outside it are left.
      have hleave : ∀ loop, task.counter? = some loop.counter → (∃ f outer, frames = f :: outer ∧
          f.loop = loop ∧ d.Pending base rest outer) →
          ∃ s', giveUp (task :: rest) fault s = (fault, s') ∧ Frame.Held base s' ∧ s'.Tidy := by
        rintro loop hcounter ⟨f, outer, rfl, rfl, hrest⟩
        have hstack := hheld.stack_counter (hpath.counter_ne_register hnamed)
        obtain ⟨s', hgive, hbase⟩ := ih hpath.2 (htidy.set _ _) hheld.leave hrest
        refine ⟨s', ?_, hbase⟩
        simp only [giveUp, hcounter, NamedStacks.pop_of_stack hstack]
        exact hgive
      cases task with
      | document nodes =>
          obtain ⟨s', hgive, hbase⟩ := ih hpath htidy hheld hpending.2.2
          exact ⟨s', hgive, hbase⟩
      | visit node =>
          obtain ⟨s', hgive, hbase⟩ := ih hpath htidy hheld hpending.2
          exact ⟨s', hgive, hbase⟩
      | token t =>
          cases frames <;> exact absurd hpending id
      | emit =>
          cases frames <;> exact absurd hpending id
      | test loop =>
          cases frames with
          | nil =>
              exact absurd hpending id
          | cons f outer =>
              exact hleave loop rfl ⟨f, outer, rfl, hpending.1, hpending.2⟩
      | next loop =>
          cases frames with
          | nil =>
              exact absurd hpending id
          | cons f outer =>
              exact hleave loop rfl ⟨f, outer, rfl, hpending.1, hpending.2⟩

namespace Point

variable {d : Document} {base : List Frame} {limit : Option Int}

/-- The next task of a point fails by itself: a node, a token or the end of an echo tag, or at the
end of an iteration the check of its step. -/
def Raises (limit : Option Int) (q : Point) (fault : Fault) : Prop :=
  ∃ task rest m', q.tasks = task :: rest ∧
    (perform limit task).runIn q.machine = (.error fault, m') ∧ (∀ loop, task ≠ .test loop) ∧
      ∀ loop, task = .next loop → ∃ n, limit = some n ∧ fault = .stepLimit n

/-- The visit of a node that fails leaves the stacks as they were. -/
theorem store_of_visit_error {node : Node} {m m' : Machine} {fault : Fault}
    (hperform : (perform limit (.visit node)).runIn m = (.error fault, m')) :
    m'.store = m.store := by
  cases node with
  | text content =>
      have hstore := store_perform_visit limit m (Or.inr (Or.inl ⟨content, rfl⟩))
      rw [hperform] at hstore
      exact hstore
  | echo tokens =>
      have hstore := store_perform_visit limit m (Or.inr (Or.inr ⟨tokens, rfl⟩))
      rw [hperform] at hstore
      exact hstore
  | loop head offset body =>
      obtain ⟨steps, ⟨fault', hfail⟩ | ⟨first, loop, -, hok⟩⟩ :=
        perform_visit_loop limit head offset body m
      · rw [hperform] at hfail
        obtain ⟨-, rfl⟩ := Prod.mk.inj hfail
        rfl
      · rw [hperform] at hok
        simp at hok

/-- At the end of an iteration only the check of the step can fail. -/
theorem next_error {f : Frame} {m m' : Machine} {fault : Fault} {rest : List Value}
    (hstack : m.store.stack f.loop.counter = .number f.value :: rest)
    (hperform : (perform limit (.next f.loop)).runIn m = (.error fault, m')) :
    ∃ n, limit = some n ∧ fault = .stepLimit n := by
  rw [perform_of_charged limit rfl, Action.runIn_bind, runIn_prepare_next hstack] at hperform
  simp only [Action.runIn_bind] at hperform
  split at hperform
  · simp [proceed] at hperform
  · next fault' m₁ hcharge =>
      obtain ⟨n, hlimit, hfault, -, -⟩ := charge_error hcharge
      obtain ⟨hsame, -⟩ := Prod.mk.inj hperform
      exact ⟨n, hlimit, (Except.error.inj hsame).symm.trans hfault⟩

/-- Where a task fails, the fault is its own, and the loops that are given up leave the stacks as
the loops around them have them. -/
theorem Scoped.fails (hnamed : d.Named) {task : Task} {rest : List Task} {frames : List Frame}
    {m m' : Machine} {fault : Fault} (h : Scoped d base ⟨task :: rest, frames, m⟩)
    (hperform : (perform limit task).runIn m = (.error fault, m')) :
    Raises limit ⟨task :: rest, frames, m⟩ fault ∧
      ∃ s', giveUp (task :: rest) fault m'.store = (fault, s') ∧ Frame.Held base s' ∧ s'.Tidy := by
  obtain ⟨hpath, htidy, hheld, waiting, hpending, ⟨rfl, hregister⟩ | ⟨done, left, hecho, htasks⟩⟩ :=
    h
  · cases task with
    | document nodes =>
        have hstore := store_perform_visit limit m (Or.inl ⟨nodes, rfl⟩)
        rw [hperform] at hstore
        rw [show m'.store = m.store from hstore]
        exact ⟨⟨_, _, m', rfl, hperform, by simp, by simp⟩,
          Document.giveUp_pending hnamed fault hpath htidy hheld hpending⟩
    | visit node =>
        rw [store_of_visit_error hperform]
        exact ⟨⟨_, _, m', rfl, hperform, by simp, by simp⟩,
          Document.giveUp_pending hnamed fault hpath htidy hheld hpending⟩
    | token t =>
        cases frames <;> exact absurd hpending id
    | emit =>
        cases frames <;> exact absurd hpending id
    | test loop =>
        cases frames with
        | nil =>
            exact absurd hpending id
        | cons f outer =>
            obtain ⟨rfl, -⟩ := hpending
            rw [perform_test limit (hheld.stack_counter (hpath.counter_ne_register hnamed))]
              at hperform
            split at hperform <;> simp at hperform
    | next loop =>
        cases frames with
        | nil =>
            exact absurd hpending id
        | cons f outer =>
            obtain ⟨rfl, hrest⟩ := hpending
            have hstack := hheld.stack_counter (hpath.counter_ne_register hnamed)
            obtain ⟨steps, hm, -⟩ := perform_next limit hstack
            rw [hperform] at hm
            obtain rfl : m' = _ := hm
            refine ⟨⟨_, _, _, rfl, hperform, by simp, ?_⟩, ?_⟩
            · intro loop _
              exact next_error hstack hperform
            · -- The counter has been changed already, and is that of one more iteration.
              have hadvanced : d.Path (f.advance :: outer) := hpath
              exact Document.giveUp_pending hnamed fault hadvanced ((htidy.set _ _).push _ _)
                (Frame.Held.advance hheld) ⟨rfl, hrest⟩
  · have hskip : ∀ t ∈ left.map Task.token ++ [Task.emit], t.counter? = none := by
      intro t ht
      simp only [List.mem_append, List.mem_map, List.mem_singleton] at ht
      rcases ht with ⟨token, -, rfl⟩ | rfl <;> rfl
    have hkept : RegisterOnly m m' ∧ (∀ loop, task ≠ .test loop) ∧ ∀ loop, task ≠ .next loop := by
      cases left with
      | nil =>
          obtain ⟨rfl, rfl⟩ := List.cons.inj htasks
          have hm := (registerOnly_perform_emit limit m).1
          rw [hperform] at hm
          exact ⟨hm, by simp, by simp⟩
      | cons t left =>
          obtain ⟨rfl, rfl⟩ := List.cons.inj htasks
          have hm := registerOnly_perform_token limit t m
          rw [hperform] at hm
          exact ⟨hm, by simp, by simp⟩
    refine ⟨⟨task, rest, m', rfl, hperform, hkept.2.1, fun loop hloop => ?_⟩, ?_⟩
    · exact absurd hloop (hkept.2.2 loop)
    · have hgive := giveUp_append (left.map .token ++ [.emit]) waiting fault m'.store
      rw [giveUp_of_no_counter hskip, List.append_assoc, List.singleton_append, ← htasks] at hgive
      rw [hgive]
      exact Document.giveUp_pending hnamed fault hpath (hkept.1.2 htidy)
        (hheld.congr hkept.1.1) hpending

/-- A visit that begins at a point is a run of its own over the loops of the point. -/
theorem Scoped.visit {p : Point} {task : Task} {rest : List Task} (h : Scoped d base p)
    (htasks : p.tasks = task :: rest) (hvisit : task.isVisit = true) :
    Scoped d p.frames ⟨[task], p.frames, p.machine⟩ ∧
      p.machine.store.stack register = [] := by
  obtain ⟨hpath, htidy, hheld, waiting, hpending, ⟨rfl, hregister⟩ | ⟨done, left, -, hecho⟩⟩ := h
  · rw [htasks] at hpending
    refine ⟨⟨hpath, htidy, hheld, [task], ?_, Or.inl ⟨rfl, hregister⟩⟩, hregister⟩
    cases task with
    | document nodes =>
        exact ⟨hpending.1, hpending.2.1, rfl⟩
    | visit node =>
        exact ⟨hpending.1, rfl⟩
    | token t | emit | test loop | next loop =>
        simp [Task.isVisit] at hvisit
  · rw [htasks] at hecho
    cases left with
    | nil =>
        obtain ⟨rfl, -⟩ := List.cons.inj hecho
        simp [Task.isVisit] at hvisit
    | cons t left =>
        obtain ⟨rfl, -⟩ := List.cons.inj hecho
        simp [Task.isVisit] at hvisit

/-- The register is empty when a node is visited, so that the stacks hold the counters alone. -/
theorem Scoped.store_eq (hnamed : d.Named) {p : Point} (h : Scoped d base p)
    (hregister : p.machine.store.stack register = []) :
    p.machine.store = Frame.store p.frames := by
  apply NamedStacks.ext_stack h.tidy (Frame.tidy_store _)
  intro x
  rw [Frame.stack_store]
  by_cases hx : x = register
  · rw [hx, hregister, h.path.values_register hnamed]
  · exact h.held x hx

/-- A visit that succeeds leaves the stacks as it found them, and the run goes on after it. -/
theorem Scoped.visit_finished (hnamed : d.Named) {p : Point} {task : Task} {rest : List Task}
    {m' : Machine} (h : Scoped d base p) (htasks : p.tasks = task :: rest)
    (hvisit : task.isVisit = true) (hends : Completes limit [task] p.machine .finished m') :
    m'.store = p.machine.store ∧ Run limit p ⟨rest, p.frames, m'⟩ := by
  obtain ⟨hbegin, hregister⟩ := h.visit htasks hvisit
  obtain ⟨q, hrun, hend⟩ := (completes_iff_ends p.frames).1 hends
  have hq := scoped_run hnamed hbegin hrun
  cases hend with
  | @finished frames m' =>
      obtain ⟨waiting, hpending, ⟨hnil, hempty⟩ | ⟨_, left, -, hecho⟩⟩ := hq.tasks
      · obtain rfl : [] = waiting := hnil
        have hframes : frames = p.frames := by
          cases frames <;> exact hpending
        have hstore := hq.store_eq hnamed hempty
        have hafter := run_append hrun rest
        obtain ⟨tasks, pframes, m⟩ := p
        obtain rfl : tasks = task :: rest := htasks
        obtain rfl : frames = pframes := hframes
        exact ⟨hstore.trans (h.store_eq hnamed hregister).symm, hafter⟩
      · exact absurd hecho (by simp)

/-- A visit that fails leaves every stack but the register as it found it, and fails with the fault
that a task in it has raised. -/
theorem Scoped.visit_failed (hnamed : d.Named) {p : Point} {task : Task} {rest : List Task}
    {m' : Machine} {fault : Fault} (h : Scoped d base p) (htasks : p.tasks = task :: rest)
    (hvisit : task.isVisit = true) (hends : Completes limit [task] p.machine (.failed fault) m') :
    (∀ x, x ≠ register → m'.store.stack x = p.machine.store.stack x) ∧
      ∃ q, Run limit ⟨[task], p.frames, p.machine⟩ q ∧ q.Raises limit fault := by
  obtain ⟨hbegin, -⟩ := h.visit htasks hvisit
  obtain ⟨q, hrun, hend⟩ := (completes_iff_ends p.frames).1 hends
  have hq := scoped_run hnamed hbegin hrun
  generalize houtcome : Outcome.failed fault = outcome at hend
  cases hend with
  | finished =>
      simp at houtcome
  | @failed failing left frames m m' raised hperform =>
      obtain ⟨hraises, s', hgive, hheld, -⟩ := hq.fails hnamed hperform
      obtain rfl : fault = raised := by
        simpa [hgive] using houtcome
      refine ⟨fun x hx => ?_, _, hrun, hraises⟩
      rw [hgive, hheld x hx, h.held x hx]

/-- A token that is evaluated is one of an echo tag in the innermost loop. -/
theorem Scoped.echo_of_token {p : Point} {t : Token} {rest : List Task} (h : Scoped d base p)
    (htasks : p.tasks = .token t :: rest) :
    ∃ tokens, Node.echo tokens ∈ d.children p.frames ∧ t ∈ tokens := by
  obtain ⟨waiting, hpending, ⟨rfl, -⟩ | ⟨done, left, hmem, hecho⟩⟩ := h.tasks
  · rw [htasks] at hpending
    cases hframes : p.frames <;> rw [hframes] at hpending <;> exact absurd hpending id
  · rw [htasks] at hecho
    cases left with
    | nil =>
        simp at hecho
    | cons t' left =>
        obtain ⟨hsame, -⟩ := List.cons.inj hecho
        obtain rfl : t = t' := Task.token.inj hsame
        exact ⟨_, hmem, by simp⟩

/-- A variable that is evaluated is unbound exactly if no loop around it has its name. -/
theorem Scoped.unbound_iff (hnamed : d.Named) {p : Point} {x : Text} {rest : List Task}
    {m : Machine} (h : Scoped d base p) (htasks : p.tasks = .token (.var x) :: rest)
    (hcharge : (charge limit).runIn p.machine = (.ok (), m)) :
    ((perform limit (.token (.var x))).runIn p.machine).1 = .error (.unbound x) ↔
      ∀ f ∈ p.frames, f.loop.counter ≠ x := by
  obtain ⟨tokens, hmem, hx⟩ := h.echo_of_token htasks
  have hecho : Event.echo tokens ∈ Document.events d :=
    Document.mem_events_of_mem_children h.path (Document.mem_events_of_mem hmem List.mem_cons_self)
  have hname : x ≠ register := register_ne_of_isName (hnamed.variable_ tokens hecho x hx)
  have hstack : m.store.stack x = Frame.values x p.frames := by
    obtain ⟨outcome, steps, hm⟩ := runIn_charge limit p.machine
    rw [hcharge] at hm
    obtain ⟨-, rfl⟩ := Prod.mk.inj hm
    exact h.held x hname
  have hperform : ((perform limit (.token (.var x))).runIn p.machine).1 =
      ((evaluate (.var x)).runIn m).1.map fun _ => [] := by
    simp only [perform, Action.runIn_bind, hcharge]
    cases (evaluate (.var x)).runIn m with
    | mk outcome m' =>
        cases outcome <;> rfl
  rw [hperform, evaluate_var, hstack, ← Frame.values_eq_nil_iff]
  split
  · next hnil =>
      simp [hnil, Except.map]
  · next hne =>
      simp [hne, Except.map]

/-- The stacks follow the scopes.  At every point of a run:

* where a node is visited, the stack of each name holds the current values of the counters of that
  name in the loops around the node, the innermost on top, and nothing else is stored;
* a visit that succeeds leaves all stacks as it found them;
* a visit that fails leaves all stacks but the register as it found them, with the fault that a task
  in it has raised;
* a variable is unbound exactly if no loop around it has its name. -/
theorem stacks_hold_enclosing_counters {t : Text} {context : Context} {p : Point}
    (hparse : Document.parse t = .ok d) (hrun : Run limit (.start d context) p) :
    d.Path p.frames ∧
    (∀ task rest, p.tasks = task :: rest → task.isVisit = true →
      (∀ node, task = .visit node → node ∈ d.children p.frames) ∧
      (∀ x, p.machine.store.stack x = Frame.values x p.frames) ∧
      p.machine.store = Frame.store p.frames ∧
      p.machine.store.stack register = [] ∧
      (∀ m', Completes limit [task] p.machine .finished m' →
        m'.store = p.machine.store ∧ Run limit p ⟨rest, p.frames, m'⟩) ∧
      ∀ fault m', Completes limit [task] p.machine (.failed fault) m' →
        (∀ x, x ≠ register → m'.store.stack x = p.machine.store.stack x) ∧
          ∃ q, Run limit ⟨[task], p.frames, p.machine⟩ q ∧ q.Raises limit fault) ∧
    ∀ x rest m, p.tasks = .token (.var x) :: rest →
      (charge limit).runIn p.machine = (.ok (), m) →
        (∃ tokens, Node.echo tokens ∈ d.children p.frames ∧ .var x ∈ tokens) ∧
          (((perform limit (.token (.var x))).runIn p.machine).1 = .error (.unbound x) ↔
            ∀ f ∈ p.frames, f.loop.counter ≠ x) := by
  have hnamed := Document.named_of_parse hparse
  have hp := scoped_run hnamed (scoped_start d context) hrun
  refine ⟨hp.path, fun task rest htasks hvisit => ?_, fun x rest m htasks hcharge => ?_⟩
  · obtain ⟨hbegin, hregister⟩ := hp.visit htasks hvisit
    have hstore := hp.store_eq hnamed hregister
    refine ⟨?_, fun x => ?_, hstore, hregister, fun m' hends => ?_, fun fault m' hends => ?_⟩
    · rintro node rfl
      obtain ⟨waiting, hpending, ⟨rfl, -⟩ | ⟨_, left, -, hecho⟩⟩ := hbegin.tasks
      · exact hpending.1
      · cases left <;> simp at hecho
    · rw [hstore, Frame.stack_store]
    · exact hp.visit_finished hnamed htasks hvisit hends
    · exact hp.visit_failed hnamed htasks hvisit hends
  · exact ⟨hp.echo_of_token htasks, hp.unbound_iff hnamed htasks hcharge⟩

/-- A loop over a name, inside another one over the same name. -/
def innerLoop : Loop := ⟨['i'], .int 8, .int 1, [.echo [.var ['i']]]⟩

/-- The loop around it. -/
def outerLoop : Loop :=
  ⟨['i'], .int 2, .int 1,
    [.loop ⟨['i'], .number (.int 7), .number (.int 8), none⟩ 14 innerLoop.body]⟩

/-- The document of the two loops. -/
def shadowingLoops : Document :=
  [.loop ⟨['i'], .number (.int 1), .number (.int 2), none⟩ 0 outerLoop.body]

/-- Where the echo tag in the two loops is visited first. -/
def atShadowingEcho : Point where
  tasks := [.visit (.echo [.var ['i']]), .next innerLoop, .next outerLoop]
  frames := [⟨innerLoop, .int 7, 0⟩, ⟨outerLoop, .int 1, 0⟩]
  machine := ⟨(NamedStacks.empty.push ['i'] (.number (.int 1))).push ['i'] (.number (.int 7)),
    .start .empty .empty [] {}, 3⟩

/-- The echo tag is visited with the counter of the inner loop on top of that of the outer one. -/
theorem stacks_of_shadowing :
    Document.parse "[$FOR i 1 2 $][$FOR i 7 8 $][$= i $][$END$][$END$]".toText =
        .ok shadowingLoops ∧
      Run (some 9) (.start shadowingLoops (.start .empty .empty [] {})) atShadowingEcho ∧
      atShadowingEcho.machine.store.stack [.char 'i'] = [.number (.int 7), .number (.int 1)] := by
  have hparse : Document.parse "[$FOR i 1 2 $][$FOR i 7 8 $][$= i $][$END$][$END$]".toText =
      .ok shadowingLoops := by rfl
  have hrun : Run (some 9) (.start shadowingLoops (.start .empty .empty [] {})) atShadowingEcho :=
    run_of_after (k := 5) (by rfl)
  obtain ⟨-, hvisit, -⟩ := stacks_hold_enclosing_counters hparse hrun
  exact ⟨hparse, hrun, (hvisit _ _ rfl rfl).2.1 ['i']⟩

end Point
end Stencil
