import Stencil.Proofs.Run.Sequence

/-!
# Runs that go alike

Two runs without a budget, on machines that differ.

A relation between machines `Compares` some names if it requires the same context and the same
stacks of these names, and if it does not mind how these change.  It says nothing about the steps.

**Argument.**  A task reads the context, the register, and at most one more stack.  So it does the
same on two machines that agree there (`Compares.agrees_perform`).  Two runs go on alike if each of
their tasks does, and if the counters that are given up after a failure are in both or in neither
(`Simulation.work`).

**Results.**
* `Simulation.endAlike`: one run ends as the other one does, on machines that are related again.
* `EndAlike.append`: runs that end alike may be put one behind the other.
-/

namespace Stencil

/-- The stack besides the register that a task works on. -/
def Task.stack? : Task → Option Text
  | .token (.var x) => some x
  | .visit (.loop head _ _) => some head.counter
  | .test loop | .next loop => some loop.counter
  | _ => none

open Stencil.Action (Agrees)

namespace Machine

/-- The relation requires the same context and the same stacks of some names, which may change, and
nothing of the steps. -/
structure Compares (names : Text → Prop) (R : Machine → Machine → Prop) : Prop where
  context : ∀ {m m'}, R m m' → m.context = m'.context
  stack : ∀ {m m' x}, names x → R m m' → m.store.stack x = m'.store.stack x
  withContext : ∀ {m m'} (c : Context), R m m' →
    R { m with context := c } { m' with context := c }
  withStack : ∀ {m m' x} (values : List Value), names x → R m m' →
    R { m with store := m.store.set x values } { m' with store := m'.store.set x values }
  withSteps : ∀ {m m'} (k k' : Nat), R m m' → R { m with steps := k } { m' with steps := k' }

namespace Compares

variable {names : Text → Prop} {R : Machine → Machine → Prop} (h : Compares names R)
include h

theorem agrees_charge : Agrees R Eq (charge none) (charge none) := by
  intro m m' hm
  rw [runIn_charge_none, runIn_charge_none]
  exact ⟨.ok rfl, h.withSteps _ _ hm⟩

theorem agrees_onContext {α : Type} (act : Action Context α) :
    Agrees R Eq (onContext act) (onContext act) := by
  intro m m' hm
  rw [runIn_onContext, runIn_onContext, h.context hm]
  exact ⟨.refl _, h.withContext _ hm⟩

theorem agrees_push {x : Text} (hx : names x) (v : Value) : Agrees R Eq (push x v) (push x v) := by
  intro m m' hm
  have hstack := h.stack hx hm
  refine ⟨.ok rfl, ?_⟩
  show R { m with store := m.store.set x (v :: m.store.stack x) }
    { m' with store := m'.store.set x (v :: m'.store.stack x) }
  rw [hstack]
  exact h.withStack _ hx hm

/-- The same value is taken from both stacks, or both are empty. -/
theorem pop_cases {x : Text} (hx : names x) {m m' : Machine} (hm : R m m') :
    (∃ v s s', m.store.pop x = .ok (v, s) ∧ m'.store.pop x = .ok (v, s') ∧
      R { m with store := s } { m' with store := s' }) ∨
    ∃ fault, m.store.pop x = .error fault ∧ m'.store.pop x = .error fault := by
  have hstack := h.stack hx hm
  cases hvalues : m.store.stack x with
  | nil =>
      rw [NamedStacks.pop, NamedStacks.pop, ← hstack, hvalues]
      exact Or.inr ⟨_, rfl, rfl⟩
  | cons v values =>
      exact Or.inl ⟨v, _, _, NamedStacks.pop_of_stack hvalues,
        NamedStacks.pop_of_stack (hstack.symm.trans hvalues), h.withStack values hx hm⟩

theorem agrees_pop {x : Text} (hx : names x) : Agrees R Eq (pop x) (pop x) := by
  intro m m' hm
  rcases h.pop_cases hx hm with ⟨v, s, s', hpop, hpop', hpopped⟩ | ⟨fault, hpop, hpop'⟩
  · simp only [runIn_pop, hpop, hpop']
    exact ⟨.ok rfl, hpopped⟩
  · simp only [runIn_pop, hpop, hpop']
    exact ⟨.fault fault, hm⟩

theorem agrees_test {loop : Loop} (hx : names loop.counter) :
    Agrees R Eq (test loop) (test loop) := by
  refine Agrees.get.bind fun m m' hm => ?_
  have hpeek : m.store.peek loop.counter = m'.store.peek loop.counter := by
    simp only [NamedStacks.peek, h.stack hx hm]
  rw [hpeek]
  refine (Agrees.ofExcept _).bind ?_
  rintro v _ rfl
  refine (Agrees.ofExcept _).bind ?_
  rintro order _ rfl
  exact .ite (.pure rfl) ((h.agrees_pop hx).bind fun _ _ _ => .pure rfl)

section Register

variable (hregister : names register)
include hregister

theorem agrees_pushAll (values : List Value) : Agrees R Eq (pushAll values) (pushAll values) := by
  induction values with
  | nil =>
      exact .pure rfl
  | cons v rest ih =>
      exact (h.agrees_push hregister v).bind fun _ _ _ => ih

theorem agrees_popMany (n : Nat) : Agrees R Eq (popMany n) (popMany n) := by
  induction n with
  | zero =>
      exact .pure rfl
  | succ n ih =>
      refine (h.agrees_pop hregister).bind ?_
      rintro v _ rfl
      refine ih.bind ?_
      rintro values _ rfl
      exact .pure rfl

theorem agrees_require (consumer : Text) (needed : Nat) :
    Agrees R Eq (require consumer needed) (require consumer needed) := by
  refine Agrees.get.bind fun m m' hm => ?_
  rw [NamedStacks.depth, NamedStacks.depth, h.stack hregister hm]
  exact .ite (.throw _) (.pure rfl)

/-- A token is evaluated alike if the stack of its name is the same. -/
theorem agrees_evaluate {t : Token} (ht : ∀ x, t = .var x → names x) :
    Agrees R Eq (evaluate t) (evaluate t) := by
  cases t with
  | number n =>
      exact h.agrees_push hregister _
  | text t =>
      exact h.agrees_push hregister _
  | var x =>
      refine Agrees.get.bind fun m m' hm => ?_
      have hstack := h.stack (ht x rfl) hm
      have hread : Agrees R Eq (do push register (← Action.ofExcept (m'.store.peek x)))
          (do push register (← Action.ofExcept (m'.store.peek x))) := by
        refine (Agrees.ofExcept _).bind ?_
        rintro v _ rfl
        exact h.agrees_push hregister v
      have hempty : m.store.isEmpty x = m'.store.isEmpty x := by
        rw [NamedStacks.isEmpty, NamedStacks.isEmpty, hstack]
      have hpeek : m.store.peek x = m'.store.peek x := by
        rw [NamedStacks.peek, NamedStacks.peek, hstack]
      rw [hempty, hpeek]
      exact .ite ((Agrees.throw (E := Eq) _).bind fun _ _ _ => hread) hread
  | operator op =>
      refine (h.agrees_require hregister _ _).bind fun _ _ _ => ?_
      refine (h.agrees_pop hregister).bind ?_
      rintro right _ rfl
      refine (h.agrees_pop hregister).bind ?_
      rintro left _ rfl
      refine (Agrees.ofExcept _).bind ?_
      rintro n _ rfl
      exact h.agrees_push hregister _
  | call x =>
      refine (Agrees.ofExcept _).bind ?_
      rintro f _ rfl
      refine (h.agrees_require hregister _ _).bind fun _ _ _ => ?_
      refine (h.agrees_popMany hregister _).bind ?_
      rintro values _ rfl
      refine (h.agrees_onContext _).bind ?_
      rintro results _ rfl
      exact h.agrees_pushAll hregister _

theorem agrees_emit : Agrees R Eq emit emit := by
  intro m m' hm
  have hstack := h.stack hregister hm
  have hdrained : R { m with store := (m.store.drain register).2 }
      { m' with store := (m'.store.drain register).2 } := h.withStack [] hregister hm
  have hrest : Agrees R Eq
      (do
        let texts ← Action.ofExcept ((m.store.drain register).1.mapM Value.toText)
        onContext (Context.write texts.flatten))
      (do
        let texts ← Action.ofExcept ((m'.store.drain register).1.mapM Value.toText)
        onContext (Context.write texts.flatten)) := by
    simp only [NamedStacks.drain, hstack]
    refine (Agrees.ofExcept _).bind ?_
    rintro texts _ rfl
    exact h.agrees_onContext _
  exact hrest _ _ hdrained

/-- A task does the same on both machines, if the stack that it works on is the same. -/
theorem agrees_perform {task : Task} (htask : ∀ x, task.stack? = some x → names x) :
    Agrees R Eq (perform none task) (perform none task) := by
  cases task with
  | document nodes =>
      exact h.agrees_charge.bind fun _ _ _ => .pure rfl
  | visit node =>
      cases node with
      | text content =>
          exact h.agrees_charge.bind fun _ _ _ => (h.agrees_onContext _).bind fun _ _ _ => .pure rfl
      | echo tokens =>
          exact h.agrees_charge.bind fun _ _ _ => .pure rfl
      | loop head offset body =>
          refine h.agrees_charge.bind fun _ _ _ => ?_
          cases hloop : loopOf head body with
          | error f =>
              exact (Agrees.throw f).bind fun _ _ (hr : False) => hr.elim
          | ok result =>
              have hcounter : names result.2.counter := by
                rw [(loopOf_eq_ok hloop).1]
                exact htask _ rfl
              exact (h.agrees_push hcounter _).bind fun _ _ _ => .pure rfl
  | token t =>
      refine h.agrees_charge.bind fun _ _ _ => ?_
      refine (h.agrees_evaluate hregister ?_).bind fun _ _ _ => .pure rfl
      rintro x rfl
      exact htask x rfl
  | emit =>
      exact (h.agrees_emit hregister).bind fun _ _ _ => .pure rfl
  | test loop =>
      exact h.agrees_test (htask _ rfl)
  | next loop =>
      have hcounter := htask _ rfl
      refine (h.agrees_pop hcounter).bind ?_
      rintro v _ rfl
      refine (Agrees.ofExcept _).bind ?_
      rintro n _ rfl
      exact (h.agrees_push hcounter _).bind fun _ _ _ => h.agrees_charge.bind fun _ _ _ => .pure rfl

end Register

end Compares

/-- Two machines with the same context and the same stacks. -/
structure SameView (m m' : Machine) : Prop where
  context : m.context = m'.context
  stack : ∀ x, m.store.stack x = m'.store.stack x

theorem compares_sameView : Compares (fun _ => True) SameView where
  context h := h.context
  stack _ h := h.stack _
  withContext c h := ⟨rfl, h.stack⟩
  withSteps k k' h := ⟨h.context, h.stack⟩
  withStack := by
    intro m m' x values _ h
    refine ⟨h.context, fun y => ?_⟩
    show (m.store.set x values).stack y = (m'.store.set x values).stack y
    rw [NamedStacks.stack_set, NamedStacks.stack_set, h.stack y]

end Machine

section Map

variable (node : Node → Node) (token : Token → Token)

/-- A loop with its body changed. -/
def Loop.map (loop : Loop) : Loop := { loop with body := loop.body.map node }

/-- A task with the nodes and the tokens in it changed. -/
def Task.map : Task → Task
  | .document nodes => .document (nodes.map node)
  | .visit n => .visit (node n)
  | .token t => .token (token t)
  | .emit => .emit
  | .test loop => .test (loop.map node)
  | .next loop => .next (loop.map node)

/-- The change leaves alone what the task does by itself. -/
def Task.Respects : Task → Prop
  | .visit (.text content) => node (.text content) = .text content
  | .visit (.echo tokens) => node (.echo tokens) = .echo (tokens.map token)
  | .visit (.loop head offset body) =>
      ∃ offset', node (.loop head offset body) = .loop head offset' (body.map node)
  | .token t => token t = t
  | _ => True

variable {node token}

theorem Task.counter?_map (task : Task) : (task.map node token).counter? = task.counter? := by
  cases task <;> rfl

theorem Machine.loopOf_map (head : LoopHead) (body : List Node) :
    loopOf head (body.map node) =
      (loopOf head body).map fun result => (result.1, result.2.map node) := by
  unfold loopOf
  cases boundOf .first head.first with
  | error f =>
      rfl
  | ok first =>
      cases boundOf .last head.last with
      | error f =>
          rfl
      | ok last =>
          cases head.step with
          | none =>
              rfl
          | some t =>
              cases hstep : boundOf .step t <;> simp only [hstep] <;> rfl

/-- A task that is changed does the same, and brings the tasks that it brought, changed. -/
theorem Machine.agrees_perform_map (limit : Option Int) {task : Task}
    (h : task.Respects node token) :
    Agrees Eq (fun brought brought' => brought' = brought.map (Task.map node token))
      (perform limit task) (perform limit (task.map node token)) := by
  cases task with
  | document nodes =>
      exact (Agrees.refl _).bind fun _ _ _ => .pure (by simp [Task.map])
  | visit n =>
      cases n with
      | text content =>
          rw [Task.map, show node (.text content) = .text content from h]
          exact (Agrees.refl _).bind fun _ _ _ => (Agrees.refl _).bind fun _ _ _ => .pure rfl
      | echo tokens =>
          rw [Task.map, show node (.echo tokens) = .echo (tokens.map token) from h]
          exact (Agrees.refl _).bind fun _ _ _ => .pure (by simp [Task.map])
      | loop head offset body =>
          obtain ⟨offset', hnode⟩ := h
          rw [Task.map, hnode]
          refine (Agrees.refl _).bind fun _ _ _ => ?_
          rw [loopOf_map]
          cases loopOf head body with
          | error f =>
              exact (Agrees.throw f).bind fun _ _ (hr : False) => hr.elim
          | ok result =>
              exact (Agrees.refl (push result.2.counter _)).bind fun _ _ _ =>
                .pure (by simp [Task.map])
  | token t =>
      rw [Task.map, show token t = t from h]
      exact (Agrees.refl _).bind fun _ _ _ => (Agrees.refl _).bind fun _ _ _ => .pure rfl
  | emit =>
      exact (Agrees.refl _).bind fun _ _ _ => .pure rfl
  | test loop =>
      refine (Agrees.refl get).bind ?_
      rintro m _ rfl
      refine (Agrees.refl _).bind ?_
      rintro v _ rfl
      refine (Agrees.refl _).bind ?_
      rintro order _ rfl
      refine .ite (.pure ?_) ((Agrees.refl _).bind fun _ _ _ => .pure rfl)
      simp [Task.map, Loop.map]
  | next loop =>
      refine (Agrees.refl _).bind ?_
      rintro v _ rfl
      refine (Agrees.refl _).bind ?_
      rintro n _ rfl
      exact (Agrees.refl _).bind fun _ _ _ => (Agrees.refl _).bind fun _ _ _ => .pure rfl

end Map

namespace Machine

/-- Two runs end in the same way: one of them ends if the other one does, with the same outcome, on
machines that are related. -/
structure EndAlike (E : Machine → Machine → Prop) (tasks : List Task) (m : Machine)
    (tasks' : List Task) (m' : Machine) : Prop where
  forth : ∀ {outcome m₁}, Completes none tasks m outcome m₁ →
    ∃ m₁', Completes none tasks' m' outcome m₁' ∧ E m₁ m₁'
  back : ∀ {outcome m₁'}, Completes none tasks' m' outcome m₁' →
    ∃ m₁, Completes none tasks m outcome m₁ ∧ E m₁ m₁'

namespace EndAlike

variable {E F : Machine → Machine → Prop} {s s' t t' rest brought : List Task} {task : Task}
  {m m' m₁ : Machine}

theorem nil (h : E m m') : EndAlike E [] m [] m' where
  forth hends := by
    obtain ⟨rfl, rfl⟩ := completes_nil.1 hends
    exact ⟨m', completes_nil.2 ⟨rfl, rfl⟩, h⟩
  back hends := by
    obtain ⟨rfl, rfl⟩ := completes_nil.1 hends
    exact ⟨m, completes_nil.2 ⟨rfl, rfl⟩, h⟩

/-- The first run may be followed from after its first task. -/
theorem of_step (hperform : (perform none task).runIn m = (.ok brought, m₁))
    (h : EndAlike E (brought ++ rest) m₁ t m') : EndAlike E (task :: rest) m t m' where
  forth hends := h.forth ((completes_cons_of_ok hperform).1 hends)
  back hends := by
    obtain ⟨m₂, hends, hE⟩ := h.back hends
    exact ⟨m₂, (completes_cons_of_ok hperform).2 hends, hE⟩

/-- The second run may be followed from after its first task. -/
theorem of_step_right (hperform : (perform none task).runIn m' = (.ok brought, m₁))
    (h : EndAlike E t m (brought ++ rest) m₁) : EndAlike E t m (task :: rest) m' where
  forth hends := by
    obtain ⟨m₂, hends, hE⟩ := h.forth hends
    exact ⟨m₂, (completes_cons_of_ok hperform).2 hends, hE⟩
  back hends := h.back ((completes_cons_of_ok hperform).1 hends)

/-- What is known of the end of the first run may be added. -/
theorem and_left {P : Machine → Prop} (h : EndAlike E s m s' m')
    (hP : ∀ {outcome m₁}, Completes none s m outcome m₁ → P m₁) :
    EndAlike (fun m₁ m₁' => E m₁ m₁' ∧ P m₁) s m s' m' where
  forth hends := by
    obtain ⟨m₁', hends', hE⟩ := h.forth hends
    exact ⟨m₁', hends', hE, hP hends⟩
  back hends' := by
    obtain ⟨m₁, hends, hE⟩ := h.back hends'
    exact ⟨m₁, hends, hE, hP hends⟩

/-- Tasks that wait behind others are worked off alike, or given up alike. -/
theorem append (h : EndAlike E s m s' m')
    (hrest : ∀ m₁ m₁', E m₁ m₁' → EndAlike F t m₁ t' m₁')
    (hgive : ∀ m₁ m₁' fault, E m₁ m₁' →
      (giveUp t fault m₁.store).1 = (giveUp t' fault m₁'.store).1 ∧
        F { m₁ with store := (giveUp t fault m₁.store).2 }
          { m₁' with store := (giveUp t' fault m₁'.store).2 }) :
    EndAlike F (s ++ t) m (s' ++ t') m' where
  forth hends := by
    rcases completes_append.1 hends with ⟨m₁, hs, ht⟩ | ⟨fault, m₁, hs, rfl, rfl⟩
    · obtain ⟨m₁', hs', hE⟩ := h.forth hs
      obtain ⟨m₂', ht', hF⟩ := (hrest m₁ m₁' hE).forth ht
      exact ⟨m₂', completes_append.2 (.inl ⟨m₁', hs', ht'⟩), hF⟩
    · obtain ⟨m₁', hs', hE⟩ := h.forth hs
      obtain ⟨hfault, hF⟩ := hgive m₁ m₁' fault hE
      exact ⟨_, completes_append.2 (.inr ⟨fault, m₁', hs', by rw [hfault], rfl⟩), hF⟩
  back hends := by
    rcases completes_append.1 hends with ⟨m₁', hs', ht'⟩ | ⟨fault, m₁', hs', rfl, rfl⟩
    · obtain ⟨m₁, hs, hE⟩ := h.back hs'
      obtain ⟨m₂, ht, hF⟩ := (hrest m₁ m₁' hE).back ht'
      exact ⟨m₂, completes_append.2 (.inl ⟨m₁, hs, ht⟩), hF⟩
    · obtain ⟨m₁, hs, hE⟩ := h.back hs'
      obtain ⟨hfault, hF⟩ := hgive m₁ m₁' fault hE
      exact ⟨_, completes_append.2 (.inr ⟨fault, m₁, hs, by rw [hfault], rfl⟩), hF⟩

/-- Two runs that fail at once with the same fault, while no loop is being run. -/
theorem of_fault {task' : Task} {rest' : List Task} {m₁' : Machine} {fault : Fault}
    (hperform : (perform none task).runIn m = (.error fault, m₁))
    (hperform' : (perform none task').runIn m' = (.error fault, m₁'))
    (hcounter : ∀ t ∈ task :: rest, t.counter? = none)
    (hcounter' : ∀ t ∈ task' :: rest', t.counter? = none) (hE : E m₁ m₁') :
    EndAlike E (task :: rest) m (task' :: rest') m' where
  forth hends := by
    obtain ⟨rfl, rfl⟩ := (completes_cons_of_error hperform).1 hends
    refine ⟨m₁', (completes_cons_of_error hperform').2 ?_, ?_⟩ <;>
      simp [giveUp_of_no_counter hcounter, giveUp_of_no_counter hcounter', hE]
  back hends := by
    obtain ⟨rfl, rfl⟩ := (completes_cons_of_error hperform').1 hends
    refine ⟨m₁, (completes_cons_of_error hperform).2 ?_, ?_⟩ <;>
      simp [giveUp_of_no_counter hcounter, giveUp_of_no_counter hcounter', hE]

/-- Nodes that wait behind other tasks are visited alike. -/
theorem append_visits {nodes nodes' : List Node} (h : EndAlike E s m s' m')
    (hE : ∀ m₁ m₁', E m₁ m₁' → F m₁ m₁')
    (hrest : ∀ m₁ m₁', E m₁ m₁' → EndAlike F (nodes.map .visit) m₁ (nodes'.map .visit) m₁') :
    EndAlike F (s ++ nodes.map .visit) m (s' ++ nodes'.map .visit) m' := by
  refine h.append hrest fun m₁ m₁' fault h₁ => ?_
  rw [giveUp_visits, giveUp_visits]
  exact ⟨rfl, hE m₁ m₁' h₁⟩

end EndAlike

/-- What a task leads to in two runs whose tasks correspond by `f`: both go on, or both fail with
the same fault. -/
inductive StepsAlike (f : List Task → List Task) (R : List Task → Machine → Machine → Prop)
    (task : Task) (rest : List Task) :
    Except Fault (List Task) × Machine → Except Fault (List Task) × Machine → Prop
  | ok {brought brought' : List Task} {m m' : Machine}
      (htasks : brought' ++ f rest = f (brought ++ rest)) (hm : R (brought ++ rest) m m') :
      StepsAlike f R task rest (.ok brought, m) (.ok brought', m')
  | fault {fault : Fault} {m m' : Machine} (hm : R (task :: rest) m m') :
      StepsAlike f R task rest (.error fault, m) (.error fault, m')

/-- Actions with the same outcome lead to the same if what they bring corresponds. -/
theorem StepsAlike.of_sameOutcome {f : List Task → List Task}
    {R : List Task → Machine → Machine → Prop} {task : Task} {rest : List Task}
    {E : List Task → List Task → Prop} {r r' : Except Fault (List Task) × Machine}
    (h : SameOutcome E r.1 r'.1)
    (hok : ∀ brought brought', r.1 = .ok brought → E brought brought' →
      brought' ++ f rest = f (brought ++ rest) ∧ R (brought ++ rest) r.2 r'.2)
    (hfault : R (task :: rest) r.2 r'.2) : StepsAlike f R task rest r r' := by
  obtain ⟨outcome, m⟩ := r
  obtain ⟨outcome', m'⟩ := r'
  cases h with
  | ok hE =>
      obtain ⟨htasks, hm⟩ := hok _ _ rfl hE
      exact .ok htasks hm
  | fault _ =>
      exact .fault hfault

/-- Two runs go on alike, where the second one has the tasks of the first one with `f` applied to
them, and the machines are related as the tasks that are left require. -/
structure Simulation (f : List Task → List Task) (R : List Task → Machine → Machine → Prop) :
    Prop where
  nil : f [] = []
  cons : ∀ {task rest m m'}, R (task :: rest) m m' → ∃ task', f (task :: rest) = task' :: f rest ∧
    StepsAlike f R task rest ((perform none task).runIn m) ((perform none task').runIn m')
  giveUp : ∀ {tasks m m'} (fault : Fault), R tasks m m' →
    (giveUp tasks fault m.store).1 = (giveUp (f tasks) fault m'.store).1 ∧
      R [] { m with store := (giveUp tasks fault m.store).2 }
        { m' with store := (giveUp (f tasks) fault m'.store).2 }

namespace Simulation

variable {f : List Task → List Task} {R : List Task → Machine → Machine → Prop}
  (h : Simulation f R) {tasks : List Task} {m m' : Machine}
include h

/-- Within every bound two runs that go on alike come to the same outcome. -/
theorem work (bound : Nat) (hm : R tasks m m') :
    (work none bound tasks m).1 = (work none bound (f tasks) m').1 ∧
      ((work none bound tasks m).1 ≠ .unfinished →
        R [] (work none bound tasks m).2 (work none bound (f tasks) m').2) := by
  induction bound generalizing tasks m m' with
  | zero =>
      cases tasks with
      | nil =>
          rw [h.nil]
          exact ⟨rfl, fun _ => hm⟩
      | cons task rest =>
          obtain ⟨task', hf, -⟩ := h.cons hm
          rw [hf]
          exact ⟨rfl, fun hne => absurd rfl hne⟩
  | succ bound ih =>
      cases tasks with
      | nil =>
          rw [h.nil]
          exact ⟨rfl, fun _ => hm⟩
      | cons task rest =>
          obtain ⟨task', hf, hstep⟩ := h.cons hm
          rw [hf]
          unfold Machine.work
          generalize (perform none task).runIn m = r at hstep
          generalize (perform none task').runIn m' = r' at hstep
          cases hstep with
          | ok htasks hm =>
              simp only [htasks]
              exact ih hm
          | fault hm =>
              obtain ⟨hfault, hstores⟩ := h.giveUp _ hm
              rw [hf] at hfault hstores
              exact ⟨congrArg Outcome.failed hfault, fun _ => hstores⟩

theorem endAlike (hm : R tasks m m') : EndAlike (R []) tasks m (f tasks) m' where
  forth := by
    rintro outcome m₁ ⟨bound, hwork, hne⟩
    obtain ⟨houtcome, hstate⟩ := h.work bound hm
    rw [hwork] at houtcome hstate
    refine ⟨(Machine.work none bound (f tasks) m').2, ⟨bound, ?_, hne⟩, hstate hne⟩
    exact Prod.ext houtcome.symm rfl
  back := by
    rintro outcome m₁' ⟨bound, hwork, hne⟩
    obtain ⟨houtcome, hstate⟩ := h.work bound hm
    rw [hwork] at houtcome hstate
    refine ⟨(Machine.work none bound tasks m).2, ⟨bound, ?_, hne⟩, hstate (houtcome ▸ hne)⟩
    exact Prod.ext houtcome rfl

end Simulation

/-- Giving up counters leaves the same stacks, and the same fault, if the stacks were the same. -/
theorem SameView.giveUp {tasks tasks' : List Task} {m m' : Machine} (h : SameView m m')
    (hcounters : tasks'.map Task.counter? = tasks.map Task.counter?) (fault : Fault) :
    (Machine.giveUp tasks fault m.store).1 = (Machine.giveUp tasks' fault m'.store).1 ∧
      SameView { m with store := (Machine.giveUp tasks fault m.store).2 }
        { m' with store := (Machine.giveUp tasks' fault m'.store).2 } := by
  induction tasks generalizing tasks' fault m m' with
  | nil =>
      obtain rfl := List.map_eq_nil_iff.1 hcounters
      exact ⟨rfl, h⟩
  | cons task rest ih =>
      obtain ⟨task', rest', rfl, hcounter, hrest⟩ := List.map_eq_cons_iff.1 hcounters
      rw [Machine.giveUp, Machine.giveUp, hcounter]
      cases task.counter? with
      | none =>
          exact ih h hrest fault
      | some x =>
          rcases compares_sameView.pop_cases (x := x) trivial h with
            ⟨v, s, s', hpop, hpop', hpopped⟩ | ⟨fault', hpop, hpop'⟩
          · simp only [hpop, hpop']
            exact ih hpopped hrest fault
          · simp only [hpop, hpop']
            exact ih h hrest fault'

/-- A change of the document that each task respects makes no difference to a run. -/
theorem simulation_map {node : Node → Node} {token : Token → Token}
    (hrespects : ∀ task : Task, task.Respects node token) :
    Simulation (List.map (Task.map node token)) (fun _ => SameView) where
  nil := rfl
  giveUp {tasks _ _} fault h := by
    refine h.giveUp ?_ fault
    rw [List.map_map]
    exact List.map_congr_left fun task _ => task.counter?_map
  cons := by
    intro task rest m m' h
    obtain ⟨houtcome, h₁⟩ := ((compares_sameView.agrees_perform trivial fun _ _ => trivial).trans_eq
      (agrees_perform_map none (hrespects task))) m m' h
    refine ⟨_, rfl, .of_sameOutcome houtcome (fun brought brought' _ hmap => ?_) h₁⟩
    rw [hmap, List.map_append]
    exact ⟨rfl, h₁⟩

end Machine
end Stencil
