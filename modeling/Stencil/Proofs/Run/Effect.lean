import Stencil.Proofs.Action
import Stencil.Proofs.Stacks
import Stencil.Proofs.Value.Integers
import Stencil.Run.Basic

/-!
# What the tasks of a run do

**Charges.**  A task that is charged is in three parts: what it prepares, the charge, and what it
does after it (`perform_of_charged`).  Only the charge knows the budget.  A task that is not charged
is the last part alone.

**Effects.**  Evaluating a token and ending an echo tag change the stacks of values by the register
alone, and the context by the built-in functions and by one write.  A preorder on machines that
holds for these changes is therefore kept by both (`preserves_evaluate`, `preserves_emit`).
-/

namespace Stencil

/-- The sum of two numbers. -/
def Number.plus : Number → Number → Number
  | .int m, .int n => .int (m + n)
  | a, b => .double (a.toFloat + b.toFloat)

theorem Number.apply_plus (a b : Number) : Number.apply .plus a b = .ok (a.plus b) := by
  cases a <;> cases b <;> try rfl
  rw [Number.apply_int, if_neg fun h => Operator.noConfusion h.1]
  rfl

/-- The task is done without a charge. -/
def Task.isFree : Task → Bool
  | .emit | .test _ => true
  | _ => false

namespace Machine

/-- Every result of the action has a property. -/
def Returns {α : Type} (act : Action Machine α) (P : α → Prop) : Prop :=
  ∀ (m : Machine) (a : α) (m' : Machine), act.runIn m = (.ok a, m') → P a

theorem Returns.pure {α : Type} {P : α → Prop} {a : α} (h : P a) :
    Returns (pure a : Action Machine α) P := by
  intro m b m' hrun
  obtain ⟨hab, -⟩ := Prod.mk.inj hrun
  exact Except.ok.inj hab ▸ h

theorem Returns.bind {α β : Type} {P : β → Prop} {act : Action Machine α}
    {next : α → Action Machine β} (h : ∀ a, Returns (next a) P) : Returns (act >>= next) P := by
  intro m b m' hrun
  rw [Action.runIn_bind] at hrun
  split at hrun
  · next a m₁ _ => exact h a m₁ b m' hrun
  · simp at hrun

/-- What a task does before its step is charged. -/
def prepare : Task → Action Machine Unit
  | .next loop => do
      let v ← pop loop.counter
      push loop.counter (.number (← Action.ofExcept (v.apply .plus (.number loop.step))))
  | _ => return ()

/-- What a task does once its step has been charged. -/
def proceed : Task → Action Machine (List Task)
  | .document nodes => return nodes.map .visit
  | .visit (.text content) => do
      onContext (Context.write content)
      return []
  | .visit (.echo tokens) => return tokens.map .token ++ [.emit]
  | .visit (.loop head _ body) => do
      let (first, loop) ← Action.ofExcept (loopOf head body)
      push loop.counter (.number first)
      return [.test loop]
  | .token t => do
      evaluate t
      return []
  | .emit => do
      emit
      return []
  | .test loop => test loop
  | .next loop => return [.test loop]

theorem perform_of_free (limit : Option Int) {task : Task} (h : task.isFree = true) :
    perform limit task = proceed task := by
  cases task <;> first | rfl | simp [Task.isFree] at h

theorem perform_of_charged (limit : Option Int) {task : Task} (h : task.isFree = false) :
    perform limit task = (do prepare task; charge limit; proceed task) := by
  cases task with
  | visit node =>
      cases node <;> rfl
  | next loop =>
      simp [perform, next, prepare, proceed]
  | emit =>
      simp [Task.isFree] at h
  | test loop =>
      simp [Task.isFree] at h
  | document nodes =>
      rfl
  | token t =>
      rfl

/-- The run comes to the charge of the next task. -/
def Charges (task : Task) (m m' : Machine) : Prop :=
  task.isFree = false ∧ (prepare task).runIn m = (.ok (), m')

/-- Changes of the stacks that leave alone every stack but the register. -/
def RegisterOnly (m m' : Machine) : Prop :=
  (∀ x, x ≠ register → m'.store.stack x = m.store.stack x) ∧ (m.store.Tidy → m'.store.Tidy)

instance : IsPreorder Machine RegisterOnly where
  refl _ := ⟨fun _ _ => rfl, id⟩
  trans _ _ _ h h' := ⟨fun x hx => (h'.1 x hx).trans (h.1 x hx), h'.2 ∘ h.2⟩

section Effects

variable {R : Machine → Machine → Prop} [IsPreorder Machine R]
  (hstore : ∀ (m : Machine) (s : NamedStacks), RegisterOnly m { m with store := s } →
    R m { m with store := s })
include hstore

omit [IsPreorder Machine R] in
theorem preserves_push (v : Value) : Action.Preserves R (push register v) := by
  intro m
  refine hstore m _ ⟨fun x hx => ?_, fun h => h.push _ _⟩
  rw [NamedStacks.stack_push, if_neg hx]

theorem preserves_pop : Action.Preserves R (pop register) := by
  intro m
  rw [runIn_pop]
  split
  · next v s hpop =>
      refine hstore m s ⟨fun x hx => ?_, fun h => h.pop hpop⟩
      exact NamedStacks.stack_pop_of_ne hpop hx
  · exact refl_of R m

theorem preserves_pushAll (values : List Value) : Action.Preserves R (pushAll values) := by
  induction values with
  | nil =>
      exact .pure _
  | cons v rest ih =>
      exact (preserves_push hstore v).bind fun _ => ih

theorem preserves_popMany (n : Nat) : Action.Preserves R (popMany n) := by
  induction n with
  | zero =>
      exact .pure _
  | succ n ih =>
      exact (preserves_pop hstore).bind fun _ => ih.bind fun _ => .pure _

omit hstore in
theorem preserves_require (consumer : Text) (needed : Nat) :
    Action.Preserves R (require consumer needed) :=
  Action.Preserves.get.bind fun _ => .ite (.throw _) (.pure _)

/-- A relation that holds when the register changes and when a built-in function has been called
holds when a token has been evaluated. -/
theorem preserves_evaluate
    (hcall : ∀ (f : Builtin) (values : List Value),
      Action.Preserves R (onContext (f.call values))) (t : Token) :
    Action.Preserves R (evaluate t) := by
  cases t with
  | number n =>
      exact preserves_push hstore _
  | text t =>
      exact preserves_push hstore _
  | var x =>
      refine Action.Preserves.get.bind fun m => ?_
      have hread : Action.Preserves R (do
          push register (← Action.ofExcept (m.store.peek x))) :=
        (Action.Preserves.ofExcept _).bind fun _ => preserves_push hstore _
      exact .ite ((Action.Preserves.throw _).bind fun _ => hread) hread
  | operator op =>
      exact (preserves_require _ _).bind fun _ => (preserves_pop hstore).bind fun _ =>
        (preserves_pop hstore).bind fun _ => (Action.Preserves.ofExcept _).bind fun _ =>
          preserves_push hstore _
  | call x =>
      exact (Action.Preserves.ofExcept _).bind fun _ => (preserves_require _ _).bind fun _ =>
        (preserves_popMany hstore _).bind fun _ => (hcall _ _).bind fun _ =>
          preserves_pushAll hstore _

/-- A relation that holds when the register changes and when a text has been written holds when an
echo tag has ended. -/
theorem preserves_emit
    (hwrite : ∀ t : Text, Action.Preserves R (onContext (Context.write t))) :
    Action.Preserves R emit := by
  intro m
  have hdrain : R m { m with store := (m.store.drain register).2 } := by
    refine hstore m _ ⟨fun x hx => ?_, fun h => h.drain _⟩
    rw [NamedStacks.stack_drain, if_neg hx]
  have hrest : Action.Preserves R (do
      let texts ← Action.ofExcept ((m.store.drain register).1.mapM Value.toText)
      onContext (Context.write texts.flatten)) :=
    (Action.Preserves.ofExcept _).bind fun _ => hwrite _
  exact trans_of R hdrain (hrest _)

end Effects

theorem registerOnly_onContext {α : Type} (act : Action Context α) :
    Action.Preserves RegisterOnly (onContext act) :=
  fun _ => ⟨fun _ _ => rfl, id⟩

/-- Evaluating a token changes no stack but the register. -/
theorem registerOnly_evaluate (t : Token) : Action.Preserves RegisterOnly (evaluate t) :=
  preserves_evaluate (fun _ _ h => h) (fun _ _ => registerOnly_onContext _) t

/-- The end of an echo tag changes no stack but the register. -/
theorem registerOnly_emit : Action.Preserves RegisterOnly emit :=
  preserves_emit (fun _ _ h => h) fun _ => registerOnly_onContext _

/-- The end of an echo tag leaves the register empty. -/
theorem register_emit (m : Machine) : (emit.runIn m).2.store.stack register = [] := by
  have hstore : (emit.runIn m).2.store = (m.store.drain register).2 := by
    simp only [emit, Action.runIn_bind, Action.runIn_get, Action.runIn_modify,
      Action.runIn_ofExcept]
    split
    · next texts m' hm =>
        obtain ⟨-, rfl⟩ := Prod.mk.inj hm
        rfl
    · next fault m' hm =>
        obtain ⟨-, rfl⟩ := Prod.mk.inj hm
        rfl
  rw [hstore, NamedStacks.stack_drain, if_pos rfl]

/-- A charge changes nothing but the number of steps. -/
theorem runIn_charge (limit : Option Int) (m : Machine) :
    ∃ outcome steps, (charge limit).runIn m = (outcome, { m with steps := steps }) := by
  cases limit with
  | none =>
      exact ⟨_, _, runIn_charge_none m⟩
  | some n =>
      rw [runIn_charge_some]
      split
      · exact ⟨_, m.steps, rfl⟩
      · exact ⟨_, _, rfl⟩

/-- A node that is not a loop, or the document, changes no stack when it is visited. -/
theorem store_perform_visit (limit : Option Int) {task : Task} (m : Machine)
    (h : (∃ nodes, task = .document nodes) ∨ (∃ content, task = .visit (.text content)) ∨
      ∃ tokens, task = .visit (.echo tokens)) :
    ((perform limit task).runIn m).2.store = m.store := by
  obtain ⟨outcome, steps, hcharge⟩ := runIn_charge limit m
  rcases h with ⟨nodes, rfl⟩ | ⟨content, rfl⟩ | ⟨tokens, rfl⟩ <;>
    simp only [perform, Action.runIn_bind, hcharge] <;> cases outcome <;> try rfl
  simp only [runIn_onContext]
  cases (Context.write content).runIn m.context with
  | mk result context =>
      cases result <;> rfl

/-- A loop that is visited puts the first value on the stack of its counter. -/
theorem perform_visit_loop (limit : Option Int) (head : LoopHead) (offset : Nat)
    (body : List Node) (m : Machine) :
    ∃ steps, (∃ fault, (perform limit (.visit (.loop head offset body))).runIn m =
        (.error fault, { m with steps := steps })) ∨
      ∃ first loop, loopOf head body = .ok (first, loop) ∧
        (perform limit (.visit (.loop head offset body))).runIn m =
          (.ok [.test loop],
            { m with store := m.store.push loop.counter (.number first), steps := steps }) := by
  obtain ⟨outcome, steps, hcharge⟩ := runIn_charge limit m
  refine ⟨steps, ?_⟩
  simp only [perform, Action.runIn_bind, hcharge]
  cases outcome with
  | error fault =>
      exact Or.inl ⟨fault, rfl⟩
  | ok _ =>
      simp only [Action.runIn_ofExcept]
      cases hloop : loopOf head body with
      | error fault =>
          exact Or.inl ⟨fault, rfl⟩
      | ok result =>
          exact Or.inr ⟨result.1, result.2, rfl, rfl⟩

/-- The test of a loop whose counter is a number does not fail: it begins an iteration, or takes
the counter from its stack. -/
theorem perform_test (limit : Option Int) {loop : Loop} {m : Machine} {n : Number}
    {rest : List Value} (h : m.store.stack loop.counter = .number n :: rest) :
    (perform limit (.test loop)).runIn m =
      if Number.compare n loop.last ≠ .gt then
        (.ok (loop.body.map .visit ++ [.next loop]), m)
      else (.ok [], { m with store := m.store.set loop.counter rest }) := by
  have hcompare : (Value.number n).compare (.number loop.last) =
      .ok (Number.compare n loop.last) := rfl
  simp only [perform, test, Action.runIn_bind, Action.runIn_get, Action.runIn_ofExcept,
    NamedStacks.peek_of_stack h, hcompare]
  split
  · rfl
  · simp only [Action.runIn_bind, runIn_pop, NamedStacks.pop_of_stack h, Action.runIn_pure]

/-- Counting on replaces the number on the stack of the counter. -/
theorem runIn_prepare_next {loop : Loop} {m : Machine} {n : Number} {rest : List Value}
    (h : m.store.stack loop.counter = .number n :: rest) :
    (prepare (.next loop)).runIn m =
      (.ok (), { m with
        store := (m.store.set loop.counter rest).push loop.counter
          (.number (n.plus loop.step)) }) := by
  have hplus : (Value.number n).apply .plus (.number loop.step) =
      .ok (n.plus loop.step) := Number.apply_plus n loop.step
  simp [prepare, Action.runIn_bind, runIn_pop, NamedStacks.pop_of_stack h, hplus]

/-- An iteration that ends counts on and is charged. -/
theorem perform_next (limit : Option Int) {loop : Loop} {m : Machine} {n : Number}
    {rest : List Value} (h : m.store.stack loop.counter = .number n :: rest) :
    ∃ steps, ((perform limit (.next loop)).runIn m).2 = { m with
        store := (m.store.set loop.counter rest).push loop.counter (.number (n.plus loop.step))
        steps := steps } ∧
      ∀ brought, ((perform limit (.next loop)).runIn m).1 = .ok brought →
        brought = [.test loop] := by
  rw [perform_of_charged limit rfl, Action.runIn_bind, runIn_prepare_next h]
  obtain ⟨outcome, steps, hcharge⟩ := runIn_charge limit { m with
    store := (m.store.set loop.counter rest).push loop.counter (.number (n.plus loop.step)) }
  refine ⟨steps, ?_⟩
  simp only [Action.runIn_bind, hcharge]
  cases outcome with
  | error fault =>
      exact ⟨rfl, by simp⟩
  | ok _ =>
      exact ⟨rfl, fun brought hb => (Except.ok.inj hb).symm⟩

/-- The tasks that a task brings when it succeeds, if that does not depend on the machine. -/
def bringsOf : Task → Option (List Task)
  | .document nodes => some (nodes.map .visit)
  | .visit (.text _) => some []
  | .visit (.echo tokens) => some (tokens.map .token ++ [.emit])
  | .visit (.loop _ _ _) => none
  | .token _ | .emit => some []
  | .test _ => none
  | .next loop => some [.test loop]

theorem returns_bringsOf (limit : Option Int) {task : Task} {tasks : List Task}
    (h : bringsOf task = some tasks) : Returns (perform limit task) (· = tasks) := by
  cases task with
  | document nodes =>
      exact Returns.bind fun _ => .pure (Option.some.inj h)
  | visit node =>
      cases node with
      | text content =>
          exact Returns.bind fun _ => Returns.bind fun _ => .pure (Option.some.inj h)
      | echo tokens =>
          exact Returns.bind fun _ => .pure (Option.some.inj h)
      | loop head offset body =>
          simp [bringsOf] at h
  | token t =>
      exact Returns.bind fun _ => Returns.bind fun _ => .pure (Option.some.inj h)
  | emit =>
      exact Returns.bind fun _ => .pure (Option.some.inj h)
  | test loop =>
      simp [bringsOf] at h
  | next loop =>
      exact Returns.bind fun _ => Returns.bind fun _ => Returns.bind fun _ => Returns.bind fun _ =>
        .pure (Option.some.inj h)

theorem registerOnly_charge (limit : Option Int) :
    Action.Preserves RegisterOnly (charge limit) := by
  intro m
  obtain ⟨outcome, steps, hcharge⟩ := runIn_charge limit m
  rw [hcharge]
  exact ⟨fun _ _ => rfl, id⟩

/-- A token changes no stack but the register, whether it is evaluated or fails. -/
theorem registerOnly_perform_token (limit : Option Int) (t : Token) :
    Action.Preserves RegisterOnly (perform limit (.token t)) :=
  (registerOnly_charge limit).bind fun _ => (registerOnly_evaluate t).bind fun _ => .pure _

/-- The end of an echo tag changes no stack but the register, and leaves that empty. -/
theorem registerOnly_perform_emit (limit : Option Int) (m : Machine) :
    RegisterOnly m ((perform limit .emit).runIn m).2 ∧
      ((perform limit .emit).runIn m).2.store.stack register = [] := by
  have hm : ((perform limit .emit).runIn m).2 = (emit.runIn m).2 := by
    simp only [perform, Action.runIn_bind]
    cases h : emit.runIn m with
    | mk outcome m' =>
        cases outcome <;> rfl
  rw [hm]
  exact ⟨registerOnly_emit m, register_emit m⟩

end Machine
end Stencil
