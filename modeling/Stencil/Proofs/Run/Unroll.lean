import Stencil.Proofs.Run.Alike

/-!
# Loops and their unrolling

A loop does what its iterations do one after another, each with the value of the counter written in
the place of the counter.

`Document.subst` writes a number in the place of a variable in all echo tags but those in a loop
that counts with the same name.

**Invariant.**  One run has the counter on its stack, and the other one has the value in the text.
While a loop of the same name is being run in both, that loop's counter hides the other one, and the
tasks up to its end are the same.  So the stacks of the counter differ by one value, which is below
as many values as such loops are being run (`Shadow`).  All other stacks agree.

**Results.**
* `simulation_subst`: the two runs go on alike.
* `Document.loop_eq_unrolled`: a loop and its iterations in order end in the same way.
-/

namespace Stencil

/-- The token, with a number in the place of a variable. -/
def Token.subst (x : Text) (n : Number) : Token → Token
  | .var y => if y = x then .number n else .var y
  | t => t

mutual

/-- A node, with a number in the place of a variable. -/
def Node.subst (x : Text) (n : Number) : Node → Node
  | .text content => .text content
  | .echo tokens => .echo (tokens.map (Token.subst x n))
  | .loop head offset body =>
      if head.counter = x then .loop head offset body
      else .loop head offset (Document.subst x n body)

/-- A list of nodes, with a number in the place of a variable. -/
def Document.subst (x : Text) (n : Number) : List Node → List Node
  | [] => []
  | node :: rest => node.subst x n :: Document.subst x n rest

end

theorem Document.subst_eq_map (x : Text) (n : Number) (nodes : List Node) :
    Document.subst x n nodes = nodes.map (Node.subst x n) := by
  induction nodes with
  | nil =>
      rfl
  | cons node nodes ih =>
      rw [Document.subst, ih, List.map_cons]

/-- A task, with a number in the place of a variable. -/
def Task.subst (x : Text) (n : Number) (task : Task) : Task :=
  task.map (Node.subst x n) (Token.subst x n)

theorem Task.counter?_subst (x : Text) (n : Number) (task : Task) :
    (task.subst x n).counter? = task.counter? :=
  task.counter?_map

/-- The counter of a task is the stack that it works on. -/
theorem Task.stack?_of_counter? {task : Task} {x : Text} (h : task.counter? = some x) :
    task.stack? = some x := by
  cases task <;> simp_all [Task.counter?, Task.stack?]

/-- A task that works on another stack does the same after the substitution. -/
theorem Task.respects_subst {x : Text} (n : Number) {task : Task} (h : task.stack? ≠ some x) :
    task.Respects (Node.subst x n) (Token.subst x n) := by
  cases task with
  | visit node =>
      cases node with
      | text content =>
          exact Node.subst.eq_1 x n content
      | echo tokens =>
          exact Node.subst.eq_2 x n tokens
      | loop head offset body =>
          have hname : head.counter ≠ x := fun hx => h (congrArg some hx)
          refine ⟨offset, ?_⟩
          rw [Node.subst, if_neg hname, Document.subst_eq_map]
  | token t =>
      cases t with
      | var y =>
          have hname : y ≠ x := fun hx => h (congrArg some hx)
          exact if_neg hname
      | number n | text t | call f | operator op =>
          rfl
  | document nodes | emit | test loop | next loop =>
      trivial

/-- How many loops that count with a name are being run in the tasks. -/
def pending (x : Text) (tasks : List Task) : Nat := tasks.countP (·.counter? = some x)

theorem pending_cons {x : Text} {task : Task} (h : task.counter? = some x) (rest : List Task) :
    pending x (task :: rest) = pending x rest + 1 := by
  simp [pending, h]

theorem pending_cons_of_ne {x : Text} {task : Task} (h : task.counter? ≠ some x)
    (rest : List Task) : pending x (task :: rest) = pending x rest := by
  simp [pending, h]

theorem pending_append (x : Text) (s t : List Task) :
    pending x (s ++ t) = pending x s + pending x t := by
  simp [pending]

theorem pending_visits (x : Text) (nodes : List Node) : pending x (nodes.map .visit) = 0 := by
  simp [pending, Task.counter?]

theorem pending_eq_zero {x : Text} {tasks : List Task} (h : ∀ t ∈ tasks, t.counter? ≠ some x) :
    pending x tasks = 0 := by
  simpa [pending] using h

/-- The tasks, with a number in the place of a variable after the last loop over the same name. -/
def substTasks (x : Text) (n : Number) : List Task → List Task
  | [] => []
  | task :: rest =>
      (if pending x (task :: rest) = 0 then task.subst x n else task) :: substTasks x n rest

theorem substTasks_of_pending_eq_zero {x : Text} (n : Number) {tasks : List Task}
    (h : pending x tasks = 0) : substTasks x n tasks = tasks.map (Task.subst x n) := by
  induction tasks with
  | nil =>
      rfl
  | cons task rest ih =>
      have hrest : pending x rest = 0 := by
        have happend := pending_append x [task] rest
        rw [List.singleton_append] at happend
        omega
      rw [substTasks, if_pos h, ih hrest, List.map_cons]

theorem substTasks_append (x : Text) (n : Number) (s t : List Task) :
    substTasks x n (s ++ t) =
      (if pending x t = 0 then substTasks x n s else s) ++ substTasks x n t := by
  induction s with
  | nil =>
      split <;> rfl
  | cons task s ih =>
      have hcount := pending_append x (task :: s) t
      rw [List.cons_append] at hcount
      rw [List.cons_append, substTasks, ih, hcount]
      by_cases ht : pending x t = 0
      · rw [if_pos ht, if_pos ht, ht, Nat.add_zero, substTasks, List.cons_append]
      · rw [if_neg ht, if_neg ht, if_neg (by omega), List.cons_append]

namespace Machine

theorem perform_var {x : Text} {m : Machine} {v : Value} {rest : List Value}
    (h : m.store.stack x = v :: rest) : (perform none (.token (.var x))).runIn m =
      (.ok [], { m with store := m.store.push register v, steps := m.steps + 1 }) := by
  simp only [perform, evaluate, Action.runIn_bind, runIn_charge_none, Action.runIn_get,
    NamedStacks.isEmpty, h, NamedStacks.peek_of_stack h]
  rfl

theorem perform_number (n : Number) (m : Machine) : (perform none (.token (.number n))).runIn m =
    (.ok [], { m with store := m.store.push register (.number n), steps := m.steps + 1 }) := rfl

theorem perform_loop (head : LoopHead) (offset : Nat) (body : List Node) (m : Machine) :
    (perform none (.visit (.loop head offset body))).runIn m =
      match loopOf head body with
      | .ok (first, loop) =>
          (.ok [.test loop],
            { m with store := m.store.push loop.counter (.number first), steps := m.steps + 1 })
      | .error fault => (.error fault, { m with steps := m.steps + 1 }) := by
  simp only [perform, Action.runIn_bind, runIn_charge_none, Action.runIn_ofExcept]
  cases loopOf head body <;> rfl

theorem perform_next_of_stack {loop : Loop} {m : Machine} {n : Number} {rest : List Value}
    (h : m.store.stack loop.counter = .number n :: rest) :
    (perform none (.next loop)).runIn m =
      (.ok [.test loop], { m with
        store := (m.store.set loop.counter rest).push loop.counter (.number (n.plus loop.step))
        steps := m.steps + 1 }) := by
  rw [perform_of_charged none rfl, Action.runIn_bind, runIn_prepare_next h]
  simp only [Action.runIn_bind, runIn_charge_none]
  rfl

/-- The loops among the tasks that a task brings count with the name of the task. -/
theorem returns_counters (limit : Option Int) (task : Task) :
    Returns (perform limit task) fun brought =>
      ∀ t ∈ brought, ∀ x, t.counter? = some x → task.stack? = some x := by
  have hvisits : ∀ nodes : List Node, ∀ t ∈ nodes.map Task.visit, t.counter? = none := by
    intro nodes t ht
    obtain ⟨node, -, rfl⟩ := List.mem_map.1 ht
    rfl
  cases task with
  | document nodes =>
      refine Returns.bind fun _ => .pure fun t ht x hx => ?_
      simp [hvisits nodes t ht] at hx
  | visit node =>
      cases node with
      | text content =>
          exact Returns.bind fun _ => Returns.bind fun _ => .pure (by simp)
      | echo tokens =>
          refine Returns.bind fun _ => .pure fun t ht x hx => ?_
          simp only [List.mem_append, List.mem_map, List.mem_singleton] at ht
          rcases ht with ⟨token, -, rfl⟩ | rfl <;> simp [Task.counter?] at hx
      | loop head offset body =>
          intro m brought m' hperform t ht x hx
          obtain ⟨steps, ⟨fault, hfail⟩ | ⟨first, loop, hloop, hok⟩⟩ :=
            perform_visit_loop limit head offset body m
          · simp [hperform] at hfail
          · obtain ⟨hbrought, -⟩ := Prod.mk.inj (hperform.symm.trans hok)
            obtain rfl := Except.ok.inj hbrought
            obtain rfl := List.mem_singleton.1 ht
            rw [← hx, Task.stack?, ← (loopOf_eq_ok hloop).1]
            rfl
  | token t =>
      exact Returns.bind fun _ => Returns.bind fun _ => .pure (by simp)
  | emit =>
      exact Returns.bind fun _ => .pure (by simp)
  | test loop =>
      refine Returns.bind fun _ => Returns.bind fun _ => Returns.bind fun _ => ?_
      split
      · refine .pure fun t ht x hx => ?_
        rcases List.mem_append.1 ht with ht | ht
        · simp [hvisits loop.body t ht] at hx
        · obtain rfl := List.mem_singleton.1 ht
          exact hx
      · exact Returns.bind fun _ => .pure (by simp)
  | next loop =>
      refine Returns.bind fun _ => Returns.bind fun _ => Returns.bind fun _ => Returns.bind fun _ =>
        .pure fun t ht x hx => ?_
      obtain rfl := List.mem_singleton.1 ht
      exact hx

/-- The second machine lacks the number `n` on the stack of `x`, below the values `inner`. -/
structure Shadow (x : Text) (n : Number) (outer : List Value) (inner : List Number)
    (m m' : Machine) : Prop where
  context : m.context = m'.context
  stack : ∀ y, y ≠ x → m.store.stack y = m'.store.stack y
  left : m.store.stack x = inner.map .number ++ .number n :: outer
  right : m'.store.stack x = inner.map .number ++ outer

variable {x : Text} {n : Number} {outer : List Value} {inner : List Number} {m m' : Machine}

/-- The relation is about the stack of `x` in one way, and about the others in another one. -/
theorem compares_shadow : Compares (· ≠ x) (Shadow x n outer inner) where
  context h := h.context
  stack hy h := h.stack _ hy
  withContext c h := ⟨rfl, h.stack, h.left, h.right⟩
  withSteps k k' h := ⟨h.context, h.stack, h.left, h.right⟩
  withStack := by
    intro m m' y values hy h
    refine ⟨h.context, fun z hz => ?_, ?_, ?_⟩
    · show (m.store.set y values).stack z = (m'.store.set y values).stack z
      rw [NamedStacks.stack_set, NamedStacks.stack_set, h.stack z hz]
    · show (m.store.set y values).stack x = _
      rw [NamedStacks.stack_set, if_neg (Ne.symm hy), h.left]
    · show (m'.store.set y values).stack x = _
      rw [NamedStacks.stack_set, if_neg (Ne.symm hy), h.right]

/-- The values above the missing one may change, together with the steps. -/
theorem Shadow.set (h : Shadow x n outer inner m m') (inner' : List Number) (k k' : Nat) :
    Shadow x n outer inner'
      { m with
        store := m.store.set x (inner'.map .number ++ .number n :: outer)
        steps := k }
      { m' with
        store := m'.store.set x (inner'.map .number ++ outer)
        steps := k' } where
  context := h.context
  stack y hy := by
    show (m.store.set x _).stack y = (m'.store.set x _).stack y
    rw [NamedStacks.stack_set, NamedStacks.stack_set, if_neg hy, if_neg hy, h.stack y hy]
  left := by
    show (m.store.set x _).stack x = _
    rw [NamedStacks.stack_set, if_pos rfl]
  right := by
    show (m'.store.set x _).stack x = _
    rw [NamedStacks.stack_set, if_pos rfl]

/-- The machines of the two runs while some tasks are left: a value lies above the missing one for
each of the loops over `x` that are being run. -/
def Shadowed (x : Text) (n : Number) (outer : List Value) (tasks : List Task) (m m' : Machine) :
    Prop :=
  ∃ inner : List Number, inner.length = pending x tasks ∧ Shadow x n outer inner m m'

/-- A task that works on another stack does the same in both runs. -/
theorem stepsAlike_of_stack?_ne (hx : x ≠ register) {task : Task} {rest : List Task}
    (htask : task.stack? ≠ some x) (hlength : inner.length = pending x rest)
    (h : Shadow x n outer inner m m') :
    StepsAlike (substTasks x n) (Shadowed x n outer) task rest ((perform none task).runIn m)
      ((perform none
        (if pending x (task :: rest) = 0 then task.subst x n else task)).runIn m') := by
  have hcounter : task.counter? ≠ some x := fun hc => htask (Task.stack?_of_counter? hc)
  have hpending := pending_cons_of_ne hcounter rest
  have hagrees :
      Action.Agrees (Shadow x n outer inner) Eq (perform none task) (perform none task) :=
    compares_shadow.agrees_perform hx.symm fun y hy hyx => htask (hyx ▸ hy)
  have hbrought : ∀ brought, ((perform none task).runIn m).1 = .ok brought →
      pending x brought = 0 := by
    intro brought hok
    refine pending_eq_zero fun t ht hc => htask ?_
    exact returns_counters none task m brought _ (Prod.ext hok rfl) t ht x hc
  have hafter : ∀ brought m₁ m₁', pending x brought = 0 → Shadow x n outer inner m₁ m₁' →
      Shadowed x n outer (brought ++ rest) m₁ m₁' := by
    intro brought m₁ m₁' hb h₁
    refine ⟨inner, ?_, h₁⟩
    rw [pending_append, hb, Nat.zero_add, hlength]
  by_cases hwait : pending x (task :: rest) = 0
  · obtain ⟨houtcome, h₁⟩ :=
      hagrees.trans_eq (agrees_perform_map none (Task.respects_subst n htask)) m m' h
    rw [if_pos hwait]
    refine .of_sameOutcome houtcome (fun brought brought' hok hsubst => ?_)
      ⟨inner, hlength.trans hpending.symm, h₁⟩
    refine ⟨?_, hafter brought _ _ (hbrought brought hok) h₁⟩
    rw [hsubst, substTasks_append, if_pos (hpending ▸ hwait),
      substTasks_of_pending_eq_zero n (hbrought brought hok)]
    rfl
  · obtain ⟨houtcome, h₁⟩ := hagrees m m' h
    rw [if_neg hwait]
    refine .of_sameOutcome houtcome (fun brought brought' hok hsame => ?_)
      ⟨inner, hlength.trans hpending.symm, h₁⟩
    refine ⟨?_, hafter brought _ _ (hbrought brought hok) h₁⟩
    rw [← hsame, substTasks_append, if_neg (hpending ▸ hwait)]

/-- A loop over `x` that is tested or counts on has its counter above the missing value. -/
theorem Shadowed.exists_inner {task : Task} {rest : List Task} (hcounter : task.counter? = some x)
    (h : Shadowed x n outer (task :: rest) m m') :
    ∃ k inner, inner.length = pending x rest ∧ Shadow x n outer (k :: inner) m m' := by
  obtain ⟨inner, hlength, h⟩ := h
  rw [pending_cons hcounter] at hlength
  cases inner with
  | nil =>
      simp at hlength
  | cons k inner =>
      exact ⟨k, inner, by simpa using hlength, h⟩

/-- A variable of the name is read from the stack in one run, and from the text in the other one
unless a loop over the same name hides it. -/
theorem stepsAlike_var (hx : x ≠ register) {rest : List Task}
    (hlength : inner.length = pending x rest) (h : Shadow x n outer inner m m') :
    StepsAlike (substTasks x n) (Shadowed x n outer) (.token (.var x)) rest
      ((perform none (.token (.var x))).runIn m)
      ((perform none (if pending x (.token (.var x) :: rest) = 0 then .token (.number n)
        else .token (.var x))).runIn m') := by
  have hpending : pending x (.token (.var x) :: rest) = pending x rest := rfl
  have hpush : ∀ v, Shadowed x n outer rest
      { m with store := m.store.push register v, steps := m.steps + 1 }
      { m' with store := m'.store.push register v, steps := m'.steps + 1 } := by
    intro v
    have hpushed := compares_shadow.withStack (v :: m.store.stack register) hx.symm h
    refine ⟨inner, hlength, ?_⟩
    rw [NamedStacks.push, NamedStacks.push, ← h.stack register hx.symm]
    exact compares_shadow.withSteps _ _ hpushed
  rw [hpending]
  cases inner with
  | nil =>
      have hzero : pending x rest = 0 := hlength.symm
      rw [if_pos hzero, perform_var h.left, perform_number]
      exact .ok rfl (hpush _)
  | cons k inner =>
      rw [if_neg (by rw [← hlength]; simp), perform_var h.left, perform_var h.right]
      exact .ok rfl (hpush _)

/-- A loop over the name that is entered is not changed, and hides the missing value. -/
theorem stepsAlike_loop {head : LoopHead} {offset : Nat} {body : List Node} {rest : List Task}
    (hcounter : head.counter = x) (hlength : inner.length = pending x rest)
    (h : Shadow x n outer inner m m') :
    StepsAlike (substTasks x n) (Shadowed x n outer) (.visit (.loop head offset body)) rest
      ((perform none (.visit (.loop head offset body))).runIn m)
      ((perform none (.visit (.loop head offset body))).runIn m') := by
  rw [perform_loop, perform_loop]
  cases hloop : loopOf head body with
  | error fault =>
      exact .fault ⟨inner, hlength, compares_shadow.withSteps _ _ h⟩
  | ok result =>
      obtain ⟨first, loop⟩ := result
      have hname : loop.counter = x := (loopOf_eq_ok hloop).1.trans hcounter
      have hpending : pending x (.test loop :: rest) = pending x rest + 1 :=
        pending_cons (by rw [← hname]; rfl) rest
      refine .ok ?_ ⟨first :: inner, ?_, ?_⟩
      · show .test loop :: substTasks x n rest = _
        rw [List.singleton_append, substTasks, if_neg (by omega)]
      · rw [List.singleton_append, hpending, List.length_cons, hlength]
      · simp only [hname, NamedStacks.push, h.left, h.right]
        exact h.set (first :: inner) _ _

/-- The test of a loop over the name comes out the same way. -/
theorem stepsAlike_test {loop : Loop} {rest : List Task} (hcounter : loop.counter = x)
    (h : Shadowed x n outer (.test loop :: rest) m m') :
    StepsAlike (substTasks x n) (Shadowed x n outer) (.test loop) rest
      ((perform none (.test loop)).runIn m) ((perform none (.test loop)).runIn m') := by
  subst hcounter
  obtain ⟨k, inner, hlength, h⟩ := h.exists_inner rfl
  rw [perform_test none h.left, perform_test none h.right]
  have hnext : pending loop.counter (.next loop :: rest) = pending loop.counter rest + 1 :=
    pending_cons rfl rest
  split
  · have hbrought : substTasks loop.counter n (loop.body.map .visit ++ .next loop :: rest) =
        loop.body.map .visit ++ .next loop :: substTasks loop.counter n rest := by
      rw [substTasks_append, if_neg (by omega), substTasks, if_neg (by omega)]
    refine .ok ?_ ⟨k :: inner, ?_, h⟩
    · rw [List.append_assoc, List.append_assoc]
      exact hbrought.symm
    · rw [List.append_assoc, pending_append, pending_visits, List.singleton_append, hnext,
        List.length_cons, hlength, Nat.zero_add]
  · exact .ok rfl ⟨inner, hlength, h.set inner _ _⟩

/-- A loop over the name counts on in the same way. -/
theorem stepsAlike_next {loop : Loop} {rest : List Task} (hcounter : loop.counter = x)
    (h : Shadowed x n outer (.next loop :: rest) m m') :
    StepsAlike (substTasks x n) (Shadowed x n outer) (.next loop) rest
      ((perform none (.next loop)).runIn m) ((perform none (.next loop)).runIn m') := by
  subst hcounter
  obtain ⟨k, inner, hlength, h⟩ := h.exists_inner rfl
  rw [perform_next_of_stack h.left, perform_next_of_stack h.right]
  have htest : pending loop.counter (.test loop :: rest) = pending loop.counter rest + 1 :=
    pending_cons rfl rest
  refine .ok ?_ ⟨k.plus loop.step :: inner, ?_, ?_⟩
  · rw [List.singleton_append, List.singleton_append, substTasks, if_neg (by omega)]
  · rw [List.singleton_append, htest, List.length_cons, hlength]
  · have hcounted := (h.set inner m.steps m'.steps).set (k.plus loop.step :: inner)
      (m.steps + 1) (m'.steps + 1)
    simp only [NamedStacks.push, NamedStacks.stack_set, if_true]
    exact hcounted

/-- Giving up the loops that are being run leaves what the missing value was hidden by. -/
theorem giveUp_shadowed {tasks : List Task} (fault : Fault)
    (h : Shadowed x n outer tasks m m') :
    (giveUp tasks fault m.store).1 = (giveUp (substTasks x n tasks) fault m'.store).1 ∧
      Shadowed x n outer [] { m with store := (giveUp tasks fault m.store).2 }
        { m' with store := (giveUp (substTasks x n tasks) fault m'.store).2 } := by
  induction tasks generalizing fault m m' with
  | nil =>
      exact ⟨rfl, h⟩
  | cons task rest ih =>
      have hcounter : (if pending x (task :: rest) = 0 then task.subst x n else task).counter? =
          task.counter? := by
        split
        · exact task.counter?_subst x n
        · rfl
      rw [substTasks, giveUp, giveUp, hcounter]
      by_cases htask : task.counter? = some x
      · obtain ⟨k, inner, hlength, hstacks⟩ := h.exists_inner htask
        rw [htask]
        simp only [NamedStacks.pop_of_stack hstacks.left, NamedStacks.pop_of_stack hstacks.right]
        exact ih fault ⟨inner, hlength, hstacks.set inner m.steps m'.steps⟩
      · obtain ⟨inner, hlength, hstacks⟩ := h
        rw [pending_cons_of_ne htask] at hlength
        cases hname : task.counter? with
        | none =>
            exact ih fault ⟨inner, hlength, hstacks⟩
        | some y =>
            have hy : y ≠ x := fun hyx => htask (hname.trans (congrArg some hyx))
            rcases compares_shadow.pop_cases hy hstacks with
              ⟨v, s, s', hpop, hpop', hpopped⟩ | ⟨fault', hpop, hpop'⟩
            · simp only [hpop, hpop']
              exact ih fault ⟨inner, hlength, hpopped⟩
            · simp only [hpop, hpop']
              exact ih fault' ⟨inner, hlength, hstacks⟩

/-- Substituting a number for a variable does what the variable on top of its stack does. -/
theorem simulation_subst (hx : x ≠ register) :
    Simulation (substTasks x n) (Shadowed x n outer) where
  nil := rfl
  giveUp fault h := giveUp_shadowed fault h
  cons := by
    intro task rest m m' h
    refine ⟨_, rfl, ?_⟩
    by_cases htask : task.stack? = some x
    · cases task with
      | document nodes | emit =>
          simp [Task.stack?] at htask
      | visit node =>
          cases node with
          | text content | echo tokens =>
              simp [Task.stack?] at htask
          | loop head offset body =>
              have hcounter : head.counter = x := Option.some.inj htask
              obtain ⟨inner, hlength, h⟩ := h
              have hsame : (Task.visit (.loop head offset body)).subst x n =
                  .visit (.loop head offset body) := by
                rw [Task.subst, Task.map, Node.subst, if_pos hcounter]
              rw [hsame, ite_self]
              exact stepsAlike_loop hcounter hlength h
      | token t =>
          cases t with
          | var y =>
              obtain rfl : y = x := Option.some.inj htask
              obtain ⟨inner, hlength, h⟩ := h
              have hsubst : (Task.token (.var y)).subst y n = .token (.number n) := by
                rw [Task.subst, Task.map, Token.subst, if_pos rfl]
              rw [hsubst]
              exact stepsAlike_var hx hlength h
          | number k | text t | call f | operator op =>
              simp [Task.stack?] at htask
      | test loop =>
          have hcounter : loop.counter = x := Option.some.inj htask
          rw [pending_cons (by rw [← hcounter]; rfl), if_neg (by omega)]
          exact stepsAlike_test hcounter h
      | next loop =>
          have hcounter : loop.counter = x := Option.some.inj htask
          rw [pending_cons (by rw [← hcounter]; rfl), if_neg (by omega)]
          exact stepsAlike_next hcounter h
    · obtain ⟨inner, hlength, h⟩ := h
      rw [pending_cons_of_ne (fun hc => htask (Task.stack?_of_counter? hc))] at hlength
      exact stepsAlike_of_stack?_ne hx htask hlength h

end Machine

/-- The bodies of `count` iterations from number `k` on, each with the value of the counter in the
place of the counter. -/
def Loop.iterations (loop : Loop) (first : Number) (k count : Nat) : List Node :=
  (List.range' k count).flatMap fun i =>
    Document.subst loop.counter (loop.count first i) loop.body

theorem Loop.iterations_succ (loop : Loop) (first : Number) (k count : Nat) :
    loop.iterations first k (count + 1) =
      Document.subst loop.counter (loop.count first k) loop.body ++
        loop.iterations first (k + 1) count := by
  rw [Loop.iterations, List.range'_succ, List.flatMap_cons]
  rfl

namespace Machine

theorem substTasks_visits (x : Text) (n : Number) (nodes : List Node) :
    substTasks x n (nodes.map .visit) = (Document.subst x n nodes).map .visit := by
  rw [substTasks_of_pending_eq_zero n (pending_visits x nodes), Document.subst_eq_map,
    List.map_map, List.map_map]
  rfl

variable {n : Nat} {outer : List Value} {m m' : Machine}

/-- A loop whose counter has been taken away shows what the other machine shows. -/
theorem Shadow.leave {x : Text} {v : Number} (h : Shadow x v outer [] m m') (steps : Nat) :
    SameView { m with store := m.store.set x outer, steps := steps } m' where
  context := h.context
  stack y := by
    show (m.store.set x outer).stack y = _
    rw [NamedStacks.stack_set]
    split
    · next hy =>
        rw [hy, h.right, List.map_nil, List.nil_append]
    · next hy =>
        exact h.stack y hy

/-- A loop that counts on has another value where the missing one is. -/
theorem Shadow.count {x : Text} {v : Number} (h : Shadow x v outer [] m m') (w : Number)
    (steps : Nat) : Shadow x w outer []
      { m with store := (m.store.set x outer).push x (.number w), steps := steps } m' where
  context := h.context
  stack y hy := by
    show ((m.store.set x outer).push x (.number w)).stack y = _
    rw [NamedStacks.stack_push, if_neg hy, NamedStacks.stack_set, if_neg hy, h.stack y hy]
  left := by
    show ((m.store.set x outer).push x (.number w)).stack x = _
    rw [NamedStacks.stack_push, if_pos rfl, NamedStacks.stack_set, if_pos rfl]
    rfl
  right := h.right

/-- Once no loop over the name is being run, nothing hides the missing value. -/
theorem Shadowed.shadow {x : Text} {v : Number} (h : Shadowed x v outer [] m m') :
    Shadow x v outer [] m m' := by
  obtain ⟨inner, hlength, h⟩ := h
  obtain rfl := List.length_eq_zero_iff.1 hlength
  exact h

/-- From the start of an iteration, a loop that is over after `count` more of them ends as these
iterations do in order. -/
theorem endAlike_iterations {loop : Loop} {first : Number} (hx : loop.counter ≠ register)
    {k count : Nat} (hgoes : ∀ i, k ≤ i → i < k + count →
      Number.compare (loop.count first i) loop.last ≠ .gt)
    (hends : Number.compare (loop.count first (k + count)) loop.last = .gt)
    (h : Shadow loop.counter (loop.count first k) outer [] m m') :
    EndAlike SameView [.test loop] m ((loop.iterations first k count).map .visit) m' := by
  induction count generalizing k m m' with
  | zero =>
      have hover : Number.compare (loop.count first k) loop.last = .gt := hends
      have htest := perform_test none h.left
      rw [if_neg (not_not.2 hover)] at htest
      exact .of_step htest (.nil (h.leave m.steps))
  | succ count ih =>
      have htest := perform_test none h.left
      rw [if_pos (hgoes k (Nat.le_refl k) (by omega))] at htest
      rw [Loop.iterations_succ, List.map_append]
      refine .of_step htest ?_
      rw [List.append_nil, ← substTasks_visits]
      have hbody : EndAlike (Shadowed loop.counter (loop.count first k) outer [])
          (loop.body.map .visit) m
          (substTasks loop.counter (loop.count first k) (loop.body.map .visit)) m' :=
        (simulation_subst hx).endAlike ⟨[], (pending_visits _ _).symm, h⟩
      refine hbody.append (fun m₁ m₁' h₁ => ?_) fun m₁ m₁' fault h₁ => ?_
      · have hcounted := h₁.shadow.count (loop.count first (k + 1)) (m₁.steps + 1)
        refine .of_step (perform_next_of_stack h₁.shadow.left) ?_
        refine ih (fun i hi hlt => hgoes i (by omega) (by omega)) ?_ hcounted
        rw [Nat.add_assoc, Nat.add_comm 1 count]
        exact hends
      · have hgive : giveUp [.next loop] fault m₁.store =
            (fault, m₁.store.set loop.counter outer) := by
          simp [giveUp, Task.counter?, NamedStacks.pop_of_stack h₁.shadow.left]
        rw [hgive, giveUp_visits]
        exact ⟨rfl, h₁.shadow.leave m₁.steps⟩

end Machine

open Machine

namespace Document

/-- A node is in a document, be it inside of loops or not. -/
inductive Contains (node : Node) : Document → Prop
  | here {nodes : Document} (h : node ∈ nodes) : Contains node nodes
  | inside {nodes : Document} {head : LoopHead} {offset : Nat} {body : List Node}
      (hloop : Node.loop head offset body ∈ nodes) (h : Contains node body) : Contains node nodes

/-- Whatever happens in a node of a document happens in the document. -/
theorem Contains.mem_events {node : Node} {d : Document} {e : Event} (h : Contains node d)
    (he : e ∈ node.events) : e ∈ Document.events d := by
  induction h with
  | here h =>
      exact mem_events_of_mem h he
  | inside hloop _ ih =>
      refine mem_events_of_mem hloop ?_
      rw [Node.events]
      exact List.mem_cons_of_mem _ (List.mem_append_left _ ih)

/-- The counter of a loop of the document is not the register. -/
theorem Contains.counter_ne_register {d : Document} (hnamed : d.Named) {head : LoopHead}
    {offset : Nat} {body : List Node} (h : Contains (.loop head offset body) d) :
    head.counter ≠ register := by
  refine register_ne_of_isName (hnamed.counter head offset (h.mem_events ?_))
  rw [Node.events]
  exact List.mem_cons_self

/-- The loop of a head whose first and last value and step are numeric literals. -/
theorem loopOf_literals {loop : Loop} (first : Number) {step : Option Token}
    (hstep : step = some (.number loop.step) ∨ step = none ∧ loop.step = .int 1) :
    loopOf ⟨loop.counter, .number first, .number loop.last, step⟩ loop.body =
      .ok (first, loop) := by
  rcases hstep with rfl | ⟨rfl, hone⟩
  · rfl
  · show Except.ok (first, (⟨loop.counter, loop.last, .int 1, loop.body⟩ : Loop)) = _
    rw [← hone]

/-- A loop is its unrolling.  Take a loop of a document that was read, whose first and last value
and step are numeric literals, the step being one if there is none.  If the counter passes the last
value after `n` iterations and not before, the loop does to every machine, whatever is on its stacks
and in its context, what the `n` iterations do in order, each with its own value in the place of the
counter: the one ends if the other one does, with the same outcome, context and stacks. -/
theorem loop_eq_unrolled {t : Text} {d : Document} {loop : Loop} {first : Number}
    {step : Option Token} {offset n : Nat} (hparse : parse t = .ok d)
    (hstep : step = some (.number loop.step) ∨ step = none ∧ loop.step = .int 1)
    (hloop : Contains
      (.loop ⟨loop.counter, .number first, .number loop.last, step⟩ offset loop.body) d)
    (hgoes : ∀ k, k < n → Number.compare (loop.count first k) loop.last ≠ .gt)
    (hends : Number.compare (loop.count first n) loop.last = .gt) (m : Machine)
    (outcome : Outcome) (context : Context) (stack : Text → List Value) :
    (∃ m', Completes none
        [.visit (.loop ⟨loop.counter, .number first, .number loop.last, step⟩ offset loop.body)]
        m outcome m' ∧ m'.context = context ∧ m'.store.stack = stack) ↔
      ∃ m', Completes none ((loop.iterations first 0 n).map .visit) m outcome m' ∧
        m'.context = context ∧ m'.store.stack = stack := by
  have hx : loop.counter ≠ register := hloop.counter_ne_register (named_of_parse hparse)
  have hloopOf := loopOf_literals first hstep
  have hperform := perform_loop ⟨loop.counter, .number first, .number loop.last, step⟩ offset
    loop.body m
  rw [hloopOf] at hperform
  -- The counter is the value that the machine lacks.
  have hshadow : Shadow loop.counter (loop.count first 0) (m.store.stack loop.counter) []
      { m with store := m.store.push loop.counter (.number first), steps := m.steps + 1 } m :=
    ⟨rfl, fun y hy => by rw [NamedStacks.stack_push, if_neg hy],
      by rw [NamedStacks.stack_push, if_pos rfl]; rfl, rfl⟩
  have halike : EndAlike SameView
      [.visit (.loop ⟨loop.counter, .number first, .number loop.last, step⟩ offset loop.body)] m
      ((loop.iterations first 0 n).map .visit) m := by
    refine .of_step hperform (endAlike_iterations hx (fun i _ hi => hgoes i ?_) ?_ hshadow)
    · rwa [Nat.zero_add] at hi
    · rwa [Nat.zero_add]
  constructor
  · rintro ⟨m₁, hcompletes, rfl, rfl⟩
    obtain ⟨m₁', hcompletes', hview⟩ := halike.forth hcompletes
    exact ⟨m₁', hcompletes', hview.context.symm, funext fun y => (hview.stack y).symm⟩
  · rintro ⟨m₁', hcompletes', rfl, rfl⟩
    obtain ⟨m₁, hcompletes, hview⟩ := halike.back hcompletes'
    exact ⟨m₁, hcompletes, hview.context, funext hview.stack⟩

/-- A loop with another one over the same name in front of an echo tag. -/
def hidingLoop : Loop where
  counter := ['i']
  last := .int 2
  step := .int 1
  body :=
    [.loop ⟨['i'], .number (.int 7), .number (.int 7), none⟩ 14 [.echo [.var ['i']]],
      .echo [.var ['i']]]

/-- The echo tag behind the inner loop writes the counter of the outer one, in the loop and in its
two iterations. -/
theorem hidingLoop_unrolled :
    parse "[$FOR i 1 2 $][$FOR i 7 7 $][$= i $][$END$][$= i $][$END$]".toText =
        .ok [.loop ⟨['i'], .number (.int 1), .number (.int 2), none⟩ 0 hidingLoop.body] ∧
      hidingLoop.iterations (.int 1) 0 2 =
        [.loop ⟨['i'], .number (.int 7), .number (.int 7), none⟩ 14 [.echo [.var ['i']]],
          .echo [.number (.int 1)],
          .loop ⟨['i'], .number (.int 7), .number (.int 7), none⟩ 14 [.echo [.var ['i']]],
          .echo [.number (.int 2)]] ∧
      ∃ m', Completes none ((hidingLoop.iterations (.int 1) 0 2).map .visit) (.start bareContext)
        .finished m' ∧ m'.context.output = #[55, 49, 55, 50] := by
  have hparse : parse "[$FOR i 1 2 $][$FOR i 7 7 $][$= i $][$END$][$= i $][$END$]".toText =
      .ok [.loop ⟨['i'], .number (.int 1), .number (.int 2), none⟩ 0 hidingLoop.body] := by rfl
  have hgoes : ∀ k, k < 2 →
      Number.compare (hidingLoop.count (.int 1) k) hidingLoop.last ≠ .gt := by decide
  have hends : Number.compare (hidingLoop.count (.int 1) 2) hidingLoop.last = .gt := by decide
  have hrun : (Machine.work none 40
      [.visit (.loop ⟨['i'], .number (.int 1), .number (.int 2), none⟩ 0 hidingLoop.body)]
      (.start bareContext)).1 = .finished := by decide
  have houtput : (Machine.work none 40
      [.visit (.loop ⟨['i'], .number (.int 1), .number (.int 2), none⟩ 0 hidingLoop.body)]
      (.start bareContext)).2.context.output = #[55, 49, 55, 50] := by decide
  obtain ⟨m', hcompletes, hcontext, -⟩ :=
    (loop_eq_unrolled hparse (.inr ⟨rfl, rfl⟩) (.here List.mem_cons_self) hgoes hends
      (.start bareContext) _ _ _).1 ⟨_, ⟨40, Prod.ext hrun rfl, by simp⟩, rfl, rfl⟩
  exact ⟨hparse, by rfl, m', hcompletes, hcontext ▸ houtput⟩

end Document
end Stencil
