import Stencil.Proofs.Run.Growth

/-!
# How many tasks a budget allows

Under a budget a run always ends within the bound that it is given.

**Argument.**  Only the end of an echo tag and the test of a loop are not charged.  Counted
together, twice the steps left in the budget and the uncharged tasks in the list get fewer with
every task that is done: an uncharged one takes itself off the list, and a charged one brings at
most one uncharged one and takes a step from the budget.

**Results.**
* `Machine.tasksLeft_lt`: the number of tasks that are enough gets smaller with every task.
* `Document.run_ne_unfinished`: a run with a budget ends.
-/

namespace Stencil

/-- The tasks of a list that are done without a charge. -/
def freeTasks (tasks : List Task) : Nat := tasks.countP Task.isFree

theorem freeTasks_append (s t : List Task) : freeTasks (s ++ t) = freeTasks s + freeTasks t := by
  simp [freeTasks]

theorem freeTasks_visits (nodes : List Node) : freeTasks (nodes.map .visit) = 0 := by
  simp [freeTasks, Task.isFree]

theorem freeTasks_tokens (tokens : List Token) : freeTasks (tokens.map .token) = 0 := by
  simp [freeTasks, Task.isFree]

namespace Machine

/-- A charged task succeeds only within the budget, and then takes one step of it. -/
theorem steps_of_charged {n : Int} {task : Task} (hfree : task.isFree = false) {m m' : Machine}
    {tasks : List Task} (h : (perform (some n) task).runIn m = (.ok tasks, m')) :
    (m.steps : Int) < n ∧ m'.steps = m.steps + 1 := by
  refine ⟨?_, by rw [steps_of_ok h, hfree]; rfl⟩
  rw [perform_of_charged (some n) hfree, Action.runIn_bind] at h
  have hprepare := (stacksOnly_prepare task m).2
  split at h
  · next m₁ hm₁ =>
      rw [hm₁] at hprepare
      simp only [Action.runIn_bind, runIn_charge_some] at h hprepare
      by_cases hspent : n ≤ m₁.steps
      · simp [hspent] at h
      · omega
  · simp at h

/-- A task brings at most one uncharged task, and an uncharged one brings none. -/
theorem returns_perform (limit : Option Int) (task : Task) :
    Returns (perform limit task) fun tasks =>
      freeTasks tasks + (if task.isFree then 1 else 0) ≤ 1 := by
  cases task with
  | document nodes => exact Returns.bind fun _ => .pure (by simp [freeTasks_visits, Task.isFree])
  | visit node =>
      cases node with
      | text content =>
          exact Returns.bind fun _ => Returns.bind fun _ => .pure (by simp [freeTasks, Task.isFree])
      | echo tokens =>
          exact Returns.bind fun _ => .pure
            (by rw [freeTasks_append, freeTasks_tokens]; simp [freeTasks, Task.isFree])
      | loop head offset body =>
          exact Returns.bind fun _ => Returns.bind fun _ => Returns.bind fun _ =>
            .pure (by simp [freeTasks, Task.isFree])
  | token t =>
      exact Returns.bind fun _ => Returns.bind fun _ => .pure (by simp [freeTasks, Task.isFree])
  | emit => exact Returns.bind fun _ => .pure (by simp [freeTasks, Task.isFree])
  | test loop =>
      refine Returns.bind fun _ => Returns.bind fun _ => Returns.bind fun _ => ?_
      split
      · exact .pure (by rw [freeTasks_append, freeTasks_visits]; simp [freeTasks, Task.isFree])
      · exact Returns.bind fun _ => .pure (by simp [freeTasks, Task.isFree])
  | next loop =>
      exact Returns.bind fun _ => Returns.bind fun _ => Returns.bind fun _ => Returns.bind fun _ =>
        .pure (by simp [freeTasks, Task.isFree])

/-- A number of tasks that is enough to end some tasks under a budget of `n` steps. -/
def tasksLeft (n : Int) (tasks : List Task) (m : Machine) : Nat :=
  2 * (n.toNat - m.steps) + freeTasks tasks

/-- Every task that is done leaves fewer tasks to be done. -/
theorem tasksLeft_lt {n : Int} {task : Task} {rest brought : List Task} {m m' : Machine}
    (h : (perform (some n) task).runIn m = (.ok brought, m')) :
    tasksLeft n (brought ++ rest) m' < tasksLeft n (task :: rest) m := by
  have hreturns := returns_perform (some n) task m brought m' h
  unfold tasksLeft
  rw [freeTasks_append]
  cases hfree : task.isFree with
  | true =>
      have hsteps := steps_of_ok h
      simp only [hfree, if_true, Bool.not_true, Bool.toNat_false] at hreturns hsteps
      have hcons : freeTasks (task :: rest) = freeTasks rest + 1 := by
        simp [freeTasks, hfree]
      omega
  | false =>
      have hsteps := steps_of_charged hfree h
      simp only [hfree, Bool.false_eq_true, if_false] at hreturns
      have hcons : freeTasks (task :: rest) = freeTasks rest := by
        simp [freeTasks, hfree]
      omega

theorem work_ne_unfinished (n : Int) {bound : Nat} {tasks : List Task} {m : Machine}
    (h : tasksLeft n tasks m < bound) : (work (some n) bound tasks m).1 ≠ .unfinished := by
  induction bound generalizing tasks m with
  | zero => omega
  | succ bound ih =>
      cases tasks with
      | nil => simp [work]
      | cons task rest =>
          unfold work
          split
          · next brought m' hrun =>
              have hlt : tasksLeft n (brought ++ rest) m' < tasksLeft n (task :: rest) m :=
                tasksLeft_lt hrun
              exact ih (by omega)
          · simp

end Machine

namespace Document

/-- A run with a budget ends. -/
theorem run_ne_unfinished (d : Document) (n : Int) (context : Context) :
    (d.run (some n) context).1 ≠ .unfinished := by
  apply Machine.work_ne_unfinished
  simp [Machine.tasksLeft, boundFor, Machine.start, freeTasks, Task.isFree]

end Document
end Stencil
