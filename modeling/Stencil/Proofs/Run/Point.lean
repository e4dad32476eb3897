import Mathlib.Logic.Relation
import Stencil.Proofs.Run.Bound

/-!
# Points of a run

A run as a sequence of points.  A `Point` is what is left to do, the machine, and the loops that are
being run, each with the first value of its counter and the number of its iterations that have
ended.  The loops are kept beside the machine and never read by it: `Frame.follow` enters a loop
when its node has been visited, counts when an iteration has ended, and leaves the loop when its
test has ended it.

**Results.**
* `completes_iff_ends`: working off tasks is running from point to point.
* `Document.endsAs_some_iff`: with a budget a run ends as `Document.run` says.
* `Document.EndsAs.unique`: a run ends in one way.
-/

namespace Stencil

/-- The value of a counter after a number of iterations. -/
def Loop.count (loop : Loop) (first : Number) : Nat → Number
  | 0 => first
  | k + 1 => (loop.count first k).plus loop.step

/-- A loop that is being run: the first value of its counter, and how many iterations have ended. -/
structure Frame where
  loop : Loop
  first : Number
  ended : Nat

namespace Frame

/-- The current value of the counter. -/
def value (f : Frame) : Number := f.loop.count f.first f.ended

/-- One more iteration has ended. -/
def advance (f : Frame) : Frame := { f with ended := f.ended + 1 }

/-- The loops that are being run after a task that has brought further tasks, innermost first. -/
def follow (task : Task) (brought : List Task) (frames : List Frame) : List Frame :=
  match task, frames with
  | .visit (.loop head _ body), frames =>
      match Machine.loopOf head body with
      | .ok (first, loop) => ⟨loop, first, 0⟩ :: frames
      | .error _ => frames
  | .test _, f :: outer => if brought = [] then outer else f :: outer
  | .next _, f :: outer => f.advance :: outer
  | _, frames => frames

end Frame

/-- Working off tasks ends, within some bound on their number. -/
def Machine.Completes (limit : Option Int) (tasks : List Task) (m : Machine) (outcome : Outcome)
    (m' : Machine) : Prop :=
  ∃ bound, work limit bound tasks m = (outcome, m') ∧ outcome ≠ .unfinished

/-- What is left to do at a moment of a run, the loops that are being run, and the machine. -/
structure Point where
  tasks : List Task
  frames : List Frame
  machine : Machine

namespace Point

/-- Before a document is run in a context. -/
def start (d : Document) (context : Context) : Point := ⟨[.document d], [], .start context⟩

/-- One task has been done. -/
inductive Step (limit : Option Int) : Point → Point → Prop
  | mk {task : Task} {rest brought : List Task} {frames : List Frame} {m m' : Machine}
      (h : (Machine.perform limit task).runIn m = (.ok brought, m')) :
      Step limit ⟨task :: rest, frames, m⟩
        ⟨brought ++ rest, Frame.follow task brought frames, m'⟩

/-- Tasks have been done, one after another. -/
abbrev Run (limit : Option Int) : Point → Point → Prop := Relation.ReflTransGen (Step limit)

/-- The run ends at a point: nothing is left, or the next task fails and the loops are given up. -/
inductive EndsAt (limit : Option Int) : Point → Outcome → Machine → Prop
  | finished {frames : List Frame} {m : Machine} : EndsAt limit ⟨[], frames, m⟩ .finished m
  | failed {task : Task} {rest : List Task} {frames : List Frame} {m m' : Machine} {fault : Fault}
      (h : (Machine.perform limit task).runIn m = (.error fault, m')) :
      EndsAt limit ⟨task :: rest, frames, m⟩
        (.failed (Machine.giveUp (task :: rest) fault m'.store).1)
        { m' with store := (Machine.giveUp (task :: rest) fault m'.store).2 }

/-- The run from a point ends. -/
def Ends (limit : Option Int) (p : Point) (outcome : Outcome) (m : Machine) : Prop :=
  ∃ q, Run limit p q ∧ EndsAt limit q outcome m

/-- The point after the next task, unless there is none or it fails. -/
def next? (limit : Option Int) : Point → Option Point
  | ⟨[], _, _⟩ => none
  | ⟨task :: rest, frames, m⟩ =>
      match (Machine.perform limit task).runIn m with
      | (.ok brought, m') => some ⟨brought ++ rest, Frame.follow task brought frames, m'⟩
      | (.error _, _) => none

/-- The point after a number of tasks. -/
def after? (limit : Option Int) : Nat → Point → Option Point
  | 0, p => some p
  | k + 1, p => (next? limit p).bind (after? limit k)

variable {limit : Option Int}

theorem step_of_next {p q : Point} (h : next? limit p = some q) : Step limit p q := by
  unfold next? at h
  split at h
  · simp at h
  · split at h
    · next hperform =>
        obtain rfl := Option.some.inj h
        exact .mk hperform
    · simp at h

theorem next_of_step {p q : Point} (h : Step limit p q) : next? limit p = some q := by
  cases h with
  | mk hperform =>
      simp [next?, hperform]

theorem next_of_endsAt {q : Point} {outcome : Outcome} {m : Machine}
    (h : EndsAt limit q outcome m) : next? limit q = none := by
  cases h with
  | finished =>
      rfl
  | failed hperform =>
      simp [next?, hperform]

theorem run_of_after {k : Nat} {p q : Point} (h : after? limit k p = some q) : Run limit p q := by
  induction k generalizing p with
  | zero =>
      obtain rfl := Option.some.inj h
      exact .refl
  | succ k ih =>
      obtain ⟨r, hr, hq⟩ := Option.bind_eq_some_iff.1 h
      exact .head (step_of_next hr) (ih hq)

theorem tasks_of_finished {p : Point} {m : Machine} (h : EndsAt limit p .finished m) :
    p.tasks = [] ∧ p.machine = m := by
  cases h with
  | finished =>
      exact ⟨rfl, rfl⟩

/-- A run with nothing left to do has ended. -/
theorem eq_of_run_of_nil {p q : Point} (htasks : p.tasks = []) (h : Run limit p q) : p = q := by
  rcases h.cases_head with rfl | ⟨r, hstep, -⟩
  · rfl
  · cases hstep
    simp at htasks

theorem work_of_step {p q : Point} (h : Step limit p q) (bound : Nat) :
    Machine.work limit (bound + 1) p.tasks p.machine =
      Machine.work limit bound q.tasks q.machine := by
  cases h with
  | mk h =>
      simp [Machine.work, h]

theorem work_of_run {p q : Point} (h : Run limit p q) :
    ∃ k, ∀ bound, Machine.work limit (bound + k) p.tasks p.machine =
      Machine.work limit bound q.tasks q.machine := by
  induction h with
  | refl =>
      exact ⟨0, fun _ => rfl⟩
  | tail _ hstep ih =>
      obtain ⟨k, hk⟩ := ih
      refine ⟨k + 1, fun bound => ?_⟩
      rw [show bound + (k + 1) = bound + 1 + k by omega, hk, work_of_step hstep]

theorem work_of_endsAt {q : Point} {outcome : Outcome} {m : Machine}
    (h : EndsAt limit q outcome m) :
    Machine.work limit 1 q.tasks q.machine = (outcome, m) ∧ outcome ≠ .unfinished := by
  cases h with
  | finished =>
      exact ⟨rfl, by simp⟩
  | failed h =>
      exact ⟨by simp [Machine.work, h], by simp⟩

/-- What is worked off within a bound is a run that ends. -/
theorem ends_of_work {bound : Nat} {tasks : List Task} {m m' : Machine} {outcome : Outcome}
    (h : Machine.work limit bound tasks m = (outcome, m')) (hne : outcome ≠ .unfinished)
    (frames : List Frame) : Ends limit ⟨tasks, frames, m⟩ outcome m' := by
  induction bound generalizing tasks m frames with
  | zero =>
      cases tasks with
      | nil =>
          obtain ⟨rfl, rfl⟩ := Prod.mk.inj h
          exact ⟨_, .refl, .finished⟩
      | cons task rest =>
          exact absurd (Prod.mk.inj h).1.symm hne
  | succ bound ih =>
      cases tasks with
      | nil =>
          obtain ⟨rfl, rfl⟩ := Prod.mk.inj h
          exact ⟨_, .refl, .finished⟩
      | cons task rest =>
          unfold Machine.work at h
          split at h
          · next brought m₁ hperform =>
              obtain ⟨q, hrun, hend⟩ := ih h (Frame.follow task brought frames)
              exact ⟨q, .head (.mk hperform) hrun, hend⟩
          · next fault m₁ hperform =>
              obtain ⟨rfl, rfl⟩ := Prod.mk.inj h
              exact ⟨_, .refl, .failed hperform⟩

/-- Working off tasks ends as the run from a point with these tasks does. -/
theorem completes_iff_ends {tasks : List Task} (frames : List Frame) {m m' : Machine}
    {outcome : Outcome} : Machine.Completes limit tasks m outcome m' ↔
      Ends limit ⟨tasks, frames, m⟩ outcome m' := by
  constructor
  · rintro ⟨bound, hwork, hne⟩
    exact ends_of_work hwork hne frames
  · rintro ⟨q, hrun, hend⟩
    obtain ⟨k, hk⟩ := work_of_run hrun
    obtain ⟨hwork, hne⟩ := work_of_endsAt hend
    exact ⟨1 + k, (hk 1).trans hwork, hne⟩

/-- Tasks that wait behind the others do not matter until it is their turn. -/
theorem run_append {p q : Point} (h : Run limit p q) (rest : List Task) :
    Run limit ⟨p.tasks ++ rest, p.frames, p.machine⟩ ⟨q.tasks ++ rest, q.frames, q.machine⟩ := by
  induction h with
  | refl =>
      exact .refl
  | tail _ hstep ih =>
      refine ih.tail ?_
      cases hstep with
      | @mk task left brought frames m m' h =>
          simpa using @Step.mk limit task (left ++ rest) brought frames m m' h

end Point

/-- Working off tasks ends in one way. -/
theorem Machine.Completes.unique {limit : Option Int} {tasks : List Task} {m m₁ m₂ : Machine}
    {outcome₁ outcome₂ : Outcome} (h₁ : Completes limit tasks m outcome₁ m₁)
    (h₂ : Completes limit tasks m outcome₂ m₂) : outcome₁ = outcome₂ ∧ m₁ = m₂ := by
  obtain ⟨bound₁, hwork₁, hne₁⟩ := h₁
  obtain ⟨bound₂, hwork₂, hne₂⟩ := h₂
  have hlong₁ := work_add bound₂ hwork₁ hne₁
  have hlong₂ := work_add bound₁ hwork₂ hne₂
  rw [Nat.add_comm, hlong₂] at hlong₁
  obtain ⟨rfl, rfl⟩ := Prod.mk.inj hlong₁
  exact ⟨rfl, rfl⟩

namespace Document

/-- A run of a document ends. -/
def EndsAs (d : Document) (limit : Option Int) (context : Context) (outcome : Outcome)
    (m : Machine) : Prop :=
  Machine.Completes limit [.document d] (.start context) outcome m

variable {d : Document} {limit : Option Int} {context : Context} {outcome : Outcome} {m : Machine}

theorem endsAs_iff_ends :
    d.EndsAs limit context outcome m ↔ Point.Ends limit (.start d context) outcome m :=
  Point.completes_iff_ends []

/-- A run ends in one way. -/
theorem EndsAs.unique {outcome' : Outcome} {m' : Machine} (h : d.EndsAs limit context outcome m)
    (h' : d.EndsAs limit context outcome' m') : outcome = outcome' ∧ m = m' :=
  Machine.Completes.unique h h'

/-- With a budget a run ends, and it ends as `run` says. -/
theorem endsAs_some_iff {n : Int} :
    d.EndsAs (some n) context outcome m ↔ d.run (some n) context = (outcome, m) := by
  have hrun : d.EndsAs (some n) context (d.run (some n) context).1 (d.run (some n) context).2 :=
    ⟨boundFor (some n), rfl, run_ne_unfinished d n context⟩
  constructor
  · intro h
    obtain ⟨rfl, rfl⟩ := h.unique hrun
    rfl
  · intro h
    rw [h] at hrun
    exact hrun

/-- A context whose response has no header. -/
def bareContext : Context := .start .empty .empty [] { sendsHeader := false }

end Document
end Stencil
