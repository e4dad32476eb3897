import Stencil.Document.Builder
import Stencil.Run.Task

/-!
# Runs

A run works off the tasks of a document until none is left or one fails.

A loop need not end, so `Machine.work` is given a bound on the number of tasks.  Every step that is
charged brings at most one task that is not charged itself, so that under a budget of `n` steps
`2 * n + 2` tasks are enough.  Without a budget a run that does not end has no outcome, and one that
does has the same outcome under every bound that is large enough.
-/

namespace Stencil

/-- How a run ended. -/
inductive Outcome
  | finished
  | failed (fault : Fault)
  /-- The bound on the number of tasks was reached. -/
  | unfinished
deriving DecidableEq

namespace Machine

/-- Works off tasks, at most `bound` of them. -/
def work (limit : Option Int) : Nat → List Task → Machine → Outcome × Machine
  | _, [], m => (.finished, m)
  | 0, _ :: _, m => (.unfinished, m)
  | bound + 1, task :: rest, m =>
      match (perform limit task).runIn m with
      | (.ok tasks, m) => work limit bound (tasks ++ rest) m
      | (.error fault, m) =>
          let (fault, store) := giveUp (task :: rest) fault m.store
          (.failed fault, { m with store := store })

/-- A run that has ended ends in the same way under every larger bound. -/
theorem work_add {limit : Option Int} {bound : Nat} (more : Nat) {tasks : List Task}
    {m m' : Machine} {outcome : Outcome} (h : work limit bound tasks m = (outcome, m'))
    (ended : outcome ≠ .unfinished) : work limit (bound + more) tasks m = (outcome, m') := by
  induction bound generalizing tasks m with
  | zero =>
      cases tasks with
      | nil => simpa [work] using h
      | cons task rest => exact absurd (by simpa [work] using congrArg Prod.fst h.symm) ended
  | succ bound ih =>
      cases tasks with
      | nil => simpa [work] using h
      | cons task rest =>
          rw [Nat.succ_add]
          unfold work at h ⊢
          split at h
          · exact ih h
          · exact h

end Machine

namespace Document

/-- A number of tasks that no run without a budget is waited for longer. -/
def patience : Nat := Nat.pow 2 62

/-- A number of tasks that is enough under a budget. -/
def boundFor : Option Int → Nat
  | some n => 2 * n.toNat + 2
  | none => patience

/-- Runs a document in a context, with a budget of steps or without. -/
def run (d : Document) (limit : Option Int) (context : Context) : Outcome × Machine :=
  Machine.work limit (boundFor limit) [.document d] (.start context)

end Document

/-- A template, read and run in memory without a header: the bytes that it writes. -/
inductive RenderError
  | malformed (e : ParseFailure)
  | fault (f : Fault)
  | unfinished
deriving DecidableEq

/-- The bytes that a template writes, without a header, in UTF-8. -/
def render (text : Text) (request persistent : Index Text) (limit : Option Int) :
    Except RenderError (Array UInt8) :=
  match Document.parse text with
  | .error e => .error (.malformed e)
  | .ok d =>
      let context := Context.start request persistent [] { sendsHeader := false }
      match d.run limit context with
      | (.finished, m) => .ok m.context.output
      | (.failed f, _) => .error (.fault f)
      | (.unfinished, _) => .error .unfinished

end Stencil
