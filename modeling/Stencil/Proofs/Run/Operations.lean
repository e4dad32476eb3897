import Stencil.Proofs.Context.Operation
import Stencil.Proofs.Run.Control

/-!
# What a run does to its context

A run does to its context what its writes and its calls do, one after another.

**Operations.**  A text and the end of an echo tag are a write each (`Point.written`); a call of a
function that sets the type of the body or changes a parameter is an operation, once its operands
have been taken and have a text (`Point.called`).  Nothing else in a run is one.

**Results.**
* `Point.context_perform_eq`: a task leaves the context that its operations leave.
* `Document.context_run`: so does a run with all its operations, whether it succeeds or fails, and
  however far it gets.
-/

namespace Stencil

open Context (Operation)
open Context.Operation (applyAll)

/-- What a call of a function does to the context. -/
def Builtin.operations : Builtin → List Value → List Operation
  | .setMimeType, [x] =>
      match x.toText with
      | .ok t => [.set (.mimeType t)]
      | .error _ => []
  | .set store, [value, x] =>
      match x.toText, value.toText with
      | .ok key, .ok t => [.setParameter store key t]
      | _, _ => []
  | .del store, [x] =>
      match x.toText with
      | .ok key => [.removeParameter store key]
      | .error _ => []
  | _, _ => []

/-- The context after an action that is followed by a result. -/
theorem Action.snd_bind_pure {σ α β : Type} (act : Action σ α) (g : α → β) (s : σ) :
    ((do return g (← act) : Action σ β).runIn s).2 = (act.runIn s).2 := by
  rw [Action.runIn_bind]
  split
  · next a s' h =>
      rw [h]
      rfl
  · next f s' h =>
      rw [h]

namespace Builtin

theorem name_of_lookup {x : Text} {f : Builtin} (h : lookup x = .ok f) : x = f.name := by
  unfold lookup at h
  split at h
  · next g hg =>
      obtain rfl := Except.ok.inj h
      unfold ofName? at hg
      have hname := List.find?_some hg
      exact (eq_of_beq hname).symm
  · simp at h

/-- A call leaves the context that its operations leave. -/
theorem context_call (f : Builtin) (values : List Value) (c : Context) :
    ((f.call values).runIn c).2 = applyAll c (f.operations values) := by
  unfold call
  split
  · next x =>
      simp only [Action.runIn_bind, Action.runIn_ofExcept]
      cases x.toNumber with
      | error fault =>
          rfl
      | ok n =>
          cases hsine : sine n.toFloat <;> simp [hsine, operations]
  · next pattern x =>
      simp only [Action.runIn_bind, Action.runIn_ofExcept]
      cases x.toNumber with
      | error fault =>
          rfl
      | ok n =>
          cases pattern.toText with
          | error fault =>
              rfl
          | ok p =>
              cases hformat : formatBy p n <;> simp [hformat, operations]
  · rfl
  · rfl
  · next x =>
      simp only [Action.runIn_bind, Action.runIn_ofExcept, operations]
      cases x.toText with
      | error fault =>
          rfl
      | ok t =>
          have hset := Action.snd_bind_pure (Context.setMimeType t) (fun _ => ([] : List Value)) c
          rw [Action.runIn_bind] at hset
          exact hset
  · next default x =>
      simp only [Action.runIn_bind, Action.runIn_ofExcept]
      cases x.toText <;> rfl
  · next store default x =>
      simp only [Action.runIn_bind, Action.runIn_ofExcept]
      cases x.toText <;> rfl
  · next store value x =>
      simp only [Action.runIn_bind, Action.runIn_ofExcept, operations]
      cases x.toText with
      | error fault =>
          rfl
      | ok key =>
          cases value.toText <;> rfl
  · next store x =>
      simp only [Action.runIn_bind, Action.runIn_ofExcept, operations]
      cases x.toText <;> rfl
  · have hnone : f.operations values = [] := by
      unfold operations
      split <;> simp_all
    rw [hnone]
    rfl

end Builtin

open Machine

namespace Machine

/-- Taking some values leaves those below them, and the rest of the machine as it is. -/
theorem runIn_popMany {n : Nat} {m : Machine} (h : n ≤ (m.store.stack register).length) :
    ∃ store, (popMany n).runIn m =
        (.ok ((m.store.stack register).take n), { m with store := store }) ∧
      store.stack register = (m.store.stack register).drop n := by
  induction n generalizing m with
  | zero =>
      exact ⟨m.store, rfl, rfl⟩
  | succ n ih =>
      cases hstack : m.store.stack register with
      | nil =>
          simp [hstack] at h
      | cons v rest =>
          have hpop : (pop register).runIn m =
              (.ok v, { m with store := m.store.set register rest }) := by
            rw [runIn_pop, NamedStacks.pop_of_stack hstack]
          have hrest : (m.store.set register rest).stack register = rest := by
            rw [NamedStacks.stack_set, if_pos rfl]
          obtain ⟨store, hmany, hbelow⟩ := ih (m := { m with store := m.store.set register rest })
            (by simpa [hrest, hstack] using h)
          refine ⟨store, ?_, by rw [hbelow, hrest]; rfl⟩
          simp only [popMany, Action.runIn_bind, hpop, hmany, hrest]
          rfl

end Machine

namespace Point

variable {limit : Option Int}

/-- What the next task of a point does to the context by a call. -/
def called (limit : Option Int) : Point → List Operation
  | ⟨.token (.call x) :: _, _, m⟩ =>
      match ((charge limit).runIn m).1, Builtin.lookup x with
      | .ok _, .ok f =>
          if m.store.depth register < f.arity then []
          else f.operations ((m.store.stack register).take f.arity)
      | _, _ => []
  | _ => []

/-- What the next task of a point does to the context. -/
def operations (limit : Option Int) (p : Point) : List Operation :=
  (written limit p).map .write ++ called limit p

/-- A token that is no call leaves the context alone. -/
theorem sameContext_evaluate {t : Token} (h : ∀ x, t ≠ .call x) :
    Action.Preserves SameContext (evaluate t) := by
  have hpush (v : Value) : Action.Preserves SameContext (push register v) :=
    preserves_push (fun _ _ _ => rfl) v
  have hpop : Action.Preserves SameContext (pop register) := preserves_pop fun _ _ _ => rfl
  cases t with
  | number n =>
      exact hpush _
  | text t =>
      exact hpush _
  | var x =>
      refine Action.Preserves.get.bind fun m => ?_
      have hread : Action.Preserves SameContext (do
          push register (← Action.ofExcept (m.store.peek x))) :=
        (Action.Preserves.ofExcept _).bind fun _ => hpush _
      exact .ite ((Action.Preserves.throw _).bind fun _ => hread) hread
  | operator op =>
      exact (preserves_require _ _).bind fun _ => hpop.bind fun _ => hpop.bind fun _ =>
        (Action.Preserves.ofExcept _).bind fun _ => hpush _
  | call x =>
      exact absurd rfl (h x)

/-- What a call does to the context, it does with the values that it takes. -/
theorem context_evaluate_call {x : Text} {f : Builtin} (hf : Builtin.lookup x = .ok f)
    (m : Machine) :
    ((evaluate (.call x)).runIn m).2.context =
      applyAll m.context (if m.store.depth register < f.arity then []
        else f.operations ((m.store.stack register).take f.arity)) := by
  have hpushAll (values : List Value) : Action.Preserves SameContext (pushAll values) :=
    preserves_pushAll (fun _ _ _ => rfl) values
  simp only [evaluate, Action.runIn_bind, Action.runIn_ofExcept, hf, require, Action.runIn_get]
  by_cases hdepth : m.store.depth register < f.arity
  · simp [hdepth]
  · obtain ⟨store, hmany, -⟩ := runIn_popMany (Nat.le_of_not_lt hdepth)
    have hcall := Builtin.context_call f ((m.store.stack register).take f.arity) m.context
    simp only [hdepth, if_false, Action.runIn_pure, hmany, runIn_onContext]
    rw [← hcall]
    split
    · next results m' hresult =>
        obtain ⟨-, rfl⟩ := Prod.mk.inj hresult
        exact hpushAll results _
    · next fault m' hresult =>
        obtain ⟨-, rfl⟩ := Prod.mk.inj hresult
        rfl

/-- A token leaves the context that its call leaves. -/
theorem context_perform_token (t : Token) (rest : List Task) (frames : List Frame) (m : Machine) :
    ((perform limit (.token t)).runIn m).2.context =
      applyAll m.context (called limit ⟨.token t :: rest, frames, m⟩) := by
  obtain ⟨outcome, steps, hcharge⟩ := runIn_charge limit m
  cases outcome with
  | error fault =>
      have hperform : ((perform limit (.token t)).runIn m).2.context = m.context := by
        rw [perform, Action.runIn_bind, hcharge]
      rw [hperform]
      cases t with
      | call x =>
          simp only [called, hcharge]
          rfl
      | number n | text t | var x | operator op =>
          rfl
  | ok _ =>
      have hperform : ((perform limit (.token t)).runIn m).2 =
          ((evaluate t).runIn { m with steps := steps }).2 := by
        rw [perform, Action.runIn_bind, hcharge]
        exact Action.snd_bind_pure (evaluate t) (fun _ => ([] : List Task)) _
      rw [hperform]
      by_cases hcall : ∃ x, t = .call x
      · obtain ⟨x, rfl⟩ := hcall
        simp only [called, hcharge]
        cases hf : Builtin.lookup x with
        | error fault =>
            simp [evaluate, Action.runIn_bind, hf]
        | ok f =>
            exact context_evaluate_call hf { m with steps := steps }
      · have hnone : called limit ⟨.token t :: rest, frames, m⟩ = [] := by
          unfold called
          split <;> simp_all
        rw [hnone]
        exact sameContext_evaluate (fun x h => hcall ⟨x, h⟩) { m with steps := steps }

/-- A task leaves the context that its operations leave. -/
theorem context_perform_eq (task : Task) (rest : List Task) (frames : List Frame) (m : Machine) :
    ((perform limit task).runIn m).2.context =
      applyAll m.context (operations limit ⟨task :: rest, frames, m⟩) := by
  by_cases htoken : ∃ t, task = .token t
  · obtain ⟨t, rfl⟩ := htoken
    exact context_perform_token t rest frames m
  · have hnone : called limit ⟨task :: rest, frames, m⟩ = [] := by
      unfold called
      split <;> simp_all
    rw [context_perform rest frames m fun t h => htoken ⟨t, h⟩, operations, hnone,
      List.append_nil, applyAll, List.foldl_map]
    rfl

/-- Working off tasks leaves the context that their operations leave, however far it gets. -/
theorem context_work (bound : Nat) (tasks : List Task) (frames : List Frame) (m : Machine) :
    (Machine.work limit bound tasks m).2.context =
      applyAll m.context (log limit (operations limit) bound ⟨tasks, frames, m⟩) := by
  induction bound generalizing tasks frames m with
  | zero =>
      cases tasks <;> rfl
  | succ bound ih =>
      cases tasks with
      | nil =>
          rfl
      | cons task rest =>
          have htask := @context_perform_eq limit task rest frames m
          rw [log, Context.Operation.applyAll_append, ← htask]
          cases hperform : (perform limit task).runIn m with
          | mk outcome m' =>
              cases outcome with
              | error fault =>
                  simp [Machine.work, next?, hperform]
              | ok brought =>
                  simp only [Machine.work, next?, hperform]
                  exact ih (brought ++ rest) (Frame.follow task brought frames) m'

end Point

namespace Document

/-- What a run of a document does to its context. -/
def operations (d : Document) (limit : Option Int) (context : Context) : List Operation :=
  Point.log limit (Point.operations limit) (boundFor limit) (.start d context)

/-- A run leaves the context that its operations leave. -/
theorem context_run (d : Document) (limit : Option Int) (context : Context) :
    (d.run limit context).2.context = applyAll context (d.operations limit context) :=
  Point.context_work _ _ [] _

end Document
end Stencil
