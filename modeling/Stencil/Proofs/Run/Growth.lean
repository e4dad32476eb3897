import Stencil.Proofs.Run.Effect

/-!
# What only grows in a run

A relation between contexts is kept by a write if it is kept when the header is marked and when
bytes are added, and it is kept by a call if it is kept when a setting of the response or a
parameter changes.  A relation between machines that a change of the stacks, a write, a call and a
charge keep is kept by every task (`preserves_perform`).  So no task takes back a step or a byte of
the output, a token sends nothing at all, what a task does before its charge changes the stacks
alone, and a task that succeeds takes one step or none, whatever it computes (`steps_of_ok`).
-/

namespace Stencil

namespace Context

section Effects

variable {R : Context → Context → Prop} [IsPreorder Context R]

omit [IsPreorder Context R] in
theorem preserves_modify {f : Context → Context} (h : ∀ c : Context, R c (f c)) :
    Action.Preserves R (modify f : Action Context PUnit) := h

/-- A relation that holds when the header is marked as sent and when bytes are added holds when a
text has been written. -/
theorem preserves_write (hmark : ∀ c : Context, R c c.markSent)
    (happend : ∀ (bytes : List UInt8) (c : Context), R c (append bytes c)) (t : Text) :
    Action.Preserves R (write t) := by
  have hsend : Action.Preserves R sendHeader :=
    (preserves_modify hmark).bind fun _ => Action.Preserves.get.bind fun _ =>
      (Action.Preserves.ofExcept _).bind fun bytes => preserves_modify (happend bytes)
  exact Action.Preserves.get.bind fun _ => (Action.Preserves.ofExcept _).bind fun bytes =>
    Action.Preserves.get.bind fun _ =>
      .ite (hsend.bind fun _ => preserves_modify (happend bytes)) (preserves_modify (happend bytes))

/-- A relation that holds when the type of the body and when the parameters change holds when a
function has been called. -/
theorem preserves_call
    (hmime : ∀ (t : Text) (c : Context),
      R c { c with settings := { c.settings with mimeType := t } })
    (hstore : ∀ (which : Store) (g : Index Text → Index Text) (c : Context),
      R c (c.modifyStore which g)) (f : Builtin) (values : List Value) :
    Action.Preserves R (f.call values) := by
  unfold Builtin.call
  split
  · exact (Action.Preserves.ofExcept _).bind fun _ => (Action.Preserves.ofExcept _).bind fun _ =>
      .pure _
  · exact (Action.Preserves.ofExcept _).bind fun _ => (Action.Preserves.ofExcept _).bind fun _ =>
      (Action.Preserves.ofExcept _).bind fun _ => .pure _
  · exact .pure _
  · exact .pure _
  · have hset : ∀ t : Text, Action.Preserves R (setMimeType t) := fun t =>
      Action.Preserves.bind (Action.Preserves.get.bind fun _ => .ite (.throw _) (.pure _))
        fun _ => preserves_modify (hmime t)
    exact (Action.Preserves.ofExcept _).bind fun t => (hset t).bind fun _ => .pure _
  · exact (Action.Preserves.ofExcept _).bind fun _ => Action.Preserves.get.bind fun _ => .pure _
  · exact (Action.Preserves.ofExcept _).bind fun _ => Action.Preserves.get.bind fun _ => .pure _
  · next store value x =>
      have hset : ∀ key t : Text, Action.Preserves R
          (modify (setParameter store key t) : Action Context PUnit) :=
        fun _ _ => preserves_modify fun c => hstore store _ c
      exact (Action.Preserves.ofExcept _).bind fun key => (Action.Preserves.ofExcept _).bind
        fun t => (hset key t).bind fun _ => .pure _
  · next store x =>
      have hdel : ∀ key : Text, Action.Preserves R
          (modify (removeParameter store key) : Action Context PUnit) :=
        fun _ => preserves_modify fun c => hstore store _ c
      exact (Action.Preserves.ofExcept _).bind fun key => (hdel key).bind fun _ => .pure _
  · exact .throw _

end Effects

/-- The output has grown, or stayed as it was. -/
def Extends (c c' : Context) : Prop := c.output.toList <+: c'.output.toList

instance : IsPreorder Context Extends where
  refl _ := List.prefix_rfl
  trans _ _ _ h h' := h.trans h'

theorem extends_write (t : Text) : Action.Preserves Extends (write t) :=
  preserves_write (fun _ => List.prefix_rfl) (fun bytes c => by simp [Extends, append]) t

theorem extends_call (f : Builtin) (values : List Value) :
    Action.Preserves Extends (f.call values) :=
  preserves_call (fun _ _ => List.prefix_rfl)
    (fun which _ _ => by cases which <;> exact List.prefix_rfl) f values

/-- Nothing has been sent. -/
def Silent (c c' : Context) : Prop := c'.output = c.output ∧ c'.headerSent = c.headerSent

instance : IsPreorder Context Silent where
  refl _ := ⟨rfl, rfl⟩
  trans _ _ _ h h' := ⟨h'.1.trans h.1, h'.2.trans h.2⟩

theorem silent_call (f : Builtin) (values : List Value) : Action.Preserves Silent (f.call values) :=
  preserves_call (R := Silent) (fun _ _ => ⟨rfl, rfl⟩)
    (fun which _ _ => by cases which <;> exact ⟨rfl, rfl⟩) f values

end Context

namespace Machine

section Tasks

variable {R : Machine → Machine → Prop} [IsPreorder Machine R]
  (hstore : ∀ (m : Machine) (s : NamedStacks), R m { m with store := s })
include hstore

theorem preserves_prepare (task : Task) : Action.Preserves R (prepare task) := by
  cases task with
  | next loop =>
      have hpop : Action.Preserves R (pop loop.counter) := by
        intro m
        rw [runIn_pop]
        split
        · exact hstore m _
        · exact refl_of R m
      exact hpop.bind fun _ => (Action.Preserves.ofExcept _).bind fun _ => fun m => hstore m _
  | document nodes | visit node | token t | emit | test loop =>
      exact .pure _

theorem preserves_test (loop : Loop) : Action.Preserves R (test loop) := by
  have hpop : Action.Preserves R (do
      let _ ← pop loop.counter
      return ([] : List Task)) := by
    refine Action.Preserves.bind (fun m => ?_) fun _ => .pure _
    rw [runIn_pop]
    split
    · exact hstore m _
    · exact refl_of R m
  exact Action.Preserves.get.bind fun m => (Action.Preserves.ofExcept _).bind fun v =>
    (Action.Preserves.ofExcept _).bind fun order => .ite (.pure _) hpop

variable
  (hcall : ∀ (f : Builtin) (values : List Value), Action.Preserves R (onContext (f.call values)))
  (hwrite : ∀ t : Text, Action.Preserves R (onContext (Context.write t)))
include hcall hwrite

theorem preserves_proceed (task : Task) : Action.Preserves R (proceed task) := by
  cases task with
  | document nodes =>
      exact .pure _
  | visit node =>
      cases node with
      | text content =>
          exact (hwrite content).bind fun _ => .pure _
      | echo tokens =>
          exact .pure _
      | loop head offset body =>
          exact (Action.Preserves.ofExcept _).bind fun _ =>
            Action.Preserves.bind (fun m => hstore m _) fun _ => .pure _
  | token t =>
      exact (preserves_evaluate (fun m s _ => hstore m s) hcall t).bind fun _ => .pure _
  | emit =>
      exact (preserves_emit (fun m s _ => hstore m s) hwrite).bind fun _ => .pure _
  | test loop =>
      exact preserves_test hstore loop
  | next loop =>
      exact .pure _

/-- A relation that the stacks do not matter for, and that is kept by calls, writes and charges, is
kept by every task. -/
theorem preserves_perform {limit : Option Int} (hcharge : Action.Preserves R (charge limit))
    (task : Task) : Action.Preserves R (perform limit task) := by
  have hproceed := preserves_proceed hstore hcall hwrite task
  cases hfree : task.isFree with
  | true =>
      rw [perform_of_free limit hfree]
      exact hproceed
  | false =>
      rw [perform_of_charged limit hfree]
      exact (preserves_prepare hstore task).bind fun _ => hcharge.bind fun _ => hproceed

end Tasks

/-- The number of steps and the context are as they were. -/
def StacksOnly (m m' : Machine) : Prop := m'.context = m.context ∧ m'.steps = m.steps

instance : IsPreorder Machine StacksOnly where
  refl _ := ⟨rfl, rfl⟩
  trans _ _ _ h h' := ⟨h'.1.trans h.1, h'.2.trans h.2⟩

/-- What a task does before its charge changes the stacks alone. -/
theorem stacksOnly_prepare (task : Task) : Action.Preserves StacksOnly (prepare task) :=
  preserves_prepare (fun _ _ => ⟨rfl, rfl⟩) task

/-- No step and no byte of the output has been taken back. -/
def Grows (m m' : Machine) : Prop := m.steps ≤ m'.steps ∧ m.context.Extends m'.context

instance : IsPreorder Machine Grows where
  refl m := ⟨Nat.le_refl _, refl_of Context.Extends m.context⟩
  trans _ _ _ h h' := ⟨Nat.le_trans h.1 h'.1, trans_of Context.Extends h.2 h'.2⟩

theorem grows_onContext {α : Type} {act : Action Context α}
    (h : act.Preserves Context.Extends) : Action.Preserves Grows (onContext act) :=
  fun m => ⟨Nat.le_refl _, h m.context⟩

theorem grows_charge (limit : Option Int) : Action.Preserves Grows (charge limit) := by
  intro m
  cases limit with
  | none =>
      rw [runIn_charge_none]
      exact ⟨Nat.le_succ _, refl_of Context.Extends m.context⟩
  | some n =>
      rw [runIn_charge_some]
      split
      · exact refl_of Grows m
      · exact ⟨Nat.le_succ _, refl_of Context.Extends m.context⟩

/-- No task takes back a step or a byte of the output. -/
theorem grows_perform (limit : Option Int) (task : Task) :
    Action.Preserves Grows (perform limit task) :=
  preserves_perform (fun m _ => ⟨Nat.le_refl _, refl_of Context.Extends m.context⟩)
    (fun f values => grows_onContext (Context.extends_call f values))
    (fun t => grows_onContext (Context.extends_write t)) (grows_charge limit) task

/-- Nothing has been sent. -/
def Silent (m m' : Machine) : Prop := m.context.Silent m'.context

instance : IsPreorder Machine Silent where
  refl m := refl_of Context.Silent m.context
  trans _ _ _ h h' := trans_of Context.Silent h h'

/-- A token sends nothing, whether it is evaluated or fails. -/
theorem silent_perform_token (limit : Option Int) (t : Token) :
    Action.Preserves Silent (perform limit (.token t)) := by
  have hcharge : Action.Preserves Silent (charge limit) := by
    intro m
    obtain ⟨outcome, steps, hcharge⟩ := runIn_charge limit m
    rw [hcharge]
    exact refl_of Context.Silent m.context
  have hevaluate : Action.Preserves Silent (evaluate t) :=
    preserves_evaluate (fun m _ _ => refl_of Context.Silent m.context)
      (fun f values m => Context.silent_call f values m.context) t
  exact hcharge.bind fun _ => hevaluate.bind fun _ => .pure _

/-- What a task does once its step has been charged takes no further step. -/
theorem steps_proceed (task : Task) (m : Machine) :
    ((proceed task).runIn m).2.steps = m.steps := by
  have : IsPreorder Machine fun m m' => m'.steps = m.steps :=
    { refl := fun _ => rfl, trans := fun _ _ _ h h' => h'.trans h }
  have hproceed : Action.Preserves (fun m m' : Machine => m'.steps = m.steps) (proceed task) :=
    preserves_proceed (fun _ _ => rfl) (fun _ _ _ => rfl) (fun _ _ => rfl) task
  exact hproceed m

/-- A charge that is granted adds one step. -/
theorem charge_ok {limit : Option Int} {m m' : Machine}
    (h : (charge limit).runIn m = (.ok (), m')) : m' = { m with steps := m.steps + 1 } := by
  cases limit with
  | none =>
      rw [runIn_charge_none] at h
      exact (Prod.mk.inj h).2.symm
  | some n =>
      rw [runIn_charge_some] at h
      split at h
      · simp at h
      · exact (Prod.mk.inj h).2.symm

/-- A task that succeeds takes one step if it is charged, and else none. -/
theorem steps_of_ok {limit : Option Int} {task : Task} {m m' : Machine} {brought : List Task}
    (h : (perform limit task).runIn m = (.ok brought, m')) :
    m'.steps = m.steps + (!task.isFree).toNat := by
  cases hfree : task.isFree with
  | true =>
      rw [perform_of_free limit hfree] at h
      have hsteps := steps_proceed task m
      rw [h] at hsteps
      exact hsteps
  | false =>
      rw [perform_of_charged limit hfree, Action.runIn_bind] at h
      have hprepare := (stacksOnly_prepare task m).2
      split at h
      · next m₁ hm₁ =>
          rw [hm₁] at hprepare
          rw [Action.runIn_bind] at h
          split at h
          · next m₂ hm₂ =>
              have hsteps := steps_proceed task m₂
              rw [h, charge_ok hm₂] at hsteps
              exact hsteps.trans (congrArg (· + 1) hprepare)
          · simp at h
      · simp at h

end Machine
end Stencil
