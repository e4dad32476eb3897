import Mathlib.Logic.Function.Basic
import Stencil.Proofs.Run.Parameters

/-!
# Changes of parameters

What a run does to the parameters, told by the calls that it completes.

**Changes.**  A `Change` gives one parameter a new text, or removes it, and leaves every other one
as it is.  A call that is completed makes one change if its function sets or removes a parameter,
and else none (`Builtin.changes`).  The changes of a run are those of its completed calls in the
order in which they are made (`Document.changes`).

**Argument.**  A function takes the texts of its values before it changes anything, so that a call
that fails leaves the context as it was (`Builtin.atomic_call`).  Hence a task either completes a
call, and makes the changes of that call, or it leaves the parameters alone (`get?_perform`).  The
induction on the number of tasks adds up what each of them does.

**Results.**  `Document.parameters_of_run`: what a run leaves of the parameters, however far it
gets and however it ends.
-/

namespace Stencil

open Context (Operation)
open Context.Operation (applyAll)

/-- What becomes of a parameter: its new text, or none if it is removed. -/
structure Change where
  name : Text
  value : Option Text
deriving DecidableEq

/-- The parameters after a change. -/
def Change.apply (parameters : Text → Option Text) (change : Change) : Text → Option Text :=
  Function.update parameters change.name change.value

namespace Context.Operation

/-- What an operation makes of the parameters in a store. -/
def changes (which : Store) : Operation → List Change
  | .setParameter store name value => if store = which then [⟨name, some value⟩] else []
  | .removeParameter store name => if store = which then [⟨name, none⟩] else []
  | _ => []

theorem get?_apply_eq (op : Operation) (c : Context) (which : Store) :
    ((op.apply c).store which).get? =
      (op.changes which).foldl Change.apply (c.store which).get? := by
  cases op with
  | write t | writeBytes bytes | set s =>
      exact funext fun key => @get?_apply which key _ id c
  | setParameter store name value =>
      have hset : (Operation.setParameter store name value).apply c =
          c.modifyStore store (·.put name value) := rfl
      rw [hset, store_modifyStore, changes]
      by_cases hstore : store = which
      · subst hstore
        rw [if_pos rfl, if_pos rfl]
        funext key
        rw [Index.get?_put, List.foldl_cons, List.foldl_nil, Change.apply, Function.update_apply]
      · rw [if_neg hstore, if_neg (Ne.symm hstore), List.foldl_nil]
  | removeParameter store name =>
      have hremove : (Operation.removeParameter store name).apply c =
          c.modifyStore store (·.erase name) := rfl
      rw [hremove, store_modifyStore, changes]
      by_cases hstore : store = which
      · subst hstore
        rw [if_pos rfl, if_pos rfl]
        funext key
        rw [Index.get?_erase, List.foldl_cons, List.foldl_nil, Change.apply, Function.update_apply]
      · rw [if_neg hstore, if_neg (Ne.symm hstore), List.foldl_nil]

/-- The changes that operations make are made one after another. -/
theorem get?_applyAll_eq (ops : List Operation) (c : Context) (which : Store) :
    ((applyAll c ops).store which).get? =
      (ops.flatMap (changes which)).foldl Change.apply (c.store which).get? := by
  induction ops generalizing c with
  | nil =>
      rfl
  | cons op ops ih =>
      rw [applyAll_cons, ih, get?_apply_eq, List.flatMap_cons, List.foldl_append]

end Context.Operation

namespace Builtin

/-- The changes that a completed call of a function makes in a store. -/
def changes (which : Context.Store) (f : Builtin) (values : List Value) : List Change :=
  (f.operations values).flatMap (Operation.changes which)

end Builtin

/-- The header is changed or nothing is. -/
theorem Context.atomic_setMimeType (t : Text) : Action.Atomic (Context.setMimeType t) :=
  fun _ _ _ h => Context.Setting.eq_of_error (s := .mimeType t) h

namespace Builtin

/-- A call that fails leaves the context as it was. -/
theorem atomic_call (f : Builtin) (values : List Value) : Action.Atomic (f.call values) := by
  have hread {α : Type} (r : Except Fault α) :
      Action.Preserves (· = ·) (Action.ofExcept r : Action Context α) := .ofExcept r
  unfold call
  split
  · next x =>
      exact .bind_of_reads (hread _) fun n => .bind_of_reads (hread _) fun y => .pure _
  · next pattern x =>
      exact .bind_of_reads (hread _) fun n => .bind_of_reads (hread _) fun p =>
        .bind_of_reads (hread _) fun t => .pure _
  · exact .pure _
  · exact .pure _
  · next x =>
      exact .bind_of_reads (hread _) fun t => (Context.atomic_setMimeType t).bind_pure fun _ => []
  · next default x =>
      exact .bind_of_reads (hread _) fun key => .bind_of_reads .get fun c => .pure _
  · next store default x =>
      exact .bind_of_reads (hread _) fun key => .bind_of_reads .get fun c => .pure _
  · next store value x =>
      exact .bind_of_reads (hread _) fun key => .bind_of_reads (hread _) fun t =>
        (Action.Atomic.modify _).bind_pure fun _ => []
  · next store x =>
      exact .bind_of_reads (hread _) fun key => (Action.Atomic.modify _).bind_pure fun _ => []
  · exact .throw _

/-- A call leaves the parameters that its changes leave. -/
theorem get?_call (f : Builtin) (values : List Value) (c : Context) (which : Context.Store) :
    (((f.call values).runIn c).2.store which).get? =
      (f.changes which values).foldl Change.apply (c.store which).get? := by
  rw [context_call, Operation.get?_applyAll_eq]
  rfl

/-- A completed call that sets a parameter has found the texts of the name and of the value. -/
theorem changes_set {which : Context.Store} {values results : List Value} {c c' : Context}
    (h : ((Builtin.set which).call values).runIn c = (.ok results, c')) :
    ∃ value x name t, values = [value, x] ∧ x.toText = .ok name ∧ value.toText = .ok t ∧
      (Builtin.set which).changes which values = [⟨name, some t⟩] := by
  match values, h with
  | [value, x], h =>
      simp only [call, Action.runIn_bind, Action.runIn_ofExcept] at h
      cases hx : x.toText with
      | error fault =>
          simp [hx] at h
      | ok name =>
          cases hvalue : value.toText with
          | error fault =>
              simp [hx, hvalue] at h
          | ok t =>
              refine ⟨value, x, name, t, rfl, hx, hvalue, ?_⟩
              simp [changes, operations, hx, hvalue, Operation.changes]
  | [], h | [_], h | _ :: _ :: _ :: _, h =>
      simp [call] at h

/-- A completed call that removes a parameter has found the text of the name. -/
theorem changes_del {which : Context.Store} {values results : List Value} {c c' : Context}
    (h : ((Builtin.del which).call values).runIn c = (.ok results, c')) :
    ∃ x name, values = [x] ∧ x.toText = .ok name ∧
      (Builtin.del which).changes which values = [⟨name, none⟩] := by
  match values, h with
  | [x], h =>
      simp only [call, Action.runIn_bind, Action.runIn_ofExcept] at h
      cases hx : x.toText with
      | error fault =>
          simp [hx] at h
      | ok name =>
          refine ⟨x, name, rfl, hx, ?_⟩
          simp [changes, operations, hx, Operation.changes]
  | [], h | _ :: _ :: _, h =>
      simp [call] at h

/-- No other function changes the parameters in a store. -/
theorem changes_of_ne {which : Context.Store} {f : Builtin} (hset : f ≠ .set which)
    (hdel : f ≠ .del which) (values : List Value) : f.changes which values = [] := by
  unfold changes operations
  split
  · split
    · rfl
    · rfl
  · next store value x =>
      have hne : store ≠ which := fun h => hset (h ▸ rfl)
      split
      · simp [Operation.changes, hne]
      · rfl
  · next store x =>
      have hne : store ≠ which := fun h => hdel (h ▸ rfl)
      split
      · simp [Operation.changes, hne]
      · rfl
  · rfl

end Builtin

open Machine

namespace Point

variable {limit : Option Int}

/-- A call that a task makes is completed, or the task fails and leaves the context as it was. -/
theorem perform_call_cases (limit : Option Int) (x : Text) (m : Machine) :
    (∃ fault m', (perform limit (.token (.call x))).runIn m = (.error fault, m') ∧
      m'.context = m.context) ∨
    ∃ f results m', Builtin.lookup x = .ok f ∧
      (perform limit (.token (.call x))).runIn m = (.ok [], m') ∧
      (f.call ((m.store.stack register).take f.arity)).runIn m.context =
        (.ok results, m'.context) := by
  obtain ⟨outcome, steps, hcharge⟩ := runIn_charge limit m
  cases outcome with
  | error fault =>
      refine Or.inl ⟨fault, { m with steps := steps }, ?_, rfl⟩
      rw [perform, Action.runIn_bind, hcharge]
  | ok _ =>
      have hperform : ∀ {outcome m'},
          (evaluate (.call x)).runIn { m with steps := steps } = (outcome, m') →
          (perform limit (.token (.call x))).runIn m = (outcome.map fun _ => [], m') := by
        intro outcome m' hevaluate
        simp only [perform, Action.runIn_bind, hcharge, hevaluate]
        cases outcome <;> rfl
      cases hf : Builtin.lookup x with
      | error fault =>
          have hevaluate : (evaluate (.call x)).runIn { m with steps := steps } =
              (.error fault, { m with steps := steps }) := by
            simp [evaluate, Action.runIn_bind, hf]
          exact Or.inl ⟨fault, _, hperform hevaluate, rfl⟩
      | ok f =>
          by_cases hlt : (m.store.stack register).length < f.arity
          · have hevaluate : (evaluate (.call x)).runIn { m with steps := steps } =
                (.error (.missingOperands (.char '@' :: x) f.arity (m.store.stack register).length),
                  { m with steps := steps }) := by
              simp only [evaluate, Action.runIn_bind, Action.runIn_ofExcept, hf, runIn_require,
                if_pos hlt]
            exact Or.inl ⟨_, _, hperform hevaluate, rfl⟩
          · have hlength : ((m.store.stack register).take f.arity).length = f.arity :=
              List.length_take_of_le (Nat.le_of_not_lt hlt)
            have hstack := (List.take_append_drop f.arity (m.store.stack register)).symm
            cases hcall : (f.call ((m.store.stack register).take f.arity)).runIn m.context with
            | mk outcome c =>
                cases outcome with
                | ok results =>
                    obtain ⟨m', hevaluate, hcontext, -⟩ :=
                      evaluate_call_ok (m := { m with steps := steps }) hf hstack hlength hcall
                    exact Or.inr ⟨f, results, m', rfl, hperform hevaluate, hcontext ▸ hcall⟩
                | error fault =>
                    obtain ⟨store, -, hevaluate⟩ :=
                      runIn_evaluate_call (m := { m with steps := steps }) hf hstack hlength
                    rw [Action.runIn_bind, runIn_onContext, hcall] at hevaluate
                    exact Or.inl ⟨fault, _, hperform hevaluate,
                      Builtin.atomic_call f _ _ _ _ hcall⟩

/-- The function that the next task of a point calls and the values that it takes, if the call is
completed. -/
def completed (limit : Option Int) : Point → List (Builtin × List Value)
  | ⟨.token (.call x) :: _, _, m⟩ =>
      match ((perform limit (.token (.call x))).runIn m).1, Builtin.lookup x with
      | .ok _, .ok f => [(f, (m.store.stack register).take f.arity)]
      | _, _ => []
  | _ => []

/-- The changes that the next task of a point makes in a store. -/
def changes (limit : Option Int) (which : Context.Store) (p : Point) : List Change :=
  (completed limit p).flatMap fun call => call.1.changes which call.2

theorem changes_of_no_call {task : Task} (h : ∀ x, task ≠ .token (.call x))
    (which : Context.Store) (rest : List Task) (frames : List Frame) (m : Machine) :
    changes limit which ⟨task :: rest, frames, m⟩ = [] := by
  unfold changes completed
  split
  · next x _ _ _ hpoint =>
      obtain ⟨htasks, -, -⟩ := Point.mk.inj hpoint
      exact absurd (List.cons.inj htasks).1 (h x)
  · rfl

/-- A task leaves the parameters that its changes leave. -/
theorem get?_perform (task : Task) (rest : List Task) (frames : List Frame) (m : Machine)
    (which : Context.Store) :
    (((perform limit task).runIn m).2.context.store which).get? =
      (changes limit which ⟨task :: rest, frames, m⟩).foldl Change.apply
        (m.context.store which).get? := by
  by_cases hcall : ∃ x, task = .token (.call x)
  · obtain ⟨x, rfl⟩ := hcall
    rcases perform_call_cases limit x m with
      ⟨fault, m', hperform, hcontext⟩ | ⟨f, results, m', hf, hperform, hrun⟩
    · simp only [changes, completed, hperform, hcontext]
      rfl
    · have hcall := Builtin.get?_call f ((m.store.stack register).take f.arity) m.context which
      rw [hrun] at hcall
      simp only [changes, completed, hperform, hf, List.flatMap_cons, List.flatMap_nil,
        List.append_nil]
      exact hcall
  · have hno : ∀ x, task ≠ .token (.call x) := fun x h => hcall ⟨x, h⟩
    have hwrites : operations limit ⟨task :: rest, frames, m⟩ =
        (written limit ⟨task :: rest, frames, m⟩).map .write := by
      have hnone : called limit ⟨task :: rest, frames, m⟩ = [] := by
        unfold called
        split <;> simp_all
      rw [operations, hnone, List.append_nil]
    have hsame : ∀ texts : List Text,
        (texts.map Operation.write).flatMap (Operation.changes which) = [] := by
      simp [Operation.changes]
    rw [context_perform_eq task rest frames, Operation.get?_applyAll_eq, hwrites, hsame,
      changes_of_no_call hno]

/-- No task changes the parameters of the request. -/
theorem request_perform (limit : Option Int) (task : Task) (m : Machine) :
    ((perform limit task).runIn m).2.context.request = m.context.request := by
  have : IsPreorder Context fun c c' => c'.request = c.request :=
    { refl := fun _ => rfl, trans := fun _ _ _ h h' => h'.trans h }
  have : IsPreorder Machine fun m m' => m'.context.request = m.context.request :=
    { refl := fun _ => rfl, trans := fun _ _ _ h h' => h'.trans h }
  have hcharge : Action.Preserves
      (fun m m' : Machine => m'.context.request = m.context.request) (charge limit) := by
    intro m
    obtain ⟨outcome, steps, hcharge⟩ := runIn_charge limit m
    rw [hcharge]
  refine preserves_perform (fun _ _ => rfl) (fun f values m => ?_) (fun t m => ?_) hcharge task m
  · exact Context.preserves_call (R := fun c c' => c'.request = c.request) (fun _ _ => rfl)
      (fun which _ _ => by cases which <;> rfl) f values m.context
  · exact Context.preserves_write (R := fun c c' => c'.request = c.request) (fun _ => rfl)
      (fun _ _ => rfl) t m.context

/-- However many tasks are worked off, they leave the parameters that their changes leave, and those
of the request as they were. -/
theorem parameters_work (bound : Nat) (tasks : List Task) (frames : List Frame) (m : Machine) :
    (Machine.work limit bound tasks m).2.context.request = m.context.request ∧
    ∀ which, ((Machine.work limit bound tasks m).2.context.store which).get? =
      (log limit (changes limit which) bound ⟨tasks, frames, m⟩).foldl Change.apply
        (m.context.store which).get? := by
  induction bound generalizing tasks frames m with
  | zero =>
      cases tasks <;> exact ⟨rfl, fun _ => rfl⟩
  | succ bound ih =>
      cases tasks with
      | nil =>
          exact ⟨rfl, fun _ => rfl⟩
      | cons task rest =>
          have hrequest := request_perform limit task m
          have htask := @get?_perform limit task rest frames m
          cases hperform : (perform limit task).runIn m with
          | mk outcome m' =>
              rw [hperform] at hrequest htask
              cases outcome with
              | error fault =>
                  simp only [Machine.work, hperform, log, next?, List.append_nil]
                  exact ⟨hrequest, htask⟩
              | ok brought =>
                  obtain ⟨hrest, hstores⟩ :=
                    ih (brought ++ rest) (Frame.follow task brought frames) m'
                  simp only [Machine.work, hperform, log, next?, List.foldl_append]
                  refine ⟨hrest.trans hrequest, fun which => ?_⟩
                  rw [hstores which]
                  exact congrArg (fun parameters => List.foldl Change.apply parameters _)
                    (htask which)

/-- A task that calls no function which changes the parameters in a store leaves them alone. -/
theorem store_perform {task : Task} {which : Context.Store}
    (h : ∀ x, task = .token (.call x) →
      x ≠ (Builtin.set which).name ∧ x ≠ (Builtin.del which).name)
    (m : Machine) :
    ((perform limit task).runIn m).2.context.store which = m.context.store which := by
  have hnone : changes limit which ⟨[task], [], m⟩ = [] := by
    by_cases hcall : ∃ x, task = .token (.call x)
    · obtain ⟨x, rfl⟩ := hcall
      obtain ⟨hset, hdel⟩ := h x rfl
      simp only [changes, completed]
      split
      · next f _ hf =>
          have hname := Builtin.name_of_lookup hf
          have hne : f ≠ .set which ∧ f ≠ .del which :=
            ⟨fun heq => hset (heq ▸ hname), fun heq => hdel (heq ▸ hname)⟩
          have hchanges := Builtin.changes_of_ne hne.1 hne.2
          simp [hchanges]
      · rfl
    · exact changes_of_no_call (fun x heq => hcall ⟨x, heq⟩) which [] [] m
  refine Index.ext_get? fun key => ?_
  have hperform := @get?_perform limit task [] [] m which
  rw [hnone] at hperform
  exact congrFun hperform key

end Point

namespace Document

open Point

/-- The changes that the calls completed by the first tasks of a run make in a store. -/
def changes (d : Document) (limit : Option Int) (context : Context) (which : Context.Store)
    (tasks : Nat) : List Change :=
  log limit (Point.changes limit which) tasks (.start d context)

/-- What a run of a document does to the parameters, with a budget or without.

* After any number of tasks, whether the run goes on, has failed or has succeeded by then, the
  parameters of the request are those of the beginning, and those in a store are what the changes of
  the completed calls make of them, one after another.
* A task changes nothing in a store unless it calls one of the two functions that do.
* A completed call that sets a parameter gives the name that is the text of its second value the
  text of its first value; one that removes a parameter removes the name that is the text of its
  value; a call of another function changes nothing in the store.
* A call that fails, whatever it is called on, leaves the whole context as it was. -/
theorem parameters_of_run (d : Document) (limit : Option Int) (context : Context) :
    (∀ tasks, let m := (Machine.work limit tasks [.document d] (.start context)).2
      m.context.request = context.request ∧
        ∀ which, (m.context.store which).get? =
          (d.changes limit context which tasks).foldl Change.apply (context.store which).get?) ∧
    (∀ (which : Context.Store) (task : Task) (m : Machine),
      (∀ x, task = .token (.call x) →
        x ≠ (Builtin.set which).name ∧ x ≠ (Builtin.del which).name) →
      ((perform limit task).runIn m).2.context.store which = m.context.store which) ∧
    (∀ (which : Context.Store) (values results : List Value) (c c' : Context),
      (((Builtin.set which).call values).runIn c = (.ok results, c') →
        ∃ value x name t, values = [value, x] ∧ x.toText = .ok name ∧ value.toText = .ok t ∧
          (Builtin.set which).changes which values = [⟨name, some t⟩]) ∧
      (((Builtin.del which).call values).runIn c = (.ok results, c') →
        ∃ x name, values = [x] ∧ x.toText = .ok name ∧
          (Builtin.del which).changes which values = [⟨name, none⟩]) ∧
      ∀ f, f ≠ Builtin.set which → f ≠ .del which → f.changes which values = []) ∧
    ∀ (f : Builtin) (values : List Value) (c c' : Context) (fault : Fault),
      (f.call values).runIn c = (.error fault, c') → c' = c := by
  refine ⟨fun tasks => parameters_work tasks _ [] _, fun which task m h => store_perform h m,
    fun which values results c c' => ⟨Builtin.changes_set, Builtin.changes_del, ?_⟩,
    fun f values c c' fault h => Builtin.atomic_call f values c fault c' h⟩
  exact fun f hset hdel => Builtin.changes_of_ne hset hdel values

/-- An echo tag that sets two parameters, removes one of them and then divides by zero. -/
def failingEcho : Document :=
  [.echo [.text ['k'], .text ['a'], .call (Builtin.set .persistent).name,
    .text ['j'], .number (.int 2), .call (Builtin.set .persistent).name,
    .text ['k'], .call (Builtin.del .persistent).name,
    .number (.int 1), .number (.int 0), .operator .over]]

/-- A context with one parameter. -/
def storedContext : Context :=
  .start .empty (Index.empty.put ['m'] ['z']) [] { sendsHeader := false }

/-- The run fails, and what its calls have changed stays. -/
theorem parameters_of_failingEcho :
    parse "[$= \"k\" \"a\" @pparamSet \"j\" 2 @pparamSet \"k\" @pparamDel 1 0 / $]".toText =
        .ok failingEcho ∧
      (failingEcho.run (some 20) storedContext).1 = .failed .divisionByZero ∧
      failingEcho.changes (some 20) storedContext .persistent 42 =
        [⟨['k'], some ['a']⟩, ⟨['j'], some ['2']⟩, ⟨['k'], none⟩] ∧
      (failingEcho.run (some 20) storedContext).2.context.persistent.get? [.char 'k'] = none ∧
      (failingEcho.run (some 20) storedContext).2.context.persistent.get? [.char 'j'] =
        some [.char '2'] ∧
      (failingEcho.run (some 20) storedContext).2.context.persistent.get? [.char 'm'] =
        some [.char 'z'] := by
  have hchanges : failingEcho.changes (some 20) storedContext .persistent 42 =
      [⟨['k'], some ['a']⟩, ⟨['j'], some ['2']⟩, ⟨['k'], none⟩] := by rfl
  obtain ⟨hrun, -, -, -⟩ := parameters_of_run failingEcho (some 20) storedContext
  have hpersistent := (hrun 42).2 .persistent
  rw [hchanges] at hpersistent
  exact ⟨by rfl, by decide, hchanges, congrFun hpersistent ['k'], congrFun hpersistent ['j'],
    congrFun hpersistent ['m']⟩

end Document
end Stencil
