import Stencil.Builtin
import Stencil.Document.Basic
import Stencil.NamedStacks

/-!
# Tasks of a run

A run works off a list of tasks.  A task changes the machine and may put further tasks in front of
those that are left: a node of the document puts there what it is made of, and a loop puts its body
there, followed by the task that counts on.

**Steps.**  Every visit of a node, every token and every iteration of a loop that has ended is one
step.  A step is charged before the task does anything else, and if the budget is used up the run
fails there.

**Scopes.**  The values of an echo tag are on the stack of `register`, which no loop counter can be
named by.  A counter is on the stack of its own name, from the start of its loop until the loop ends
or fails.
-/

namespace Stencil

/-- The changing parts of a run: the stacks of values, what the script can reach outside, and the
steps that have been charged. -/
structure Machine where
  store : NamedStacks
  context : Context
  steps : Nat

/-- A loop that has been entered: its counter, the last value, the step, and the body. -/
structure Loop where
  counter : Text
  last : Number
  step : Number
  body : List Node

/-- A piece of work that is left to do. -/
inductive Task
  /-- The whole document. -/
  | document (nodes : List Node)
  /-- A node. -/
  | visit (node : Node)
  /-- A token of an echo tag. -/
  | token (t : Token)
  /-- The end of an echo tag, which writes what its tokens have left. -/
  | emit
  /-- The test that starts an iteration of a loop or ends the loop. -/
  | test (loop : Loop)
  /-- The end of an iteration. -/
  | next (loop : Loop)

/-- The stack that the tokens of an echo tag work on. -/
def register : Text := "#echo".toText

namespace Machine

/-- A machine about to run in a context. -/
def start (context : Context) : Machine := ⟨.empty, context, 0⟩

/-- An action on the context. -/
def onContext {α : Type} (act : Action Context α) : Action Machine α :=
  fun ⟨store, context, steps⟩ =>
    let (outcome, context) := act.runIn context
    (outcome, ⟨store, context, steps⟩)

/-- Charges a step, unless the budget is used up. -/
def charge (limit : Option Int) : Action Machine Unit := do
  let m ← get
  match limit with
  | some n => if n ≤ m.steps then throw (.stepLimit n)
  | none => pure ()
  modify fun m => { m with steps := m.steps + 1 }

/-- Puts a value on the stack of a name. -/
def push (x : Text) (v : Value) : Action Machine Unit :=
  modify fun m => { m with store := m.store.push x v }

/-- Takes the top value from the stack of a name. -/
def pop (x : Text) : Action Machine Value := do
  let (v, store) ← Action.ofExcept ((← get).store.pop x)
  modify fun m => { m with store := store }
  return v

theorem runIn_onContext {α : Type} (act : Action Context α) (m : Machine) :
    (onContext act).runIn m =
      ((act.runIn m.context).1, { m with context := (act.runIn m.context).2 }) := rfl

theorem runIn_charge_none (m : Machine) :
    (charge none).runIn m = (.ok ⟨⟩, { m with steps := m.steps + 1 }) := rfl

theorem runIn_charge_some (n : Int) (m : Machine) :
    (charge (some n)).runIn m =
      if n ≤ m.steps then (.error (.stepLimit n), m)
      else (.ok ⟨⟩, { m with steps := m.steps + 1 }) := by
  simp only [charge, Action.runIn_bind, Action.runIn_get]
  split <;> simp_all

@[simp] theorem runIn_push (x : Text) (v : Value) (m : Machine) :
    (push x v).runIn m = (.ok ⟨⟩, { m with store := m.store.push x v }) := rfl

theorem runIn_pop (x : Text) (m : Machine) :
    (pop x).runIn m =
      match m.store.pop x with
      | .ok (v, store) => (.ok v, { m with store := store })
      | .error fault => (.error fault, m) := by
  simp only [pop, Action.runIn_bind, Action.runIn_get, Action.runIn_ofExcept]
  cases m.store.pop x <;> rfl

/-- Puts values on the register, in order. -/
def pushAll (values : List Value) : Action Machine Unit := values.forM (push register)

/-- Takes values from the register, the topmost first. -/
def popMany : Nat → Action Machine (List Value)
  | 0 => return []
  | n + 1 => do
      let v ← pop register
      return v :: (← popMany n)

/-- Fails if the register holds too few values for an operator or a function. -/
def require (consumer : Text) (needed : Nat) : Action Machine Unit := do
  let given := (← get).store.depth register
  if given < needed then throw (.missingOperands consumer needed given)

/-- Evaluates a token.  The right operand of an operator is the one that was pushed last.  If there
are too few operands, none is taken. -/
def evaluate : Token → Action Machine Unit
  | .number n => push register (.number n)
  | .text t => push register (.text t)
  | .var x => do
      let m ← get
      if m.store.isEmpty x then throw (.unbound x)
      push register (← Action.ofExcept (m.store.peek x))
  | .operator op => do
      require [op.symbol] 2
      let right ← pop register
      let left ← pop register
      push register (.number (← Action.ofExcept (left.apply op right)))
  | .call x => do
      let f ← Action.ofExcept (Builtin.lookup x)
      require ('@' :: x) f.arity
      let values ← popMany f.arity
      pushAll (← onContext (f.call values))

/-- The number that a literal writes. -/
def boundOf (bound : LoopBound) : Token → Except Fault Number
  | .number n => .ok n
  | t => .error (.loopBound bound t)

/-- The loop that a head describes, and the first value of its counter. -/
def loopOf (head : LoopHead) (body : List Node) : Except Fault (Number × Loop) := do
  let first ← boundOf .first head.first
  let last ← boundOf .last head.last
  let step ← match head.step with
    | some t => boundOf .step t
    | none => .ok (.int 1)
  return (first, ⟨head.counter, last, step, body⟩)

/-- Writes what the tokens of an echo tag have left, in the order in which it was pushed. -/
def emit : Action Machine Unit := do
  let (values, store) := (← get).store.drain register
  modify fun m => { m with store := store }
  let texts ← Action.ofExcept (values.mapM Value.toText)
  onContext (Context.write texts.flatten)

/-- Starts an iteration if the counter has not passed the last value, and else ends the loop. -/
def test (loop : Loop) : Action Machine (List Task) := do
  let v ← Action.ofExcept ((← get).store.peek loop.counter)
  if (← Action.ofExcept (v.compare (.number loop.last))) ≠ .gt then
    return loop.body.map .visit ++ [.next loop]
  else
    let _ ← pop loop.counter
    return []

/-- Counts on after an iteration. -/
def next (limit : Option Int) (loop : Loop) : Action Machine (List Task) := do
  let v ← pop loop.counter
  push loop.counter (.number (← Action.ofExcept (v.apply .plus (.number loop.step))))
  charge limit
  return [.test loop]

/-- Does a task, and returns the tasks to do before those that are left. -/
def perform (limit : Option Int) : Task → Action Machine (List Task)
  | .document nodes => do
      charge limit
      return nodes.map .visit
  | .visit (.text content) => do
      charge limit
      onContext (Context.write content)
      return []
  | .visit (.echo tokens) => do
      charge limit
      return tokens.map .token ++ [.emit]
  | .visit (.loop head _ body) => do
      charge limit
      let (first, loop) ← Action.ofExcept (loopOf head body)
      push loop.counter (.number first)
      return [.test loop]
  | .token t => do
      charge limit
      evaluate t
      return []
  | .emit => do
      emit
      return []
  | .test loop => test loop
  | .next loop => next limit loop

end Machine

/-- The counter that is given up if the run fails before the task is done. -/
def Task.counter? : Task → Option Text
  | .test loop | .next loop => some loop.counter
  | _ => none

/-- Gives up the counters of the tasks that are left, the innermost first.  A counter that is not
there would be a fault of its own and take the place of the one before. -/
def Machine.giveUp : List Task → Fault → NamedStacks → Fault × NamedStacks
  | [], fault, store => (fault, store)
  | task :: rest, fault, store =>
      match task.counter? with
      | none => giveUp rest fault store
      | some x =>
          match store.pop x with
          | .ok (_, store) => giveUp rest fault store
          | .error fault => giveUp rest fault store

end Stencil
