import Stencil.Fault
import Stencil.Index

/-!
# Named stacks

A stack of values for every name.  Only the names whose stack holds something are stored, each with
the top of its stack first.

Loop counters are pushed under their own names, so that an inner loop with the same counter hides
the outer one until it ends.
-/

namespace Stencil

/-- The stacks that hold something, each with its top first. -/
structure NamedStacks where
  index : Index (List Value)
deriving DecidableEq

namespace NamedStacks

/-- All stacks are empty. -/
def empty : NamedStacks := ⟨.empty⟩

/-- The stack of a name, with its top first. -/
def stack (s : NamedStacks) (x : Text) : List Value := (s.index.get? x).getD []

/-- The stacks with `values` as the one of `x`. -/
def set (s : NamedStacks) (x : Text) (values : List Value) : NamedStacks :=
  if values = [] then ⟨s.index.erase x⟩ else ⟨s.index.put x values⟩

theorem stack_empty (x : Text) : empty.stack x = [] := rfl

theorem stack_set (s : NamedStacks) (x y : Text) (values : List Value) :
    (s.set x values).stack y = if y = x then values else s.stack y := by
  unfold set stack
  split
  · next h =>
      rw [Index.get?_erase]
      split <;> simp [h]
  · rw [Index.get?_put]
    split <;> rfl

/-- Puts a value on top. -/
def push (s : NamedStacks) (x : Text) (v : Value) : NamedStacks := s.set x (v :: s.stack x)

theorem stack_push (s : NamedStacks) (x y : Text) (v : Value) :
    (s.push x v).stack y = if y = x then v :: s.stack x else s.stack y :=
  stack_set s x y (v :: s.stack x)

/-- Takes the top value. -/
def pop (s : NamedStacks) (x : Text) : Except Fault (Value × NamedStacks) :=
  match s.stack x with
  | [] => .error (.emptyStack x)
  | v :: rest => .ok (v, s.set x rest)

theorem pop_eq_error_iff (s : NamedStacks) (x : Text) (fault : Fault) :
    s.pop x = .error fault ↔ s.stack x = [] ∧ fault = .emptyStack x := by
  unfold pop
  split
  · next h => simp [h, eq_comm]
  · next h => simp [h]

theorem stack_pop {s s' : NamedStacks} {x : Text} {v : Value} (h : s.pop x = .ok (v, s'))
    (y : Text) : s.stack y = if y = x then v :: s'.stack x else s'.stack y := by
  unfold pop at h
  split at h
  · simp at h
  · next top rest hstack =>
      obtain ⟨rfl, rfl⟩ := Prod.mk.inj (Except.ok.inj h)
      rw [stack_set, stack_set]
      by_cases hyx : y = x <;> simp [hyx, hstack]

/-- The top value. -/
def peek (s : NamedStacks) (x : Text) : Except Fault Value :=
  match s.stack x with
  | [] => .error (.emptyStack x)
  | v :: _ => .ok v

/-- Nothing is on the stack. -/
def isEmpty (s : NamedStacks) (x : Text) : Bool := (s.stack x).isEmpty

/-- The number of values on the stack. -/
def depth (s : NamedStacks) (x : Text) : Nat := (s.stack x).length

/-- Takes all values, in the order in which they were pushed. -/
def drain (s : NamedStacks) (x : Text) : List Value × NamedStacks :=
  ((s.stack x).reverse, s.set x [])

theorem stack_drain (s : NamedStacks) (x y : Text) :
    (s.drain x).2.stack y = if y = x then [] else s.stack y :=
  stack_set s x y []

/-- The names whose stack holds something, each of them once. -/
def names (s : NamedStacks) : List Text := s.index.names

end NamedStacks
end Stencil
