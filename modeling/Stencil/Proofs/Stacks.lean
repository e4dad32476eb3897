import Stencil.NamedStacks

/-!
# Named stacks as functions of the name

Stacks are `Tidy` if no name is stored with an empty stack.  Every operation keeps that, and tidy
stacks are known by the stack of each name (`ext_stack`).
-/

namespace Stencil
namespace NamedStacks

/-- No name is stored with an empty stack. -/
def Tidy (s : NamedStacks) : Prop := ∀ x, s.index.get? x ≠ some []

theorem tidy_empty : empty.Tidy := by
  intro x
  simp [empty]

theorem Tidy.set {s : NamedStacks} (h : s.Tidy) (x : Text) (values : List Value) :
    (s.set x values).Tidy := by
  intro y
  unfold NamedStacks.set
  split
  · rw [Index.get?_erase]
    split
    · simp
    · exact h y
  · next hne =>
      rw [Index.get?_put]
      split
      · simpa using hne
      · exact h y

theorem Tidy.push {s : NamedStacks} (h : s.Tidy) (x : Text) (v : Value) : (s.push x v).Tidy :=
  h.set x _

theorem Tidy.drain {s : NamedStacks} (h : s.Tidy) (x : Text) : (s.drain x).2.Tidy :=
  h.set x []

/-- The top value is taken and the stack is what is below it. -/
theorem pop_of_stack {s : NamedStacks} {x : Text} {v : Value} {rest : List Value}
    (h : s.stack x = v :: rest) : s.pop x = .ok (v, s.set x rest) := by
  simp [pop, h]

theorem peek_of_stack {s : NamedStacks} {x : Text} {v : Value} {rest : List Value}
    (h : s.stack x = v :: rest) : s.peek x = .ok v := by
  simp [peek, h]

theorem Tidy.pop {s s' : NamedStacks} {x : Text} {v : Value} (h : s.Tidy)
    (hpop : s.pop x = .ok (v, s')) : s'.Tidy := by
  unfold NamedStacks.pop at hpop
  split at hpop
  · simp at hpop
  · obtain ⟨-, rfl⟩ := Prod.mk.inj (Except.ok.inj hpop)
    exact h.set x _

/-- Taking the top value of one stack leaves the others as they are. -/
theorem stack_pop_of_ne {s s' : NamedStacks} {x y : Text} {v : Value}
    (hpop : s.pop x = .ok (v, s')) (hne : y ≠ x) : s'.stack y = s.stack y := by
  rw [stack_pop hpop, if_neg hne]

/-- An entry is the stack of its name, unless that is empty. -/
theorem Tidy.get?_eq {s : NamedStacks} (h : s.Tidy) (x : Text) :
    s.index.get? x = if s.stack x = [] then none else some (s.stack x) := by
  have hx := h x
  unfold stack
  cases hget : s.index.get? x with
  | none =>
      simp
  | some values =>
      rw [hget] at hx
      have hne : values ≠ [] := fun hnil => hx (congrArg some hnil)
      simp [hne]

/-- Tidy stacks are known by the stack of each name. -/
theorem ext_stack {s t : NamedStacks} (hs : s.Tidy) (ht : t.Tidy)
    (h : ∀ x, s.stack x = t.stack x) : s = t := by
  have hindex : s.index = t.index := by
    apply Index.ext_get?
    intro x
    rw [hs.get?_eq, ht.get?_eq, h x]
  cases s
  cases t
  exact congrArg NamedStacks.mk hindex

end NamedStacks
end Stencil
