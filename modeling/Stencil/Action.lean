import Stencil.Fault

/-!
# Actions

A computation that changes a state and may fail.  What it has changed before a failure stays.
-/

namespace Stencil

/-- A computation on a state of type `σ` that may fail with a fault. -/
abbrev Action (σ α : Type) := ExceptT Fault (StateM σ) α

namespace Action

variable {σ α : Type}

/-- The outcome of an action in a state, and the state after it. -/
def runIn (act : Action σ α) (s : σ) : Except Fault α × σ := (act.run.run s).run

/-- A result that does not depend on the state. -/
def ofExcept : Except Fault α → Action σ α
  | .ok a => pure a
  | .error f => throw f

@[simp] theorem runIn_pure (a : α) (s : σ) : (pure a : Action σ α).runIn s = (.ok a, s) := rfl

@[simp] theorem runIn_throw (f : Fault) (s : σ) :
    (throw f : Action σ α).runIn s = (.error f, s) := rfl

@[simp] theorem runIn_get (s : σ) : (get : Action σ σ).runIn s = (.ok s, s) := rfl

@[simp] theorem runIn_modify (g : σ → σ) (s : σ) :
    (modify g : Action σ PUnit).runIn s = (.ok ⟨⟩, g s) := rfl

theorem runIn_bind {β : Type} (act : Action σ α) (next : α → Action σ β) (s : σ) :
    (act >>= next).runIn s =
      match act.runIn s with
      | (.ok a, s') => (next a).runIn s'
      | (.error f, s') => (.error f, s') := by
  show ExceptT.bindCont next _ _ = _
  unfold runIn
  rcases h : (act.run.run s).run with ⟨outcome, s'⟩
  cases outcome <;> simp_all [ExceptT.bindCont, ExceptT.run, StateT.run, Id.run]
  rfl

@[simp] theorem runIn_ofExcept (r : Except Fault α) (s : σ) :
    (ofExcept r : Action σ α).runIn s = (r, s) := by
  cases r <;> rfl

end Action
end Stencil
