import Mathlib.Order.Defs.Unbundled
import Stencil.Action

/-!
# What actions keep and how they fail

Five kinds of facts about actions are put together from their parts.

* `Action.Preserves R`: the state after the action, whether it succeeds or fails, is related to the
  state before it by the preorder `R`.
* `Action.Upholds I R P`: the invariant `I` holds after the action, whether it succeeds or fails, if
  it holds before it; the result then has the property `R`, and the fault the property `P`.
* `Action.Agrees R E`: two actions that begin in states related by `R` end in such states, with the
  same fault or with results related by `E`.
* `Action.Transfers R`: where the action succeeds it does so in every related state too, with the
  same result, and ends in related states.  It may fail in the one and succeed in the other.
* `Action.Atomic`: where the action fails it leaves the state as it was.

There is one lemma of each kind for each of the ways in which actions are built.  `Meets R P` says
of an outcome that it is a result with the property `R` or a failure with the property `P`.
-/

namespace Stencil

/-- A computation in two parts succeeds if both parts do. -/
theorem bind_eq_ok_iff {ε α β : Type} {x : Except ε α} {next : α → Except ε β} {b : β} :
    x >>= next = .ok b ↔ ∃ a, x = .ok a ∧ next a = .ok b := by
  cases x <;> simp [bind, Except.bind]

/-- A computation in two parts fails if one of the parts does. -/
theorem bind_eq_error_iff {ε α β : Type} {x : Except ε α} {next : α → Except ε β} {e : ε} :
    x >>= next = .error e ↔ x = .error e ∨ ∃ a, x = .ok a ∧ next a = .error e := by
  cases x <;> simp [bind, Except.bind]

/-- The outcome of a computation is a result or a failure with a property. -/
def Meets {ε α : Type} (R : α → Prop) (P : ε → Prop) : Except ε α → Prop
  | .ok a => R a
  | .error e => P e

theorem Meets.bind {ε α β : Type} {R : α → Prop} {R' : β → Prop} {P : ε → Prop} {x : Except ε α}
    {next : α → Except ε β} (h : Meets R P x) (hnext : ∀ a, R a → Meets R' P (next a)) :
    Meets R' P (x >>= next) := by
  cases x with
  | error e =>
      exact h
  | ok a =>
      exact hnext a h

/-- A computation for each item of a list fails as one of them does. -/
theorem meets_mapM {ε α β : Type} {P : ε → Prop} {f : α → Except ε β} {as : List α}
    (h : ∀ a ∈ as, Meets (fun _ => True) P (f a)) : Meets (fun _ => True) P (as.mapM f) := by
  induction as with
  | nil =>
      exact trivial
  | cons a as ih =>
      rw [List.mapM_cons]
      exact (h a List.mem_cons_self).bind fun _ _ =>
        (ih fun a' ha' => h a' (List.mem_cons_of_mem _ ha')).bind fun _ _ => trivial

namespace Action

variable {σ α β : Type}

/-- The state after the action is related to the state before it. -/
def Preserves (R : σ → σ → Prop) (act : Action σ α) : Prop :=
  ∀ s, R s (act.runIn s).2

/-- Where an invariant holds the action keeps it, and its outcome meets the properties of results
and faults. -/
def Upholds (I : σ → Prop) (R : α → Prop) (P : Fault → Prop) (act : Action σ α) : Prop :=
  ∀ s, I s → I (act.runIn s).2 ∧ Meets R P (act.runIn s).1

section Preserves

variable {R : σ → σ → Prop} [IsPreorder σ R]

theorem Preserves.pure (a : α) : Preserves R (pure a : Action σ α) :=
  fun s => refl_of R s

theorem Preserves.throw (f : Fault) : Preserves R (throw f : Action σ α) :=
  fun s => refl_of R s

theorem Preserves.get : Preserves R (get : Action σ σ) :=
  fun s => refl_of R s

theorem Preserves.ofExcept (r : Except Fault α) : Preserves R (ofExcept r : Action σ α) := by
  intro s
  rw [runIn_ofExcept]
  exact refl_of R s

theorem Preserves.bind {act : Action σ α} {next : α → Action σ β} (h : Preserves R act)
    (hnext : ∀ a, Preserves R (next a)) : Preserves R (act >>= next) := by
  intro s
  rw [runIn_bind]
  have hs := h s
  split
  · next a s' hact =>
      rw [hact] at hs
      exact trans_of R hs (hnext a s')
  · next f s' hact =>
      rw [hact] at hs
      exact hs

omit [IsPreorder σ R] in
theorem Preserves.ite {p : Prop} [Decidable p] {act act' : Action σ α} (h : Preserves R act)
    (h' : Preserves R act') : Preserves R (if p then act else act') := by
  split
  · exact h
  · exact h'

end Preserves

section Upholds

variable {I : σ → Prop} {R : α → Prop} {P : Fault → Prop}

theorem Upholds.pure {a : α} (h : R a) : Upholds I R P (pure a : Action σ α) :=
  fun _ hs => ⟨hs, h⟩

theorem Upholds.throw {f : Fault} (h : P f) : Upholds I R P (throw f : Action σ α) :=
  fun _ hs => ⟨hs, h⟩

theorem Upholds.get : Upholds I I P (get : Action σ σ) :=
  fun _ hs => ⟨hs, hs⟩

theorem Upholds.modify {g : σ → σ} (h : ∀ s, I s → I (g s)) :
    Upholds I (fun _ => True) P (modify g : Action σ PUnit) :=
  fun s hs => ⟨h s hs, trivial⟩

theorem Upholds.ofExcept {r : Except Fault α} (h : Meets R P r) :
    Upholds I R P (ofExcept r : Action σ α) := by
  intro s hs
  rw [runIn_ofExcept]
  exact ⟨hs, h⟩

theorem Upholds.bind {R' : β → Prop} {act : Action σ α} {next : α → Action σ β}
    (h : Upholds I R P act) (hnext : ∀ a, R a → Upholds I R' P (next a)) :
    Upholds I R' P (act >>= next) := by
  intro s hs
  obtain ⟨hkept, hmeets⟩ := h s hs
  rw [runIn_bind]
  split
  · next a s' hact =>
      rw [hact] at hkept hmeets
      exact hnext a hmeets s' hkept
  · next f s' hact =>
      rw [hact] at hkept hmeets
      exact ⟨hkept, hmeets⟩

theorem Upholds.ite {p : Prop} [Decidable p] {act act' : Action σ α} (h : Upholds I R P act)
    (h' : Upholds I R P act') : Upholds I R P (if p then act else act') := by
  split
  · exact h
  · exact h'

theorem Upholds.mono {P' : Fault → Prop} {act : Action σ α} (h : Upholds I R P act)
    (hP : ∀ f, P f → P' f) : Upholds I R P' act := by
  intro s hs
  obtain ⟨hkept, hmeets⟩ := h s hs
  refine ⟨hkept, ?_⟩
  cases hact : (act.runIn s).1 with
  | ok a =>
      rw [hact] at hmeets
      exact hmeets
  | error f =>
      rw [hact] at hmeets
      exact hP f hmeets

/-- A fault of the action has the property of faults. -/
theorem Upholds.fault {act : Action σ α} (h : Upholds I R P act) {s s' : σ} {f : Fault} (hs : I s)
    (hf : act.runIn s = (.error f, s')) : P f := by
  obtain ⟨-, hmeets⟩ := h s hs
  rw [hf] at hmeets
  exact hmeets

end Upholds

end Action

namespace Action

variable {σ α β : Type}

/-- Where the action succeeds it succeeds in every related state, with the same result, and ends in
related states. -/
def Transfers (R : σ → σ → Prop) (act : Action σ α) : Prop :=
  ∀ s s' a s₁, R s s' → act.runIn s = (.ok a, s₁) → ∃ s₁', act.runIn s' = (.ok a, s₁') ∧ R s₁ s₁'

section Transfers

variable {R : σ → σ → Prop}

theorem Transfers.pure (a : α) : Transfers R (pure a : Action σ α) := by
  intro s s' b s₁ hR hrun
  obtain ⟨hab, rfl⟩ := Prod.mk.inj hrun
  exact ⟨s', by rw [runIn_pure, hab], hR⟩

theorem Transfers.ofExcept (r : Except Fault α) : Transfers R (ofExcept r : Action σ α) := by
  intro s s' b s₁ hR hrun
  rw [runIn_ofExcept] at hrun
  obtain ⟨rfl, rfl⟩ := Prod.mk.inj hrun
  exact ⟨s', runIn_ofExcept _ s', hR⟩

theorem Transfers.modify {g : σ → σ} (h : ∀ s s', R s s' → R (g s) (g s')) :
    Transfers R (modify g : Action σ PUnit) := by
  intro s s' b s₁ hR hrun
  obtain ⟨-, rfl⟩ := Prod.mk.inj hrun
  exact ⟨g s', rfl, h s s' hR⟩

theorem Transfers.bind {act : Action σ α} {next : α → Action σ β} (h : Transfers R act)
    (hnext : ∀ a, Transfers R (next a)) : Transfers R (act >>= next) := by
  intro s s' b s₂ hR hrun
  rw [runIn_bind] at hrun
  split at hrun
  · next a s₁ hact =>
      obtain ⟨s₁', hact', hR₁⟩ := h s s' a s₁ hR hact
      obtain ⟨s₂', hlast, hR₂⟩ := hnext a s₁ s₁' b s₂ hR₁ hrun
      exact ⟨s₂', by rw [runIn_bind, hact']; exact hlast, hR₂⟩
  · simp at hrun

end Transfers

/-- Where the action fails it leaves the state as it was. -/
def Atomic (act : Action σ α) : Prop :=
  ∀ s f s', act.runIn s = (.error f, s') → s' = s

section Atomic

theorem Atomic.pure (a : α) : Atomic (pure a : Action σ α) := by
  intro s f s' hrun
  simp at hrun

theorem Atomic.throw (f : Fault) : Atomic (throw f : Action σ α) := by
  intro s f' s' hrun
  exact (Prod.mk.inj hrun).2.symm

theorem Atomic.modify (g : σ → σ) : Atomic (modify g : Action σ PUnit) := by
  intro s f s' hrun
  simp at hrun

/-- What only reads may come before an action. -/
theorem Atomic.bind_of_reads {act : Action σ α} {next : α → Action σ β}
    (h : Preserves (· = ·) act) (hnext : ∀ a, Atomic (next a)) : Atomic (act >>= next) := by
  intro s f s' hrun
  have hs := h s
  rw [runIn_bind] at hrun
  split at hrun
  · next a s₁ hact =>
      rw [hact] at hs
      exact (hnext a s₁ f s' hrun).trans hs.symm
  · next f₁ s₁ hact =>
      rw [hact] at hs
      exact (Prod.mk.inj hrun).2.symm.trans hs.symm

/-- A result that cannot fail may come after an action. -/
theorem Atomic.bind_pure {act : Action σ α} (h : Atomic act) (g : α → β) :
    Atomic (act >>= fun a => Pure.pure (g a)) := by
  intro s f s' hrun
  rw [runIn_bind] at hrun
  split at hrun
  · simp at hrun
  · next f₁ s₁ hact =>
      obtain ⟨-, rfl⟩ := Prod.mk.inj hrun
      exact h s f₁ s₁ hact

end Atomic

end Action

/-- Two outcomes are the same fault, or results that are related. -/
inductive SameOutcome {α β : Type} (E : α → β → Prop) : Except Fault α → Except Fault β → Prop
  | ok {a : α} {b : β} (h : E a b) : SameOutcome E (.ok a) (.ok b)
  | fault (f : Fault) : SameOutcome E (.error f) (.error f)

theorem SameOutcome.eq {α : Type} {r r' : Except Fault α} (h : SameOutcome Eq r r') : r = r' := by
  cases h with
  | ok h =>
      rw [h]
  | fault f =>
      rfl

theorem SameOutcome.refl {α : Type} (r : Except Fault α) : SameOutcome Eq r r := by
  cases r with
  | ok a =>
      exact .ok rfl
  | error f =>
      exact .fault f

namespace Action

variable {σ α β α' β' : Type} {R : σ → σ → Prop} {E : α → β → Prop} {E' : α' → β' → Prop}

/-- Two actions that begin in related states end in related states, with the same outcome. -/
def Agrees (R : σ → σ → Prop) (E : α → β → Prop) (act : Action σ α) (act' : Action σ β) : Prop :=
  ∀ s s', R s s' →
    SameOutcome E (act.runIn s).1 (act'.runIn s').1 ∧ R (act.runIn s).2 (act'.runIn s').2

theorem Agrees.pure {a : α} {b : β} (h : E a b) :
    Agrees R E (pure a : Action σ α) (pure b : Action σ β) :=
  fun _ _ hs => ⟨.ok h, hs⟩

theorem Agrees.throw (f : Fault) : Agrees R E (throw f : Action σ α) (throw f : Action σ β) :=
  fun _ _ hs => ⟨.fault f, hs⟩

theorem Agrees.get : Agrees R R (get : Action σ σ) (get : Action σ σ) :=
  fun _ _ hs => ⟨.ok hs, hs⟩

theorem Agrees.modify {g g' : σ → σ} (h : ∀ s s', R s s' → R (g s) (g' s')) :
    Agrees R Eq (modify g : Action σ PUnit) (modify g' : Action σ PUnit) :=
  fun s s' hs => ⟨.ok rfl, h s s' hs⟩

theorem Agrees.ofExcept (r : Except Fault α) :
    Agrees R Eq (ofExcept r : Action σ α) (ofExcept r : Action σ α) := by
  intro s s' hs
  rw [runIn_ofExcept, runIn_ofExcept]
  exact ⟨.refl r, hs⟩

theorem Agrees.bind {act : Action σ α} {act' : Action σ β} {next : α → Action σ α'}
    {next' : β → Action σ β'} (h : Agrees R E act act')
    (hnext : ∀ a b, E a b → Agrees R E' (next a) (next' b)) :
    Agrees R E' (act >>= next) (act' >>= next') := by
  intro s s' hs
  obtain ⟨houtcome, hstate⟩ := h s s' hs
  rw [runIn_bind, runIn_bind]
  cases hact : act.runIn s with
  | mk r s₁ =>
      cases hact' : act'.runIn s' with
      | mk r' s₁' =>
          rw [hact, hact'] at houtcome hstate
          cases houtcome with
          | ok hab =>
              exact hnext _ _ hab s₁ s₁' hstate
          | fault f =>
              exact ⟨.fault f, hstate⟩

theorem Agrees.refl (act : Action σ α) : Agrees Eq Eq act act := by
  rintro s _ rfl
  exact ⟨.refl _, rfl⟩

/-- An action on the other state, and then another action that has the same effect on that one. -/
theorem Agrees.trans_eq {act act' : Action σ α} {act'' : Action σ β} (h : Agrees R Eq act act')
    (h' : Agrees Eq E act' act'') : Agrees R E act act'' := by
  intro s s' hs
  obtain ⟨houtcome, hstate⟩ := h s s' hs
  obtain ⟨houtcome', hstate'⟩ := h' s' s' rfl
  rw [houtcome.eq, ← hstate']
  exact ⟨houtcome', hstate⟩

theorem Agrees.ite {p : Prop} [Decidable p] {act₁ act₂ : Action σ α} {act₁' act₂' : Action σ β}
    (h₁ : Agrees R E act₁ act₁') (h₂ : Agrees R E act₂ act₂') :
    Agrees R E (if p then act₁ else act₂) (if p then act₁' else act₂') := by
  split
  · exact h₁
  · exact h₂

end Action
end Stencil
