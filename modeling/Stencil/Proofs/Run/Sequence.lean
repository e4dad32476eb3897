import Stencil.Proofs.Run.Visit

/-!
# Tasks in sequence

Working off two lists of tasks, one after the other.

**Argument.**  What waits behind a list of tasks does not matter before the list has been worked off
or has failed.  In the first case the rest is worked off next.  In the second one the counters of
the rest are given up too, after those of the list.

**Results.**
* `completes_cons_of_ok` and `completes_cons_of_error`: working off a list begins with its first
  task.
* `completes_append`: working off `s ++ t` is working off `s` and then `t`, unless `s` fails.
* `Completes.preserves`: what every task keeps is kept until the end.
-/

namespace Stencil
namespace Machine

variable {limit : Option Int} {m m₁ m' : Machine} {outcome : Outcome}

theorem completes_nil : Completes limit [] m outcome m' ↔ outcome = .finished ∧ m' = m := by
  constructor
  · rintro ⟨bound, hwork, -⟩
    have hnil : work limit bound [] m = (.finished, m) := by
      cases bound <;> rfl
    obtain ⟨rfl, rfl⟩ := Prod.mk.inj (hnil.symm.trans hwork)
    exact ⟨rfl, rfl⟩
  · rintro ⟨rfl, rfl⟩
    exact ⟨0, rfl, by simp⟩

/-- A bound that is enough for some tasks leaves one for the first of them. -/
theorem exists_bound_of_cons {task : Task} {rest : List Task}
    (h : Completes limit (task :: rest) m outcome m') :
    ∃ bound, work limit (bound + 1) (task :: rest) m = (outcome, m') ∧ outcome ≠ .unfinished := by
  obtain ⟨bound, hwork, hne⟩ := h
  cases bound with
  | zero =>
      exact absurd (Prod.mk.inj hwork).1.symm hne
  | succ bound =>
      exact ⟨bound, hwork, hne⟩

theorem completes_cons_of_ok {task : Task} {rest brought : List Task}
    (h : (perform limit task).runIn m = (.ok brought, m₁)) :
    Completes limit (task :: rest) m outcome m' ↔
      Completes limit (brought ++ rest) m₁ outcome m' := by
  have hstep : ∀ bound, work limit (bound + 1) (task :: rest) m =
      work limit bound (brought ++ rest) m₁ := by
    intro bound
    simp only [work, h]
  constructor
  · intro hcompletes
    obtain ⟨bound, hwork, hne⟩ := exists_bound_of_cons hcompletes
    exact ⟨bound, (hstep bound).symm.trans hwork, hne⟩
  · rintro ⟨bound, hwork, hne⟩
    exact ⟨bound + 1, (hstep bound).trans hwork, hne⟩

theorem completes_cons_of_error {task : Task} {rest : List Task} {fault : Fault}
    (h : (perform limit task).runIn m = (.error fault, m₁)) :
    Completes limit (task :: rest) m outcome m' ↔
      outcome = .failed (giveUp (task :: rest) fault m₁.store).1 ∧
        m' = { m₁ with store := (giveUp (task :: rest) fault m₁.store).2 } := by
  have hstep : ∀ bound, work limit (bound + 1) (task :: rest) m =
      (.failed (giveUp (task :: rest) fault m₁.store).1,
        { m₁ with store := (giveUp (task :: rest) fault m₁.store).2 }) := by
    intro bound
    simp only [work, h]
  constructor
  · intro hcompletes
    obtain ⟨bound, hwork, -⟩ := exists_bound_of_cons hcompletes
    obtain ⟨rfl, rfl⟩ := Prod.mk.inj ((hstep bound).symm.trans hwork)
    exact ⟨rfl, rfl⟩
  · rintro ⟨rfl, rfl⟩
    exact ⟨1, hstep 0, by simp⟩

/-- A bound that is enough for two lists of tasks is enough for the second one, where the first one
has succeeded. -/
theorem work_append_cases {bound : Nat} {s t : List Task}
    (hwork : work limit bound (s ++ t) m = (outcome, m')) (hne : outcome ≠ .unfinished) :
    (∃ bound' m₁, bound' ≤ bound ∧ Completes limit s m .finished m₁ ∧
        work limit bound' t m₁ = (outcome, m')) ∨
      ∃ fault m₁, Completes limit s m (.failed fault) m₁ ∧
        outcome = .failed (giveUp t fault m₁.store).1 ∧
          m' = { m₁ with store := (giveUp t fault m₁.store).2 } := by
  induction bound generalizing s m with
  | zero =>
      cases s with
      | nil =>
          exact Or.inl ⟨0, m, Nat.le_refl 0, completes_nil.2 ⟨rfl, rfl⟩, hwork⟩
      | cons task rest =>
          exact absurd (Prod.mk.inj hwork).1.symm hne
  | succ bound ih =>
      cases s with
      | nil =>
          exact Or.inl ⟨bound + 1, m, Nat.le_refl _, completes_nil.2 ⟨rfl, rfl⟩, hwork⟩
      | cons task rest =>
          cases hperform : (perform limit task).runIn m with
          | mk result m₁ =>
              cases result with
              | ok brought =>
                  simp only [List.cons_append, work, hperform] at hwork
                  rw [← List.append_assoc] at hwork
                  rcases ih hwork with ⟨bound', m₂, hle, hs, ht⟩ | ⟨fault, m₂, hs, hgive⟩
                  · exact Or.inl ⟨bound', m₂, by omega, (completes_cons_of_ok hperform).2 hs, ht⟩
                  · exact Or.inr ⟨fault, m₂, (completes_cons_of_ok hperform).2 hs, hgive⟩
              | error fault =>
                  simp only [List.cons_append, work, hperform] at hwork
                  obtain ⟨rfl, rfl⟩ := Prod.mk.inj hwork
                  rw [← List.cons_append, giveUp_append]
                  exact Or.inr ⟨_, _, (completes_cons_of_error hperform).2 ⟨rfl, rfl⟩, rfl, rfl⟩

/-- Working off two lists of tasks one after the other: the second one begins where the first one
has succeeded, and is given up where the first one has failed. -/
theorem completes_append {s t : List Task} :
    Completes limit (s ++ t) m outcome m' ↔
      (∃ m₁, Completes limit s m .finished m₁ ∧ Completes limit t m₁ outcome m') ∨
      ∃ fault m₁, Completes limit s m (.failed fault) m₁ ∧
        outcome = .failed (giveUp t fault m₁.store).1 ∧
          m' = { m₁ with store := (giveUp t fault m₁.store).2 } := by
  constructor
  · rintro ⟨bound, hwork, hne⟩
    refine (work_append_cases hwork hne).imp_left ?_
    rintro ⟨bound', m₁, -, hs, ht⟩
    exact ⟨m₁, hs, bound', ht, hne⟩
  · rintro (⟨m₁, hs, ht⟩ | ⟨fault, m₁, hs, rfl, rfl⟩)
    · obtain ⟨q, hrun, hend⟩ := (Point.completes_iff_ends []).1 hs
      cases hend with
      | @finished frames m₁ =>
          obtain ⟨q, hrest, hend⟩ := (Point.completes_iff_ends frames).1 ht
          exact (Point.completes_iff_ends []).2 ⟨q, (Point.run_append hrun t).trans hrest, hend⟩
    · obtain ⟨q, hrun, hend⟩ := (Point.completes_iff_ends []).1 hs
      generalize houtcome : Outcome.failed fault = outcome at hend
      cases hend with
      | finished =>
          simp at houtcome
      | @failed task rest frames m m₁ raised hperform =>
          obtain rfl := Outcome.failed.inj houtcome
          have hfails : Point.EndsAt limit ⟨task :: (rest ++ t), frames, m⟩ _ _ :=
            .failed hperform
          rw [← List.cons_append, giveUp_append] at hfails
          exact (Point.completes_iff_ends []).2 ⟨_, Point.run_append hrun t, hfails⟩

/-- Nodes that have not been visited are given up at once. -/
theorem giveUp_visits (nodes : List Node) (fault : Fault) (store : NamedStacks) :
    giveUp (nodes.map .visit) fault store = (fault, store) := by
  refine giveUp_of_no_counter (fun task htask => ?_) fault store
  obtain ⟨node, -, rfl⟩ := List.mem_map.1 htask
  rfl

/-- Nodes that wait behind some tasks are visited if these succeed. -/
theorem completes_append_visits {s : List Task} {nodes : List Node} :
    Completes limit (s ++ nodes.map .visit) m outcome m' ↔
      (∃ m₁, Completes limit s m .finished m₁ ∧
        Completes limit (nodes.map .visit) m₁ outcome m') ∨
      ∃ fault, outcome = .failed fault ∧ Completes limit s m outcome m' := by
  simp only [completes_append, giveUp_visits]
  refine or_congr_right ⟨?_, ?_⟩
  · rintro ⟨fault, m₁, hs, rfl, rfl⟩
    exact ⟨fault, rfl, hs⟩
  · rintro ⟨fault, rfl, hs⟩
    exact ⟨fault, m', hs, rfl, rfl⟩

/-- A relation that every task keeps, and that the stacks do not matter for, is kept until the
end. -/
theorem Completes.preserves {R : Machine → Machine → Prop} [IsPreorder Machine R]
    (hperform : ∀ task, Action.Preserves R (perform limit task))
    (hstore : ∀ (m : Machine) (s : NamedStacks), R m { m with store := s }) {tasks : List Task}
    (h : Completes limit tasks m outcome m') : R m m' := by
  obtain ⟨bound, hwork, hne⟩ := h
  induction bound generalizing tasks m with
  | zero =>
      cases tasks with
      | nil =>
          obtain ⟨-, rfl⟩ := Prod.mk.inj hwork
          exact refl_of R m
      | cons task rest =>
          exact absurd (Prod.mk.inj hwork).1.symm hne
  | succ bound ih =>
      cases tasks with
      | nil =>
          obtain ⟨-, rfl⟩ := Prod.mk.inj hwork
          exact refl_of R m
      | cons task rest =>
          have hm := hperform task m
          unfold work at hwork
          split at hwork
          · next brought m₁ hrun =>
              rw [hrun] at hm
              exact trans_of R hm (ih hwork)
          · next fault m₁ hrun =>
              rw [hrun] at hm
              obtain ⟨-, rfl⟩ := Prod.mk.inj hwork
              exact trans_of R hm (hstore m₁ _)

end Machine
end Stencil
