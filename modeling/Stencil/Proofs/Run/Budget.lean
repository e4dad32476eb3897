import Stencil.Proofs.Run.Faults
import Stencil.Proofs.Run.Visit

/-!
# What a budget cuts off

Two runs of a document, one with a budget of `n` steps and one with a larger budget or with none.

**Argument.**  As long as the smaller budget lasts, every task does the same in both runs, since
only the charge reads the budget (`perform_some_cases`).  The first charge that it refuses ends the
run. Until then no more than `n` steps have been taken, and the refused charge finds `n` of them, so
it is the one before step `n + 1` of the other run.  Giving up the loops changes neither the context
nor the fault, which is what `Scope` says about the stacks.  What the other run does after that
point only adds to the output.

**Results.**
* `Document.budget_only_truncates` puts the two runs together.
* `Document.run_bounded_by_budget`: a run with a budget ends, with no more steps than that.
-/

namespace Stencil
namespace Machine

/-- The budget is no smaller than `n` steps. -/
def Allows (limit : Option Int) (n : Int) : Prop := ∀ k, limit = some k → n ≤ k

theorem runIn_charge_of_lt {limit : Option Int} {n : Int} (hle : Allows limit n) {m : Machine}
    (h : (m.steps : Int) < n) :
    (charge limit).runIn m = (.ok (), { m with steps := m.steps + 1 }) := by
  cases limit with
  | none =>
      exact runIn_charge_none m
  | some k =>
      have hk : n ≤ k := hle k rfl
      rw [runIn_charge_some, if_neg (by omega)]

/-- Under the smaller budget a task does what it does under the larger one, or it comes to a charge
that is refused. -/
theorem perform_some_cases {limit : Option Int} {n : Int} (hle : Allows limit n) (task : Task)
    (m : Machine) :
    ((perform (some n) task).runIn m = (perform limit task).runIn m ∧
      ∀ f m', (perform (some n) task).runIn m = (.error f, m') → f.NotStepLimit) ∨
    ∃ m₁, Charges task m m₁ ∧ n ≤ m₁.steps ∧
      (perform (some n) task).runIn m = (.error (.stepLimit n), m₁) := by
  cases hfree : task.isFree with
  | true =>
      left
      rw [perform_of_free _ hfree, perform_of_free _ hfree]
      exact ⟨rfl, notStepLimit_of_proceed task m⟩
  | false =>
      rw [perform_of_charged _ hfree, perform_of_charged _ hfree]
      simp only [Action.runIn_bind]
      cases hprepare : (prepare task).runIn m with
      | mk outcome m₁ =>
          cases outcome with
          | error f =>
              left
              refine ⟨rfl, fun f' m' h => ?_⟩
              obtain ⟨hf, -⟩ := Prod.mk.inj h
              exact Except.error.inj hf ▸ notStepLimit_of_prepare task m f m₁ hprepare
          | ok _ =>
              by_cases hsteps : n ≤ m₁.steps
              · right
                refine ⟨m₁, ⟨hfree, hprepare⟩, hsteps, ?_⟩
                simp [runIn_charge_some, hsteps]
              · left
                have hlt : (m₁.steps : Int) < n := by omega
                have hself : Allows (some n) n := fun k hk => Int.le_of_eq (Option.some.inj hk)
                simp only [runIn_charge_of_lt hle hlt, runIn_charge_of_lt hself hlt]
                exact ⟨trivial, notStepLimit_of_proceed task _⟩

/-- The number of steps stays within a budget. -/
def Within (n : Int) (m m' : Machine) : Prop := m.steps ≤ n.toNat → m'.steps ≤ n.toNat

instance (n : Int) : IsPreorder Machine (Within n) where
  refl _ := id
  trans _ _ _ h h' := h' ∘ h

theorem within_charge (n : Int) : Action.Preserves (Within n) (charge (some n)) := by
  intro m h
  rw [runIn_charge_some]
  split
  · exact h
  · show m.steps + 1 ≤ n.toNat
    omega

/-- Under a budget no task takes more steps than are left. -/
theorem within_perform (n : Int) (task : Task) :
    Action.Preserves (Within n) (perform (some n) task) :=
  preserves_perform (fun _ _ => id) (fun _ _ _ => id) (fun _ _ => id) (within_charge n) task

/-- Without a budget a task that comes to its charge takes one step. -/
theorem steps_of_charges {task : Task} {m m₁ : Machine} (h : Charges task m m₁) :
    ((perform none task).runIn m).2.steps = m₁.steps + 1 := by
  rw [perform_of_charged none h.1, Action.runIn_bind, h.2]
  simp only [Action.runIn_bind, runIn_charge_none]
  exact steps_proceed task _

theorem Charges.steps {task : Task} {m m₁ : Machine} (h : Charges task m m₁) :
    m₁.steps = m.steps ∧ m₁.context = m.context := by
  have hprepare := stacksOnly_prepare task m
  rw [h.2] at hprepare
  exact ⟨hprepare.2, hprepare.1⟩

end Machine

open Machine

namespace Point

variable {limit : Option Int} {n : Int} {p q : Point} {outcome : Outcome} {m m₁ : Machine}

/-- The next task of a point comes to its charge with a machine. -/
def ChargesAt (p : Point) (m₁ : Machine) : Prop :=
  ∃ task rest, p.tasks = task :: rest ∧ Charges task p.machine m₁

theorem step_of_some (hle : Allows limit n) (h : Step (some n) p q) : Step limit p q := by
  cases h with
  | @mk task rest brought frames m m' hperform =>
      rcases perform_some_cases hle task m with ⟨hsame, -⟩ | ⟨m₁, -, -, hrefused⟩
      · rw [hsame] at hperform
        exact .mk hperform
      · rw [hperform] at hrefused
        simp at hrefused

/-- The points of a run under the smaller budget are points of the run under the larger one. -/
theorem run_of_some (hle : Allows limit n) (h : Run (some n) p q) : Run limit p q :=
  Relation.ReflTransGen.mono (fun _ _ => step_of_some hle) _ _ h

theorem within_step (h : Step (some n) p q) : Within n p.machine q.machine := by
  cases h with
  | @mk task rest brought frames m m' hperform =>
      have hwithin := within_perform n task m
      rw [hperform] at hwithin
      exact hwithin

theorem within_run (h : Run (some n) p q) : Within n p.machine q.machine := by
  induction h with
  | refl =>
      exact id
  | tail _ hstep ih =>
      exact within_step hstep ∘ ih

theorem grows_step (h : Step limit p q) : Grows p.machine q.machine := by
  cases h with
  | @mk task rest brought frames m m' hperform =>
      have hgrows := grows_perform limit task m
      rw [hperform] at hgrows
      exact hgrows

theorem grows_run (h : Run limit p q) : Grows p.machine q.machine := by
  induction h with
  | refl =>
      exact refl_of Grows p.machine
  | tail _ hstep ih =>
      exact trans_of Grows ih (grows_step hstep)

theorem grows_endsAt (h : EndsAt limit q outcome m) : Grows q.machine m := by
  cases h with
  | finished =>
      exact refl_of Grows _
  | @failed task rest frames m m' fault hperform =>
      have hgrows := grows_perform limit task m
      rw [hperform] at hgrows
      exact hgrows

theorem within_endsAt (h : EndsAt (some n) q outcome m) : Within n q.machine m := by
  cases h with
  | finished =>
      exact id
  | @failed task rest frames m m' fault hperform =>
      have hwithin := within_perform n task m
      rw [hperform] at hwithin
      exact hwithin

/-- The end of a run comes after all of its points. -/
theorem run_to_end {start : Point} (hp : Run limit start p) (hq : Run limit start q)
    (hend : EndsAt limit q outcome m) : Run limit p q := by
  have hunique : Relator.RightUnique (Step limit) := by
    intro a b c hb hc
    exact Option.some.inj ((next_of_step hb).symm.trans (next_of_step hc))
  rcases Relation.ReflTransGen.total_of_right_unique hunique hp hq with h | h
  · exact h
  · rcases h.cases_head with rfl | ⟨r, hstep, -⟩
    · exact .refl
    · exact absurd (next_of_step hstep) (by simp [next_of_endsAt hend])

/-- Under the smaller budget a run ends as under the larger one, or at a charge that is refused. -/
theorem endsAt_some_cases {d : Document} {base : List Frame} (hnamed : d.Named)
    (hscoped : Scoped d base q) (hle : Allows limit n) (h : EndsAt (some n) q outcome m) :
    (EndsAt limit q outcome m ∧ ∀ k, outcome ≠ .failed (.stepLimit k)) ∨
      ∃ m₁, q.ChargesAt m₁ ∧ n ≤ m₁.steps ∧ outcome = .failed (.stepLimit n) ∧
        m.steps = m₁.steps ∧ m.context = m₁.context := by
  cases h with
  | finished =>
      exact Or.inl ⟨.finished, by simp⟩
  | @failed task rest frames m m' fault hperform =>
      obtain ⟨-, s', hgive, -⟩ := hscoped.fails hnamed hperform
      rcases perform_some_cases hle task m with ⟨hsame, hother⟩ | ⟨m₁, hcharges, hsteps, hrefused⟩
      · refine Or.inl ⟨.failed (hsame ▸ hperform), fun k hk => ?_⟩
        rw [hgive] at hk
        exact hother fault m' hperform k (Outcome.failed.inj hk)
      · rw [hperform] at hrefused
        obtain ⟨hfault, rfl⟩ := Prod.mk.inj hrefused
        obtain rfl := Except.error.inj hfault
        refine Or.inr ⟨m', ⟨task, rest, rfl, hcharges⟩, hsteps, ?_, rfl, rfl⟩
        rw [hgive]

/-- A run without a budget that comes to a charge ends with more steps than it had there. -/
theorem steps_of_chargesAt (hp : p.ChargesAt m₁) (h : Ends none p outcome m) :
    m₁.steps < m.steps := by
  obtain ⟨task, rest, htasks, hcharges⟩ := hp
  obtain ⟨q, hrun, hend⟩ := h
  have hsteps := steps_of_charges hcharges
  obtain ⟨tasks, frames, machine⟩ := p
  obtain rfl : tasks = task :: rest := htasks
  rcases hrun.cases_head with rfl | ⟨r, hstep, hrest⟩
  · cases hend with
    | failed hperform =>
        rw [hperform] at hsteps
        exact Nat.lt_of_lt_of_eq (Nat.lt_succ_self _) hsteps.symm
  · have hgrows := trans_of Grows (grows_run hrest) (grows_endsAt hend)
    cases hstep with
    | mk hperform =>
        rw [hperform] at hsteps
        exact Nat.lt_of_lt_of_le (Nat.lt_of_lt_of_eq (Nat.lt_succ_self _) hsteps.symm) hgrows.1

theorem tasksLeft_step (h : Step (some n) p q) :
    tasksLeft n q.tasks q.machine < tasksLeft n p.tasks p.machine := by
  cases h with
  | mk hperform =>
      exact tasksLeft_lt hperform

/-- Under a budget every task that has been done is one that need not be done any more. -/
theorem add_tasksLeft_le {k : Nat} (h : after? (some n) k p = some q) :
    k + tasksLeft n q.tasks q.machine ≤ tasksLeft n p.tasks p.machine := by
  induction k generalizing p with
  | zero =>
      obtain rfl := Option.some.inj h
      exact Nat.le_of_eq (Nat.zero_add _)
  | succ k ih =>
      obtain ⟨r, hr, hq⟩ := Option.bind_eq_some_iff.1 h
      have hlt := tasksLeft_step (step_of_next hr)
      have hle := ih hq
      omega

end Point

namespace Document

open Point

variable {d : Document} {context : Context} {n : Int} {outcome : Outcome} {m : Machine}

/-- A negative budget is used up before the first step. -/
theorem run_of_neg (d : Document) (context : Context) (h : n < 0) :
    d.run (some n) context = (.failed (.stepLimit n), .start context) := by
  have hsteps : n ≤ ((Machine.start context).steps : Int) := by
    show n ≤ 0
    omega
  have hrefused : (perform (some n) (.document d)).runIn (.start context) =
      (.error (.stepLimit n), .start context) := by
    rw [perform_of_charged (some n) rfl, Action.runIn_bind]
    simp only [prepare, Action.runIn_pure, Action.runIn_bind, runIn_charge_some, if_pos hsteps]
  exact endsAs_some_iff.1 (endsAs_iff_ends.2 ⟨_, .refl, .failed hrefused⟩)

/-- A run with a budget takes no more steps than it allows. -/
theorem steps_run_le (h : d.run (some n) context = (outcome, m)) : m.steps ≤ n.toNat := by
  obtain ⟨q, hrun, hend⟩ := endsAs_iff_ends.1 (endsAs_some_iff.2 h)
  exact within_endsAt hend (within_run hrun (Nat.zero_le _))

/-- A run whose budget is used up stands at a charge of the run with a larger one. -/
theorem exists_charge_of_stepLimit {limit : Option Int} (hnamed : d.Named) (hle : Allows limit n)
    (h : d.run (some n) context = (outcome, m)) :
    (d.EndsAs limit context outcome m ∧ ∀ k, outcome ≠ .failed (.stepLimit k)) ∨
      ∃ p m₁, Run limit (.start d context) p ∧ p.ChargesAt m₁ ∧ m₁.steps = n.toNat ∧
        outcome = .failed (.stepLimit n) ∧ m.steps = n.toNat ∧ m.context = m₁.context := by
  obtain ⟨q, hrun, hend⟩ := endsAs_iff_ends.1 (endsAs_some_iff.2 h)
  have hscoped := scoped_run hnamed (scoped_start d context) hrun
  have hrun' := run_of_some hle hrun
  rcases endsAt_some_cases hnamed hscoped hle hend with
    ⟨hsame, hother⟩ | ⟨m₁, hcharges, hsteps, houtcome, hm, hcontext⟩
  · exact Or.inl ⟨endsAs_iff_ends.2 ⟨q, hrun', hsame⟩, hother⟩
  · have hwithin : m.steps ≤ n.toNat := steps_run_le h
    have hexact : m.steps = n.toNat := by omega
    exact Or.inr ⟨q, m₁, hrun', hcharges, hm ▸ hexact, houtcome, hexact, hcontext⟩

/-- A budget only cuts off the end of a run.  Take a budget of `n` steps and another one that is no
smaller, or none.

* If the run with the smaller budget ends without having used it up, the other run ends in the same
  way, with the same machine.
* If it uses its budget up, it has taken `n` steps, or none if `n` is negative.  Its context is then
  that of the other run just before step `n + 1` is charged, and its output is a beginning of the
  output that the other run has from there on.
* If the run without a budget ends, its number of steps is the least budget that is not used up. -/
theorem budget_only_truncates {t : Text} {limit : Option Int} (hparse : parse t = .ok d)
    (hle : Allows limit n) (h : d.run (some n) context = (outcome, m)) :
    ((∀ k, outcome ≠ .failed (.stepLimit k)) → d.EndsAs limit context outcome m) ∧
    ((∃ k, outcome = .failed (.stepLimit k)) →
      outcome = .failed (.stepLimit n) ∧ m.steps = n.toNat ∧
        ∃ p m₁, Run limit (.start d context) p ∧ p.ChargesAt m₁ ∧ m₁.steps = n.toNat ∧
          m.context = m₁.context ∧
          (∀ q, Run limit p q → m.context.Extends q.machine.context) ∧
          ∀ outcome' m', d.EndsAs limit context outcome' m' → m.context.Extends m'.context) ∧
    ∀ outcome' m', d.EndsAs none context outcome' m' →
      ((∃ k, outcome = .failed (.stepLimit k)) ↔ n < m'.steps) := by
  have hnamed := named_of_parse hparse
  refine ⟨fun hother => ?_, fun ⟨k, hk⟩ => ?_, fun outcome' m' hends => ⟨fun ⟨k, hk⟩ => ?_, ?_⟩⟩
  · rcases exists_charge_of_stepLimit hnamed hle h with ⟨hsame, -⟩ | ⟨_, _, _, _, _, hlimit, _⟩
    · exact hsame
    · exact absurd hlimit (hother n)
  · rcases exists_charge_of_stepLimit hnamed hle h with
      ⟨-, hother⟩ | ⟨p, m₁, hrun, hcharges, hsteps, hlimit, hm, hcontext⟩
    · exact absurd hk (hother k)
    · have hbefore : m.context = p.machine.context := by
        obtain ⟨task, rest, -, hcharge⟩ := hcharges
        exact hcontext.trans hcharge.steps.2
      refine ⟨hlimit, hm, p, m₁, hrun, hcharges, hsteps, hcontext, fun q hq => ?_, ?_⟩
      · rw [hbefore]
        exact (grows_run hq).2
      · intro outcome' m' hends
        obtain ⟨q, hq, hend⟩ := endsAs_iff_ends.1 hends
        rw [hbefore]
        exact (trans_of Grows (grows_run (run_to_end hrun hq hend)) (grows_endsAt hend)).2
  · have hnone : Allows none n := fun _ h => absurd h (by simp)
    rcases exists_charge_of_stepLimit hnamed hnone h with
      ⟨-, hother⟩ | ⟨p, m₁, hrun, hcharges, hsteps, -⟩
    · exact absurd hk (hother k)
    · obtain ⟨q, hq, hend⟩ := endsAs_iff_ends.1 hends
      have hlt := steps_of_chargesAt hcharges ⟨q, run_to_end hrun hq hend, hend⟩
      omega
  · intro hlt
    by_contra hother
    have hnone : Allows none n := fun _ h => absurd h (by simp)
    rcases exists_charge_of_stepLimit hnamed hnone h with
      ⟨hsame, -⟩ | ⟨_, _, _, _, _, hlimit, _⟩
    · obtain ⟨rfl, rfl⟩ := hsame.unique hends
      have hle' := steps_run_le h
      by_cases hneg : n < 0
      · rw [run_of_neg d context hneg] at h
        exact hother ⟨n, (Prod.mk.inj h).1.symm⟩
      · omega
    · exact hother ⟨n, hlimit⟩

/-- A run of text and an echo tag. -/
def textAndEcho : Document := [.text ['a'], .echo [.number (.int 1)]]

/-- Two steps are enough for the document and its text.  The third one, which is that of the echo
tag, is refused, where a budget of three steps would allow it. -/
theorem textAndEcho_within_two :
    parse "a[$= 1 $]".toText = .ok textAndEcho ∧ Allows (some 3) 2 ∧
      (textAndEcho.run (some 2) bareContext).1 = .failed (.stepLimit 2) ∧
      ∃ p m₁, Run (some 3) (.start textAndEcho bareContext) p ∧ p.ChargesAt m₁ ∧ m₁.steps = 2 ∧
        m₁.context.output = #[97] := by
  have hparse : parse "a[$= 1 $]".toText = .ok textAndEcho := by rfl
  have hle : Allows (some 3) 2 := by
    rintro k ⟨⟩
    decide
  have hlimit : (textAndEcho.run (some 2) bareContext).1 = .failed (.stepLimit 2) := by decide
  have houtput : (textAndEcho.run (some 2) bareContext).2.context.output = #[97] := by decide
  obtain ⟨-, hcut, -⟩ := budget_only_truncates hparse hle (Prod.eta _).symm
  obtain ⟨-, -, p, m₁, hrun, hcharges, hsteps, hcontext, -⟩ := hcut ⟨2, hlimit⟩
  exact ⟨hparse, hle, hlimit, p, m₁, hrun, hcharges, hsteps, hcontext ▸ houtput⟩

/-- A budget of `n` steps bounds every run of a document that was read, in every context and
whatever its loops are.

* No more than `2 * n` tasks are done, and at none of its points has the run taken more than `n`
  steps, or any if `n` is negative.
* The run succeeds or fails, and in one way only, with no more than `n` steps.
* If it fails because a budget is used up, that is the budget of `n` steps, and it has taken all of
  them. -/
theorem run_bounded_by_budget {t : Text} (hparse : parse t = .ok d) (n : Int)
    (context : Context) :
    (∀ k p, after? (some n) k (.start d context) = some p →
      k ≤ 2 * n.toNat ∧ (p.machine.steps : Int) ≤ max n 0) ∧
    ∃ outcome m, d.run (some n) context = (outcome, m) ∧
      (outcome = .finished ∨ ∃ fault, outcome = .failed fault) ∧
      (∀ outcome' m', d.EndsAs (some n) context outcome' m' ↔ outcome' = outcome ∧ m' = m) ∧
      (m.steps : Int) ≤ max n 0 ∧
      ∀ k, outcome = .failed (.stepLimit k) → k = n ∧ (m.steps : Int) = max n 0 := by
  constructor
  · intro k p hk
    have htasks := add_tasksLeft_le hk
    have hstart : tasksLeft n (Point.start d context).tasks (Point.start d context).machine =
        2 * n.toNat := by
      simp [tasksLeft, Point.start, Machine.start, freeTasks, Task.isFree]
    have hsteps : p.machine.steps ≤ n.toNat := within_run (run_of_after hk) (Nat.zero_le _)
    omega
  · cases hrun : d.run (some n) context with
    | mk outcome m =>
        have hends : d.EndsAs (some n) context outcome m := endsAs_some_iff.2 hrun
        have hsteps := steps_run_le hrun
        refine ⟨outcome, m, rfl, ?_, fun outcome' m' => ⟨fun h => h.unique hends, ?_⟩, by omega,
          fun k hk => ?_⟩
        · cases outcome with
          | finished =>
              exact Or.inl rfl
          | failed fault =>
              exact Or.inr ⟨fault, rfl⟩
          | unfinished =>
              exact absurd (congrArg Prod.fst hrun) (run_ne_unfinished d n context)
        · rintro ⟨rfl, rfl⟩
          exact hends
        · have hself : Allows (some n) n := fun k hk => Int.le_of_eq (Option.some.inj hk)
          rcases exists_charge_of_stepLimit (named_of_parse hparse) hself hrun with
            ⟨-, hother⟩ | ⟨_, _, _, _, _, hlimit, hexact, _⟩
          · exact absurd hk (hother k)
          · obtain rfl := Fault.stepLimit.inj (Outcome.failed.inj (hk.symm.trans hlimit))
            exact ⟨rfl, by omega⟩

/-- A loop that has nothing to do and never comes closer to its end. -/
def idleLoop : Document :=
  [.loop ⟨['i'], .number (.int 1), .number (.int 9), some (.number (.int 0))⟩ 0 []]

/-- The loop uses up five steps, and with a negative budget it does not begin. -/
theorem idleLoop_bounded :
    parse "[$FOR i 1 9 0 $][$END$]".toText = .ok idleLoop ∧
      (idleLoop.run (some 5) bareContext).1 = .failed (.stepLimit 5) ∧
      ((idleLoop.run (some 5) bareContext).2.steps : Int) = 5 ∧
      ((idleLoop.run (some (-3)) bareContext).2.steps : Int) ≤ 0 := by
  have hparse : parse "[$FOR i 1 9 0 $][$END$]".toText = .ok idleLoop := by rfl
  have hlimit : (idleLoop.run (some 5) bareContext).1 = .failed (.stepLimit 5) := by decide
  obtain ⟨-, outcome, m, hrun, -, -, -, hexact⟩ := run_bounded_by_budget hparse 5 bareContext
  obtain ⟨-, outcome', m', hrun', -, -, hle, -⟩ := run_bounded_by_budget hparse (-3) bareContext
  rw [hrun] at hlimit
  obtain ⟨-, hsteps⟩ := hexact 5 hlimit
  rw [hrun, hrun']
  exact ⟨hparse, hlimit, hsteps, hle⟩

end Document
end Stencil
