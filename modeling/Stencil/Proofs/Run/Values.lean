import Stencil.Proofs.Run.Faults
import Stencil.Proofs.Run.Visit

/-!
# Values in a run

Which values a script computes with.

A counter is a number, and on the register there are numbers and texts.  The absent value and
foreign data, which a host can hand to an operation, never come up in a script.

**Argument.**  This is one of the properties that tasks keep (`upholds_perform`), and it holds at
the start, where the stacks are empty.  A fault about a foreign operand would need one on the
register.  A loop that is tested or counts on has its counter on top of its stack by the invariant
of `Scope`, and a number can be compared and added to.

**Results.**  `Document.values_of_script`: the values at every point of a run of a document that was
read, and the faults that it cannot end in.
-/

namespace Stencil

namespace Value

/-- A number; an integer is one of 64 bits. -/
def IsNumber : Value → Prop
  | .number (.int n) => -9223372036854775808 ≤ n.toInt ∧ n.toInt ≤ 9223372036854775807
  | .number (.double _) => True
  | _ => False

theorem isNumber (n : Number) : (Value.number n).IsNumber := by
  cases n with
  | int n =>
      have hlow := n.le_toInt
      have hhigh := n.toInt_lt
      exact ⟨by omega, by omega⟩
  | double x =>
      exact trivial

/-- What may be on the stack of a name: a number, and on the register also a text. -/
def MayBeOn (x : Text) (v : Value) : Prop := v.IsNumber ∨ x = register ∧ ∃ t, v = .text t

end Value

/-- The fault is about data that is no script value. -/
def Fault.IsForeign : Fault → Prop
  | .foreignOperand _ | .foreignText _ => True
  | _ => False

open Stencil.Action (Upholds)
open Fault (IsOn)
open Value (MayBeOn)

namespace Machine

theorem suits_mayBeOn : Suits MayBeOn where
  number _ n := .inl (Value.isNumber n)
  text t := .inr ⟨rfl, t, rfl⟩
  read h := h.imp_right fun ht => ⟨rfl, ht.2⟩

variable {Q : Text → Value → Prop}

/-- The fault of a task: that of an operation on values that may be on the register, or that of a
budget that is used up. -/
def Raised (Q : Text → Value → Prop) (f : Fault) : Prop :=
  f.IsOn (Q register) ∨ ∃ n, f = .stepLimit n

theorem Raised.not_isForeign {f : Fault} (h : Raised MayBeOn f) : ¬ f.IsForeign := by
  have hforeign : ∀ data, ¬ MayBeOn register (.foreign data) := by
    rintro data (hnumber | ⟨-, t, ht⟩)
    · exact hnumber
    · exact nomatch ht
  rcases h with hop | ⟨n, rfl⟩
  · intro hf
    cases f <;> first | exact hf | exact hforeign _ hop
  · exact id

theorem upholds_charge (limit : Option Int) :
    Upholds (Holds Q) (fun _ => True) (Raised Q) (charge limit) := by
  intro m hm
  cases limit with
  | none =>
      rw [runIn_charge_none]
      exact ⟨hm, trivial⟩
  | some n =>
      rw [runIn_charge_some]
      split
      · exact ⟨hm, .inr ⟨n, rfl⟩⟩
      · exact ⟨hm, trivial⟩

/-- A task leaves on the stacks what may be there. -/
theorem upholds_perform (hQ : Suits Q) (limit : Option Int) (task : Task) :
    Upholds (Holds Q) (fun _ => True) (Raised Q) (perform limit task) := by
  have hprepare : Upholds (Holds Q) (fun _ => True) (Raised Q) (prepare task) :=
    (upholds_prepare hQ task).mono fun _ => Or.inl
  have hproceed : Upholds (Holds Q) (fun _ => True) (Raised Q) (proceed task) :=
    (upholds_proceed hQ task).mono fun _ => Or.inl
  cases hfree : task.isFree with
  | true =>
      rw [perform_of_free limit hfree]
      exact hproceed
  | false =>
      rw [perform_of_charged limit hfree]
      exact hprepare.bind fun _ _ => (upholds_charge limit).bind fun _ _ => hproceed

/-- Giving up counters leaves on the stacks what may be there. -/
theorem all_giveUp (tasks : List Task) (fault : Fault) {s : NamedStacks} (h : s.All Q) :
    (giveUp tasks fault s).2.All Q := by
  induction tasks generalizing fault s with
  | nil =>
      exact h
  | cons task rest ih =>
      rw [giveUp]
      cases task.counter? with
      | none =>
          exact ih fault h
      | some x =>
          have hmeets := h.meets_pop x
          cases hpop : s.pop x with
          | ok result =>
              rw [hpop] at hmeets
              simp only [hpop]
              exact ih fault hmeets.2
          | error fault' =>
              simp only [hpop]
              exact ih fault' h

end Machine

open Machine

namespace Point

variable {d : Document} {base : List Frame} {limit : Option Int} {Q : Text → Value → Prop}

theorem holds_step (hQ : Suits Q) {p q : Point} (h : p.machine.Holds Q) (hstep : Step limit p q) :
    q.machine.Holds Q := by
  cases hstep with
  | @mk task rest brought frames m m' hperform =>
      have hkept := (upholds_perform hQ limit task m h).1
      rw [hperform] at hkept
      exact hkept

/-- What may be on the stacks is there at every point of a run. -/
theorem holds_run (hQ : Suits Q) {p q : Point} (h : p.machine.Holds Q) (hrun : Run limit p q) :
    q.machine.Holds Q := by
  induction hrun with
  | refl =>
      exact h
  | tail _ hstep ih =>
      exact holds_step hQ ih hstep

theorem holds_start (d : Document) (context : Context) : (start d context).machine.Holds Q :=
  NamedStacks.all_empty

/-- A loop that is tested goes on or ends. -/
theorem Scoped.test_ok (hnamed : d.Named) {p : Point} {loop : Loop} {rest : List Task}
    (h : Scoped d base p) (htasks : p.tasks = .test loop :: rest) :
    ∃ brought m', (perform limit (.test loop)).runIn p.machine = (.ok brought, m') := by
  obtain ⟨tasks, frames, m⟩ := p
  obtain rfl : tasks = .test loop :: rest := htasks
  obtain ⟨f, outer, -, -, hstack⟩ := h.exists_frame hnamed (.inl rfl)
  rw [perform_test limit hstack]
  split
  · exact ⟨_, _, rfl⟩
  · exact ⟨_, _, rfl⟩

/-- A loop counts on, and then only its step may be refused. -/
theorem Scoped.next_ok (hnamed : d.Named) {p : Point} {loop : Loop} {rest : List Task}
    (h : Scoped d base p) (htasks : p.tasks = .next loop :: rest) :
    (∃ m', (prepare (.next loop)).runIn p.machine = (.ok (), m')) ∧
      ∀ f m', (perform limit (.next loop)).runIn p.machine = (.error f, m') →
        ∃ n, limit = some n ∧ f = .stepLimit n := by
  obtain ⟨tasks, frames, m⟩ := p
  obtain rfl : tasks = .next loop :: rest := htasks
  obtain ⟨f, outer, -, rfl, hstack⟩ := h.exists_frame hnamed (.inr rfl)
  exact ⟨⟨_, runIn_prepare_next hstack⟩, fun _ _ hperform => next_error hstack hperform⟩

/-- Where a run ends in a failure, the fault is the one that the last task has raised. -/
theorem Scoped.raised_of_endsAt (hnamed : d.Named) {p : Point} {outcome : Outcome} {m : Machine}
    (hQ : Suits Q) (h : Scoped d base p) (hholds : p.machine.Holds Q)
    (hend : EndsAt limit p outcome m) :
    m.Holds Q ∧ ∀ f, outcome = .failed f → Raised Q f := by
  cases hend with
  | finished =>
      exact ⟨hholds, by simp⟩
  | @failed task rest frames m₁ m' fault hperform =>
      have hkept := (upholds_perform hQ limit task m₁ hholds).1
      rw [hperform] at hkept
      refine ⟨all_giveUp _ _ hkept, fun f hf => ?_⟩
      obtain ⟨-, s', hgive, -, -⟩ := h.fails hnamed hperform
      rw [hgive] at hf
      exact Outcome.failed.inj hf ▸ (upholds_perform hQ limit task).fault hholds hperform

end Point

namespace Document

open Point

/-- The values of a run of a document that was read.  At each of its points, also right after a task
that fails,

* every counter is a number, an integer being one of 64 bits, and on the register there are numbers
  and texts; the parameters are texts by their type;
* no task fails because of data that is no script value, and neither does the run;
* the test of a loop does not fail, and counting on fails by the budget alone. -/
theorem values_of_script {t : Text} {d : Document} (hparse : parse t = .ok d)
    (limit : Option Int) (context : Context) :
    (∀ p, Run limit (.start d context) p →
      (∀ x, ∀ v ∈ p.machine.store.stack x, MayBeOn x v) ∧
      (∀ task rest f m', p.tasks = task :: rest →
        (perform limit task).runIn p.machine = (.error f, m') →
          (∀ x, ∀ v ∈ m'.store.stack x, MayBeOn x v) ∧ ¬ f.IsForeign) ∧
      (∀ loop rest, p.tasks = .test loop :: rest →
        ∃ brought m', (perform limit (.test loop)).runIn p.machine = (.ok brought, m')) ∧
      ∀ loop rest, p.tasks = .next loop :: rest →
        (∃ m', (prepare (.next loop)).runIn p.machine = (.ok (), m')) ∧
          ∀ f m', (perform limit (.next loop)).runIn p.machine = (.error f, m') →
            ∃ n, limit = some n ∧ f = .stepLimit n) ∧
    ∀ outcome m, d.EndsAs limit context outcome m →
      (∀ x, ∀ v ∈ m.store.stack x, MayBeOn x v) ∧
        ∀ f, outcome = .failed f → ¬ f.IsForeign := by
  have hnamed := named_of_parse hparse
  have hholds : ∀ p, Run limit (.start d context) p → p.machine.Holds MayBeOn :=
    fun p hrun => holds_run suits_mayBeOn (holds_start d context) hrun
  have hscoped : ∀ p, Run limit (.start d context) p → Scoped d [] p :=
    fun p hrun => scoped_run hnamed (scoped_start d context) hrun
  constructor
  · intro p hrun
    refine ⟨hholds p hrun, fun task rest f m' htasks hperform => ?_, fun loop rest htasks => ?_,
      fun loop rest htasks => ?_⟩
    · have hupholds := upholds_perform suits_mayBeOn limit task
      have hkept := (hupholds p.machine (hholds p hrun)).1
      rw [hperform] at hkept
      exact ⟨hkept, (hupholds.fault (hholds p hrun) hperform).not_isForeign⟩
    · exact (hscoped p hrun).test_ok hnamed htasks
    · exact (hscoped p hrun).next_ok hnamed htasks
  · intro outcome m hends
    obtain ⟨q, hrun, hend⟩ := endsAs_iff_ends.1 hends
    obtain ⟨hm, hraised⟩ :=
      (hscoped q hrun).raised_of_endsAt hnamed suits_mayBeOn (hholds q hrun) hend
    exact ⟨hm, fun f hf => (hraised f hf).not_isForeign⟩

/-- A loop whose echo tag adds a text and the counter. -/
def sumLoop : Loop := ⟨['i'], .int 2, .int 1, [.echo [.text ['a'], .var ['i'], .operator .plus]]⟩

/-- The document of the loop. -/
def textInSum : Document :=
  [.loop ⟨['i'], .number (.int 1), .number (.int 2), none⟩ 0 sumLoop.body]

/-- Where the text and the counter are on the register. -/
def atSum : Point where
  tasks := [.token (.operator .plus), .emit, .next sumLoop]
  frames := [⟨sumLoop, .int 1, 0⟩]
  machine := ⟨((NamedStacks.empty.push ['i'] (.number (.int 1))).push register (.text ['a'])).push
    register (.number (.int 1)), bareContext, 5⟩

/-- The text is no number, but it is a value. -/
theorem values_of_textInSum :
    parse "[$FOR i 1 2 $][$= \"a\" i + $][$END$]".toText = .ok textInSum ∧
      Run (some 9) (.start textInSum bareContext) atSum ∧
      (∀ v ∈ atSum.machine.store.stack register, MayBeOn register v) ∧
      ∃ m', (perform (some 9) (.token (.operator .plus))).runIn atSum.machine =
        (.error (.notANumber ['a']), m') ∧ ¬ (Fault.notANumber ['a']).IsForeign := by
  have hparse : parse "[$FOR i 1 2 $][$= \"a\" i + $][$END$]".toText = .ok textInSum := by rfl
  have hrun : Run (some 9) (.start textInSum bareContext) atSum := run_of_after (k := 6) (by rfl)
  have hperform : (perform (some 9) (.token (.operator .plus))).runIn atSum.machine =
      (.error (.notANumber ['a']), _) := rfl
  obtain ⟨hvalues, hfault, -, -⟩ := (values_of_script hparse (some 9) bareContext).1 atSum hrun
  exact ⟨hparse, hrun, hvalues register, _, hperform, (hfault _ _ _ _ rfl hperform).2⟩

end Document
end Stencil
