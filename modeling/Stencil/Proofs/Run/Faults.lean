import Stencil.Proofs.Number.Pattern
import Stencil.Proofs.Run.Effect

/-!
# Values and faults of tasks

Which values the tasks of a run leave on the stacks, and which faults they raise.

Let `Q x` say which values may be on the stack of a name `x`: at least the numbers, and on the
register the texts and whatever may be on another stack.  If the stacks are so, they stay so
(`upholds_prepare`, `upholds_proceed`): an operator leaves a number, and a function leaves numbers,
texts and values that it has taken, as many as its `Builtin.effect` says.  So no fault is about data
that may not be on the register.

Only the charge of a step finds the budget used up; no part of a task besides the charge fails with
that fault, since no operation on values, stacks or the context does.
-/

namespace Stencil

namespace Fault

/-- The fault is not that of a budget that is used up. -/
def NotStepLimit (f : Fault) : Prop := ∀ n, f ≠ .stepLimit n

/-- The fault can come from an operation on values that have a property: it is not that of a budget
that is used up, and data that it is about has the property. -/
def IsOn (Q : Value → Prop) : Fault → Prop
  | .stepLimit _ => False
  | .foreignOperand data | .foreignText data => Q (.foreign data)
  | _ => True

/-- A property of faults holds of those that operations on values raise, and the response: the data
that such a fault is about has the property of values. -/
structure Covers (P : Fault → Prop) (Q : Value → Prop) : Prop where
  notANumber : ∀ t, P (.notANumber t)
  tooManyDigits : ∀ e, P (.tooManyDigits e)
  foreignOperand : ∀ data, Q (.foreign data) → P (.foreignOperand data)
  foreignText : ∀ data, Q (.foreign data) → P (.foreignText data)
  divisionByZero : P .divisionByZero
  badPattern : ∀ pattern, P (.badPattern pattern)
  sineOfInfinity : P .sineOfInfinity
  headerSent : ∀ field, P (.headerSent field)
  unencodable : ∀ e, P (.unencodable e)
  unknownCharset : ∀ name, P (.unknownCharset name)

theorem covers_isOn (Q : Value → Prop) : Covers (IsOn Q) Q where
  notANumber _ := trivial
  tooManyDigits _ := trivial
  foreignOperand _ h := h
  foreignText _ h := h
  divisionByZero := trivial
  badPattern _ := trivial
  sineOfInfinity := trivial
  headerSent _ := trivial
  unencodable _ := trivial
  unknownCharset _ := trivial

theorem IsOn.notStepLimit {Q : Value → Prop} {f : Fault} (h : f.IsOn Q) : f.NotStepLimit := by
  rintro n rfl
  exact h

end Fault

open Fault (NotStepLimit IsOn covers_isOn)
open Stencil.Action (Upholds)

/-- Numbers and texts have the property. -/
structure Value.Admits (Q : Value → Prop) : Prop where
  number : ∀ n, Q (.number n)
  text : ∀ t, Q (.text t)

/-- Numbers may be on every stack, texts on the register, and there also what may be on another
stack. -/
structure Machine.Suits (Q : Text → Value → Prop) : Prop where
  number : ∀ x n, Q x (.number n)
  text : ∀ t, Q register (.text t)
  read : ∀ {x v}, Q x v → Q register v

theorem Machine.Suits.admits {Q : Text → Value → Prop} (h : Machine.Suits Q) :
    Value.Admits (Q register) :=
  ⟨h.number register, h.text⟩

/-- Every value on a stack may be there. -/
def NamedStacks.All (Q : Text → Value → Prop) (s : NamedStacks) : Prop :=
  ∀ x, ∀ v ∈ s.stack x, Q x v

/-- The invariant of the tasks: every value on a stack of the machine may be there. -/
def Machine.Holds (Q : Text → Value → Prop) (m : Machine) : Prop := m.store.All Q

namespace Builtin

/-- How many values are taken, and how many are left in their place. -/
structure Effect where
  takes : Nat
  leaves : Nat
deriving DecidableEq, Repr

/-- The values that a function takes, and those that it leaves. -/
def effect : Builtin → Effect
  | .sin => ⟨1, 1⟩
  | .decfmt => ⟨2, 1⟩
  | .dup => ⟨1, 2⟩
  | .swap => ⟨2, 2⟩
  | .setMimeType => ⟨1, 0⟩
  | .requestGet | .get _ => ⟨2, 1⟩
  | .set _ => ⟨2, 0⟩
  | .del _ => ⟨1, 0⟩

theorem arity_eq_takes (f : Builtin) : f.arity = f.effect.takes := by
  cases f <;> rfl

end Builtin

section Values

variable {Q : Value → Prop} {P : Fault → Prop} (hP : Fault.Covers P Q)
include hP

namespace Value

theorem meets_toNumber {v : Value} (hv : Q v) : Meets (fun _ => True) P v.toNumber := by
  cases v with
  | absent | number n =>
      exact trivial
  | text t =>
      simp only [toNumber]
      split
      · next e _ => exact hP.tooManyDigits e
      · exact trivial
      · exact hP.notANumber t
  | foreign data =>
      exact hP.foreignOperand data hv

theorem meets_toText {v : Value} (hv : Q v) : Meets (fun _ => True) P v.toText := by
  cases v with
  | absent | number n | text t =>
      exact trivial
  | foreign data =>
      exact hP.foreignText data hv

end Value

theorem Number.meets_apply (op : Operator) (a b : Number) :
    Meets (fun _ => True) P (Number.apply op a b) := by
  cases a <;> cases b <;> try exact trivial
  rw [Number.apply_int]
  split
  · exact hP.divisionByZero
  · exact trivial

namespace Value

theorem meets_apply (op : Operator) {v w : Value} (hv : Q v) (hw : Q w) :
    Meets (fun _ => True) P (v.apply op w) :=
  (meets_toNumber hP hv).bind fun _ _ => (meets_toNumber hP hw).bind fun _ _ =>
    Number.meets_apply hP op _ _

theorem meets_compare {v w : Value} (hv : Q v) (hw : Q w) :
    Meets (fun _ => True) P (v.compare w) :=
  (meets_toNumber hP hv).bind fun _ _ => (meets_toNumber hP hw).bind fun _ _ => trivial

end Value

namespace Context

theorem meets_mapError (bytes : Except Unencodable (List UInt8)) :
    Meets (fun _ => True) P (bytes.mapError Fault.unencodable) := by
  cases bytes with
  | ok own =>
      exact trivial
  | error e =>
      exact hP.unencodable e

theorem upholds_write (t : Text) : Upholds (fun _ => True) (fun _ => True) P (write t) := by
  have hencode (c : Context) : Meets (fun _ => True) P (c.encode t) := by
    unfold encode
    split
    · exact hP.unknownCharset _
    · exact meets_mapError hP _
  have hheader (c : Context) : Meets (fun _ => True) P c.headerBytes := by
    unfold headerBytes
    split
    · exact meets_mapError hP _
    · exact trivial
  have hsend : Upholds (fun _ => True) (fun _ => True) P sendHeader :=
    (Upholds.modify fun _ _ => trivial).bind fun _ _ => Upholds.get.bind fun c _ =>
      (Upholds.ofExcept (hheader c)).bind fun _ _ => .modify fun _ _ => trivial
  exact Upholds.get.bind fun c _ => (Upholds.ofExcept (hencode c)).bind fun bytes _ =>
    Upholds.get.bind fun _ _ =>
      .ite (hsend.bind fun _ _ => .modify fun _ _ => trivial) (.modify fun _ _ => trivial)

theorem upholds_setMimeType (t : Text) :
    Upholds (fun _ => True) (fun _ => True) P (setMimeType t) := by
  have hrequire : Upholds (fun _ => True) (fun _ => True) P (requireUnsent .mimeType) :=
    Upholds.get.bind fun _ _ => .ite (.throw (hP.headerSent _)) (.pure trivial)
  exact hrequire.bind fun _ _ => .modify fun _ _ => trivial

end Context

namespace Builtin

theorem meets_sine (x : Float) : Meets (fun _ => True) P (sine x) := by
  unfold sine
  split
  · exact hP.sineOfInfinity
  · exact trivial

theorem meets_formatBy (pattern : Text) (n : Number) :
    Meets (fun _ => True) P (formatBy pattern n) := by
  cases hread : DecimalPattern.ofText? pattern with
  | none =>
      rw [formatBy_of_none hread]
      exact hP.badPattern pattern
  | some p =>
      obtain ⟨t, -, ht⟩ := formatBy_of_pattern hread n
      rw [ht]
      exact trivial

omit hP in
theorem meets_lookup (x : Text) : Meets (fun _ => True) (IsOn Q) (lookup x) := by
  unfold lookup
  split <;> exact trivial

omit hP in
theorem admits_orDefault (hQ : Value.Admits Q) {default : Value} (h : Q default)
    (found : Option Text) : Q (orDefault default found) := by
  cases found with
  | none =>
      exact h
  | some t =>
      exact hQ.text t

/-- A function that is called on as many values as it takes leaves as many as its effect says; they
are numbers, texts and values that it has taken. -/
theorem upholds_call (hQ : Value.Admits Q) (f : Builtin) {values : List Value}
    (hlength : values.length = f.arity) (hvalues : ∀ v ∈ values, Q v) :
    Upholds (fun _ => True)
      (fun results => results.length = f.effect.leaves ∧ ∀ v ∈ results, Q v) P (f.call values) := by
  have htext (v : Value) (hv : v ∈ values) :
      Upholds (σ := Context) (fun _ => True) (fun _ => True) P (Action.ofExcept v.toText) :=
    .ofExcept (Value.meets_toText hP (hvalues v hv))
  have hnumber (v : Value) (hv : v ∈ values) :
      Upholds (σ := Context) (fun _ => True) (fun _ => True) P (Action.ofExcept v.toNumber) :=
    .ofExcept (Value.meets_toNumber hP (hvalues v hv))
  have hone (h : values.length = 1) : ∃ x, values = [x] := List.length_eq_one_iff.1 h
  have htwo (h : values.length = 2) : ∃ x y, values = [x, y] := by
    match values, h with
    | [x, y], _ => exact ⟨x, y, rfl⟩
  cases f with
  | sin =>
      obtain ⟨x, rfl⟩ := hone hlength
      exact (hnumber _ (by simp)).bind fun _ _ =>
        (Upholds.ofExcept (meets_sine hP _)).bind fun _ _ =>
          .pure ⟨rfl, by simpa using hQ.number _⟩
  | decfmt =>
      obtain ⟨pattern, x, rfl⟩ := htwo hlength
      exact (hnumber _ (by simp)).bind fun _ _ => (htext _ (by simp)).bind fun _ _ =>
        (Upholds.ofExcept (meets_formatBy hP _ _)).bind fun _ _ =>
          .pure ⟨rfl, by simpa using hQ.text _⟩
  | dup =>
      obtain ⟨x, rfl⟩ := hone hlength
      exact .pure ⟨rfl, by simpa using hvalues⟩
  | swap =>
      obtain ⟨x, y, rfl⟩ := htwo hlength
      exact .pure ⟨rfl, hvalues⟩
  | setMimeType =>
      obtain ⟨x, rfl⟩ := hone hlength
      exact (htext _ (by simp)).bind fun _ _ => (Context.upholds_setMimeType hP _).bind fun _ _ =>
        .pure ⟨rfl, by simp⟩
  | requestGet | get store =>
      obtain ⟨default, x, rfl⟩ := htwo hlength
      exact (htext _ (by simp)).bind fun _ _ => Upholds.get.bind fun _ _ =>
        .pure ⟨rfl, by simpa using admits_orDefault hQ (hvalues default (by simp)) _⟩
  | set store =>
      obtain ⟨value, x, rfl⟩ := htwo hlength
      exact (htext _ (by simp)).bind fun _ _ => (htext _ (by simp)).bind fun _ _ =>
        (Upholds.modify fun _ _ => trivial).bind fun _ _ => .pure ⟨rfl, by simp⟩
  | del store =>
      obtain ⟨x, rfl⟩ := hone hlength
      exact (htext _ (by simp)).bind fun _ _ => (Upholds.modify fun _ _ => trivial).bind fun _ _ =>
        .pure ⟨rfl, by simp⟩

end Builtin

end Values

variable {Q : Text → Value → Prop}

namespace NamedStacks

theorem all_empty : All Q empty := by
  intro x v hv
  simp [stack_empty] at hv

theorem All.set {s : NamedStacks} (h : s.All Q) (x : Text) {values : List Value}
    (hvalues : ∀ v ∈ values, Q x v) : (s.set x values).All Q := by
  intro y v hv
  rw [stack_set] at hv
  split at hv
  · next hx =>
      exact hx ▸ hvalues v hv
  · exact h y v hv

theorem All.push {s : NamedStacks} (h : s.All Q) (x : Text) {v : Value} (hv : Q x v) :
    (s.push x v).All Q :=
  h.set x fun _ hw => (List.mem_cons.1 hw).elim (fun heq => heq ▸ hv) (h x _)

/-- The value that is taken may be where it was, and so may what is left. -/
theorem All.meets_pop {s : NamedStacks} (h : s.All Q) (x : Text) :
    Meets (fun r => Q x r.1 ∧ r.2.All Q) (IsOn (Q register)) (s.pop x) := by
  cases hstack : s.stack x with
  | nil =>
      rw [(s.pop_eq_error_iff x _).2 ⟨hstack, rfl⟩]
      exact trivial
  | cons v rest =>
      have hmem : ∀ w ∈ v :: rest, Q x w := fun w hw => h x w (hstack ▸ hw)
      rw [pop_of_stack hstack]
      exact ⟨hmem v List.mem_cons_self, h.set x fun w hw => hmem w (List.mem_cons_of_mem _ hw)⟩

theorem All.meets_peek {s : NamedStacks} (h : s.All Q) (x : Text) :
    Meets (Q x) (IsOn (Q register)) (s.peek x) := by
  unfold peek
  split
  · exact trivial
  · next v rest hstack =>
      exact h x v (by simp [hstack])

end NamedStacks

namespace Machine

theorem upholds_onContext {α : Type} {R : α → Prop} {act : Action Context α}
    (h : Upholds (fun _ => True) R (IsOn (Q register)) act) :
    Upholds (Holds Q) R (IsOn (Q register)) (onContext act) :=
  fun m hm => ⟨hm, (h m.context trivial).2⟩

theorem upholds_push (x : Text) {v : Value} (hv : Q x v) :
    Upholds (Holds Q) (fun _ => True) (IsOn (Q register)) (push x v) :=
  .modify fun _ hm => hm.push x hv

theorem upholds_pop (x : Text) : Upholds (Holds Q) (Q x) (IsOn (Q register)) (pop x) := by
  intro m hm
  have hmeets := NamedStacks.All.meets_pop hm x
  rw [runIn_pop]
  split
  · next v s hpop =>
      rw [hpop] at hmeets
      exact ⟨hmeets.2, hmeets.1⟩
  · next f hpop =>
      rw [hpop] at hmeets
      exact ⟨hm, hmeets⟩

theorem upholds_pushAll {values : List Value} (h : ∀ v ∈ values, Q register v) :
    Upholds (Holds Q) (fun _ => True) (IsOn (Q register)) (pushAll values) := by
  induction values with
  | nil =>
      exact .pure trivial
  | cons v rest ih =>
      exact (upholds_push _ (h v List.mem_cons_self)).bind fun _ _ =>
        ih fun w hw => h w (List.mem_cons_of_mem _ hw)

theorem upholds_popMany (n : Nat) :
    Upholds (Holds Q) (fun values => values.length = n ∧ ∀ v ∈ values, Q register v)
      (IsOn (Q register)) (popMany n) := by
  induction n with
  | zero =>
      exact .pure ⟨rfl, by simp⟩
  | succ n ih =>
      exact (upholds_pop _).bind fun v hv => ih.bind fun rest hrest =>
        .pure ⟨congrArg Nat.succ hrest.1, List.forall_mem_cons.2 ⟨hv, hrest.2⟩⟩

theorem upholds_require (consumer : Text) (needed : Nat) :
    Upholds (Holds Q) (fun _ => True) (IsOn (Q register)) (require consumer needed) :=
  Upholds.get.bind fun _ _ => .ite (.throw trivial) (.pure trivial)

theorem upholds_evaluate (hQ : Suits Q) (t : Token) :
    Upholds (Holds Q) (fun _ => True) (IsOn (Q register)) (evaluate t) := by
  cases t with
  | number n =>
      exact upholds_push _ (hQ.number _ n)
  | text t =>
      exact upholds_push _ (hQ.text t)
  | var x =>
      refine Upholds.get.bind fun m hm => ?_
      have hread : Upholds (Holds Q) (fun _ => True) (IsOn (Q register)) (do
          push register (← Action.ofExcept (m.store.peek x))) :=
        (Upholds.ofExcept (NamedStacks.All.meets_peek hm x)).bind fun _ hv =>
          upholds_push _ (hQ.read hv)
      exact .ite ((Upholds.throw (R := fun _ => True) trivial).bind fun _ _ => hread) hread
  | operator op =>
      exact (upholds_require _ _).bind fun _ _ => (upholds_pop _).bind fun _ hright =>
        (upholds_pop _).bind fun _ hleft =>
          (Upholds.ofExcept (Value.meets_apply (covers_isOn _) op hleft hright)).bind fun _ _ =>
            upholds_push _ (hQ.number _ _)
  | call x =>
      exact (Upholds.ofExcept (Builtin.meets_lookup x)).bind fun _ _ =>
        (upholds_require _ _).bind fun _ _ => (upholds_popMany _).bind fun _ hvalues =>
          (upholds_onContext (Builtin.upholds_call (covers_isOn _) hQ.admits _ hvalues.1
            hvalues.2)).bind fun _ hresults => upholds_pushAll hresults.2

theorem upholds_emit : Upholds (Holds Q) (fun _ => True) (IsOn (Q register)) emit := by
  refine Upholds.get.bind fun m hm => ?_
  have hdrained : ∀ v ∈ (m.store.drain register).1, Q register v := fun v hv =>
    hm register v (List.mem_reverse.1 hv)
  have hleft : (m.store.drain register).2.All Q := hm.set register (by simp)
  have hdrain : Upholds (Holds Q) (fun _ => True) (IsOn (Q register))
      (modify fun m' : Machine => { m' with store := (m.store.drain register).2 }) :=
    .modify fun _ _ => hleft
  have htexts : Meets (fun _ => True) (IsOn (Q register))
      ((m.store.drain register).1.mapM Value.toText) :=
    meets_mapM fun v hv => Value.meets_toText (covers_isOn _) (hdrained v hv)
  exact hdrain.bind fun _ _ => (Upholds.ofExcept htexts).bind fun _ _ =>
    upholds_onContext (Context.upholds_write (covers_isOn _) _)

theorem upholds_test (hQ : Suits Q) (loop : Loop) :
    Upholds (Holds Q) (fun _ => True) (IsOn (Q register)) (test loop) :=
  Upholds.get.bind fun _ hm =>
    (Upholds.ofExcept (NamedStacks.All.meets_peek hm _)).bind fun _ hv =>
      (Upholds.ofExcept
        (Value.meets_compare (covers_isOn _) (hQ.read hv) (hQ.number _ _))).bind fun _ _ =>
          .ite (.pure trivial) ((upholds_pop _).bind fun _ _ => .pure trivial)

theorem meets_boundOf (bound : LoopBound) (t : Token) :
    Meets (fun _ => True) (IsOn (Q register)) (boundOf bound t) := by
  cases t <;> exact trivial

theorem meets_loopOf (head : LoopHead) (body : List Node) :
    Meets (fun _ => True) (IsOn (Q register)) (loopOf head body) := by
  refine (meets_boundOf .first _).bind fun _ _ => (meets_boundOf .last _).bind fun _ _ => ?_
  cases head.step with
  | none =>
      exact trivial
  | some t =>
      exact (meets_boundOf .step t).bind fun _ _ => trivial

/-- What a task does before its charge keeps the property, and does not find the budget used up. -/
theorem upholds_prepare (hQ : Suits Q) (task : Task) :
    Upholds (Holds Q) (fun _ => True) (IsOn (Q register)) (prepare task) := by
  cases task with
  | next loop =>
      exact (upholds_pop _).bind fun _ hv =>
        (Upholds.ofExcept
          (Value.meets_apply (covers_isOn _) .plus (hQ.read hv) (hQ.number _ _))).bind fun _ _ =>
            upholds_push _ (hQ.number _ _)
  | document nodes | visit node | token t | emit | test loop =>
      exact .pure trivial

/-- What a task does after its charge keeps the property, and does not find the budget used up. -/
theorem upholds_proceed (hQ : Suits Q) (task : Task) :
    Upholds (Holds Q) (fun _ => True) (IsOn (Q register)) (proceed task) := by
  cases task with
  | document nodes =>
      exact .pure trivial
  | visit node =>
      cases node with
      | text content =>
          exact (upholds_onContext (Context.upholds_write (covers_isOn _) _)).bind fun _ _ =>
            .pure trivial
      | echo tokens =>
          exact .pure trivial
      | loop head offset body =>
          exact (Upholds.ofExcept (meets_loopOf head body)).bind fun _ _ =>
            (upholds_push _ (hQ.number _ _)).bind fun _ _ => .pure trivial
  | token t =>
      exact (upholds_evaluate hQ t).bind fun _ _ => .pure trivial
  | emit =>
      exact upholds_emit.bind fun _ _ => .pure trivial
  | test loop =>
      exact upholds_test hQ loop
  | next loop =>
      exact .pure trivial

theorem suits_true : Suits fun _ _ => True := ⟨fun _ _ => trivial, fun _ => trivial, id⟩

theorem notStepLimit_of_prepare (task : Task) (m : Machine) (f : Fault) (m' : Machine)
    (h : (prepare task).runIn m = (.error f, m')) : f.NotStepLimit :=
  ((upholds_prepare suits_true task).fault (fun _ _ _ => trivial) h).notStepLimit

theorem notStepLimit_of_proceed (task : Task) (m : Machine) (f : Fault) (m' : Machine)
    (h : (proceed task).runIn m = (.error f, m')) : f.NotStepLimit :=
  ((upholds_proceed suits_true task).fault (fun _ _ _ => trivial) h).notStepLimit

end Machine
end Stencil
