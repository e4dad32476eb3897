import Stencil.Proofs.Run.Faults
import Stencil.Proofs.Run.Operations

/-!
# Tokens and the register

What a token takes from the register and what it leaves there.

**Effects.**  A token takes a number of values and leaves a number of values, which depend on the
token alone (`Token.effect`).  If the register holds too few values the token fails and takes none
(`evaluate_of_lt`).  Otherwise it leaves as many as its effect says (`evaluate_of_le`), or it fails
for another cause.

**Results.**
* `evaluate_call_ok` and `evaluate_call_error`: a call of a function, given its values.
* `evaluate_of_lt` and `evaluate_of_le`: every token, by its effect.
-/

namespace Stencil

open Machine

namespace Machine

/-- Values are pushed one after another, and nothing else is changed. -/
theorem runIn_pushAll (values : List Value) (m : Machine) :
    ∃ store, (pushAll values).runIn m = (.ok ⟨⟩, { m with store := store }) ∧
      store.stack register = values.reverse ++ m.store.stack register := by
  induction values generalizing m with
  | nil =>
      exact ⟨m.store, rfl, rfl⟩
  | cons v rest ih =>
      obtain ⟨store, hrun, hstack⟩ := ih { m with store := m.store.push register v }
      refine ⟨store, ?_, ?_⟩
      · show (push register v >>= fun _ => pushAll rest).runIn m = _
        rw [Action.runIn_bind, runIn_push]
        exact hrun
      · rw [hstack, NamedStacks.stack_push, if_pos rfl]
        simp

theorem runIn_require (consumer : Text) (needed : Nat) (m : Machine) :
    (require consumer needed).runIn m =
      if (m.store.stack register).length < needed then
        (.error (.missingOperands consumer needed (m.store.stack register).length), m)
      else (.ok (), m) := by
  by_cases h : (m.store.stack register).length < needed
  · simp [require, Action.runIn_bind, NamedStacks.depth, h]
  · simp [require, Action.runIn_bind, NamedStacks.depth, h]

section Call

variable {x : Text} {f : Builtin} {m : Machine} {values rest results : List Value} {c : Context}

/-- The values of a call are taken, and the function is called on them. -/
theorem runIn_evaluate_call (hf : Builtin.lookup x = .ok f)
    (hstack : m.store.stack register = values ++ rest) (hlength : values.length = f.arity) :
    ∃ store, store.stack register = rest ∧ (evaluate (.call x)).runIn m =
      (onContext (f.call values) >>= pushAll).runIn { m with store := store } := by
  have hle : f.arity ≤ (m.store.stack register).length := by
    rw [hstack, List.length_append]
    omega
  obtain ⟨store, hmany, hbelow⟩ := runIn_popMany hle
  rw [hstack, ← hlength, List.take_left' rfl] at hmany
  rw [hstack, ← hlength, List.drop_left' rfl] at hbelow
  refine ⟨store, hbelow, ?_⟩
  rw [hlength] at hmany
  simp only [evaluate, Action.runIn_bind, Action.runIn_ofExcept, hf, runIn_require,
    if_neg (Nat.not_lt.2 hle), hmany]

/-- A call that succeeds leaves the results of the function in place of its values. -/
theorem evaluate_call_ok (hf : Builtin.lookup x = .ok f)
    (hstack : m.store.stack register = values ++ rest) (hlength : values.length = f.arity)
    (hcall : (f.call values).runIn m.context = (.ok results, c)) :
    ∃ m', (evaluate (.call x)).runIn m = (.ok (), m') ∧ m'.context = c ∧
      m'.store.stack register = results.reverse ++ rest := by
  obtain ⟨store, hrest, hrun⟩ := runIn_evaluate_call hf hstack hlength
  obtain ⟨store', hpush, hresults⟩ := runIn_pushAll results ⟨store, c, m.steps⟩
  refine ⟨⟨store', c, m.steps⟩, ?_, rfl, by rw [hresults, hrest]⟩
  rw [hrun, Action.runIn_bind, runIn_onContext, hcall]
  exact hpush

/-- A call fails as the function does. -/
theorem evaluate_call_error (hf : Builtin.lookup x = .ok f)
    (hstack : m.store.stack register = values ++ rest) (hlength : values.length = f.arity)
    {fault : Fault} (hcall : (f.call values).runIn m.context = (.error fault, c)) :
    ((evaluate (.call x)).runIn m).1 = .error fault := by
  obtain ⟨store, -, hrun⟩ := runIn_evaluate_call hf hstack hlength
  rw [hrun, Action.runIn_bind, runIn_onContext, hcall]

end Call

end Machine

/-- The fault is that of a stack with too few values. -/
def Fault.IsEmptyStack : Fault → Prop
  | .emptyStack _ | .missingOperands _ _ _ => True
  | _ => False

/-- Neither an operation on values nor the response raises such a fault. -/
theorem Fault.covers_not_isEmptyStack :
    Covers (fun f => ¬ f.IsEmptyStack) fun _ : Value => True where
  notANumber _ := id
  tooManyDigits _ := id
  foreignOperand _ _ := id
  foreignText _ _ := id
  divisionByZero := id
  badPattern _ := id
  sineOfInfinity := id
  headerSent _ := id
  unencodable _ := id
  unknownCharset _ := id

namespace Token

/-- The values that a token takes from the register, and those that it leaves there. -/
def effect : Token → Builtin.Effect
  | .number _ | .text _ | .var _ => ⟨0, 1⟩
  | .operator _ => ⟨2, 1⟩
  | .call x => ((Builtin.ofName? x).map Builtin.effect).getD ⟨0, 0⟩

/-- The token is no call of a function that there is none of. -/
def Known (t : Token) : Prop := ∀ x, t = .call x → ∃ f, Builtin.lookup x = .ok f

theorem effect_call {x : Text} {f : Builtin} (hf : Builtin.lookup x = .ok f) :
    (call x).effect = f.effect := by
  unfold Builtin.lookup at hf
  split at hf
  · next g hg =>
      obtain rfl := Except.ok.inj hf
      simp [effect, hg]
  · simp at hf

end Token

namespace Machine

open Fault (covers_not_isEmptyStack)

variable {t : Token} {m : Machine}

/-- A token that finds too few values fails, and changes nothing. -/
theorem evaluate_of_lt (hknown : t.Known)
    (h : (m.store.stack register).length < t.effect.takes) :
    ∃ consumer, (evaluate t).runIn m =
      (.error (.missingOperands consumer t.effect.takes (m.store.stack register).length), m) := by
  cases t with
  | number n | text t | var x =>
      exact absurd h (Nat.not_lt_zero _)
  | operator op =>
      have hlt : (m.store.stack register).length < 2 := h
      refine ⟨[op.symbol], ?_⟩
      simp only [evaluate, Action.runIn_bind, runIn_require, if_pos hlt]
      rfl
  | call x =>
      obtain ⟨f, hf⟩ := hknown x rfl
      rw [Token.effect_call hf, ← f.arity_eq_takes] at h ⊢
      refine ⟨.char '@' :: x, ?_⟩
      simp only [evaluate, Action.runIn_bind, Action.runIn_ofExcept, hf, runIn_require, if_pos h]

/-- An operator leaves its result in place of its operands, of which the right one is on top. -/
theorem evaluate_operator (op : Operator) {left right : Value} {rest : List Value}
    (hstack : m.store.stack register = right :: left :: rest) :
    ∃ m', (evaluate (.operator op)).runIn m = ((left.apply op right).map fun _ => (), m') ∧
      ∀ n, left.apply op right = .ok n → m'.store.stack register = .number n :: rest := by
  have hdepth : ¬ (m.store.stack register).length < 2 := by simp [hstack]
  have hright : (pop register).runIn m =
      (.ok right, { m with store := m.store.set register (left :: rest) }) := by
    rw [runIn_pop, NamedStacks.pop_of_stack hstack]
  have hleft : (pop register).runIn { m with store := m.store.set register (left :: rest) } =
      (.ok left,
        { m with store := (m.store.set register (left :: rest)).set register rest }) := by
    rw [runIn_pop, NamedStacks.pop_of_stack (by rw [NamedStacks.stack_set, if_pos rfl])]
  have hrun : (evaluate (.operator op)).runIn m =
      (Action.ofExcept (left.apply op right) >>= fun n => push register (.number n)).runIn
        { m with store := (m.store.set register (left :: rest)).set register rest } := by
    simp only [evaluate, Action.runIn_bind, runIn_require, if_neg hdepth, hright, hleft]
  rw [hrun, Action.runIn_bind, Action.runIn_ofExcept]
  cases left.apply op right with
  | ok n =>
      refine ⟨_, rfl, fun n' hn => ?_⟩
      obtain rfl := Except.ok.inj hn
      simp [NamedStacks.stack_push, NamedStacks.stack_set]
  | error fault =>
      exact ⟨_, rfl, fun n' hn => absurd hn (by simp)⟩

/-- A token that finds enough values leaves as many in place of those that it takes as its effect
says, or fails for another cause. -/
theorem evaluate_of_le (hknown : t.Known)
    (h : t.effect.takes ≤ (m.store.stack register).length) :
    (∃ m', (evaluate t).runIn m = (.ok (), m') ∧ (m'.store.stack register).length =
        (m.store.stack register).length - t.effect.takes + t.effect.leaves) ∨
      ∃ fault m', (evaluate t).runIn m = (.error fault, m') ∧ ¬ fault.IsEmptyStack := by
  have hpush (v : Value) :
      ((m.store.push register v).stack register).length = (m.store.stack register).length + 1 := by
    rw [NamedStacks.stack_push, if_pos rfl, List.length_cons]
  cases t with
  | number n =>
      exact Or.inl ⟨_, runIn_push _ _ m, hpush _⟩
  | text t =>
      exact Or.inl ⟨_, runIn_push _ _ m, hpush _⟩
  | var x =>
      cases hstack : m.store.stack x with
      | nil =>
          refine Or.inr ⟨.unbound x, m, ?_, id⟩
          simp [evaluate, Action.runIn_bind, NamedStacks.isEmpty, hstack]
      | cons v rest =>
          refine Or.inl ⟨{ m with store := m.store.push register v }, ?_, hpush v⟩
          simp [evaluate, Action.runIn_bind, NamedStacks.isEmpty, hstack,
            NamedStacks.peek_of_stack hstack]
  | operator op =>
      obtain ⟨right, left, rest, hstack⟩ :
          ∃ right left rest, m.store.stack register = right :: left :: rest := by
        have htwo : 2 ≤ (m.store.stack register).length := h
        cases hstack : m.store.stack register with
        | nil =>
            simp [hstack] at htwo
        | cons right below =>
            cases below with
            | nil =>
                simp [hstack] at htwo
            | cons left rest =>
                exact ⟨right, left, rest, rfl⟩
      obtain ⟨m', hrun, hresult⟩ := evaluate_operator op hstack
      have hmeets := Value.meets_apply covers_not_isEmptyStack op (v := left) (w := right) trivial
        trivial
      cases happly : left.apply op right with
      | ok n =>
          rw [happly] at hrun
          refine Or.inl ⟨m', hrun, ?_⟩
          rw [hresult n happly, hstack]
          rfl
      | error fault =>
          rw [happly] at hrun hmeets
          exact Or.inr ⟨fault, m', hrun, hmeets⟩
  | call x =>
      obtain ⟨f, hf⟩ := hknown x rfl
      rw [Token.effect_call hf] at h ⊢
      have hlength : ((m.store.stack register).take f.arity).length = f.arity :=
        List.length_take_of_le (f.arity_eq_takes ▸ h)
      have hstack := (List.take_append_drop f.arity (m.store.stack register)).symm
      obtain ⟨-, hmeets⟩ := Builtin.upholds_call covers_not_isEmptyStack
        ⟨fun _ => trivial, fun _ => trivial⟩ f hlength (fun _ _ => trivial) m.context trivial
      cases hcall : (f.call ((m.store.stack register).take f.arity)).runIn m.context with
      | mk outcome c =>
          rw [hcall] at hmeets
          cases outcome with
          | ok results =>
              obtain ⟨m', hrun, -, hresults⟩ := evaluate_call_ok hf hstack hlength hcall
              refine Or.inl ⟨m', hrun, ?_⟩
              have hleaves : results.length = f.effect.leaves := hmeets.1
              rw [hresults, List.length_append, List.length_reverse, List.length_drop, hleaves,
                f.arity_eq_takes]
              omega
          | error fault =>
              exact Or.inr ⟨fault, _, Prod.ext (evaluate_call_error hf hstack hlength hcall) rfl,
                hmeets⟩

end Machine
end Stencil
