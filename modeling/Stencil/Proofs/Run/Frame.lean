import Stencil.Proofs.Run.Depth

/-!
# Expressions put together

What a list of tokens does that is complete by itself, it does on top of any values too.

**Argument.**  Two machines are related by `Below below` if the second one holds the values of
`below` beneath those on the register of the first one, and nothing else is different.  Where a
token succeeds on the first machine, it succeeds on the second one and leaves the same there, since
it takes nothing that it has not found on the register of the first (`transfers_evaluate`).  Hence
so do all tokens of a list, one after another (`completes_below`).  The second of two lists that
begin with an empty register therefore runs on the values of the first one as it runs by itself.

**Results.**  `leaves_append`: the values and the context that two lists leave one after the other,
and what an echo tag of both of them writes.
-/

namespace Stencil
namespace Machine

variable {below : List Value} {m m' m₁ : Machine} {tokens : List Token}

/-- The second machine holds further values beneath those on the register of the first one. -/
structure Below (below : List Value) (m m' : Machine) : Prop where
  context : m'.context = m.context
  onRegister : m'.store.stack register = m.store.stack register ++ below
  other : ∀ x, x ≠ register → m'.store.stack x = m.store.stack x

theorem Below.push (h : Below below m m') (v : Value) :
    Below below { m with store := m.store.push register v }
      { m' with store := m'.store.push register v } where
  context := h.context
  onRegister := by
    rw [NamedStacks.stack_push, NamedStacks.stack_push, if_pos rfl, if_pos rfl, h.onRegister]
    rfl
  other x hx := by
    rw [NamedStacks.stack_push, NamedStacks.stack_push, if_neg hx, if_neg hx, h.other x hx]

theorem transfers_push (v : Value) : Action.Transfers (Below below) (push register v) :=
  .modify fun _ _ h => h.push v

theorem transfers_pop : Action.Transfers (Below below) (pop register) := by
  intro m m' v m₁ h hrun
  rw [runIn_pop] at hrun
  cases hstack : m.store.stack register with
  | nil =>
      rw [(NamedStacks.pop_eq_error_iff m.store register _).2 ⟨hstack, rfl⟩] at hrun
      simp at hrun
  | cons top rest =>
      have hstack' : m'.store.stack register = top :: (rest ++ below) := by
        rw [h.onRegister, hstack, List.cons_append]
      rw [NamedStacks.pop_of_stack hstack] at hrun
      obtain ⟨htop, rfl⟩ := Prod.mk.inj hrun
      obtain rfl := Except.ok.inj htop
      refine ⟨{ m' with store := m'.store.set register (rest ++ below) }, ?_, h.context, ?_, ?_⟩
      · rw [runIn_pop, NamedStacks.pop_of_stack hstack']
      · rw [NamedStacks.stack_set, NamedStacks.stack_set, if_pos rfl, if_pos rfl]
      · intro x hx
        rw [NamedStacks.stack_set, NamedStacks.stack_set, if_neg hx, if_neg hx, h.other x hx]

theorem transfers_pushAll (values : List Value) :
    Action.Transfers (Below below) (pushAll values) := by
  induction values with
  | nil =>
      exact .pure _
  | cons v rest ih =>
      exact (transfers_push v).bind fun _ => ih

theorem transfers_popMany (n : Nat) : Action.Transfers (Below below) (popMany n) := by
  induction n with
  | zero =>
      exact .pure _
  | succ n ih =>
      exact transfers_pop.bind fun _ => ih.bind fun _ => .pure _

/-- Values that are enough for a consumer are enough with others beneath them. -/
theorem transfers_require (consumer : Text) (needed : Nat) :
    Action.Transfers (Below below) (require consumer needed) := by
  intro m m' u m₁ h hrun
  rw [runIn_require] at hrun
  split at hrun
  · simp at hrun
  · next hle =>
      obtain ⟨-, rfl⟩ := Prod.mk.inj hrun
      have hle' : ¬ (m'.store.stack register).length < needed := by
        rw [h.onRegister, List.length_append]
        omega
      exact ⟨m', by rw [runIn_require, if_neg hle'], h⟩

theorem transfers_onContext {α : Type} (act : Action Context α) :
    Action.Transfers (Below below) (onContext act) := by
  intro m m' a m₁ h hrun
  rw [runIn_onContext] at hrun
  obtain ⟨hresult, rfl⟩ := Prod.mk.inj hrun
  refine ⟨{ m' with context := (act.runIn m.context).2 }, ?_, rfl, h.onRegister, h.other⟩
  rw [runIn_onContext, h.context, hresult]

theorem transfers_charge : Action.Transfers (Below below) (charge none) := by
  intro m m' u m₁ h hrun
  rw [runIn_charge_none] at hrun
  obtain ⟨-, rfl⟩ := Prod.mk.inj hrun
  exact ⟨{ m' with steps := m'.steps + 1 }, runIn_charge_none m', h.context, h.onRegister, h.other⟩

/-- A variable is read from the top of its stack. -/
theorem runIn_evaluate_var {x : Text} {v : Value} {rest : List Value}
    (hstack : m.store.stack x = v :: rest) :
    (evaluate (.var x)).runIn m = (.ok (), { m with store := m.store.push register v }) := by
  simp [evaluate, Action.runIn_bind, NamedStacks.isEmpty, hstack, NamedStacks.peek_of_stack hstack]

/-- The top of a stack that is not empty stays on top, be it the register or not. -/
theorem Below.top (h : Below below m m') {x : Text} {v : Value} {rest : List Value}
    (hstack : m.store.stack x = v :: rest) : ∃ rest', m'.store.stack x = v :: rest' := by
  by_cases hx : x = register
  · subst hx
    exact ⟨rest ++ below, by rw [h.onRegister, hstack, List.cons_append]⟩
  · exact ⟨rest, by rw [h.other x hx, hstack]⟩

/-- A token that succeeds does the same with other values beneath those that it finds. -/
theorem transfers_evaluate (t : Token) : Action.Transfers (Below below) (evaluate t) := by
  cases t with
  | number n =>
      exact transfers_push _
  | text t =>
      exact transfers_push _
  | var x =>
      intro m m' u m₁ h hrun
      have hbound := evaluate_var x m
      cases hstack : m.store.stack x with
      | nil =>
          rw [hrun, if_pos hstack] at hbound
          simp at hbound
      | cons v rest =>
          rw [runIn_evaluate_var hstack] at hrun
          obtain ⟨-, rfl⟩ := Prod.mk.inj hrun
          obtain ⟨rest', hstack'⟩ := h.top hstack
          exact ⟨_, runIn_evaluate_var hstack', h.push v⟩
  | operator op =>
      exact (transfers_require _ _).bind fun _ => transfers_pop.bind fun _ =>
        transfers_pop.bind fun _ => (Action.Transfers.ofExcept _).bind fun _ => transfers_push _
  | call x =>
      exact (Action.Transfers.ofExcept _).bind fun _ => (transfers_require _ _).bind fun _ =>
        (transfers_popMany _).bind fun _ => (transfers_onContext _).bind fun _ =>
          transfers_pushAll _

theorem transfers_perform_token (t : Token) :
    Action.Transfers (Below below) (perform none (.token t)) :=
  transfers_charge.bind fun _ => (transfers_evaluate t).bind fun _ => .pure _

/-- A token that succeeds brings no tasks. -/
theorem eq_nil_of_perform_token {t : Token} {brought : List Task}
    (h : (perform none (.token t)).runIn m = (.ok brought, m₁)) : brought = [] := by
  have hreturns : Returns (perform none (.token t)) (· = []) :=
    .bind fun _ => .bind fun _ => .pure rfl
  exact hreturns m brought m₁ h

/-- Tokens that succeed begin with one that succeeds. -/
theorem completes_tokens_cons {t : Token}
    (h : Completes none ((t :: tokens).map .token) m .finished m₁) :
    ∃ m₂, (perform none (.token t)).runIn m = (.ok [], m₂) ∧
      Completes none (tokens.map .token) m₂ .finished m₁ := by
  rw [List.map_cons] at h
  cases hperform : (perform none (.token t)).runIn m with
  | mk outcome m₂ =>
      cases outcome with
      | error fault =>
          obtain ⟨hfailed, -⟩ := (completes_cons_of_error hperform).1 h
          simp at hfailed
      | ok brought =>
          obtain rfl := eq_nil_of_perform_token hperform
          exact ⟨m₂, rfl, (completes_cons_of_ok hperform).1 h⟩

/-- Tokens that succeed do the same with other values beneath those that they find. -/
theorem completes_below (h : Below below m m')
    (hends : Completes none (tokens.map .token) m .finished m₁) :
    ∃ m₁', Completes none (tokens.map .token) m' .finished m₁' ∧ Below below m₁ m₁' := by
  induction tokens generalizing m m' with
  | nil =>
      obtain ⟨-, rfl⟩ := completes_nil.1 hends
      exact ⟨m', completes_nil.2 ⟨rfl, rfl⟩, h⟩
  | cons t rest ih =>
      obtain ⟨m₂, hperform, hrest⟩ := completes_tokens_cons hends
      obtain ⟨m₂', hperform', h₂⟩ := transfers_perform_token t m m' [] m₂ h hperform
      obtain ⟨m₁', hrest', h₁⟩ := ih h₂ hrest
      exact ⟨m₁', (completes_cons_of_ok hperform').2 hrest', h₁⟩

/-- Tokens change no stack but the register. -/
theorem registerOnly_of_completes (hends : Completes none (tokens.map .token) m .finished m₁) :
    RegisterOnly m m₁ := by
  induction tokens generalizing m with
  | nil =>
      obtain ⟨-, rfl⟩ := completes_nil.1 hends
      exact refl_of RegisterOnly m₁
  | cons t rest ih =>
      obtain ⟨m₂, hperform, hrest⟩ := completes_tokens_cons hends
      have hkept := registerOnly_perform_token none t m
      rw [hperform] at hkept
      exact trans_of RegisterOnly hkept (ih hrest)

/-- The machine that an expression begins on: nothing is on the register. -/
def fresh (s : NamedStacks) (c : Context) (steps : Nat) : Machine :=
  ⟨s.set register [], c, steps⟩

/-- Evaluating tokens from an empty register succeeds, and leaves values there, the bottom one
first, and a context. -/
def Leaves (s : NamedStacks) (c : Context) (tokens : List Token) (values : List Value)
    (c' : Context) : Prop :=
  ∃ m, Completes none (tokens.map .token) (fresh s c 0) .finished m ∧
    m.store.stack register = values.reverse ∧ m.context = c'

theorem stack_register_fresh (s : NamedStacks) (c : Context) (steps : Nat) :
    (fresh s c steps).store.stack register = [] := by
  rw [fresh, NamedStacks.stack_set, if_pos rfl]

/-- What tokens leave from an empty register, they leave on top of other values. -/
theorem Leaves.on_top {s : NamedStacks} {c c' : Context} {values : List Value}
    (h : Leaves s c tokens values c') (hcontext : m.context = c)
    (hother : ∀ x, x ≠ register → m.store.stack x = s.stack x) :
    ∃ m₁, Completes none (tokens.map .token) m .finished m₁ ∧ m₁.context = c' ∧
      m₁.store.stack register = values.reverse ++ m.store.stack register := by
  obtain ⟨m₀, hends, hstack, rfl⟩ := h
  have hbelow : Below (m.store.stack register) (fresh s c 0) m := by
    refine ⟨hcontext, by rw [stack_register_fresh, List.nil_append], fun x hx => ?_⟩
    rw [hother x hx, fresh, NamedStacks.stack_set, if_neg hx]
  obtain ⟨m₁, hends', h₁⟩ := completes_below hbelow hends
  exact ⟨m₁, hends', h₁.context, by rw [h₁.onRegister, hstack]⟩

/-- The texts of values, one after another. -/
def textOf (values : List Value) : Except Fault Text := do
  let texts ← values.mapM Value.toText
  return texts.flatten

theorem textOf_append (values values' : List Value) :
    textOf (values ++ values') = do
      let t ← textOf values
      let t' ← textOf values'
      return t ++ t' := by
  simp [textOf, List.mapM_append]

/-- Writes the texts of values at once. -/
def writeValues (values : List Value) : Action Context Unit := do
  let t ← Action.ofExcept (textOf values)
  Context.write t

/-- How a run ends that ends with an action. -/
def outcomeOf : Except Fault Unit → Outcome
  | .ok _ => .finished
  | .error fault => .failed fault

/-- The end of an echo tag writes the values that are on the register. -/
theorem completes_emit {values : List Value} (hstack : m.store.stack register = values.reverse) :
    ∃ m', Completes none [.emit] m (outcomeOf ((writeValues values).runIn m.context).1) m' ∧
      m'.context = ((writeValues values).runIn m.context).2 := by
  have hrun := runIn_perform_emit none m
  rw [hstack, List.reverse_reverse] at hrun
  cases hmap : values.mapM Value.toText with
  | error fault =>
      have hwrites : (writeValues values).runIn m.context = (.error fault, m.context) := by
        rw [writeValues, textOf, hmap]
        rfl
      rw [hmap] at hrun
      rw [hwrites]
      exact ⟨_, (completes_cons_of_error hrun).2 ⟨rfl, rfl⟩, rfl⟩
  | ok texts =>
      have hwrites : (writeValues values).runIn m.context =
          (Context.write texts.flatten).runIn m.context := by
        rw [writeValues, textOf, hmap]
        rfl
      rw [hmap] at hrun
      rw [hwrites]
      simp only [Action.runIn_bind, Action.runIn_ofExcept, runIn_onContext] at hrun
      rcases hwrite : (Context.write texts.flatten).runIn m.context with ⟨fault | u, c⟩
      · rw [hwrite] at hrun
        exact ⟨_, (completes_cons_of_error hrun).2 ⟨rfl, rfl⟩, rfl⟩
      · rw [hwrite] at hrun
        exact ⟨_, (completes_cons_of_ok hrun).2 (completes_nil.2 ⟨rfl, rfl⟩), rfl⟩

/-- A visit of an echo tag, from an empty register and whatever has been charged, ends as an action
does in a context. -/
def EchoEndsAs (s : NamedStacks) (c : Context) (tokens : List Token) (act : Action Context Unit)
    (c' : Context) : Prop :=
  ∀ steps, ∃ m, Completes none [.visit (.echo tokens)] (fresh s c steps)
    (outcomeOf (act.runIn c').1) m ∧ m.context = (act.runIn c').2

/-- An echo tag writes the values that its tokens leave. -/
theorem Leaves.echoEndsAs {s : NamedStacks} {c c' : Context} {values : List Value}
    (h : Leaves s c tokens values c') : EchoEndsAs s c tokens (writeValues values) c' := by
  intro steps
  have hvisit : (perform none (.visit (.echo tokens))).runIn (fresh s c steps) =
      (.ok (tokens.map .token ++ [.emit]), fresh s c (steps + 1)) := rfl
  obtain ⟨m₁, hends, rfl, hstack⟩ := h.on_top (m := fresh s c (steps + 1)) rfl fun x hx => by
    rw [fresh, NamedStacks.stack_set, if_neg hx]
  rw [stack_register_fresh, List.append_nil] at hstack
  obtain ⟨m', hemit, hcontext⟩ := completes_emit hstack
  refine ⟨m', (completes_cons_of_ok hvisit).2 ?_, hcontext⟩
  rw [List.append_nil]
  exact completes_append.2 (Or.inl ⟨m₁, hends, hemit⟩)

/-- Writes the texts of some values followed by those of others. -/
def writeBoth (values values' : List Value) : Action Context Unit := do
  let t ← Action.ofExcept (textOf values)
  let t' ← Action.ofExcept (textOf values')
  Context.write (t ++ t')

theorem runIn_writeValues_append (values values' : List Value) (c : Context) :
    (writeValues (values ++ values')).runIn c = (writeBoth values values').runIn c := by
  rw [writeValues, textOf_append, writeBoth, Action.runIn_bind, Action.runIn_bind]
  simp only [Action.runIn_ofExcept, Action.runIn_bind]
  cases textOf values with
  | error fault =>
      rfl
  | ok t =>
      cases textOf values' <;> rfl

/-- A list of tokens that is complete by itself does the same after another one: its values come to
stand on top of those of the other, and an echo tag of both writes the texts of the values of the
first one followed by those of the second. -/
theorem leaves_append {s : NamedStacks} {c₀ c₁ c₂ : Context} {p q : List Token}
    {values values' : List Value} (hp : Leaves s c₀ p values c₁) (hq : Leaves s c₁ q values' c₂) :
    Leaves s c₀ (p ++ q) (values ++ values') c₂ ∧
      EchoEndsAs s c₀ (p ++ q) (writeBoth values values') c₂ := by
  have hboth : Leaves s c₀ (p ++ q) (values ++ values') c₂ := by
    obtain ⟨m₁, hends, hstack, hcontext⟩ := hp
    have hkept : ∀ x, x ≠ register → m₁.store.stack x = s.stack x := fun x hx => by
      rw [(registerOnly_of_completes hends).1 x hx, fresh, NamedStacks.stack_set, if_neg hx]
    obtain ⟨m₂, hends', hcontext', hstack'⟩ := hq.on_top hcontext hkept
    refine ⟨m₂, ?_, ?_, hcontext'⟩
    · rw [List.map_append]
      exact completes_append.2 (Or.inl ⟨m₁, hends, hends'⟩)
    · rw [hstack', hstack, List.reverse_append]
  refine ⟨hboth, fun steps => ?_⟩
  obtain ⟨m, hends, hcontext⟩ := hboth.echoEndsAs steps
  rw [runIn_writeValues_append] at hends hcontext
  exact ⟨m, hends, hcontext⟩

/-- Stacks in which a counter is bound. -/
def counting : NamedStacks := NamedStacks.empty.push ['i'] (.number (.int 7))

/-- Tokens that set a parameter to the counter and leave a number. -/
def setting : List Token :=
  [.text ['k'], .var ['i'], .call "tparamSet".toText, .number (.int 1)]

/-- Tokens that leave the parameter and the counter. -/
def reading : List Token :=
  [.text ['k'], .text [], .call "tparamGet".toText, .var ['i']]

/-- The context that the first tokens leave, from a bare one. -/
def afterSetting : Context :=
  { Document.bareContext with temporary := Index.empty.put ['k'] ['7'] }

/-- The second tokens find the parameter that the first ones have set, and leave the number that
those have left where it is. -/
theorem leaves_append_of_setting_and_reading :
    Leaves counting Document.bareContext setting [.number (.int 1)] afterSetting ∧
    Leaves counting afterSetting reading [.text ['7'], .number (.int 7)] afterSetting ∧
    Leaves counting Document.bareContext (setting ++ reading)
      [.number (.int 1), .text ['7'], .number (.int 7)] afterSetting ∧
    EchoEndsAs counting Document.bareContext (setting ++ reading)
      (writeBoth [.number (.int 1)] [.text ['7'], .number (.int 7)]) afterSetting ∧
    ((writeBoth [.number (.int 1)] [.text ['7'], .number (.int 7)]).runIn afterSetting).2.output
      = #[49, 55, 55] := by
  have hsetting : Leaves counting Document.bareContext setting [.number (.int 1)] afterSetting :=
    ⟨_, ⟨4, rfl, by simp⟩, rfl, rfl⟩
  have hreading : Leaves counting afterSetting reading [.text ['7'], .number (.int 7)]
      afterSetting :=
    ⟨_, ⟨4, rfl, by simp⟩, rfl, rfl⟩
  obtain ⟨hboth, hecho⟩ := leaves_append hsetting hreading
  exact ⟨hsetting, hreading, hboth, hecho, rfl⟩

end Machine
end Stencil
