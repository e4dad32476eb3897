import Stencil.Proofs.Run.Growth
import Stencil.Proofs.Run.Register
import Stencil.Proofs.Run.Sequence

/-!
# The depth of the register

How many values an echo tag has on the register before each of its tokens is known without running
it.

**Argument.**  Where the depth that the effects add up to is enough for a token, the token leaves
what its effect says or fails for another cause, and where it is too small it fails
(`perform_of_le`, `perform_of_lt`).  So some tokens of which each one finds enough values end with
the depth that was computed, or one of them fails for another cause (`completes_tokens`).  The first
token that takes too much is reached with the depth that was computed, or not at all
(`completes_tokens_of_lt`).  No token writes; what is on the register at the end is written at once.

**Results.**  `echo_stack_discipline`: how the tokens of an echo tag and its end can fail, and what
the tag writes.
-/

namespace Stencil

open Machine

namespace Token

/-- The depth after some tokens, which the effects of the tokens add up to. -/
def depthAfter : Nat → List Token → Nat
  | depth, [] => depth
  | depth, t :: rest => depthAfter (depth - t.effect.takes + t.effect.leaves) rest

/-- The depth before each of the tokens is at least the number of values that it takes. -/
def Suffices : Nat → List Token → Prop
  | _, [] => True
  | depth, t :: rest =>
      t.effect.takes ≤ depth ∧ Suffices (depth - t.effect.takes + t.effect.leaves) rest

instance decidableSuffices : (depth : Nat) → (tokens : List Token) →
    Decidable (Suffices depth tokens)
  | _, [] => .isTrue trivial
  | depth, t :: rest =>
      haveI := decidableSuffices (depth - t.effect.takes + t.effect.leaves) rest
      inferInstanceAs (Decidable (_ ∧ _))

/-- If the depth is not enough for all tokens, there is a first one that takes too much. -/
theorem suffices_or_exists (depth : Nat) (tokens : List Token) :
    Suffices depth tokens ∨ ∃ k t, tokens[k]? = some t ∧ Suffices depth (tokens.take k) ∧
      depthAfter depth (tokens.take k) < t.effect.takes := by
  induction tokens generalizing depth with
  | nil =>
      exact Or.inl trivial
  | cons t rest ih =>
      by_cases ht : t.effect.takes ≤ depth
      · rcases ih (depth - t.effect.takes + t.effect.leaves) with h | ⟨k, u, hu, hbefore, hlt⟩
        · exact Or.inl ⟨ht, h⟩
        · exact Or.inr ⟨k + 1, u, hu, ⟨ht, hbefore⟩, hlt⟩
      · exact Or.inr ⟨0, t, rfl, trivial, Nat.lt_of_not_le ht⟩

end Token

open Token (depthAfter Suffices suffices_or_exists)

namespace Machine

variable {limit : Option Int} {m m₁ m' : Machine} {t : Token} {tokens : List Token}

/-- What is left to do when an echo tag is visited: its tokens, and its end. -/
def echoTasks (tokens : List Token) : List Task := tokens.map .token ++ [.emit]

/-- The number of values on the register. -/
abbrev registerDepth (m : Machine) : Nat := (m.store.stack register).length

/-- Working off the tokens fails at the one of an index, after those before it have succeeded. -/
def FailsAt (limit : Option Int) (tokens : List Token) (m : Machine) (k : Nat) (fault : Fault) :
    Prop :=
  ∃ t m₁, tokens[k]? = some t ∧ Completes limit ((tokens.take k).map .token) m .finished m₁ ∧
    ((perform limit (.token t)).runIn m₁).1 = .error fault

theorem runIn_perform_token (limit : Option Int) (t : Token) (m : Machine) :
    (∃ n, (perform limit (.token t)).runIn m = (.error (.stepLimit n), m)) ∨
      ∃ steps, (perform limit (.token t)).runIn m =
        ((evaluate t >>= fun _ => pure []).runIn { m with steps := steps }) := by
  cases hcharge : (charge limit).runIn m with
  | mk outcome m' =>
      cases outcome with
      | error fault =>
          obtain ⟨n, -, rfl, -, rfl⟩ := charge_error hcharge
          refine Or.inl ⟨n, ?_⟩
          rw [perform, Action.runIn_bind, hcharge]
      | ok u =>
          obtain rfl := charge_ok hcharge
          refine Or.inr ⟨m.steps + 1, ?_⟩
          rw [perform, Action.runIn_bind, hcharge]

/-- A token that finds enough values. -/
theorem perform_of_le (limit : Option Int) (hknown : t.Known)
    (h : t.effect.takes ≤ m.registerDepth) :
    (∃ m', (perform limit (.token t)).runIn m = (.ok [], m') ∧
        m'.registerDepth = m.registerDepth - t.effect.takes + t.effect.leaves) ∨
      ∃ fault m', (perform limit (.token t)).runIn m = (.error fault, m') ∧
        ¬ fault.IsEmptyStack := by
  rcases runIn_perform_token limit t m with ⟨n, hrun⟩ | ⟨steps, hrun⟩
  · exact Or.inr ⟨_, _, hrun, id⟩
  · rcases evaluate_of_le (m := { m with steps := steps }) hknown h with
      ⟨m', heval, hdepth⟩ | ⟨fault, m', heval, hfault⟩
    · refine Or.inl ⟨m', ?_, hdepth⟩
      rw [hrun, Action.runIn_bind, heval]
      rfl
    · refine Or.inr ⟨fault, m', ?_, hfault⟩
      rw [hrun, Action.runIn_bind, heval]

/-- A token that finds too few values. -/
theorem perform_of_lt (limit : Option Int) (hknown : t.Known)
    (h : m.registerDepth < t.effect.takes) :
    ∃ fault m', (perform limit (.token t)).runIn m = (.error fault, m') ∧
      ((∃ n, fault = .stepLimit n) ∨
        ∃ consumer, fault = .missingOperands consumer t.effect.takes m.registerDepth) := by
  rcases runIn_perform_token limit t m with ⟨n, hrun⟩ | ⟨steps, hrun⟩
  · exact ⟨_, _, hrun, Or.inl ⟨n, rfl⟩⟩
  · obtain ⟨consumer, heval⟩ := evaluate_of_lt (m := { m with steps := steps }) hknown h
    refine ⟨_, { m with steps := steps }, ?_, Or.inr ⟨consumer, rfl⟩⟩
    rw [hrun, Action.runIn_bind, heval]

/-- A list of tasks without counters that fails, with others behind it. -/
theorem completes_append_of_failed {s t : List Task} {fault : Fault}
    (h : Completes limit s m (.failed fault) m') (ht : ∀ task ∈ t, task.counter? = none) :
    Completes limit (s ++ t) m (.failed fault) m' := by
  refine completes_append.2 (Or.inr ⟨fault, m', h, ?_, ?_⟩)
  · rw [giveUp_of_no_counter ht]
  · rw [giveUp_of_no_counter ht]

theorem completes_token_of_error {fault : Fault} (rest : List Token)
    (h : (perform limit (.token t)).runIn m = (.error fault, m')) :
    Completes limit ((t :: rest).map .token) m (.failed fault) m' := by
  have hskip : ∀ task ∈ (t :: rest).map Task.token, task.counter? = none := by
    intro task htask
    obtain ⟨u, -, rfl⟩ := List.mem_map.1 htask
    rfl
  rw [List.map_cons] at hskip ⊢
  rw [completes_cons_of_error h, giveUp_of_no_counter hskip]
  exact ⟨rfl, rfl⟩

theorem FailsAt.cons {k : Nat} {fault : Fault}
    (hperform : (perform limit (.token t)).runIn m = (.ok [], m₁))
    (h : FailsAt limit tokens m₁ k fault) : FailsAt limit (t :: tokens) m (k + 1) fault := by
  obtain ⟨u, m₂, hu, hdone, hfails⟩ := h
  refine ⟨u, m₂, hu, ?_, hfails⟩
  rw [List.take_succ_cons, List.map_cons]
  exact (completes_cons_of_ok hperform).2 hdone

theorem FailsAt.lt_length {k : Nat} {fault : Fault} (h : FailsAt limit tokens m k fault) :
    k < tokens.length := by
  obtain ⟨t, m₁, ht, -⟩ := h
  exact (List.getElem?_eq_some_iff.1 ht).1

theorem FailsAt.of_take {i k : Nat} {fault : Fault}
    (h : FailsAt limit (tokens.take k) m i fault) : FailsAt limit tokens m i fault := by
  have hlt := h.lt_length
  obtain ⟨t, m₁, ht, hdone, hfails⟩ := h
  rw [List.length_take] at hlt
  rw [List.getElem?_take_of_lt (by omega)] at ht
  rw [List.take_take, Nat.min_eq_left (by omega)] at hdone
  exact ⟨t, m₁, ht, hdone, hfails⟩

/-- If there are enough values before each token, the tokens end with the depth that their effects
add up to, or one of them fails for another cause. -/
theorem completes_tokens (limit : Option Int) (hknown : ∀ t ∈ tokens, t.Known)
    (h : Suffices m.registerDepth tokens) :
    ∃ m', Silent m m' ∧
      ((Completes limit (tokens.map .token) m .finished m' ∧
          m'.registerDepth = depthAfter m.registerDepth tokens) ∨
        ∃ k fault, Completes limit (tokens.map .token) m (.failed fault) m' ∧
          FailsAt limit tokens m k fault ∧ ¬ fault.IsEmptyStack) := by
  -- The machine is generalized: the depth that was computed is that of the machine at each token.
  induction tokens generalizing m with
  | nil =>
      exact ⟨m, refl_of Silent m, Or.inl ⟨completes_nil.2 ⟨rfl, rfl⟩, rfl⟩⟩
  | cons t rest ih =>
      obtain ⟨ht, hrest⟩ := List.forall_mem_cons.1 hknown
      have hsilent := silent_perform_token limit t m
      rcases perform_of_le limit ht h.1 with ⟨m₁, hperform, hdepth⟩ | ⟨fault, m₁, hperform, hfault⟩
      · rw [hperform] at hsilent
        have henough : Suffices m₁.registerDepth rest := hdepth ▸ h.2
        obtain ⟨m', hkept, hends⟩ := ih hrest henough
        refine ⟨m', trans_of Silent hsilent hkept, ?_⟩
        rw [List.map_cons]
        rcases hends with ⟨hdone, hfinal⟩ | ⟨k, fault, hdone, hfails, hfault⟩
        · rw [hdepth] at hfinal
          exact Or.inl ⟨(completes_cons_of_ok hperform).2 hdone, hfinal⟩
        · exact Or.inr ⟨k + 1, fault, (completes_cons_of_ok hperform).2 hdone,
            hfails.cons hperform, hfault⟩
      · rw [hperform] at hsilent
        refine ⟨m₁, hsilent, Or.inr ⟨0, fault, completes_token_of_error rest hperform, ?_, hfault⟩⟩
        exact ⟨t, m, rfl, completes_nil.2 ⟨rfl, rfl⟩, by rw [hperform]⟩

/-- The first token that takes more than there is fails for want of values, or its step cannot be
charged, or one of the tokens before it fails for another cause. -/
theorem completes_tokens_of_lt (limit : Option Int) (hknown : ∀ t ∈ tokens, t.Known) {k : Nat}
    (ht : tokens[k]? = some t) (h : Suffices m.registerDepth (tokens.take k))
    (hlt : depthAfter m.registerDepth (tokens.take k) < t.effect.takes) :
    ∃ m' i fault, i ≤ k ∧ Completes limit (tokens.map .token) m (.failed fault) m' ∧
      Silent m m' ∧ FailsAt limit tokens m i fault ∧ (i < k → ¬ fault.IsEmptyStack) ∧
      (i = k → (∃ n, fault = .stepLimit n) ∨ ∃ consumer, fault =
        .missingOperands consumer t.effect.takes (depthAfter m.registerDepth (tokens.take k))) := by
  obtain ⟨hk, hget⟩ := List.getElem?_eq_some_iff.1 ht
  have hsplit : tokens.map Task.token =
      (tokens.take k).map .token ++ (t :: tokens.drop (k + 1)).map .token := by
    rw [← List.map_append, ← hget, ← List.drop_eq_getElem_cons hk, List.take_append_drop]
  have hbefore : ∀ u ∈ tokens.take k, u.Known := fun u hu => hknown u (List.mem_of_mem_take hu)
  obtain ⟨m₁, hsilent, ⟨hdone, hdepth⟩ | ⟨i, fault, hdone, hfails, hfault⟩⟩ :=
    completes_tokens limit hbefore h
  · rw [← hdepth] at hlt ⊢
    obtain ⟨fault, m', hperform, hcause⟩ :=
      perform_of_lt limit (hknown t (List.mem_of_getElem? ht)) hlt
    have hkept := silent_perform_token limit t m₁
    rw [hperform] at hkept
    refine ⟨m', k, fault, Nat.le_refl k, ?_, trans_of Silent hsilent hkept,
      ⟨t, m₁, ht, hdone, by rw [hperform]⟩, fun hself => absurd hself (Nat.lt_irrefl k),
      fun _ => hcause⟩
    rw [hsplit]
    exact completes_append.2 (Or.inl ⟨m₁, hdone, completes_token_of_error _ hperform⟩)
  · have hi : i < k := Nat.lt_of_lt_of_le hfails.lt_length (List.length_take_le k tokens)
    refine ⟨m₁, i, fault, Nat.le_of_lt hi, ?_, hsilent, hfails.of_take, fun _ => hfault,
      fun heq => absurd heq (Nat.ne_of_lt hi)⟩
    rw [hsplit]
    refine completes_append_of_failed hdone fun task htask => ?_
    obtain ⟨u, -, rfl⟩ := List.mem_map.1 htask
    rfl

/-- The echo tag has been written at once: the texts of the values that its tokens have left on the
register, of which there are `depth`, the bottom one first. -/
def WritesAll (limit : Option Int) (tokens : List Token) (depth : Nat) (m m' : Machine) : Prop :=
  ∃ m₁ texts, Completes limit (tokens.map .token) m .finished m₁ ∧ Silent m m₁ ∧
    m₁.registerDepth = depth ∧ (m₁.store.stack register).reverse.mapM Value.toText = .ok texts ∧
    (Context.write texts.flatten).runIn m₁.context = (.ok (), m'.context)

/-- The end of an echo tag empties the register before it writes the texts of the values. -/
theorem runIn_perform_emit (limit : Option Int) (m : Machine) :
    (perform limit .emit).runIn m =
      (Action.ofExcept ((m.store.stack register).reverse.mapM Value.toText) >>= fun texts =>
        onContext (Context.write texts.flatten) >>= fun _ => pure []).runIn
          { m with store := (m.store.drain register).2 } := by
  have hdrained : (m.store.drain register).1 = (m.store.stack register).reverse := rfl
  simp only [perform, emit, Action.runIn_bind, Action.runIn_get, Action.runIn_modify,
    Action.runIn_ofExcept, hdrained]
  cases (m.store.stack register).reverse.mapM Value.toText <;> rfl

/-- The end of an echo tag writes the texts of the values on the register, or fails for another
cause than that there are too few. -/
theorem perform_emit (limit : Option Int) (m : Machine) :
    (∃ texts m', (perform limit .emit).runIn m = (.ok [], m') ∧
        (m.store.stack register).reverse.mapM Value.toText = .ok texts ∧
        (Context.write texts.flatten).runIn m.context = (.ok (), m'.context)) ∨
      ∃ fault m', (perform limit .emit).runIn m = (.error fault, m') ∧ ¬ fault.IsEmptyStack := by
  have htexts : Meets (fun _ => True) (fun f : Fault => ¬ f.IsEmptyStack)
      ((m.store.stack register).reverse.mapM Value.toText) :=
    meets_mapM fun _ _ => Value.meets_toText Fault.covers_not_isEmptyStack trivial
  rw [runIn_perform_emit, Action.runIn_bind, Action.runIn_ofExcept]
  cases hmap : (m.store.stack register).reverse.mapM Value.toText with
  | error fault =>
      rw [hmap] at htexts
      exact Or.inr ⟨fault, _, rfl, htexts⟩
  | ok texts =>
      obtain ⟨-, hmeets⟩ := Context.upholds_write Fault.covers_not_isEmptyStack texts.flatten
        m.context trivial
      cases hwrite : (Context.write texts.flatten).runIn m.context with
      | mk outcome c =>
          rw [hwrite] at hmeets
          simp only [Action.runIn_bind, runIn_onContext, hwrite]
          cases outcome with
          | error fault =>
              exact Or.inr ⟨fault, _, rfl, hmeets⟩
          | ok u =>
              exact Or.inl ⟨texts, _, rfl, rfl, by rw [hwrite]⟩

/-- An echo tag whose tokens find enough values. -/
theorem completes_echo (limit : Option Int) (hknown : ∀ t ∈ tokens, t.Known)
    (h : Suffices m.registerDepth tokens) :
    ∃ outcome m', Completes limit (echoTasks tokens) m outcome m' ∧
      ((outcome = .finished ∧ WritesAll limit tokens (depthAfter m.registerDepth tokens) m m') ∨
        ∃ fault, outcome = .failed fault ∧ ¬ fault.IsEmptyStack) := by
  obtain ⟨m₁, hsilent, ⟨hdone, hdepth⟩ | ⟨k, fault, hdone, -, hfault⟩⟩ :=
    completes_tokens limit hknown h
  · rcases perform_emit limit m₁ with ⟨texts, m', hemit, hmap, hwrite⟩ | ⟨fault, m', hemit, hfault⟩
    · have hend : Completes limit [.emit] m₁ .finished m' :=
        (completes_cons_of_ok hemit).2 (completes_nil.2 ⟨rfl, rfl⟩)
      exact ⟨.finished, m', completes_append.2 (Or.inl ⟨m₁, hdone, hend⟩),
        Or.inl ⟨rfl, m₁, texts, hdone, hsilent, hdepth, hmap, hwrite⟩⟩
    · have hend : Completes limit [.emit] m₁ (.failed fault) m' :=
        (completes_cons_of_error hemit).2 ⟨rfl, rfl⟩
      exact ⟨.failed fault, m', completes_append.2 (Or.inl ⟨m₁, hdone, hend⟩),
        Or.inr ⟨fault, rfl, hfault⟩⟩
  · refine ⟨.failed fault, m₁, completes_append_of_failed hdone ?_, Or.inr ⟨fault, rfl, hfault⟩⟩
    simp [Task.counter?]

/-- An echo tag with a token that takes more than there is. -/
theorem completes_echo_of_lt (limit : Option Int) (hknown : ∀ t ∈ tokens, t.Known) {k : Nat}
    (ht : tokens[k]? = some t) (h : Suffices m.registerDepth (tokens.take k))
    (hlt : depthAfter m.registerDepth (tokens.take k) < t.effect.takes) :
    ∃ m' i fault, i ≤ k ∧ Completes limit (echoTasks tokens) m (.failed fault) m' ∧
      Silent m m' ∧ FailsAt limit tokens m i fault ∧ (i < k → ¬ fault.IsEmptyStack) ∧
      (i = k → (∃ n, fault = .stepLimit n) ∨ ∃ consumer, fault =
        .missingOperands consumer t.effect.takes (depthAfter m.registerDepth (tokens.take k))) := by
  obtain ⟨m', i, fault, hi, hdone, hrest⟩ := completes_tokens_of_lt limit hknown ht h hlt
  exact ⟨m', i, fault, hi, completes_append_of_failed hdone (by simp [Task.counter?]), hrest⟩

/-- The stack discipline of echo tags, whose calls are all of functions that there are.

A tag that finds the register empty ends, whatever is bound, is known to the context and is left of
the budget.
* If the depth that the effects of the tokens add up to is enough before each token, the tag does
  not fail for want of values.  If it succeeds it writes once, as many values as the depth at the
  end says.
* At a first token for which that depth is too small the tag fails for want of values, or at the
  charge of its step, or it fails for another cause at a token before it.  Nothing is written.

In a run of a document that has been read, every echo tag finds the register empty. -/
theorem echo_stack_discipline {tokens : List Token} (hknown : ∀ t ∈ tokens, t.Known)
    (limit : Option Int) :
    (∀ m : Machine, m.store.stack register = [] →
      (∃ outcome m', Completes limit (echoTasks tokens) m outcome m') ∧
      (Suffices 0 tokens → ∀ outcome m', Completes limit (echoTasks tokens) m outcome m' →
        (∀ fault, outcome = .failed fault → ¬ fault.IsEmptyStack) ∧
        (outcome = .finished → WritesAll limit tokens (depthAfter 0 tokens) m m')) ∧
      ∀ k t, tokens[k]? = some t → Suffices 0 (tokens.take k) →
        depthAfter 0 (tokens.take k) < t.effect.takes →
        ∀ outcome m', Completes limit (echoTasks tokens) m outcome m' →
          Silent m m' ∧ ∃ i fault, i ≤ k ∧ outcome = .failed fault ∧
            FailsAt limit tokens m i fault ∧ (i < k → ¬ fault.IsEmptyStack) ∧
            (i = k → (∃ n, fault = .stepLimit n) ∨ ∃ consumer, fault =
              .missingOperands consumer t.effect.takes (depthAfter 0 (tokens.take k)))) ∧
    ∀ (text : Text) (d : Document) (context : Context) (p : Point) (rest : List Task),
      Document.parse text = .ok d → Point.Run limit (.start d context) p →
      p.tasks = .visit (.echo tokens) :: rest → p.machine.store.stack register = [] := by
  refine ⟨fun m hempty => ?_, fun text d context p rest hparse hrun htasks => ?_⟩
  · have hdepth : m.registerDepth = 0 := by rw [registerDepth, hempty]; rfl
    refine ⟨?_, fun h outcome m' hends => ?_, fun k t ht h hlt outcome m' hends => ?_⟩
    · rcases suffices_or_exists m.registerDepth tokens with h | ⟨k, t, ht, h, hlt⟩
      · obtain ⟨outcome, m', hends, -⟩ := completes_echo limit hknown h
        exact ⟨outcome, m', hends⟩
      · obtain ⟨m', i, fault, -, hends, -⟩ := completes_echo_of_lt limit hknown ht h hlt
        exact ⟨.failed fault, m', hends⟩
    · rw [← hdepth] at h ⊢
      obtain ⟨outcome', m₁, hends', hcases⟩ := completes_echo limit hknown h
      obtain ⟨rfl, rfl⟩ := hends.unique hends'
      rcases hcases with ⟨rfl, hwrites⟩ | ⟨fault, rfl, hfault⟩
      · exact ⟨fun fault heq => absurd heq (by simp), fun _ => hwrites⟩
      · refine ⟨fun fault' heq => ?_, fun heq => absurd heq (by simp)⟩
        obtain rfl := Outcome.failed.inj heq
        exact hfault
    · rw [← hdepth] at h hlt ⊢
      obtain ⟨m₁, i, fault, hi, hends', hsilent, hrest⟩ :=
        completes_echo_of_lt limit hknown ht h hlt
      obtain ⟨rfl, rfl⟩ := hends.unique hends'
      exact ⟨hsilent, i, fault, hi, rfl, hrest⟩
  · exact ((Point.scoped_run (Document.named_of_parse hparse) (Point.scoped_start d context)
      hrun).visit htasks rfl).2

/-- Two values in the other order. -/
def swapped : List Token := [.number (.int 1), .text ['a'], .call "swap".toText]

/-- An operator with a single operand. -/
def lone : List Token := [.number (.int 1), .operator .plus, .text ['a']]

/-- The first values are written in the other order; the operator fails and nothing is written. -/
theorem echo_stack_discipline_of_swapped_and_lone :
    (∃ m', Completes none (echoTasks swapped) (.start Document.bareContext) .finished m' ∧
      WritesAll none swapped 2 (.start Document.bareContext) m') ∧
    (∃ m', Completes none (echoTasks lone) (.start Document.bareContext)
        (.failed (.missingOperands ['+'] 2 1)) m' ∧ Silent (.start Document.bareContext) m' ∧
      FailsAt none lone (.start Document.bareContext) 1 (.missingOperands ['+'] 2 1)) ∧
    ∃ p, Point.Run none (.start [.echo swapped] Document.bareContext) p ∧
      p.tasks = [.visit (.echo swapped)] ∧ p.machine.store.stack register = [] := by
  have hswap : ∀ t ∈ swapped, t.Known := by
    intro t ht x hcall
    subst hcall
    obtain rfl : x = "swap".toText := by simpa [swapped] using ht
    exact ⟨.swap, rfl⟩
  have hplus : ∀ t ∈ lone, t.Known := by
    intro t ht x hcall
    subst hcall
    simp [lone] at ht
  obtain ⟨hwhole, hvisit⟩ := echo_stack_discipline hswap none
  obtain ⟨-, hwrites, -⟩ := hwhole (.start Document.bareContext) rfl
  obtain ⟨-, -, hfails⟩ := (echo_stack_discipline hplus none).1 (.start Document.bareContext) rfl
  refine ⟨?_, ?_, ?_⟩
  · have hends : Completes none (echoTasks swapped) (.start Document.bareContext) .finished
        (work none 4 (echoTasks swapped) (.start Document.bareContext)).2 :=
      ⟨4, Prod.ext (by decide +kernel) rfl, by simp⟩
    exact ⟨_, hends, (hwrites (by decide) _ _ hends).2 rfl⟩
  · have hends : Completes none (echoTasks lone) (.start Document.bareContext)
        (.failed (.missingOperands ['+'] 2 1))
        (work none 4 (echoTasks lone) (.start Document.bareContext)).2 :=
      ⟨4, Prod.ext (by decide +kernel) rfl, by simp⟩
    obtain ⟨hsilent, i, fault, hi, heq, hat, hother, -⟩ :=
      hfails 1 (.operator .plus) rfl (by decide) (by decide) _ _ hends
    obtain rfl := Outcome.failed.inj heq
    have hlast : ¬ i < 1 := fun hlt => hother hlt trivial
    obtain rfl : i = 1 := by omega
    exact ⟨_, hends, hsilent, hat⟩
  · have hparse : Document.parse "[$= 1 \"a\" @swap $]".toText = .ok [.echo swapped] := by rfl
    have hrun : Point.Run none (.start [.echo swapped] Document.bareContext)
        ⟨[.visit (.echo swapped)], [], ⟨.empty, Document.bareContext, 1⟩⟩ :=
      Point.run_of_after (k := 1) rfl
    exact ⟨_, hrun, rfl, hvisit _ _ _ _ [] hparse hrun rfl⟩

end Machine
end Stencil
