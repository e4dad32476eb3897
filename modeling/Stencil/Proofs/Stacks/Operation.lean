import Mathlib.Logic.Function.Basic
import Stencil.Proofs.Stacks

/-!
# Named stacks as independent lists

Named stacks behave as if every name had a list of its own, which is empty at first.

An `Operation` is a `Command` for the stack of one name, or asks for the names.  Its meaning is
given without any representation, by a function from names to lists with the oldest value first
(`Steps`, `Runs`): a command sees nothing but the list of its name, and changes no other list.

**Argument.**  On tidy stacks a command answers as it does on the list of its name, and puts what is
left of that list in its place (`runOn_eq`).  That is the one place with a case for each command.
From it a step on the stacks is one on the lists (`steps_apply`), and so is a run (`runs_run`).
Commands for two names commute since changes of two lists do (`run_comm`).  Draining is defined at
once for the whole stack; `popsAll_iff` says that it is what taking the top value comes to until
nothing is left.

**Results.**  `run_refines_lists`: any operations on empty stacks, one after another.
-/

namespace Stencil
namespace NamedStacks

/-- What can be asked of one stack. -/
inductive Command
  | push (v : Value)
  | pop
  | peek
  | isEmpty
  | depth
  | drain

/-- What can be asked of named stacks. -/
inductive Operation
  | on (x : Text) (command : Command)
  | names

/-- What an operation answers. -/
inductive Reply
  | done
  | value (outcome : Except Fault Value)
  | flag (b : Bool)
  | count (n : Nat)
  | values (vs : List Value)
  | names (xs : List Text)

/-- What a command for the stack of a name answers, and the stacks that it leaves. -/
def Command.runOn (s : NamedStacks) (x : Text) : Command → Reply × NamedStacks
  | .push v => (.done, s.push x v)
  | .pop =>
      match s.pop x with
      | .ok (v, s') => (.value (.ok v), s')
      | .error fault => (.value (.error fault), s)
  | .peek => (.value (s.peek x), s)
  | .isEmpty => (.flag (s.isEmpty x), s)
  | .depth => (.count (s.depth x), s)
  | .drain => (.values (s.drain x).1, (s.drain x).2)

/-- What an operation answers, and the stacks that it leaves. -/
def apply (s : NamedStacks) : Operation → Reply × NamedStacks
  | .on x command => command.runOn s x
  | .names => (.names s.names, s)

/-- What operations answer, one after another, and the stacks that they leave. -/
def run (s : NamedStacks) : List Operation → List Reply × NamedStacks
  | [] => ([], s)
  | op :: ops =>
      let (reply, s₁) := s.apply op
      let (replies, s₂) := s₁.run ops
      (reply :: replies, s₂)

theorem run_cons (s : NamedStacks) (op : Operation) (ops : List Operation) :
    s.run (op :: ops) =
      ((s.apply op).1 :: ((s.apply op).2.run ops).1, ((s.apply op).2.run ops).2) := rfl

/-- The list of each name, with the oldest value first. -/
def lists (s : NamedStacks) (x : Text) : List Value := (s.stack x).reverse

/-- The newest value of the list of a name. -/
def newest (x : Text) (vs : List Value) : Except Fault Value :=
  match vs.getLast? with
  | some v => .ok v
  | none => .error (.emptyStack x)

/-- What a command answers for the list of a name, and what it leaves of that. -/
def Command.onList (x : Text) (vs : List Value) : Command → Reply × List Value
  | .push v => (.done, vs ++ [v])
  | .pop => (.value (newest x vs), vs.dropLast)
  | .peek => (.value (newest x vs), vs)
  | .isEmpty => (.flag vs.isEmpty, vs)
  | .depth => (.count vs.length, vs)
  | .drain => (.values vs, [])

/-- An operation on the lists of all names.  The names are those whose list is not empty, each of
them once; nothing is said about their order, which depends on what was done before. -/
inductive Steps : (Text → List Value) → Operation → Reply → (Text → List Value) → Prop
  | on (lists : Text → List Value) (x : Text) (command : Command) :
      Steps lists (.on x command) (command.onList x (lists x)).1
        (Function.update lists x (command.onList x (lists x)).2)
  | names {lists : Text → List Value} {xs : List Text} (hnodup : xs.Nodup)
      (hmem : ∀ x, x ∈ xs ↔ lists x ≠ []) : Steps lists .names (.names xs) lists

/-- Operations on the lists of all names, one after another. -/
inductive Runs : (Text → List Value) → List Operation → List Reply → (Text → List Value) → Prop
  | nil (lists : Text → List Value) : Runs lists [] [] lists
  | cons {lists lists₁ lists₂ : Text → List Value} {op : Operation} {ops : List Operation}
      {reply : Reply} {replies : List Reply} (hstep : Steps lists op reply lists₁)
      (hrest : Runs lists₁ ops replies lists₂) : Runs lists (op :: ops) (reply :: replies) lists₂

theorem newest_reverse_cons (x : Text) (v : Value) (rest : List Value) :
    newest x (v :: rest).reverse = .ok v := by
  simp [newest]

theorem lists_set (s : NamedStacks) (x : Text) (vs : List Value) :
    (s.set x vs.reverse).lists = Function.update s.lists x vs := by
  funext y
  by_cases hyx : y = x
  · simp [lists, stack_set, hyx]
  · simp [lists, stack_set, hyx]

theorem Tidy.set_stack {s : NamedStacks} (h : s.Tidy) (x : Text) : s.set x (s.stack x) = s := by
  refine ext_stack (h.set x _) h fun y => ?_
  rw [stack_set]
  split
  · next hyx => rw [hyx]
  · rfl

theorem Tidy.set_set {s : NamedStacks} (h : s.Tidy) (x : Text) (vs ws : List Value) :
    (s.set x vs).set x ws = s.set x ws := by
  refine ext_stack ((h.set x vs).set x ws) (h.set x ws) fun y => ?_
  rw [stack_set, stack_set, stack_set]
  split <;> rfl

/-- A command answers as it does for the list of its name, and leaves of that what it leaves of
the list. -/
theorem runOn_eq {s : NamedStacks} (h : s.Tidy) (x : Text) (command : Command) :
    command.runOn s x =
      ((command.onList x (s.lists x)).1, s.set x (command.onList x (s.lists x)).2.reverse) := by
  have hsame : s.set x (s.lists x).reverse = s := by
    rw [lists, List.reverse_reverse, h.set_stack]
  cases command with
  | push v =>
      simp [Command.runOn, Command.onList, lists, push]
  | pop =>
      cases hstack : s.stack x with
      | nil =>
          rw [lists, hstack] at hsame
          simp only [Command.runOn, pop, hstack, Command.onList, lists, newest]
          exact Prod.ext rfl hsame.symm
      | cons v rest =>
          simp only [Command.runOn, pop_of_stack hstack, Command.onList, lists, hstack,
            newest_reverse_cons]
          simp
  | peek =>
      have hpeek : s.peek x = newest x (s.lists x) := by
        cases hstack : s.stack x with
        | nil =>
            simp [peek, newest, lists, hstack]
        | cons v rest =>
            rw [peek_of_stack hstack, lists, hstack, newest_reverse_cons]
      simp only [Command.runOn, Command.onList, hpeek, hsame]
  | isEmpty =>
      simp only [Command.runOn, Command.onList, hsame]
      simp [isEmpty, lists]
  | depth =>
      simp only [Command.runOn, Command.onList, hsame]
      simp [depth, lists]
  | drain =>
      rfl

/-- The names are those whose list is not empty. -/
theorem Tidy.mem_names_iff {s : NamedStacks} (h : s.Tidy) (x : Text) :
    x ∈ s.names ↔ s.lists x ≠ [] := by
  have hne : s.lists x ≠ [] ↔ s.stack x ≠ [] := not_congr List.reverse_eq_nil_iff
  rw [names, Index.mem_names_iff, h.get?_eq, hne]
  split
  · next hnil => simp [hnil]
  · next hne => simp [hne]

/-- An operation keeps stacks tidy and does on the lists what it is to do. -/
theorem steps_apply {s : NamedStacks} (h : s.Tidy) (op : Operation) :
    (s.apply op).2.Tidy ∧ Steps s.lists op (s.apply op).1 (s.apply op).2.lists := by
  cases op with
  | on x command =>
      rw [apply, runOn_eq h, lists_set]
      exact ⟨h.set x _, .on s.lists x command⟩
  | names =>
      exact ⟨h, .names s.index.nodup_names h.mem_names_iff⟩

theorem runs_run {s : NamedStacks} (h : s.Tidy) (ops : List Operation) :
    (s.run ops).2.Tidy ∧ Runs s.lists ops (s.run ops).1 (s.run ops).2.lists := by
  induction ops generalizing s with
  | nil =>
      exact ⟨h, .nil s.lists⟩
  | cons op ops ih =>
      obtain ⟨htidy, hstep⟩ := steps_apply h op
      obtain ⟨htidy', hrest⟩ := ih htidy
      exact ⟨htidy', .cons hstep hrest⟩

/-- A command leaves the stacks of other names as they are. -/
theorem stack_runOn_of_ne {s : NamedStacks} (h : s.Tidy) {x y : Text} (hne : y ≠ x)
    (command : Command) : (command.runOn s x).2.stack y = s.stack y := by
  rw [runOn_eq h, stack_set, if_neg hne]

/-- A command sees no stack but the one of its name. -/
theorem runOn_congr {s t : NamedStacks} (hs : s.Tidy) (ht : t.Tidy) {x : Text}
    (h : t.stack x = s.stack x) (command : Command) :
    (command.runOn t x).1 = (command.runOn s x).1 ∧
      (command.runOn t x).2.stack x = (command.runOn s x).2.stack x := by
  have hlists : t.lists x = s.lists x := congrArg List.reverse h
  rw [runOn_eq hs, runOn_eq ht, hlists, stack_set, stack_set, if_pos rfl, if_pos rfl]
  exact ⟨rfl, rfl⟩

theorem Tidy.set_comm {s : NamedStacks} (h : s.Tidy) {x y : Text} (hne : x ≠ y)
    (vs ws : List Value) : (s.set x vs).set y ws = (s.set y ws).set x vs := by
  refine ext_stack ((h.set x vs).set y ws) ((h.set y ws).set x vs) fun z => ?_
  rw [stack_set, stack_set, stack_set, stack_set]
  by_cases hzx : z = x
  · rw [if_neg (hzx ▸ hne), if_pos hzx, if_pos hzx]
  · rw [if_neg hzx, if_neg hzx]

/-- Of two commands for different names each finds the list of its own name. -/
theorem run_pair {s : NamedStacks} (h : s.Tidy) {x y : Text} (hne : x ≠ y)
    (command command' : Command) (ops : List Operation) :
    let u := (s.set x (command.onList x (s.lists x)).2.reverse).set y
      (command'.onList y (s.lists y)).2.reverse
    s.run (.on x command :: .on y command' :: ops) =
      ((command.onList x (s.lists x)).1 :: (command'.onList y (s.lists y)).1 :: (u.run ops).1,
        (u.run ops).2) := by
  have hfirst := runOn_eq h x command
  have hsecond := runOn_eq (h.set x (command.onList x (s.lists x)).2.reverse) y command'
  rw [lists_set, Function.update_of_ne hne.symm] at hsecond
  simp only [run_cons, apply, hfirst, hsecond]

/-- Commands for different names may change places. -/
theorem run_comm {s : NamedStacks} (h : s.Tidy) {x y : Text} (hne : x ≠ y)
    (command command' : Command) (ops : List Operation) :
    ∃ reply reply' replies u,
      s.run (.on x command :: .on y command' :: ops) = (reply :: reply' :: replies, u) ∧
      s.run (.on y command' :: .on x command :: ops) = (reply' :: reply :: replies, u) := by
  refine ⟨_, _, _, _, run_pair h hne command command' ops, ?_⟩
  rw [run_pair h hne.symm command' command ops, h.set_comm hne]

/-- Taking the top value of a stack until nothing is left, with the values in the order in which
they were pushed. -/
inductive PopsAll (x : Text) : NamedStacks → List Value → NamedStacks → Prop
  | done {s : NamedStacks} (hempty : s.isEmpty x = true) : PopsAll x s [] s
  | next {s s₁ s₂ : NamedStacks} {v : Value} {vs : List Value} (hempty : s.isEmpty x = false)
      (hpop : s.pop x = .ok (v, s₁)) (hrest : PopsAll x s₁ vs s₂) : PopsAll x s (vs ++ [v]) s₂

theorem drain_of_isEmpty {s : NamedStacks} (h : s.Tidy) {x : Text} (hempty : s.isEmpty x = true) :
    s.drain x = ([], s) := by
  have hstack : s.stack x = [] := List.isEmpty_iff.1 hempty
  have hsame := h.set_stack x
  rw [hstack] at hsame
  rw [drain, hstack, hsame]
  rfl

theorem drain_of_pop {s s₁ : NamedStacks} (h : s.Tidy) {x : Text} {v : Value}
    (hpop : s.pop x = .ok (v, s₁)) : s.drain x = ((s₁.drain x).1 ++ [v], (s₁.drain x).2) := by
  have hstack : s.stack x = v :: s₁.stack x := by rw [stack_pop hpop x, if_pos rfl]
  obtain ⟨-, hbelow⟩ := Prod.mk.inj (Except.ok.inj ((pop_of_stack hstack).symm.trans hpop))
  have hset : s₁.set x [] = s.set x [] := by rw [← hbelow, h.set_set]
  rw [drain, drain, hstack, hset, List.reverse_cons]

/-- Draining is taking the top value until nothing is left. -/
theorem popsAll_iff {s : NamedStacks} (h : s.Tidy) {x : Text} {vs : List Value}
    {s' : NamedStacks} : PopsAll x s vs s' ↔ s.drain x = (vs, s') := by
  constructor
  · intro hall
    induction hall with
    | done hempty =>
        exact drain_of_isEmpty h hempty
    | next hempty hpop hrest ih =>
        rw [drain_of_pop h hpop, ih (h.pop hpop)]
  · intro hdrain
    induction hstack : s.stack x generalizing s vs with
    | nil =>
        have hempty : s.isEmpty x = true := List.isEmpty_iff.2 hstack
        obtain ⟨rfl, rfl⟩ := Prod.mk.inj ((drain_of_isEmpty h hempty).symm.trans hdrain)
        exact .done hempty
    | cons v rest ih =>
        have hpop := pop_of_stack hstack
        obtain ⟨rfl, rfl⟩ := Prod.mk.inj ((drain_of_pop h hpop).symm.trans hdrain)
        exact .next (by simp [isEmpty, hstack]) hpop (ih (h.set x rest) rfl (by simp [stack_set]))

theorem peek_eq_error_iff (s : NamedStacks) (x : Text) (fault : Fault) :
    s.peek x = .error fault ↔ s.stack x = [] ∧ fault = .emptyStack x := by
  cases hstack : s.stack x with
  | nil =>
      simp [peek, hstack, eq_comm]
  | cons v rest =>
      simp [peek_of_stack hstack]

/-- Stacks none of which is in the way of another. -/
structure Independent (s : NamedStacks) : Prop where
  /-- No name is stored with an empty stack. -/
  tidy : s.Tidy
  named_iff : ∀ x, x ∈ s.names ↔ s.isEmpty x = false
  nonempty_iff : ∀ x, s.isEmpty x = false ↔ 0 < s.depth x
  /-- The top value is missing only from an empty list. -/
  fails_iff : ∀ x fault,
    (s.pop x = .error fault ↔ s.lists x = [] ∧ fault = .emptyStack x) ∧
    (s.peek x = .error fault ↔ s.lists x = [] ∧ fault = .emptyStack x)
  /-- Where it is missing nothing is changed. -/
  unchanged : ∀ x, s.lists x = [] →
    Command.pop.runOn s x = (.value (.error (.emptyStack x)), s) ∧
    Command.peek.runOn s x = (.value (.error (.emptyStack x)), s)
  /-- Draining is taking the top value until nothing is left. -/
  drained_iff : ∀ x vs s', PopsAll x s vs s' ↔ s.drain x = (vs, s')
  /-- A command leaves the lists of other names as they are. -/
  frame : ∀ x y command, y ≠ x → (Command.runOn s x command).2.lists y = s.lists y
  /-- A command sees no list but the one of its name. -/
  own : ∀ x command (t : NamedStacks), t.Tidy → t.lists x = s.lists x →
    (Command.runOn t x command).1 = (Command.runOn s x command).1 ∧
      (Command.runOn t x command).2.lists x = (Command.runOn s x command).2.lists x
  /-- Commands for different names may change places, whatever is done after them; only the order
  of the names, if these are asked for, may tell what was done first. -/
  comm : ∀ x y command command' ops, x ≠ y → .names ∉ ops → ∃ reply reply' replies u,
    s.run (.on x command :: .on y command' :: ops) = (reply :: reply' :: replies, u) ∧
    s.run (.on y command' :: .on x command :: ops) = (reply' :: reply :: replies, u)

theorem Tidy.independent {s : NamedStacks} (h : s.Tidy) : Independent s where
  tidy := h
  named_iff x := by simp [h.mem_names_iff, lists, isEmpty]
  nonempty_iff x := by simp [isEmpty, depth, List.length_pos_iff]
  fails_iff x fault := by
    rw [pop_eq_error_iff, peek_eq_error_iff, lists, List.reverse_eq_nil_iff]
    exact ⟨.rfl, .rfl⟩
  unchanged x hnil := by
    have hstack : s.stack x = [] := List.reverse_eq_nil_iff.1 hnil
    have hpop := (pop_eq_error_iff s x _).2 ⟨hstack, rfl⟩
    have hpeek := (peek_eq_error_iff s x _).2 ⟨hstack, rfl⟩
    simp only [Command.runOn, hpop, hpeek, and_self]
  drained_iff x vs s' := popsAll_iff h
  frame x y command hne := by rw [lists, stack_runOn_of_ne h hne, lists]
  own x command t ht hlists := by
    obtain ⟨hreply, hstack⟩ := runOn_congr h ht (List.reverse_inj.1 hlists) command
    exact ⟨hreply, congrArg List.reverse hstack⟩
  comm x y command command' ops hne _ := run_comm h hne command command' ops

/-- Whatever is done with empty stacks, every operation answers as it does on the lists of all
names, and the stacks that are left are independent. -/
theorem run_refines_lists (ops : List Operation) :
    Runs (fun _ => []) ops (empty.run ops).1 (empty.run ops).2.lists ∧
      Independent (empty.run ops).2 := by
  have hlists : empty.lists = fun _ => [] := rfl
  obtain ⟨htidy, hruns⟩ := runs_run tidy_empty ops
  rw [hlists] at hruns
  exact ⟨hruns, htidy.independent⟩

end NamedStacks
end Stencil
