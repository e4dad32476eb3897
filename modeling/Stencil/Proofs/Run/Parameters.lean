import Stencil.Proofs.Number.Grammar
import Stencil.Proofs.Number.Pattern
import Stencil.Proofs.Run.Register

/-!
# Numbers stored as texts

A parameter is a text, so that a number that is stored and read again comes back as its text.

**Argument.**  Among operands a text is a double if it has a point or an exponent mark, and else an
integer.  The text of an integer has neither, the text of a finite double always has a point, and
the words for the other doubles have neither and write no integer (`Number.ofText?_toText`).
A parameter stays what it is under every operation on the context but a change of that parameter
(`Context.Operation.get?_applyAll`), so that a call that reads it leaves what was stored.

**Results.**  `number_stored_as_text`: which numbers are read back from their texts, which texts act
like their numbers among operands, and what a call that reads a parameter leaves after a call that
has stored a number there.
-/

namespace Stencil

open Machine
open Context (Operation)
open Context.Operation (applyAll)

namespace Number

theorem not_hasMark_ofInt (n : Int) : ¬ HasMark (Text.ofInt n) := by
  have hnot {c : CodePoint} (hdigit : c.isDigit = false) (hminus : c ≠ '-') : c ∉ Text.ofInt n := by
    intro hc
    unfold Text.ofInt at hc
    have hof : c ∉ Text.ofNat n.natAbs := fun hc => by
      simp [Text.isDigit_of_mem_ofNat hc] at hdigit
    split at hc
    · rcases List.mem_cons.1 hc with rfl | hc
      · exact hminus rfl
      · exact hof hc
    · exact hof hc
  rintro (h | h | h)
  · exact hnot (by decide) (by decide) h
  · exact hnot (by decide) (by decide) h
  · exact hnot (by decide) (by decide) h

theorem hasMark_of_isFinite {x : Float} (h : Double.isFinite x = true) :
    HasMark (Double.toText x) := by
  have hpoint : .char '.' ∈ Double.unsignedText x := by
    rcases Double.unsignedText_of_isFinite h with ⟨-, htext⟩ | ⟨-, -, htext⟩
    · rw [htext]
      decide
    · rw [htext]
      exact Double.point_mem_numeralText _
  rw [Double.toText_of_isNaN_eq_false (Double.isNaN_of_isFinite h)]
  split
  · exact Or.inl (List.mem_cons_of_mem _ hpoint)
  · exact Or.inl hpoint

theorem not_hasMark_of_isFinite_eq_false {x : Float} (h : Double.isFinite x = false) :
    ¬ HasMark (Double.toText x) := by
  have hwords : ∀ word ∈ ["NaN".toText, "Infinity".toText, "-Infinity".toText],
      ¬ (.char '.' ∈ word ∨ .char 'e' ∈ word ∨ .char 'E' ∈ word) := by
    decide
  apply hwords
  cases hnan : Double.isNaN x with
  | true =>
      simp [Double.toText, hnan]
  | false =>
      have hle : Double.infinity ≤ Double.magnitude x := not_lt.1 (of_decide_eq_false h)
      rcases Double.unsignedText_cases hnan with ⟨-, htext⟩ | ⟨hzero, -⟩ | ⟨-, hlt, -⟩
      · rw [Double.toText_of_isNaN_eq_false hnan, htext]
        cases Double.isNegative x <;> simp
      · rw [hzero] at hle
        exact absurd hle (by decide)
      · exact absurd hlt (not_lt.2 hle)

/-- A finite number is read back from its text, and the text of another one is no numeric text. -/
theorem ofText?_toText (n : Number) :
    (n.IsFinite → ofText? n.toText = .ok (some n)) ∧
      (¬ n.IsFinite → ofText? n.toText = .ok none) := by
  cases n with
  | int n =>
      refine ⟨fun _ => ?_, fun h => absurd trivial h⟩
      rw [toText, ofText?_of_not_hasMark (not_hasMark_ofInt _), int64?_ofInt]
      rfl
  | double x =>
      constructor
      · intro h
        rw [toText, ofText?_of_hasMark (hasMark_of_isFinite h), Double.ofText?_toText]
        rfl
      · intro h
        have hinfinite : Double.isFinite x = false := Bool.eq_false_iff.2 h
        obtain ⟨c, hc, hdigit, hminus, hplus⟩ := Double.exists_mem_toText x
        have hint : int64? (Double.toText x) = .ok none := by
          simp only [int64?, Numeral.integer?_eq_none hc hdigit hminus hplus]
        rw [toText, ofText?_of_not_hasMark (not_hasMark_of_isFinite_eq_false hinfinite), hint]
        rfl

end Number

namespace Value

/-- The number that the text of a value writes. -/
def reread (v : Value) : Except Fault Number := do
  (Value.text (← v.toText)).toNumber

/-- In every operation and every comparison the one value does what the other does, on either side
of any third value. -/
def ActsLike (v w : Value) : Prop :=
  ∀ u : Value,
    (∀ op, v.apply op u = w.apply op u ∧ u.apply op v = u.apply op w) ∧
    (∀ symbol, v.applySymbol symbol u = w.applySymbol symbol u ∧
      u.applySymbol symbol v = u.applySymbol symbol w) ∧
    v.compare u = w.compare u ∧ u.compare v = u.compare w

theorem toNumber_text (n : Number) :
    (n.IsFinite → (text n.toText).toNumber = .ok n) ∧
      (¬ n.IsFinite → (text n.toText).toNumber = .error (.notANumber n.toText)) := by
  obtain ⟨hread, hnone⟩ := n.ofText?_toText
  exact ⟨fun h => by rw [toNumber, hread h], fun h => by rw [toNumber, hnone h]⟩

/-- The operations and the comparison know a value by the number that it stands for. -/
theorem ActsLike.of_toNumber {v w : Value} (h : v.toNumber = w.toNumber) : ActsLike v w := by
  intro u
  simp only [apply, applySymbol, compare, h, and_self, implies_true]

theorem actsLike_text_iff (n : Number) : ActsLike (.text n.toText) (.number n) ↔ n.IsFinite := by
  constructor
  · intro h
    by_contra hinfinite
    -- A comparison with the number fails for the text, and not for the number itself.
    have htext : (text n.toText).compare (.number n) = .error (.notANumber n.toText) := by
      rw [compare, (toNumber_text n).2 hinfinite]
      rfl
    have hnumber : (number n).compare (.number n) = .ok (Number.compare n n) := rfl
    have hcompare := (h (.number n)).2.2.1
    rw [htext, hnumber] at hcompare
    simp at hcompare
  · intro h
    exact .of_toNumber ((toNumber_text n).1 h)

end Value

namespace Context

theorem store_modifyStore (which which' : Store) (f : Index Text → Index Text) (c : Context) :
    (c.modifyStore which f).store which' =
      if which' = which then f (c.store which) else c.store which' := by
  cases which <;> cases which' <;> rfl

theorem store_writeBytes (which : Store) (bytes : List UInt8) (c : Context) :
    ((writeBytes bytes).runIn c).2.store which = c.store which := by
  rw [runIn_writeBytes]
  split
  · cases which <;> rfl
  · split <;> cases which <;> rfl

namespace Operation

/-- The operation sets or removes a parameter. -/
def Changes (which : Store) (key : Text) : Operation → Prop
  | .setParameter store name _ => store = which ∧ name = key
  | .removeParameter store name => store = which ∧ name = key
  | _ => False

variable {which : Store} {key : Text}

/-- An operation that does not change a parameter leaves it as it is. -/
theorem get?_apply {op : Operation} (h : ¬ op.Changes which key) (c : Context) :
    ((op.apply c).store which).get? key = (c.store which).get? key := by
  cases op with
  | write t =>
      rw [apply, action, runIn_write]
      split
      · rw [store_writeBytes]
      · rfl
  | writeBytes bytes =>
      rw [apply, action, store_writeBytes]
  | set s =>
      rw [apply, action, Setting.runIn_action]
      split
      · rfl
      · split
        · rfl
        · cases s <;> cases which <;> rfl
  | setParameter store name value =>
      have hset : (Operation.setParameter store name value).apply c =
          c.modifyStore store (·.put name value) := rfl
      rw [hset, store_modifyStore]
      split
      · next hwhich =>
          rw [Index.get?_put, if_neg fun hkey => h ⟨hwhich.symm, hkey.symm⟩, hwhich]
      · rfl
  | removeParameter store name =>
      have hremove : (Operation.removeParameter store name).apply c =
          c.modifyStore store (·.erase name) := rfl
      rw [hremove, store_modifyStore]
      split
      · next hwhich =>
          rw [Index.get?_erase, if_neg fun hkey => h ⟨hwhich.symm, hkey.symm⟩, hwhich]
      · rfl

theorem get?_applyAll {ops : List Operation} (h : ∀ op ∈ ops, ¬ op.Changes which key)
    (c : Context) : ((applyAll c ops).store which).get? key = (c.store which).get? key := by
  induction ops generalizing c with
  | nil =>
      rfl
  | cons op ops ih =>
      obtain ⟨hop, hops⟩ := List.forall_mem_cons.1 h
      rw [applyAll_cons, ih hops, get?_apply hop]

end Operation
end Context

namespace Builtin

theorem lookup_name (f : Builtin) : lookup f.name = .ok f := by
  rw [lookup, ofName?_name]

theorem runIn_call_set (which : Context.Store) {value x : Value} {key t : Text}
    (hx : x.toText = .ok key) (hvalue : value.toText = .ok t) (c : Context) :
    ((Builtin.set which).call [value, x]).runIn c = (.ok [], c.setParameter which key t) := by
  simp only [call, Action.runIn_bind, Action.runIn_ofExcept, hx, hvalue]
  rfl

theorem runIn_call_get (which : Context.Store) (default : Value) {x : Value} {key : Text}
    (hx : x.toText = .ok key) (c : Context) :
    ((Builtin.get which).call [default, x]).runIn c =
      (.ok [orDefault default ((c.store which).get? key)], c) := by
  simp only [call, Action.runIn_bind, Action.runIn_ofExcept, hx]
  rfl

end Builtin

namespace Machine

/-- A call of a function succeeds and leaves a machine. -/
def Calls (f : Builtin) (m m' : Machine) : Prop := (evaluate (.call f.name)).runIn m = (.ok (), m')

/-- A number that is stored as a parameter is found as its text. -/
theorem exists_calls_set (which : Context.Store) (n : Number) {m : Machine} {x : Value}
    {key : Text} {rest : List Value} (hx : x.toText = .ok key)
    (hstack : m.store.stack register = .number n :: x :: rest) :
    ∃ m', Calls (.set which) m m' ∧ m'.store.stack register = rest ∧
      (m'.context.store which).get? key = some n.toText := by
  have htext : (Value.number n).toText = .ok n.toText := rfl
  have hvalues : m.store.stack register = [.number n, x] ++ rest := hstack
  obtain ⟨m', hrun, hcontext, hrest⟩ := evaluate_call_ok (Builtin.lookup_name _) hvalues rfl
    (Builtin.runIn_call_set which hx htext m.context)
  refine ⟨m', hrun, hrest, ?_⟩
  rw [hcontext, Context.setParameter, Context.store_modifyStore, if_pos rfl, Index.get?_put,
    if_pos rfl]

/-- A parameter that is there is read as it is. -/
theorem exists_calls_get (which : Context.Store) {m : Machine} {default x : Value} {key t : Text}
    {rest : List Value} (hx : x.toText = .ok key)
    (hstack : m.store.stack register = default :: x :: rest)
    (hget : (m.context.store which).get? key = some t) :
    ∃ m', Calls (.get which) m m' ∧ m'.store.stack register = .text t :: rest := by
  have hvalues : m.store.stack register = [default, x] ++ rest := hstack
  have hcall := Builtin.runIn_call_get which default hx m.context
  rw [hget] at hcall
  obtain ⟨m', hrun, -, hresult⟩ := evaluate_call_ok (Builtin.lookup_name _) hvalues rfl hcall
  exact ⟨m', hrun, hresult⟩

/-- Numbers as texts.

* The text of a number writes that number, of the same kind and with the same sign, exactly if the
  number is an integer or a finite double.  The text of another one is no number.
* In exactly these cases the text acts like the number in every operation and every comparison.
* A call that stores a number as a parameter succeeds.  Whatever is done to the context after it,
  but for a change of this parameter, and whatever context has the parameters that this leaves, a
  call that reads the parameter succeeds, and what it leaves is the text of the number. -/
theorem number_stored_as_text (n : Number) :
    ((Value.number n).reread = .ok n ↔ n.IsFinite) ∧
    (¬ n.IsFinite → (Value.number n).reread = .error (.notANumber n.toText)) ∧
    (Value.ActsLike (.text n.toText) (.number n) ↔ n.IsFinite) ∧
    ∀ (which : Context.Store) (m : Machine) (x : Value) (key : Text) (rest : List Value),
      x.toText = .ok key → m.store.stack register = .number n :: x :: rest →
      ∃ m₁, Calls (.set which) m m₁ ∧ m₁.store.stack register = rest ∧
        ∀ (ops : List Operation) (m₂ : Machine) (default x' : Value) (rest' : List Value),
          (∀ op ∈ ops, ¬ op.Changes which key) →
          m₂.context.store which = (applyAll m₁.context ops).store which →
          x'.toText = .ok key → m₂.store.stack register = default :: x' :: rest' →
          ∃ m₃, Calls (.get which) m₂ m₃ ∧
            m₃.store.stack register = .text n.toText :: rest' := by
  obtain ⟨hfinite, hinfinite⟩ := Value.toNumber_text n
  have hreread : (Value.number n).reread = (Value.text n.toText).toNumber := rfl
  refine ⟨?_, fun h => hreread.trans (hinfinite h), Value.actsLike_text_iff n, ?_⟩
  · rw [hreread]
    refine ⟨fun h => ?_, hfinite⟩
    by_contra hnot
    rw [hinfinite hnot] at h
    simp at h
  · intro which m x key rest hx hstack
    obtain ⟨m₁, hcalls, hrest, hget⟩ := exists_calls_set which n hx hstack
    refine ⟨m₁, hcalls, hrest, fun ops m₂ default x' rest' hops hstore hx' hstack' => ?_⟩
    refine exists_calls_get which hx' hstack' ?_
    rw [hstore, Operation.get?_applyAll hops, hget]

/-- The zero with a minus sign. -/
def negativeZero : Number := .double (Double.ofMagnitude true 0)

/-- A write, a parameter of the same name in the other store, and another parameter. -/
def otherChanges : List Operation :=
  [.write ['a'], .setParameter .persistent ['k'] ['1'], .removeParameter .temporary ['j']]

/-- A machine with values on the register. -/
def withRegister (values : List Value) (c : Context) : Machine :=
  ⟨NamedStacks.empty.set register values, c, 0⟩

/-- Negative zero is stored, other things are done, and it is read with its sign; an infinity is
not. -/
theorem negativeZero_stored_as_text :
    (Value.number negativeZero).reread = .ok negativeZero ∧
    Value.ActsLike (.text "-0.0".toText) (.number negativeZero) ∧
    (Value.number (.double (Double.ofMagnitude false Double.infinity))).reread =
      .error (.notANumber "Infinity".toText) ∧
    ∃ m₁ m₃, Calls (.set .temporary)
        (withRegister [.number negativeZero, .text ['k']] Document.bareContext) m₁ ∧
      Calls (.get .temporary)
        (withRegister [.absent, .text ['k'], .absent] (applyAll m₁.context otherChanges)) m₃ ∧
      m₃.store.stack register = [.text "-0.0".toText, .absent] := by
  have htext : negativeZero.toText = "-0.0".toText := by rfl
  have hfinite : negativeZero.IsFinite := by
    show Double.isFinite (Double.ofMagnitude true 0) = true
    decide +kernel
  have hinfinite : ¬ (Number.double (Double.ofMagnitude false Double.infinity)).IsFinite := by
    show ¬ Double.isFinite (Double.ofMagnitude false Double.infinity) = true
    decide +kernel
  have hstack (values : List Value) (c : Context) :
      (withRegister values c).store.stack register = values := by
    rw [withRegister, NamedStacks.stack_set, if_pos rfl]
  obtain ⟨hreread, -, hacts, hstore⟩ := number_stored_as_text negativeZero
  obtain ⟨-, hfails, -, -⟩ :=
    number_stored_as_text (.double (Double.ofMagnitude false Double.infinity))
  obtain ⟨m₁, hset, -, hget⟩ := hstore .temporary _ (.text ['k']) ['k'] [] rfl (hstack _ _)
  have hother : ∀ op ∈ otherChanges, ¬ op.Changes .temporary ['k'] := by
    simp [otherChanges, Operation.Changes]
  obtain ⟨m₃, hcalls, hresult⟩ := hget otherChanges _ .absent (.text ['k']) [.absent] hother rfl rfl
    (hstack _ (applyAll m₁.context otherChanges))
  rw [htext] at hacts hresult
  exact ⟨hreread.2 hfinite, hacts.2 hfinite, hfails hinfinite, m₁, m₃, hset, hcalls, hresult⟩

end Machine
end Stencil
