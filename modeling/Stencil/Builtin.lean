import Stencil.Context.Basic
import Stencil.Number.Pattern
import Stencil.Value.Arithmetic

/-!
# Built-in functions

The functions that an echo tag can call.  A function takes a fixed number of values, the topmost
first, and leaves values in the order in which they are pushed.

* `sin` takes a number and leaves its sine;
* `decfmt` takes a pattern and a number and leaves the number as the pattern formats it;
* `dup` and `swap` rearrange the topmost values;
* `setMimeType` sets the type of the response;
* `…Get` takes a default and a name and leaves the parameter of that name, or the default;
* `…Set` takes a value and a name and sets a parameter, `…Del` takes a name and removes it.

The letter before `param` names the parameters: `p` the persistent ones, `t` the temporary ones, and
none those of the request, which cannot be changed.
-/

namespace Stencil

/-- A built-in function. -/
inductive Builtin
  | sin
  | decfmt
  | dup
  | swap
  | setMimeType
  | requestGet
  | get (store : Context.Store)
  | set (store : Context.Store)
  | del (store : Context.Store)
deriving DecidableEq, Repr

namespace Builtin

/-- All functions. -/
def all : List Builtin :=
  [.sin, .decfmt, .dup, .swap, .setMimeType, .requestGet,
   .get .persistent, .get .temporary, .set .persistent, .set .temporary,
   .del .persistent, .del .temporary]

/-- The letter that names a store. -/
def storeLetter : Context.Store → CodePoint
  | .persistent => 'p'
  | .temporary => 't'

/-- The name of a function. -/
def name : Builtin → Text
  | .sin => "sin".toText
  | .decfmt => "decfmt".toText
  | .dup => "dup".toText
  | .swap => "swap".toText
  | .setMimeType => "setMimeType".toText
  | .requestGet => "paramGet".toText
  | .get store => storeLetter store :: "paramGet".toText
  | .set store => storeLetter store :: "paramSet".toText
  | .del store => storeLetter store :: "paramDel".toText

/-- The function of a name. -/
def ofName? (x : Text) : Option Builtin := all.find? fun f => f.name == x

theorem ofName?_name (f : Builtin) : ofName? f.name = some f := by
  cases f with
  | get store | set store | del store => cases store <;> decide
  | _ => decide

/-- The number of values that a function takes. -/
def arity : Builtin → Nat
  | .sin | .dup | .setMimeType | .del _ => 1
  | .decfmt | .swap | .requestGet | .get _ | .set _ => 2

/-- The function of a name, or the fault that there is none. -/
def lookup (x : Text) : Except Fault Builtin :=
  match ofName? x with
  | some f => .ok f
  | none => .error (.unknownFunction x)

/-- The sine of a double. -/
def sine (x : Float) : Except Fault Float :=
  if Double.isInfinite x then .error .sineOfInfinity else .ok x.sin

/-- A number as the pattern that a text writes formats it. -/
def formatBy (pattern : Text) (n : Number) : Except Fault Text :=
  match DecimalPattern.ofText? pattern with
  | some p => (p.format n).mapError .decimal
  | none => .error (.badPattern pattern)

/-- A parameter, or a default if there is none. -/
def orDefault (default : Value) : Option Text → Value
  | some t => .text t
  | none => default

/-- Calls a function on values, the topmost first. -/
def call : Builtin → List Value → Action Context (List Value)
  | .sin, [x] => do
      let n ← Action.ofExcept x.toNumber
      let y ← Action.ofExcept (sine n.toFloat)
      return [.number (.double y)]
  | .decfmt, [pattern, x] => do
      let n ← Action.ofExcept x.toNumber
      let p ← Action.ofExcept pattern.toText
      let t ← Action.ofExcept (formatBy p n)
      return [.text t]
  | .dup, [x] => return [x, x]
  | .swap, [x, y] => return [x, y]
  | .setMimeType, [x] => do
      let t ← Action.ofExcept x.toText
      Context.setMimeType t
      return []
  | .requestGet, [default, x] => do
      let key ← Action.ofExcept x.toText
      return [orDefault default ((← MonadState.get).request.get? key)]
  | .get store, [default, x] => do
      let key ← Action.ofExcept x.toText
      return [orDefault default (((← MonadState.get).store store).get? key)]
  | .set store, [value, x] => do
      let key ← Action.ofExcept x.toText
      let t ← Action.ofExcept value.toText
      modify (Context.setParameter store key t)
      return []
  | .del store, [x] => do
      let key ← Action.ofExcept x.toText
      modify (Context.removeParameter store key)
      return []
  | f, values => throw (.missingOperands ('@' :: f.name) f.arity values.length)

/-- Why a function cannot be declared. -/
inductive DeclarationError
  | badName (x : Text)
  | redefined (x : Text)
  | badArity (x : Text) (arity : Int)
deriving DecidableEq, Repr

/-- The wording of a declaration error. -/
def DeclarationError.message : DeclarationError → Text
  | .badName x => "bad function name: ".toText ++ Text.quoted x
  | .redefined x => "function redefined: ".toText ++ x
  | .badArity x arity => "bad arity for ".toText ++ x ++ ": ".toText ++ Text.ofInt arity

/-- Checks the declaration of a function: its name is a name, no built-in function has it, and the
number of values is not negative. -/
def declare (x : Text) (arity : Int) : Except DeclarationError (Text × Nat) :=
  if !isName x then .error (.badName x)
  else if (ofName? x).isSome then .error (.redefined x)
  else if arity < 0 then .error (.badArity x arity)
  else .ok (x, arity.toNat)

end Builtin
end Stencil
