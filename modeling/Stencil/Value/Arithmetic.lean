import Stencil.Fault

/-!
# Arithmetic on values

Every operand is first taken for a number: the absent value for zero, a numeric text for the number
it writes.  If one of the two numbers is a double the operation is one on doubles, where nothing
fails; otherwise it is one on 64-bit integers.  The exact result is wrapped around as a register
would hold it, and a quotient is rounded toward zero.

Comparison is by the same rule.
-/

namespace Stencil

namespace Value

/-- The number that a value stands for among operands. -/
def toNumber : Value → Except Fault Number
  | .absent => .ok (.int 0)
  | .number n => .ok n
  | .text t =>
      match Number.ofText? t with
      | .error e => .error (.tooManyDigits e)
      | .ok (some n) => .ok n
      | .ok none => .error (.notANumber t)
  | .foreign data => .error (.foreignOperand data)

/-- The text of a value. -/
def toText : Value → Except Fault Text
  | .absent => .ok []
  | .number n => .ok n.toText
  | .text t => .ok t
  | .foreign data => .error (.foreignText data)

end Value

namespace Number

/-- The least integer of 64 bits. -/
def minInt : Int := -Int.pow 2 63

/-- The mask of the low 64 bits. -/
def mask : Nat := 0xFFFF_FFFF_FFFF_FFFF

/-- The low 64 bits of an integer in two's complement: those of a negative one are the complement of
the bits of the natural number below its magnitude. -/
def lowBits : Int → Nat
  | .ofNat n => n &&& mask
  | .negSucc n => (n &&& mask) ^^^ mask

/-- What a register of 64 bits holds of an integer.  The bits are those of its distance from the
least integer, so that their value is counted on from there. -/
def wrap (n : Int) : Int := lowBits (n - minInt) + minInt

/-- The quotient of two integers, rounded toward zero. -/
def quotient (m n : Int) : Except Fault Int :=
  if n = 0 then .error .divisionByZero
  else
    let q : Int := m.natAbs / n.natAbs
    .ok (if decide (m < 0) = decide (n < 0) then q else -q)

/-- An operation on integers, with its result wrapped around. -/
def applyInt (op : Operator) (m n : Int) : Except Fault Int :=
  match op with
  | .plus => .ok (wrap (m + n))
  | .minus => .ok (wrap (m - n))
  | .times => .ok (wrap (m * n))
  | .over => (quotient m n).map wrap

/-- An operation on doubles. -/
def applyDouble (op : Operator) (x y : Float) : Float :=
  match op with
  | .plus => x + y
  | .minus => x - y
  | .times => x * y
  | .over => x / y

/-- An operation on numbers. -/
def apply (op : Operator) : Number → Number → Except Fault Number
  | .int m, .int n => (applyInt op m.toInt n.toInt).map fun r => .int (Int64.ofInt r)
  | a, b => .ok (.double (applyDouble op a.toFloat b.toFloat))

/-- The order of numbers. -/
def compare : Number → Number → Ordering
  | .int m, .int n => Ord.compare m.toInt n.toInt
  | a, b => Double.compare a.toFloat b.toFloat

end Number

namespace Value

/-- An operation on values. -/
def apply (op : Operator) (left right : Value) : Except Fault Number := do
  let a ← left.toNumber
  let b ← right.toNumber
  Number.apply op a b

/-- An operation that is given by its sign.  The operands are looked at before the sign is. -/
def applySymbol (symbol : Text) (left right : Value) : Except Fault Number := do
  let a ← left.toNumber
  let b ← right.toNumber
  match Operator.ofText? symbol with
  | some op => Number.apply op a b
  | none => .error (.unknownOperator symbol)

/-- The order of values. -/
def compare (left right : Value) : Except Fault Ordering := do
  let a ← left.toNumber
  let b ← right.toNumber
  return Number.compare a b

end Value
end Stencil
