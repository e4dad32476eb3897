import Stencil.Number.Double

/-!
# Numbers

A number is a 64-bit integer or a double.  The module holds their texts and the two ways in which a
text is taken for a number.

* As a *literal* of the template language, a text is an integer if it is written as one and is in
  the 64-bit range; otherwise it is a double if it is written as a fraction.
* As a *numeric text* among the operands of an operator, a text with a point or an exponent mark is
  a double, and any other an integer.  So `Infinity` is a literal and no numeric text.

An integer with more digits than `digitLimit` is not read at all.  It is not taken for a double
either, but is a failure of its own, whatever its value is.
-/

namespace Stencil

/-- A 64-bit integer or a double. -/
inductive Number
  | int (n : Int64)
  | double (x : Float)
deriving DecidableEq

/-- The greatest number of digits with which an integer is read. -/
def digitLimit : Nat := 4300

/-- An integer with more digits than are read, and how many it has. -/
structure TooManyDigits where
  count : Nat
deriving DecidableEq, Repr

/-- The wording of the failure. -/
def TooManyDigits.message (e : TooManyDigits) : Text :=
  "Exceeds the limit (".toText ++ Text.ofNat digitLimit
    ++ " digits) for integer string conversion: value has ".toText ++ Text.ofNat e.count
    ++ " digits; use sys.set_int_max_str_digits() to increase the limit".toText

namespace Number

/-- Reads an integer of the 64-bit range. -/
def int64? (t : Text) : Except TooManyDigits (Option Int64) :=
  match Numeral.integer? t with
  | none => .ok none
  | some n =>
      if digitLimit < Numeral.digitCount t then .error ⟨Numeral.digitCount t⟩
      else if Int64.minValue.toInt ≤ n ∧ n ≤ Int64.maxValue.toInt then .ok (some (Int64.ofInt n))
      else .ok none

/-- Reads a numeric literal. -/
def ofLiteral? (t : Text) : Except TooManyDigits (Option Number) :=
  match int64? t with
  | .error e => .error e
  | .ok (some n) => .ok (some (.int n))
  | .ok none => .ok ((Double.ofText? t).map .double)

/-- Reads a numeric text. -/
def ofText? (t : Text) : Except TooManyDigits (Option Number) :=
  if .char '.' ∈ t ∨ .char 'e' ∈ t ∨ .char 'E' ∈ t then .ok ((Double.ofText? t).map .double)
  else (int64? t).map fun n => n.map .int

/-- The text of a number. -/
def toText : Number → Text
  | .int n => Text.ofInt n.toInt
  | .double x => Double.toText x

/-- The double nearest to a number. -/
def toFloat : Number → Float
  | .int n => Double.ofInt n.toInt
  | .double x => x

end Number
end Stencil
