import Stencil.Number.Double

/-!
# Decimal arithmetic

Signed decimal numbers, with the operations that formatting by a pattern needs.  An operation has a
precision, which is the greatest number of digits that its result may have.

A result with more digits is rounded to the precision, a half going to the even neighbour.  The
exponent of its first digit is at most `maxExponent`, and a greater one is signalled as an overflow;
the last digit is at least `leastExponent`, and digits below it are rounded away.  A number is also
put into units of a power of ten that is asked for.  Digits are never lost at the front: if there
are more of them than the precision allows, the operation is signalled as invalid.
-/

namespace Stencil

/-- The number `coefficient · 10 ^ exponent` with a sign, which a zero has as well. -/
structure Decimal where
  negative : Bool
  coefficient : Nat
  exponent : Int
deriving DecidableEq, Repr

namespace Decimal

/-- An integer as a decimal number. -/
def ofInt (n : Int) : Decimal := ⟨decide (n < 0), n.natAbs, 0⟩

/-- The decimal number that the text of a finite double writes. -/
def ofDouble (x : Float) : Decimal :=
  let numeral := if Double.magnitude x = 0 then ⟨[], 0⟩ else Double.shortest (Double.magnitude x)
  ⟨Double.isNegative x, numeral.coefficient, numeral.exponent⟩

/-- What ends an operation without a result. -/
inductive Signal
  | invalidOperation
  | overflow
deriving DecidableEq, Repr

/-- The name of a signal. -/
def Signal.name : Signal → Text
  | .invalidOperation => "InvalidOperation".toText
  | .overflow => "Overflow".toText

/-- The wording of a signal. -/
def Signal.message (s : Signal) : Text :=
  "[<class 'decimal.".toText ++ s.name ++ "'>]".toText

/-- The number of digits; a zero has one. -/
def digitCount (d : Decimal) : Nat := (Text.ofNat d.coefficient).length

/-- The exponent of the first digit. -/
def adjusted (d : Decimal) : Int := d.exponent + d.digitCount - 1

/-- The greatest exponent of a first digit. -/
def maxExponent : Int := 999999

/-- The least exponent of a last digit. -/
def leastExponent (precision : Nat) : Int := -999999 - precision + 1

/-- The number in units of `10 ^ exponent`, a half going to the even neighbour. -/
def rescale (d : Decimal) (exponent : Int) : Decimal :=
  let shift := d.exponent - exponent
  { d with
    coefficient :=
      roundHalfEven (d.coefficient * Nat.pow 10 shift.toNat) (Nat.pow 10 (-shift).toNat)
    exponent := exponent }

/-- The number as it fits into the precision and the range of the exponents.  Rounding may carry
into one more digit, and then a zero is dropped at the end. -/
def fix (precision : Nat) (d : Decimal) : Except Signal Decimal :=
  if d.coefficient = 0 then
    .ok { d with exponent := min (max d.exponent (leastExponent precision)) maxExponent }
  else if maxExponent < d.adjusted then .error .overflow
  else
    let least := max (d.adjusted - precision + 1) (leastExponent precision)
    if least ≤ d.exponent then .ok d
    else
      let rounded := d.rescale least
      let carried := if precision < rounded.digitCount then rounded.rescale (least + 1) else rounded
      if maxExponent < carried.adjusted then .error .overflow else .ok carried

/-- The product of two numbers. -/
def multiply (precision : Nat) (a b : Decimal) : Except Signal Decimal :=
  fix precision
    ⟨a.negative != b.negative, a.coefficient * b.coefficient, a.exponent + b.exponent⟩

/-- The number times a power of ten. -/
def scaleb (precision : Nat) (d : Decimal) (n : Int) : Except Signal Decimal :=
  if 2 * (maxExponent + precision) < n.natAbs then .error .invalidOperation
  else fix precision { d with exponent := d.exponent + n }

/-- The number in units of the last digit of another one. -/
def quantize (precision : Nat) (d unit : Decimal) : Except Signal Decimal :=
  if unit.exponent < leastExponent precision ∨ maxExponent < unit.exponent then
    .error .invalidOperation
  else if d.coefficient = 0 then fix precision { d with exponent := unit.exponent }
  else if maxExponent < d.adjusted ∨ precision < d.adjusted - unit.exponent + 1 then
    .error .invalidOperation
  else
    let scaled := d.rescale unit.exponent
    if maxExponent < scaled.adjusted ∨ precision < scaled.digitCount then .error .invalidOperation
    else fix precision scaled

end Decimal
end Stencil
