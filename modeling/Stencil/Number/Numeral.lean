import Stencil.Text.Basic

/-!
# Decimal numerals

A decimal numeral is its significant digits and the place of the decimal point.  The module reads
the written forms of integers and of decimal fractions with an exponent.

**Grammar.**

* an integer is an optional sign and at least one digit;
* a fraction is an optional sign, digits with at most one point among them and at least one digit,
  and optionally `e` or `E` with an integer after it.

Digits are the ten of ASCII.

**Results.**  `Numeral.ofDigits` gives every numeral one form: `ofDigits_zero_cons` and
`ofDigits_append_zero` say that zeros at either end do not count.
-/

namespace Stencil

/-- The number `0.d₁d₂…dₙ · 10 ^ point`, with `digits` for `d₁d₂…dₙ`. -/
structure Numeral where
  digits : Text
  point : Int
deriving DecidableEq, Repr

namespace Numeral

/-- The text without the zeros at its end. -/
def dropEndZeros (digits : Text) : Text :=
  (digits.reverse.dropWhile (· == .char '0')).reverse

/-- The numeral `0.d₁d₂…dₙ · 10 ^ point` in its one form, which neither begins nor ends in a zero;
the number zero has no digits. -/
def ofDigits : Text → Int → Numeral
  | [], _ => ⟨[], 0⟩
  | d :: rest, point =>
      if d = '0' then ofDigits rest (point - 1) else ⟨d :: dropEndZeros rest, point⟩

theorem ofDigits_zero_cons (digits : Text) (point : Int) :
    ofDigits ('0' :: digits) point = ofDigits digits (point - 1) := by
  simp [ofDigits]

theorem dropEndZeros_append_zero (digits : Text) :
    dropEndZeros (digits ++ [.char '0']) = dropEndZeros digits := by
  simp [dropEndZeros]

theorem ofDigits_append_zero (digits : Text) (point : Int) :
    ofDigits (digits ++ [.char '0']) point = ofDigits digits point := by
  induction digits generalizing point with
  | nil => simp [ofDigits]
  | cons d rest ih =>
      simp only [List.cons_append, ofDigits, ih, dropEndZeros_append_zero]

/-- The numeral of `coefficient · 10 ^ exponent`. -/
def ofScaled (coefficient : Nat) (exponent : Int) : Numeral :=
  ofDigits (Text.ofNat coefficient) ((Text.ofNat coefficient).length + exponent)

/-- The digits read as one natural number. -/
def coefficient (n : Numeral) : Nat := Text.digitsValue n.digits

/-- The power of ten that the coefficient is scaled by. -/
def exponent (n : Numeral) : Int := n.point - n.digits.length

/-- An optional sign, and what follows it; `true` stands for a minus. -/
def splitSign : Text → Bool × Text
  | '-' :: rest => (true, rest)
  | '+' :: rest => (false, rest)
  | rest => (false, rest)

/-- The number of characters after the sign: of an integer, that of its digits. -/
def digitCount (t : Text) : Nat := (splitSign t).2.length

/-- Reads an optional sign and at least one digit. -/
def integer? (t : Text) : Option Int :=
  let (negative, digits) := splitSign t
  if digits ≠ [] ∧ digits.all CodePoint.isDigit then
    let n : Int := Text.digitsValue digits
    some (if negative then -n else n)
  else none

/-- Reads what may follow the digits of a fraction: nothing, or an exponent. -/
def exponent? : Text → Option Int
  | [] => some 0
  | c :: rest => if c = 'e' ∨ c = 'E' then integer? rest else none

/-- Reads a fraction without a sign. -/
def ofText? (t : Text) : Option Numeral :=
  let whole := t.takeWhile CodePoint.isDigit
  match t.dropWhile CodePoint.isDigit with
  | '.' :: rest =>
      let places := rest.takeWhile CodePoint.isDigit
      if whole = [] ∧ places = [] then none
      else (exponent? (rest.dropWhile CodePoint.isDigit)).map fun e =>
        ofDigits (whole ++ places) (whole.length + e)
  | rest =>
      if whole = [] then none
      else (exponent? rest).map fun e => ofDigits whole (whole.length + e)

end Numeral
end Stencil
