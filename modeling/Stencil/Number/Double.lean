import Stencil.Number.Numeral

/-!
# Doubles as texts

Reading and writing 64-bit floating point numbers, in exact arithmetic on their bits.

The *magnitude* of a double is its bit pattern without the sign, a natural number below `2 ^ 63`.
Magnitudes up to that of infinity are in the order of the numbers they stand for, and a magnitude
`b` below it stands for `significand b · 2 ^ scale b`.

**Reading.**  A text is read as the double nearest to the number it writes; of two equally near
ones the one with an even magnitude is taken, and a number too large for all of them is infinity.

**Writing.**  A finite double is written with the fewest digits that are read back as the same
double, of these with the digits nearest to its exact value, and on a tie with an even last digit.
From a thousandth up to ten million these digits stand around a decimal point, with a zero where no
digit is left before or after it; outside that range one digit stands before the point, and the
power of ten follows after `E`.

**Results.**  `ofNumeral_shortest_of_find` says that a numeral which the search returns is read
back as the double it was made for.
-/

namespace Stencil

/-- The quotient `n / d` rounded to the nearest integer, a tie to the even one. -/
def roundHalfEven (n d : Nat) : Nat :=
  let quotient := n / d
  let twice := 2 * (n % d)
  if twice < d ∨ (twice = d ∧ quotient % 2 = 0) then quotient else quotient + 1

namespace Double

/-- The magnitude of infinity; larger magnitudes are no numbers. -/
def infinity : Nat := 2047 * Nat.pow 2 52

/-- The magnitude of a double. -/
def magnitude (x : Float) : Nat := x.toBits.toNat % Nat.pow 2 63

/-- The double carries a minus sign, be it a zero or not. -/
def isNegative (x : Float) : Bool := decide (Nat.pow 2 63 ≤ x.toBits.toNat)

/-- The double of a magnitude and a sign. -/
def ofMagnitude (negative : Bool) (b : Nat) : Float :=
  Float.ofBits (UInt64.ofNat (if negative then Nat.pow 2 63 + b else b))

/-- The value that is no number. -/
def nan : Float := ofMagnitude false (infinity + Nat.pow 2 51)

/-- The double is no number. -/
def isNaN (x : Float) : Bool := decide (infinity < magnitude x)

/-- The double is an infinity. -/
def isInfinite (x : Float) : Bool := decide (magnitude x = infinity)

/-- The double is a number that is not infinite. -/
def isFinite (x : Float) : Bool := decide (magnitude x < infinity)

/-- The significand of a finite magnitude, in units of two to the power `scale b`. -/
def significand (b : Nat) : Nat :=
  if b < Nat.pow 2 52 then b else Nat.pow 2 52 + b % Nat.pow 2 52

/-- The power of two that the significand is scaled by. -/
def scale (b : Nat) : Int := (max (b / Nat.pow 2 52) 1 : Nat) - 1075

/-- The greatest `k` with `2 ^ k ≤ n / d`, for positive `n` and `d`. -/
def ratioLog (n d : Nat) : Int :=
  let k : Int := (n.log2 : Int) - d.log2
  if d * Nat.pow 2 k.toNat ≤ n * Nat.pow 2 (-k).toNat then k else k - 1

/-- The magnitude nearest to `n / d`, for positive `n` and `d`.  A significand that rounds up to
`2 ^ 53` carries into the exponent, since magnitudes are consecutive. -/
def nearest (n d : Nat) : Nat :=
  let q := max (ratioLog n d - 52) (-1074)
  let m := roundHalfEven (n * Nat.pow 2 (-q).toNat) (d * Nat.pow 2 q.toNat)
  min ((q + 1074).toNat * Nat.pow 2 52 + m) infinity

/-- The double nearest to an integer. -/
def ofInt (n : Int) : Float :=
  ofMagnitude (decide (n < 0)) (if n = 0 then 0 else nearest n.natAbs 1)

/-- The magnitude nearest to a numeral.  Powers of ten that are out of all reach need no exact
arithmetic. -/
def ofNumeral (n : Numeral) : Nat :=
  if n.digits = [] ∨ n.point < -400 then 0
  else if 400 < n.point then infinity
  else nearest (n.coefficient * Nat.pow 10 n.exponent.toNat) (Nat.pow 10 (-n.exponent).toNat)

/-- Reads a signed fraction, or `NaN` or `Infinity` with an optional sign. -/
def ofText? (t : Text) : Option Float :=
  let (negative, body) := Numeral.splitSign t
  if body = "NaN".toText then some nan
  else if body = "Infinity".toText then some (ofMagnitude negative infinity)
  else (Numeral.ofText? body).map fun n => ofMagnitude negative (ofNumeral n)

/-- The exact value of a finite magnitude `b` is `exactDigits b · 10 ^ exactExponent b`. -/
def exactDigits (b : Nat) : Nat :=
  significand b * Nat.pow 2 (scale b).toNat * Nat.pow 5 (-scale b).toNat

/-- The power of ten that the exact digits are scaled by. -/
def exactExponent (b : Nat) : Int := min (scale b) 0

/-- The two multiples of `unit` around `n`, in units, the nearer one first and on a tie the even
one. -/
def neighbours (n unit : Nat) : List Nat :=
  let near := roundHalfEven n unit
  if near = n / unit then [near, near + 1] else [near, near - 1]

/-- The numerals of the given number of digits around the exact value of a magnitude, the nearer
one first; there are none if the exact value has no more digits itself. -/
def roundings (b count : Nat) : List Numeral :=
  let excess := (Text.ofNat (exactDigits b)).length - count
  if excess = 0 then []
  else (neighbours (exactDigits b) (Nat.pow 10 excess)).map fun c =>
    Numeral.ofScaled c (exactExponent b + excess)

/-- A numeral of the given number of digits that is read back as the magnitude, if there is one. -/
def withDigits? (b count : Nat) : Option Numeral :=
  (roundings b count).find? fun n => ofNumeral n == b

/-- The numeral with the fewest digits that is read back as the finite magnitude `b`.  Seventeen
digits tell all doubles apart. -/
def shortest (b : Nat) : Numeral :=
  ((List.range 17).findSome? fun i => withDigits? b (i + 1)).getD
    (Numeral.ofScaled (exactDigits b) (exactExponent b))

theorem ofNumeral_of_withDigits {b count : Nat} {n : Numeral} (h : withDigits? b count = some n) :
    ofNumeral n = b := by
  simpa using List.find?_some h

/-- A numeral found by the search is read back as the magnitude it was made for. -/
theorem ofNumeral_shortest_of_find {b : Nat} {n : Numeral}
    (h : (List.range 17).findSome? (fun i => withDigits? b (i + 1)) = some n) :
    shortest b = n ∧ ofNumeral n = b := by
  obtain ⟨i, -, hi⟩ := List.exists_of_findSome?_eq_some h
  exact ⟨by simp [shortest, h], ofNumeral_of_withDigits hi⟩

/-- The digits of a numeral around a decimal point. -/
def positional (n : Numeral) : Text :=
  if n.point ≤ 0 then "0.".toText ++ (List.replicate n.point.natAbs '0' : Text) ++ n.digits
  else
    let places := n.digits.drop n.point.toNat
    n.digits.take n.point.toNat ++ List.replicate (n.point.toNat - n.digits.length) (.char '0')
      ++ .char '.' :: (if places = [] then [.char '0'] else places)

/-- The digits of a numeral with the point after the first, and the power of ten. -/
def scientific (n : Numeral) : Text :=
  let places := n.digits.tail
  n.digits.take 1 ++ .char '.' :: (if places = [] then [.char '0'] else places)
    ++ .char 'E' :: Text.ofInt (n.point - 1)

/-- The text of a numeral.  The range that is written around the point is that of numbers from a
thousandth up to, but not including, ten million. -/
def numeralText (n : Numeral) : Text :=
  if n.digits = [] then "0.0".toText
  else if -2 ≤ n.point ∧ n.point ≤ 7 then positional n
  else scientific n

/-- The text of a double. -/
def toText (x : Float) : Text :=
  if isNaN x then "NaN".toText
  else
    let body : Text :=
      if isInfinite x then "Infinity".toText
      else if magnitude x = 0 then "0.0".toText
      else numeralText (shortest (magnitude x))
    if isNegative x then '-' :: body else body

/-- The order of doubles.  The value that is no number equals itself and is above all others, and
of the two zeros, which are equal as numbers, the one with a minus sign is below the other. -/
def compare (x y : Float) : Ordering :=
  if isNaN x then if isNaN y then .eq else .gt
  else if isNaN y then .lt
  else if x == y && y == 0 then Ord.compare (!isNegative x) (!isNegative y)
  else if y < x then .gt
  else if x < y then .lt
  else .eq

end Double
end Stencil
