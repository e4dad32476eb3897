import Stencil.Number.Basic
import Stencil.Number.Decimal

/-!
# Decimal patterns

A pattern such as `#,##0.00` formats a number: a lead and a tail that are written as they are, and
between them the integer part and, after a point, the fraction part.  In both parts `0` stands for a
digit that is always written and `#` for one that is written if it counts; a comma in the integer
part asks for groups of as many digits as characters follow the last comma.  A percent sign in the
lead or the tail multiplies the number by one hundred.

The number that is formatted is the exact integer, or the decimal number that the text of a double
writes; it is put into units of the last place of the fraction part, a half going to the even
neighbour.  This is done in decimal arithmetic with `precision` digits.

**Results.**  `text_ofText?` says that the parts of a pattern, put together again, are the pattern.
-/

namespace Stencil

/-- A decimal pattern.  The fraction part is missing if the pattern has no point. -/
structure DecimalPattern where
  lead : Text
  whole : Text
  places : Option Text
  tail : Text
deriving DecidableEq, Repr

namespace DecimalPattern

/-- A character that is written as it is. -/
def isLiteral (c : CodePoint) : Bool := c ≠ '#' && c ≠ '0' && c ≠ ',' && c ≠ '.'

/-- A character of the fraction part. -/
def isPlace (c : CodePoint) : Bool := c = '#' || c = '0'

/-- A character of the integer part. -/
def isWhole (c : CodePoint) : Bool := isPlace c || c = ','

/-- The fraction part as it is written, with its point. -/
def placesText : Option Text → Text
  | some places => '.' :: places
  | none => []

/-- The fraction part that a text begins with, if it begins with a point, and the rest. -/
def splitPlaces : Text → Option Text × Text
  | '.' :: rest => (some (rest.takeWhile isPlace), rest.dropWhile isPlace)
  | rest => (none, rest)

theorem placesText_splitPlaces (t : Text) :
    placesText (splitPlaces t).1 ++ (splitPlaces t).2 = t := by
  unfold splitPlaces
  split <;> simp [placesText]

/-- The pattern as it is written. -/
def text (p : DecimalPattern) : Text := p.lead ++ (p.whole ++ (placesText p.places ++ p.tail))

/-- The pattern has a place for a digit or a comma, and its tail is literal. -/
def isValid (p : DecimalPattern) : Bool :=
  (p.whole ≠ [] || p.places.getD [] ≠ []) && p.tail.all isLiteral

/-- The parts of a text, each as long as possible. -/
def ofParts (t : Text) : DecimalPattern :=
  let rest := t.dropWhile isLiteral
  let ending := splitPlaces (rest.dropWhile isWhole)
  ⟨t.takeWhile isLiteral, rest.takeWhile isWhole, ending.1, ending.2⟩

/-- Reads a pattern. -/
def ofText? (t : Text) : Option DecimalPattern :=
  if (ofParts t).isValid then some (ofParts t) else none

theorem text_ofParts (t : Text) : (ofParts t).text = t := by
  simp [ofParts, text, placesText_splitPlaces]

theorem text_ofText? {t : Text} {p : DecimalPattern} (h : ofText? t = some p) : p.text = t := by
  unfold ofText? at h
  split at h
  · rw [← Option.some.inj h, text_ofParts]
  · simp at h

/-- The places of the fraction part. -/
def fraction (p : DecimalPattern) : Text := p.places.getD []

/-- The number is multiplied by one hundred. -/
def isPercent (p : DecimalPattern) : Bool := p.lead.contains '%' || p.tail.contains '%'

/-- The size of a group of digits; zero if there are no groups. -/
def groupSize (p : DecimalPattern) : Nat :=
  if .char ',' ∈ p.whole then (p.whole.reverse.takeWhile (· ≠ .char ',')).length else 0

/-- The digits with a comma before each full group at the end, if more digits stand before it.  The
digits come in reverse, and `room` is what is left in the group in progress. -/
def groupFrom (size : Nat) : Nat → Text → Text
  | _, [] => []
  | 0, d :: rest => ',' :: d :: groupFrom size (size - 1) rest
  | room + 1, d :: rest => d :: groupFrom size room rest

/-- The digits in groups, counted from the end; size zero stands for no groups. -/
def group (size : Nat) (digits : Text) : Text :=
  if size = 0 then digits else (groupFrom size size digits.reverse).reverse

/-- The digits without zeros at the start, with as many zeros put before them as `count` digits
need. -/
def padLeft (count : Nat) (digits : Text) : Text :=
  let bare := digits.dropWhile (· == .char '0')
  List.replicate (count - bare.length) (.char '0') ++ bare

/-- The digits without zeros at the end, with as many zeros put after them as `count` digits
need. -/
def padRight (count : Nat) (digits : Text) : Text :=
  let bare := Numeral.dropEndZeros digits
  bare ++ List.replicate (count - bare.length) (.char '0')

/-- The integer and the fraction digits of `units` in units of the last of `places` places. -/
def splitUnits (places units : Nat) : Text × Text :=
  let digits := Text.ofNat units
  let padded := List.replicate (places + 1 - digits.length) (.char '0') ++ digits
  (padded.take (padded.length - places), padded.drop (padded.length - places))

/-- The digits of a magnitude in units of the last place of the pattern. -/
def digits (p : DecimalPattern) (units : Nat) : Text :=
  let (whole, places) := splitUnits p.fraction.length units
  let whole := padLeft (p.whole.count (.char '0')) whole
  let places := padRight (p.fraction.count (.char '0')) places
  let whole := if whole = [] ∧ places = [] then [.char '0'] else whole
  group p.groupSize whole ++ (if places = [] then [] else .char '.' :: places)

/-- The digits that a number is computed with.  The greatest double has fewer than four hundred
before the point. -/
def precision (p : DecimalPattern) : Nat := 400 + p.fraction.length

/-- The number, or a hundred times it, in units of the last place of the pattern. -/
def quantized (p : DecimalPattern) (d : Decimal) : Except Decimal.Signal Decimal := do
  let scaled ← if p.isPercent then d.multiply p.precision ⟨false, 100, 0⟩ else .ok d
  let unit ← Decimal.scaleb p.precision ⟨false, 1, 0⟩ (-p.fraction.length)
  scaled.quantize p.precision unit

/-- A number in units of the last place by the pattern. -/
def signedText (p : DecimalPattern) (d : Decimal) : Text :=
  (if d.negative then [.char '-'] else []) ++ p.lead ++ p.digits d.coefficient ++ p.tail

/-- A decimal number by the pattern. -/
def formatDecimal (p : DecimalPattern) (d : Decimal) : Except Decimal.Signal Text :=
  (p.quantized d).map p.signedText

/-- A number by the pattern.  The sign of a double stays even if all its digits are rounded away. -/
def format (p : DecimalPattern) : Number → Except Decimal.Signal Text
  | .int n => p.formatDecimal (.ofInt n.toInt)
  | .double x =>
      if Double.isNaN x then .ok (p.lead ++ "NaN".toText ++ p.tail)
      else if Double.isInfinite x then
        .ok ((if Double.isNegative x then [.char '-'] else []) ++ p.lead ++ .char '∞' :: p.tail)
      else p.formatDecimal (.ofDouble x)

end DecimalPattern
end Stencil
