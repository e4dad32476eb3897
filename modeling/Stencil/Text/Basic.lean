import Stencil.Text.CodePoint

/-!
# Texts

A text is the list of its code points, so that lengths and offsets count code points, and a function
on texts is a recursion on lists.

The module holds what the rest of the library does to texts as such: the digits of a number,
replacing a pair of characters, joining, cutting at a character, and cutting at an offset that may
count from either end.
-/

namespace Stencil

/-- A text is the list of its code points. -/
abbrev Text := List CodePoint

end Stencil

/-- The text of a string. -/
@[simp] def String.toText (s : String) : Stencil.Text := s.toList.map .char

namespace Stencil
namespace Text

/-- Every occurrence of `a` followed by `b` becomes `r`.  Occurrences are taken from left to right
and do not overlap. -/
def replacePair (a b r : CodePoint) : Text → Text
  | x :: y :: rest =>
      if x = a ∧ y = b then r :: replacePair a b r rest
      else x :: replacePair a b r (y :: rest)
  | [x] => [x]
  | [] => []

@[simp] theorem replacePair_nil (a b r : CodePoint) : replacePair a b r [] = [] := rfl

@[simp] theorem replacePair_singleton (a b r x : CodePoint) : replacePair a b r [x] = [x] := rfl

@[simp] theorem replacePair_pair (a b r : CodePoint) (rest : Text) :
    replacePair a b r (a :: b :: rest) = r :: replacePair a b r rest := by
  simp [replacePair]

/-- The decimal digits of a natural number. -/
def ofNat (n : Nat) : Text := (Nat.toDigits 10 n).map .char

/-- The number that decimal digits write. -/
def digitsValue (digits : Text) : Nat := digits.foldl (fun n d => 10 * n + d.digit) 0

@[simp] theorem digitsValue_nil : digitsValue [] = 0 := rfl

/-- The decimal digits of an integer, after a minus sign if it is negative. -/
def ofInt (n : Int) : Text :=
  if n < 0 then '-' :: ofNat n.natAbs else ofNat n.natAbs

/-- The texts one after another, with `mark` between neighbours. -/
def joinWith (mark : Text) (parts : List Text) : Text := mark.intercalate parts

/-- The pieces of a text between the occurrences of `mark`, where the first piece has begun with the
reversed `current`. -/
def piecesFrom (mark : CodePoint) (current : Text) : Text → List Text
  | [] => [current.reverse]
  | c :: rest =>
      if c = mark then current.reverse :: piecesFrom mark [] rest
      else piecesFrom mark (c :: current) rest

/-- The pieces of a text between the occurrences of `mark`. -/
def pieces (mark : CodePoint) (t : Text) : List Text := piecesFrom mark [] t

theorem length_piecesFrom (mark : CodePoint) (current t : Text) :
    (piecesFrom mark current t).length = t.count mark + 1 := by
  induction t generalizing current with
  | nil => rfl
  | cons c rest ih => by_cases h : c = mark <;> simp [piecesFrom, h, ih]

/-- The lines of a text, which are one more than its line feeds. -/
def lines (t : Text) : List Text := pieces '\n' t

/-- The text before an offset; a negative offset counts from the end. -/
def before (t : Text) (offset : Int) : Text :=
  if offset < 0 then t.take (t.length - offset.natAbs) else t.take offset.natAbs

/-- The text from an offset on; a negative offset counts from the end. -/
def after (t : Text) (offset : Int) : Text :=
  if offset < 0 then t.drop (t.length - offset.natAbs) else t.drop offset.natAbs

/-- The first `limit / 2` characters, an ellipsis, and the last `limit / 2`, if the text is longer
than `limit`.  The half is rounded down. -/
def excerpt (t : Text) (limit : Int) : Text :=
  if (t.length : Int) ≤ limit then t
  else before t (limit.fdiv 2) ++ "...".toText ++ after t (-(limit.fdiv 2))

end Text
end Stencil
