import Stencil.Text.Basic
import Stencil.Text.Ranges

/-!
# White space

The class of blank characters, and the functions that depend on it: `strip` removes the blank
characters at both ends of a text, and `words` cuts a text at its blank runs.

Blank are the white space characters of Unicode and the four information separators `U+001C` to
`U+001F`.  `isWhiteSpace` is the narrower class without the separators.
-/

namespace Stencil
namespace Text

/-- The blank characters. -/
def blankRanges : Ranges :=
  [(9, 13), (28, 32), (133, 133), (160, 160), (5760, 5760), (8192, 8202), (8232, 8233),
   (8239, 8239), (8287, 8287), (12288, 12288)]

/-- A blank character. -/
def isBlank (c : CodePoint) : Bool := blankRanges.holds c

/-- A white space character of Unicode. -/
def isWhiteSpace (c : CodePoint) : Bool := isBlank c && !(28 ≤ c.toNat && c.toNat ≤ 31)

/-- The text without the characters of a class at its ends. -/
def trim (inClass : CodePoint → Bool) (t : Text) : Text :=
  ((t.dropWhile inClass).reverse.dropWhile inClass).reverse

/-- The text without the blank characters at its ends. -/
def strip (t : Text) : Text := trim isBlank t

/-- The words of a text whose first word has begun with the reversed `current`. -/
def wordsFrom (current : Text) : Text → List Text
  | [] => if current = [] then [] else [current.reverse]
  | c :: rest =>
      if isBlank c then
        if current = [] then wordsFrom [] rest else current.reverse :: wordsFrom [] rest
      else wordsFrom (c :: current) rest

/-- The maximal runs of characters that are not blank. -/
def words (t : Text) : List Text := wordsFrom [] t

end Text
end Stencil
