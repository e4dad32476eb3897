import Stencil.Text.Basic
import Stencil.Text.Printable

/-!
# Quoted texts in messages

How a message quotes a text that it talks about.  The text stands in single quotes, or in double
quotes if it holds a single quote and no double quote.  The quote in use and the backslash are
written after a backslash, line feed, carriage return and tab by their letters, and every other
character that is not printable by its number in hexadecimal digits: two below `U+0100`, four below
`U+10000`, eight from there on.
-/

namespace Stencil
namespace Text

/-- The last `width` hexadecimal digits of `n`, in lower case. -/
def hexDigits (width n : Nat) : Text :=
  let digits : Text := (Nat.toDigits 16 n).map .char
  List.replicate (width - digits.length) (.char '0') ++ digits

/-- A character by its number. -/
def numbered (c : CodePoint) : Text :=
  let n := c.toNat
  if n < 0x100 then '\\' :: 'x' :: hexDigits 2 n
  else if n < 0x10000 then '\\' :: 'u' :: hexDigits 4 n
  else '\\' :: 'U' :: hexDigits 8 n

/-- The quote that a text is written in. -/
def quoteFor (t : Text) : CodePoint :=
  if .char '\'' ∈ t ∧ .char '"' ∉ t then '"' else '\''

/-- A character of a text that stands between the given quotes. -/
def quotedChar (quote c : CodePoint) : Text :=
  if c = quote ∨ c = '\\' then ['\\', c]
  else if c = '\n' then ['\\', 'n']
  else if c = '\r' then ['\\', 'r']
  else if c = '\t' then ['\\', 't']
  else if isPrintable c then [c]
  else numbered c

/-- The text as a message quotes it. -/
def quoted (t : Text) : Text :=
  let quote := quoteFor t
  quote :: t.flatMap (quotedChar quote) ++ [quote]

end Text
end Stencil
