import Stencil.Text.Basic

/-!
# Escapes in string literals

Between its quotes a string literal writes the backslash, the quote, line feed, tab and carriage
return as a backslash and one more character.

Reading replaces the five pairs one after another, each in the result of the one before.  So two
backslashes before an `n` are read as a line feed: the first replacement leaves one backslash, which
then makes a pair with the letter.
-/

namespace Stencil
namespace Escape

/-- How a string literal writes a character. -/
def writeChar (c : CodePoint) : Text :=
  if c = '\\' then ['\\', '\\']
  else if c = '"' then ['\\', '"']
  else if c = '\n' then ['\\', 'n']
  else if c = '\t' then ['\\', 't']
  else if c = '\r' then ['\\', 'r']
  else [c]

/-- The text as it stands between the quotes of a string literal. -/
def write (t : Text) : Text := t.flatMap writeChar

/-- The replacements of a backslash and a character, in the order in which they are made. -/
def replacements : List (CodePoint × CodePoint) :=
  [('\\', '\\'), ('"', '"'), ('n', '\n'), ('t', '\t'), ('r', '\r')]

/-- The text that stands between the quotes of a string literal. -/
def read (t : Text) : Text :=
  replacements.foldl (fun s pair => Text.replacePair '\\' pair.1 pair.2 s) t

@[simp] theorem write_nil : write [] = [] := rfl

@[simp] theorem write_append (s t : Text) : write (s ++ t) = write s ++ write t := by
  simp [write]

end Escape
end Stencil
