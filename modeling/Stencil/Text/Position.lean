import Stencil.Text.Basic

/-!
# Lines and columns

A position in a text is a line and a column, both counted from one.  Only a line feed ends a line.
Offsets beyond the end of the text count on in its last line.
-/

namespace Stencil

/-- A line and a column, counted from one. -/
structure Position where
  line : Nat
  column : Nat
deriving DecidableEq, Repr

namespace Position

/-- The place after one more character. -/
def advance (p : Position) (c : CodePoint) : Position :=
  if c = '\n' then ⟨p.line + 1, 1⟩ else ⟨p.line, p.column + 1⟩

/-- The position at an offset of the text that starts at `p`. -/
def walk (p : Position) : Nat → Text → Position
  | 0, _ => p
  | n + 1, [] => ⟨p.line, p.column + (n + 1)⟩
  | n + 1, c :: rest => walk (p.advance c) n rest

/-- The position of an offset in a text. -/
def ofOffset (t : Text) (offset : Nat) : Position := walk ⟨1, 1⟩ offset t

end Position
end Stencil
