/-!
# Code points

A text may hold any code point of Unicode.  Almost all of them are characters.  The others are the
halves of the pairs by which UTF-16 writes the characters from `U+10000` on; one of them that stands
in a text by itself is no character, and most encodings have no bytes for it.
-/

namespace Stencil

/-- A code point: a character, or half of a surrogate pair, counted from `U+D800` on. -/
inductive CodePoint
  | char (c : Char)
  | surrogate (n : Fin 2048)
deriving DecidableEq, Repr

namespace CodePoint

instance : Coe Char CodePoint := ⟨char⟩

/-- The number of a code point. -/
def toNat : CodePoint → Nat
  | char c => c.toNat
  | surrogate n => 0xD800 + n

theorem toNat_inj {c d : CodePoint} : c.toNat = d.toNat ↔ c = d := by
  have hvalid (c : Char) (n : Fin 2048) : c.toNat ≠ 0xD800 + n := by
    have hn := n.isLt
    rcases c.valid with hlow | ⟨hhigh, -⟩
    · have hlow' : c.toNat < 0xD800 := hlow
      omega
    · have hhigh' : 0xDFFF < c.toNat := hhigh
      omega
  constructor
  · intro h
    cases c with
    | char c =>
        cases d with
        | char d => rw [Char.toNat_inj.1 h]
        | surrogate n => exact absurd h (hvalid c n)
    | surrogate m =>
        cases d with
        | char d => exact absurd h.symm (hvalid d m)
        | surrogate n =>
            have hval : 0xD800 + (m : Nat) = 0xD800 + n := h
            rw [Fin.ext (Nat.add_left_cancel hval)]
  · rintro rfl
    rfl

/-- Code points are ordered by their numbers. -/
instance : LT CodePoint := ⟨fun c d => c.toNat < d.toNat⟩

instance : LE CodePoint := ⟨fun c d => c.toNat ≤ d.toNat⟩

instance (c d : CodePoint) : Decidable (c < d) := inferInstanceAs (Decidable (c.toNat < d.toNat))

instance (c d : CodePoint) : Decidable (c ≤ d) := inferInstanceAs (Decidable (c.toNat ≤ d.toNat))

instance : Trans (α := CodePoint) (· < ·) (· < ·) (· < ·) := ⟨Nat.lt_trans⟩

instance : Std.Irrefl (α := CodePoint) (· < ·) := ⟨fun c => Nat.lt_irrefl c.toNat⟩

/-- A decimal digit of ASCII. -/
def isDigit : CodePoint → Bool
  | char c => c.isDigit
  | surrogate _ => false

@[simp] theorem isDigit_char (c : Char) : (char c).isDigit = c.isDigit := rfl

/-- A letter of ASCII. -/
def isAlpha : CodePoint → Bool
  | char c => c.isAlpha
  | surrogate _ => false

/-- A letter or a decimal digit of ASCII. -/
def isAlphanum (c : CodePoint) : Bool := c.isAlpha || c.isDigit

/-- A capital letter of ASCII becomes a small one. -/
def toLower : CodePoint → CodePoint
  | char c => c.toLower
  | surrogate n => surrogate n

/-- A small letter of ASCII becomes a capital one. -/
def toUpper : CodePoint → CodePoint
  | char c => c.toUpper
  | surrogate n => surrogate n

/-- The value of a decimal digit. -/
def digit (c : CodePoint) : Nat := c.toNat - '0'.toNat

end CodePoint
end Stencil
