import Stencil.Text.Basic

/-!
# Control sequences

The sequences of characters after an escape character that a terminal takes for a command.

**Grammar.**  What follows the escape character is one of

* a bracket, parameter characters from `0` to `?`, intermediate characters from the space to `/`,
  and a final character from `@` to `~`;
* one of `]`, `P`, `^` and `_`, and a text that ends at a bell, or at an escape character and a
  backslash;
* intermediate characters and a final character from `0` to `~`.

The first of these that fits counts.

**Meaning.**  Only what moves the cursor in its line is told apart: the commands to the right, to
the left and to a column, and texts of a stated size.
-/

namespace Stencil
namespace Text

/-- A command of a terminal, by what it means for the line it stands in. -/
inductive ControlSequence
  /-- The cursor moves to the right. -/
  | right (n : Nat)
  /-- The cursor moves to the left. -/
  | left (n : Nat)
  /-- The cursor moves to a column, counted from one. -/
  | toColumn (n : Nat)
  /-- A text in characters of `scale` times the size.  It takes `columns` such characters, or as
  many as the text has if `columns` is zero. -/
  | sized (scale columns : Nat) (content : Text)
  /-- A command that leaves the cursor where it is. -/
  | other
deriving DecidableEq, Repr

namespace ControlSequence

/-- The character before a control sequence. -/
def escape : CodePoint := '\x1b'

/-- The character lies between two others. -/
def isBetween (first last c : CodePoint) : Bool := first ≤ c && c ≤ last

/-- Reads a number; without digits it is `missing`. -/
def number? (missing : Nat) (digits : Text) : Option Nat :=
  if digits = [] then some missing
  else if digits.all CodePoint.isDigit then some (digitsValue digits)
  else none

/-- The command that a final character stands for, with what is before it. -/
def ofParameters (parameters : Text) (final : CodePoint) : ControlSequence :=
  match final, number? 1 parameters with
  | 'C', some n => .right n
  | 'D', some n => .left n
  | 'G', some n => .toColumn n
  | _, _ => .other

/-- Reads the rest of a sequence with parameters. -/
def parametric? (t : Text) : Option (ControlSequence × Text) :=
  let parameters := t.takeWhile (isBetween '0' '?')
  let rest := t.dropWhile (isBetween '0' '?')
  match rest.takeWhile (isBetween ' ' '/'), rest.dropWhile (isBetween ' ' '/') with
  | [], final :: rest =>
      if isBetween '@' '~' final then some (ofParameters parameters final, rest) else none
  | _, final :: rest => if isBetween '@' '~' final then some (.other, rest) else none
  | _, [] => none

/-- The value of a key among settings such as `s=2:w=1`, if it is a number of the given range. -/
def setting? (key : CodePoint) (least most : Nat) (settings : Text) : Option Nat :=
  (pieces ':' settings).findSome? fun field =>
    match field with
    | k :: '=' :: digits =>
        if k = key ∧ digits ≠ [] then
          (number? 0 digits).filter fun n => least ≤ n && n ≤ most
        else none
    | _ => none

/-- The command that a text stands for: that of a text with a size begins with its number. -/
def ofContent : Text → ControlSequence
  | '6' :: '6' :: ';' :: rest =>
      let settings := rest.takeWhile (· ≠ .char ';')
      match rest.dropWhile (· ≠ .char ';') with
      | _ :: content =>
          .sized ((setting? 's' 1 7 settings).getD 1) ((setting? 'w' 0 7 settings).getD 0) content
      | [] => .other
  | _ => .other

/-- Reads a text and its end. -/
def content? (t : Text) : Option (Text × Text) :=
  let content := t.takeWhile fun c => c ≠ .char '\x07' && c ≠ escape
  match t.dropWhile fun c => c ≠ .char '\x07' && c ≠ escape with
  | '\x07' :: rest => some (content, rest)
  | _ :: '\\' :: rest => some (content, rest)
  | _ => none

/-- Reads a sequence of a few characters. -/
def short? (t : Text) : Option (ControlSequence × Text) :=
  match t.dropWhile (isBetween ' ' '/') with
  | final :: rest => if isBetween '0' '~' final then some (.other, rest) else none
  | [] => none

/-- Reads a sequence with parameters or with a text. -/
def long? : Text → Option (ControlSequence × Text)
  | '[' :: rest => parametric? rest
  | ']' :: rest => (content? rest).map fun (content, rest) => (ofContent content, rest)
  | c :: rest =>
      if c = 'P' ∨ c = '^' ∨ c = '_' then (content? rest).map fun (_, rest) => (.other, rest)
      else none
  | [] => none

/-- The control sequence that a text after an escape character begins with, and the rest. -/
def split? (t : Text) : Option (ControlSequence × Text) := (long? t).or (short? t)

end ControlSequence
end Text
end Stencil
