import Stencil.Tag.Fields
import Stencil.Token.Source

/-!
# Tags

What the body of a tag says, apart from the white space around it:

* `= …` is an echo tag, with the tokens to evaluate;
* `FOR …` opens a loop: a counter, the first and the last value, and optionally the step;
* `END` closes a loop.

The words `FOR` and `END` may be in any case.  The arguments of a loop are cut at white space alone,
so that no quote protects it there.
-/

namespace Stencil

/-- What a loop tag says. -/
structure LoopHead where
  counter : Text
  first : Token
  last : Token
  step : Option Token
deriving DecidableEq

/-- A tag. -/
inductive Tag
  | echo (tokens : List Token)
  | loop (head : LoopHead)
  | close
deriving DecidableEq

namespace Tag

/-- The fields of an echo tag, or the cause for which it has none. -/
def fields (body : Text) : Except Malformed (List Text) :=
  match Field.split? body with
  | some fields => .ok fields
  | none => .error (.openString body)

/-- Reads what follows the equals sign of an echo tag. -/
def ofEcho (body : Text) : Except Malformed Tag := do
  match ← fields body with
  | [] => .error .emptyEcho
  | fields => return .echo (← fields.mapM Token.ofField)

/-- Reads the counter of a loop. -/
def counterOf (field : Text) : Except Malformed Text := do
  match ← Token.ofField field with
  | .var name => return name
  | _ => .error (.loopCounter field)

/-- Reads the arguments of a loop. -/
def ofLoop (arguments : List Text) : Except Malformed Tag := do
  match arguments with
  | [counter, first, last] =>
      return .loop ⟨← counterOf counter, ← Token.ofField first, ← Token.ofField last, none⟩
  | [counter, first, last, step] =>
      return .loop ⟨← counterOf counter, ← Token.ofField first, ← Token.ofField last,
        some (← Token.ofField step)⟩
  | _ => .error (.loopArguments arguments.length)

/-- What follows the word `FOR`, if the body begins with it. -/
def afterFor? : Text → Option Text
  | f :: o :: r :: rest =>
      if [f, o, r].map CodePoint.toUpper = [.char 'F', .char 'O', .char 'R'] ∧
          rest.head?.all Text.isBlank then
        some rest
      else none
  | _ => none

/-- Reads the body of a tag, without the white space around it. -/
def ofStripped (body : Text) : Except Malformed Tag :=
  match body with
  | [] => .error .emptyTag
  | '=' :: rest => ofEcho rest
  | _ =>
      if body.map CodePoint.toUpper = [.char 'E', .char 'N', .char 'D'] then .ok .close
      else match afterFor? body with
        | some rest => ofLoop (Text.words rest)
        | none => .error (.unknownTag body)

/-- Reads the body of a tag. -/
def ofBody (body : Text) : Except Malformed Tag := ofStripped (Text.strip body)

end Tag
end Stencil
