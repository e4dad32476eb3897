import Stencil.Malformed
import Stencil.Token.Basic
import Stencil.Token.Escape

/-!
# Tokens as they are written

`Token.ofField` reads a field of an echo tag, and `Token.source` writes a token back.

The kinds of tokens are tried in a fixed order: numbers, calls, operators, string literals, names.
So `-1` is a number and `-` an operator, and `1e3` or `NaN` is a number and never a name.
-/

namespace Stencil
namespace Token

/-- The text between the quotes at both ends of a field. -/
def unquoted? : Text → Option Text
  | '"' :: rest => if rest.getLast? = some (.char '"') then some rest.dropLast else none
  | _ => none

/-- Reads a field that is no number. -/
def ofWord (field : Text) : Except Malformed Token :=
  match field with
  | '@' :: name => if isName name then .ok (.call name) else .error (.badCall field)
  | _ =>
      match Operator.ofText? field, unquoted? field with
      | some op, _ => .ok (.operator op)
      | none, some body => .ok (.text (Escape.read body))
      | none, none => if isName field then .ok (.var field) else .error (.badToken field)

/-- Reads a field. -/
def ofField (field : Text) : Except Malformed Token :=
  match Number.ofLiteral? field with
  | .error e => .error (.tooManyDigits e)
  | .ok (some n) => .ok (.number n)
  | .ok none => ofWord field

/-- How a token is written. -/
def source : Token → Text
  | .number n => n.toText
  | .text t => .char '"' :: Escape.write t ++ [.char '"']
  | .var name => name
  | .call name => '@' :: name
  | .operator op => [op.symbol]

/-- Tokens are written with a space between neighbours. -/
def sources (tokens : List Token) : Text := Text.joinWith [' '] (tokens.map source)

end Token
end Stencil
