import Stencil.Number.Basic
import Stencil.Text.Letter
import Stencil.Text.Quoted

/-!
# Tokens

The items of an echo tag: literals, names of loop counters, calls of built-in functions and
arithmetic operators.
-/

namespace Stencil

/-- The arithmetic operators. -/
inductive Operator
  | plus
  | minus
  | times
  | over
deriving DecidableEq, Repr

namespace Operator

/-- The sign an operator is written by. -/
def symbol : Operator → CodePoint
  | .plus => '+'
  | .minus => '-'
  | .times => '*'
  | .over => '/'

/-- The operator that a text writes. -/
def ofText? : Text → Option Operator
  | ['+'] => some .plus
  | ['-'] => some .minus
  | ['*'] => some .times
  | ['/'] => some .over
  | _ => none

end Operator

/-- An item of an echo tag.  A text literal holds the text itself, without its escapes, and a call
the name without the mark before it. -/
inductive Token
  | number (n : Number)
  | text (t : Text)
  | var (name : Text)
  | call (name : Text)
  | operator (op : Operator)
deriving DecidableEq

/-- A name is a letter followed by letters, decimal digits and underscores. -/
def isName : Text → Bool
  | [] => false
  | c :: rest =>
      Text.isLetter c && rest.all fun d => Text.isLetter d || Text.isDecimalDigit d || d == '_'

namespace Token

/-- How a message shows a token. -/
def describe : Token → Text
  | .number n => n.toText
  | .text t => "StringLiteral(value=".toText ++ Text.quoted t ++ [.char ')']
  | .var name => "Variable(name=".toText ++ Text.quoted name ++ [.char ')']
  | .call name => "FunctionRef(name=".toText ++ Text.quoted name ++ [.char ')']
  | .operator op => "Operator(symbol=".toText ++ Text.quoted [op.symbol] ++ [.char ')']

end Token
end Stencil
