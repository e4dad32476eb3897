import Stencil.Number.Decimal
import Stencil.Text.Charset
import Stencil.Token.Basic
import Stencil.Value.Basic

/-!
# Faults of a run

What can go wrong while a script runs or a response is written, with the wording of each cause.

The faults of a script are those that the command line reports and goes on from; the others end it.
-/

namespace Stencil

/-- The three arguments of a loop that have to be numbers. -/
inductive LoopBound
  | first
  | last
  | step
deriving DecidableEq, Repr

/-- How a message calls an argument of a loop. -/
def LoopBound.name : LoopBound → Text
  | .first => "start".toText
  | .last => "end".toText
  | .step => "step".toText

/-- The parts of a response that are fixed once its header is sent. -/
inductive HeaderField
  | charset
  | statusCode
  | statusText
  | mimeType
  | length
  | cookies
deriving DecidableEq, Repr

/-- How a message calls a part of a response. -/
def HeaderField.name : HeaderField → Text
  | .charset => "encoding".toText
  | .statusCode => "status code".toText
  | .statusText => "status text".toText
  | .mimeType => "mime type".toText
  | .length => "length".toText
  | .cookies => "cookies".toText

/-- A cause for which a run, or an operation on a response, fails. -/
inductive Fault
  /-- An operand that is no script value. -/
  | foreignOperand (data : Foreign)
  /-- A text among the operands that writes no number. -/
  | notANumber (t : Text)
  /-- A text among the operands that is an integer with too many digits. -/
  | tooManyDigits (e : TooManyDigits)
  /-- A value without a text. -/
  | foreignText (data : Foreign)
  /-- An operator that there is none of. -/
  | unknownOperator (symbol : Text)
  /-- A name that no loop around it counts with. -/
  | unbound (name : Text)
  /-- A call of a function that there is none of. -/
  | unknownFunction (name : Text)
  /-- An argument of a loop that is no numeric literal. -/
  | loopBound (bound : LoopBound) (token : Token)
  /-- A pattern that no number can be formatted by. -/
  | badPattern (pattern : Text)
  /-- An integer divided by zero. -/
  | divisionByZero
  /-- A stack with nothing on it. -/
  | emptyStack (name : Text)
  /-- Too few values for an operator or a function. -/
  | missingOperands (consumer : Text) (needed given : Nat)
  /-- More steps than the budget allows. -/
  | stepLimit (limit : Int)
  /-- A change of what has been sent already. -/
  | headerSent (field : HeaderField)
  /-- A response of negative length. -/
  | negativeLength (n : Int)
  /-- The sine of an infinity. -/
  | sineOfInfinity
  /-- A decimal number that cannot be computed with. -/
  | decimal (signal : Decimal.Signal)
  /-- A text that the character set of the response cannot encode. -/
  | unencodable (e : Unencodable)
  /-- A name of no character set. -/
  | unknownCharset (name : Text)
deriving DecidableEq

namespace Fault

/-- The wording of a fault. -/
def message : Fault → Text
  | .foreignOperand data =>
      "operand must be absent, integer, double, or numeric text: ".toText ++
        match data with
        | .flag b => Foreign.flagText b
        | .list _ => data.kind
  | .notANumber t => "not a number: ".toText ++ Text.quoted t
  | .tooManyDigits e => e.message
  | .foreignText data => "bad value type: ".toText ++ data.kind ++ ": ".toText ++ data.describe
  | .unknownOperator symbol => "unknown operator: ".toText ++ symbol
  | .unbound name => "unbound variable: ".toText ++ name
  | .unknownFunction name => "unknown function: @".toText ++ name
  | .loopBound bound token =>
      "FOR ".toText ++ bound.name ++ " must be a numeric literal: ".toText ++ token.describe
  | .badPattern pattern => "bad decimal format pattern: ".toText ++ Text.quoted pattern
  | .divisionByZero => "integer division by zero".toText
  | .emptyStack name => "empty stack: ".toText ++ name
  | .missingOperands consumer needed given =>
      consumer ++ " takes ".toText ++ Text.ofNat needed ++ " operand(s), ".toText
        ++ Text.ofNat given ++ " on stack".toText
  | .stepLimit limit => "step limit exceeded: ".toText ++ Text.ofInt limit
  | .headerSent field => "cannot set ".toText ++ field.name ++ ": header already sent".toText
  | .negativeLength n => "negative length: ".toText ++ Text.ofInt n
  | .sineOfInfinity => "math domain error".toText
  | .decimal signal => signal.message
  | .unencodable e => e.message
  | .unknownCharset name => "unknown encoding: ".toText ++ name

/-- The fault is one of the script, and not of the response or of the host. -/
def isOfScript : Fault → Bool
  | .tooManyDigits _ | .headerSent _ | .negativeLength _ | .sineOfInfinity | .decimal _ => false
  | .unencodable _ | .unknownCharset _ => false
  | _ => true

end Fault
end Stencil
