import Stencil.Number.Basic
import Stencil.Text.Position
import Stencil.Text.Quoted

/-!
# What can be wrong with a template

The causes for which a template is refused, with their wording, and the error that a refused
template is answered by: a cause together with the place it was found at.

One cause is not answered so.  An integer in a tag that has too many digits is a failure of the
reader of integers, and nobody adds a place to it.
-/

namespace Stencil

/-- A cause for which a template is refused. -/
inductive Malformed
  /-- A bracket that no dollar sign follows. -/
  | badOpening
  /-- A tag with nothing in it. -/
  | emptyTag
  /-- A tag whose second dollar sign no bracket follows. -/
  | badClosing
  /-- A backslash at the very end. -/
  | openEscape
  /-- A tag that the text ends in. -/
  | openTag
  /-- A quote in an echo tag that is never closed. -/
  | openString (body : Text)
  /-- An echo tag without tokens. -/
  | emptyEcho
  /-- A loop tag with too few or too many arguments. -/
  | loopArguments (count : Nat)
  /-- A loop counter that is not a name. -/
  | loopCounter (field : Text)
  /-- A tag of no known kind. -/
  | unknownTag (body : Text)
  /-- A call of what is not a name. -/
  | badCall (field : Text)
  /-- A field that is no token. -/
  | badToken (field : Text)
  /-- A field that is an integer with too many digits. -/
  | tooManyDigits (e : TooManyDigits)
  /-- An end tag outside of all loops. -/
  | unmatchedEnd
  /-- A loop without its end tag. -/
  | openLoop (counter : Text)
deriving DecidableEq, Repr

namespace Malformed

/-- The wording of a cause. -/
def message : Malformed → Text
  | .badOpening => "tag must open with \"[$\"".toText
  | .emptyTag => "empty tag body".toText
  | .badClosing => "malformed tag close, expected \"$]\"".toText
  | .openEscape => "unterminated escape".toText
  | .openTag => "unterminated tag".toText
  | .openString body => "unterminated string in tag: ".toText ++ Text.quoted body
  | .emptyEcho => "empty echo tag".toText
  | .loopArguments count => "FOR tag takes 3 or 4 arguments, got ".toText ++ Text.ofNat count
  | .loopCounter field =>
      "FOR loop variable must be a variable name: ".toText ++ Text.quoted field
  | .unknownTag body => "unrecognized tag: ".toText ++ Text.quoted body
  | .badCall field => "invalid function name: ".toText ++ Text.quoted field
  | .badToken field => "invalid token: ".toText ++ Text.quoted field
  | .tooManyDigits e => e.message
  | .unmatchedEnd => "unmatched END".toText
  | .openLoop counter => "unclosed FOR ".toText ++ counter

/-- The cause says that the text stopped too early, and not that it went wrong before. -/
def isEndOfInput : Malformed → Bool
  | .openEscape | .openTag | .openLoop _ => true
  | _ => false

end Malformed

/-- A refused template: the cause, the offset it was found at, and the position of that offset. -/
structure ParseError where
  cause : Malformed
  offset : Nat
  position : Position
deriving DecidableEq, Repr

namespace ParseError

/-- The error at an offset of a text. -/
def locate (text : Text) (cause : Malformed) (offset : Nat) : ParseError :=
  ⟨cause, offset, Position.ofOffset text offset⟩

/-- The wording of an error: that of its cause, and the position. -/
def message (e : ParseError) : Text :=
  e.cause.message ++ " at line ".toText ++ Text.ofNat e.position.line ++ ", column ".toText
    ++ Text.ofNat e.position.column

end ParseError

/-- Why a template is not read. -/
inductive ParseFailure
  /-- It is refused for a cause that was found at a place. -/
  | refused (e : ParseError)
  /-- An integer in it has too many digits. -/
  | tooManyDigits (e : TooManyDigits)
deriving DecidableEq, Repr

namespace ParseFailure

/-- The failure for a cause that is found at an offset of a text. -/
def locate (text : Text) : Malformed → Nat → ParseFailure
  | .tooManyDigits e, _ => .tooManyDigits e
  | cause, offset => .refused (.locate text cause offset)

/-- The wording of a failure. -/
def message : ParseFailure → Text
  | .refused e => e.message
  | .tooManyDigits e => e.message

/-- The failure says that the text stopped too early. -/
def isEndOfInput : ParseFailure → Bool
  | .refused e => e.cause.isEndOfInput
  | .tooManyDigits _ => false

end ParseFailure
end Stencil
