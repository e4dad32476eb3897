import Stencil.Text.Basic

/-!
# Cookies

A cookie that a response asks the client to keep, and the header line that says so.
-/

namespace Stencil

/-- The end of a header line. -/
def lineEnd : Text := ['\r', '\n']

/-- A cookie, with the limits that are given for it. -/
structure Cookie where
  name : Text
  value : Text
  maxAge : Option Int
  domain : Option Text
  path : Option Text
deriving DecidableEq, Repr

namespace Cookie

/-- A limit of a cookie, if it is given. -/
def limitText (label : Text) : Option Text → Text
  | some value => "; ".toText ++ label ++ .char '=' :: value
  | none => []

/-- The header line of a cookie. -/
def headerLine (c : Cookie) : Text :=
  "Set-Cookie: ".toText ++ c.name ++ "=\"".toText ++ c.value ++ .char '"'
    :: limitText "Domain".toText c.domain
    ++ limitText "Path".toText c.path
    ++ limitText "Max-Age".toText (c.maxAge.map Text.ofInt)
    ++ lineEnd

end Cookie
end Stencil
