import Stencil.Text.Blank

/-!
# Fields of an echo tag

White space separates the fields of an echo tag, except between double quotes, where a backslash
protects the character after it.  A field may hold quoted parts at any place.  A body with a quote
that is never closed has no fields.
-/

namespace Stencil
namespace Field

/-- What has been read of the field in progress, in reverse. -/
inductive Mode
  /-- Between fields. -/
  | gap
  /-- In a field, outside of quotes. -/
  | plain (read : Text)
  /-- In a quoted part of a field. -/
  | quoted (read : Text)
  /-- After a backslash in a quoted part. -/
  | escape (read : Text)
deriving DecidableEq, Repr

namespace Mode

/-- Reads a character: the field that ends with it, if one does, and the mode after it. -/
def step (c : CodePoint) : Mode → Option Text × Mode
  | .gap =>
      if Text.isBlank c then (none, .gap)
      else (none, if c = '"' then .quoted [c] else .plain [c])
  | .plain read =>
      if Text.isBlank c then (some read.reverse, .gap)
      else (none, if c = '"' then .quoted (c :: read) else .plain (c :: read))
  | .quoted read =>
      (none,
        if c = '"' then .plain (c :: read)
        else if c = '\\' then .escape (c :: read)
        else .quoted (c :: read))
  | .escape read => (none, .quoted (c :: read))

end Mode

/-- The fields of a text that is read in a mode. -/
def splitFrom : Mode → Text → Option (List Text)
  | .gap, [] => some []
  | .plain read, [] => some [read.reverse]
  | .quoted _, [] => none
  | .escape _, [] => none
  | mode, c :: rest =>
      let (ended, next) := mode.step c
      (splitFrom next rest).map (ended.toList ++ ·)

/-- The fields of the body of an echo tag; there are none if a quote is never closed. -/
def split? (body : Text) : Option (List Text) := splitFrom .gap body

end Field
end Stencil
