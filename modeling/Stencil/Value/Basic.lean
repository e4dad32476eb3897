import Stencil.Number.Basic
import Stencil.Text.Quoted

/-!
# Values

What a script computes with: numbers and texts, and the absent value, which a host may pass in and a
script cannot write.

A host program may also pass in data that is no script value at all.  Such `Foreign` data can be
moved about like a value, and every operation that looks at it fails.
-/

namespace Stencil

/-- An item of a foreign list. -/
inductive Foreign.Item
  | absent
  | flag (b : Bool)
  | int (n : Int)
  | text (t : Text)
deriving DecidableEq

/-- Data of a host program that is no script value. -/
inductive Foreign
  | flag (b : Bool)
  | list (items : List Foreign.Item)
deriving DecidableEq

/-- A value that a script computes with. -/
inductive Value
  | absent
  | number (n : Number)
  | text (t : Text)
  | foreign (data : Foreign)
deriving DecidableEq

namespace Foreign

/-- How a message shows a truth value. -/
def flagText (b : Bool) : Text := if b then "True".toText else "False".toText

/-- How a message shows an item of a foreign list. -/
def Item.describe : Item → Text
  | .absent => "None".toText
  | .flag b => flagText b
  | .int n => Text.ofInt n
  | .text t => Text.quoted t

/-- How a message shows foreign data. -/
def describe : Foreign → Text
  | .flag b => flagText b
  | .list items => .char '[' :: Text.joinWith ", ".toText (items.map Item.describe) ++ [.char ']']

/-- How a message calls a kind of foreign data. -/
def kind : Foreign → Text
  | .flag _ => "bool".toText
  | .list _ => "list".toText

end Foreign
end Stencil
