import Stencil.Context.Basic
import Stencil.Text.Grid

/-!
# A report of the parameters

The parameters of the two stores as a grid, the persistent ones first, each store in the order of
the names.
-/

namespace Stencil
namespace Context

/-- The rows about a store. -/
def storeRows (label : Text) (parameters : Index Text) : List (List Text) :=
  parameters.entries.map fun entry => [label, entry.1, entry.2]

/-- The lines of the report. -/
def reportLines (c : Context) : List Text :=
  Text.Grid.draw ["store".toText, "name".toText, "value".toText]
    (storeRows "persistent".toText c.persistent ++ storeRows "temporary".toText c.temporary)

/-- The report. -/
def report (c : Context) : Text := Text.joinWith ['\n'] c.reportLines

end Context
end Stencil
