import Stencil.Text.Basic
import Stencil.Text.Extent

/-!
# Grids

A table of texts drawn with lines: a heading, and rows whose cells may have several lines.  Cells
are aligned at the left, with a space at either side, and a column is as wide as its widest line.

Tabs are written as spaces.  A tab goes on to the next multiple of eight characters in its line;
here a carriage return begins a line as well.
-/

namespace Stencil
namespace Text

/-- The spaces up to the next tab stop. -/
def tabSpaces (column : Nat) : Nat := 8 - column % 8

/-- The text with spaces for its tabs, where `column` characters stand before it in its line. -/
def expandTabsFrom (column : Nat) : Text → Text
  | [] => []
  | c :: rest =>
      if c = '\t' then
        List.replicate (tabSpaces column) (.char ' ')
          ++ expandTabsFrom (column + tabSpaces column) rest
      else if c = '\n' ∨ c = '\r' then c :: expandTabsFrom 0 rest
      else c :: expandTabsFrom (column + 1) rest

/-- The text with spaces for its tabs. -/
def expandTabs (t : Text) : Text := expandTabsFrom 0 t

namespace Grid

/-- The lines of a cell. -/
def cellLines (cell : Text) : List Text := lines (expandTabs cell)

/-- The width of a cell. -/
def cellWidth (cell : Text) : Nat :=
  (cellLines cell).foldl (fun width line => max width (extent line)) 0

/-- The widths of the columns of rows that all have as many cells as the heading. -/
def widths (heading : List Text) (rows : List (List Text)) : List Nat :=
  rows.foldl (fun widths row => List.zipWith (fun w cell => max w (cellWidth cell)) widths row)
    (heading.map cellWidth)

/-- The line between rows. -/
def rule (widths : List Nat) : Text :=
  .char '+' :: widths.flatMap fun w => List.replicate (w + 2) (.char '-') ++ [.char '+']

/-- A line of a cell, filled up to a width. -/
def fill (width : Nat) (line : Text) : Text :=
  .char ' ' :: line ++ List.replicate (width - extent line) (.char ' ') ++ [.char ' ']

/-- The lines of a row. -/
def rowLines (widths : List Nat) (row : List Text) : List Text :=
  let cells := row.map cellLines
  let height := cells.foldl (fun height cell => max height cell.length) 0
  (List.range height).map fun i =>
    let parts := List.zipWith (fun w cell => fill w (cell[i]?.getD [])) widths cells
    .char '|' :: parts.flatMap (· ++ [.char '|'])

/-- The lines of a grid. -/
def draw (heading : List Text) (rows : List (List Text)) : List Text :=
  let ws := widths heading rows
  [rule ws] ++ rowLines ws heading ++ [rule ws] ++ rows.flatMap (rowLines ws) ++ [rule ws]

end Grid
end Text
end Stencil
