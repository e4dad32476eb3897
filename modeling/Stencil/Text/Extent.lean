import Stencil.Text.Column
import Stencil.Text.ControlSequence
import Stencil.Text.Joining

/-!
# The extent of a line

The number of columns that a line reaches to when a terminal shows it.

**Algorithm.**  The line is cut into items, each of which moves the cursor, and the extent is the
greatest column that the cursor has come to.  A character moves it by its columns, except where it
joins the ones before:

* a character after a zero width joiner takes no column;
* two regional indicators take the columns of one;
* a skin tone after a pictograph takes none;
* a consonant that a virama joins to the one before takes one column, but only the first such
  consonant of a conjunct does;
* a spacing mark takes one column, but only the first after a character does, and none if the
  character is a conjunct that has taken that column already.

Of the control characters the backspace moves the cursor by one column and the carriage return to
the start.  A control sequence moves it as it says.
-/

namespace Stencil
namespace Text

/-- What moves the cursor. -/
inductive Movement
  | right (n : Nat)
  | left (n : Nat)
  | toColumn (n : Nat)
deriving DecidableEq, Repr

/-- A part of a line. -/
inductive Item
  /-- A character, with the style that a variation selector after it has chosen. -/
  | glyph (c : CodePoint) (style : Option Style)
  /-- A zero width joiner. -/
  | joiner
  /-- A control character or a control sequence. -/
  | command (movement : Movement)
deriving DecidableEq, Repr

namespace Item

/-- The movement of a control character. -/
def movementOf (c : CodePoint) : Movement :=
  if c = '\r' then .toColumn 0
  else if c = '\x08' then .left 1
  else .right 0

/-- A control character. -/
def isControl (c : CodePoint) : Bool :=
  decide (c.toNat < 32) || (decide (127 ≤ c.toNat) && decide (c.toNat < 160))

/-- The items of a line without its first `skip` characters; `sequence?` reads what follows an
escape character. -/
def listFrom (sequence? : Text → Option (Movement × Text)) : Nat → Text → List Item
  | _, [] => []
  | skip + 1, _ :: rest => listFrom sequence? skip rest
  | 0, c :: rest =>
      if c = ControlSequence.escape then
        match sequence? rest with
        | some (movement, after) =>
            .command movement :: listFrom sequence? (rest.length - after.length) rest
        | none => .command (.right 0) :: listFrom sequence? 0 rest
      else if isControl c then .command (movementOf c) :: listFrom sequence? 0 rest
      else if c = '\u200d' then .joiner :: listFrom sequence? 0 rest
      else
        match rest.head?.bind Style.ofSelector? with
        | some style => .glyph c (some style) :: listFrom sequence? 1 rest
        | none => .glyph c none :: listFrom sequence? 0 rest

end Item

/-- The cursor of a terminal in a line, and what it remembers of the characters before it. -/
structure Cursor where
  column : Nat
  /-- The greatest column so far. -/
  extent : Nat
  /-- The last character that has taken columns. -/
  base : Option CodePoint
  /-- A spacing mark would take a column. -/
  takesMark : Bool
  /-- A conjunct is being written. -/
  inConjunct : Bool
  /-- A virama stands right before. -/
  afterVirama : Bool
  /-- A regional indicator without a partner stands right before. -/
  afterIndicator : Bool
  /-- A zero width joiner stands right before. -/
  afterJoiner : Bool
deriving DecidableEq, Repr

namespace Cursor

/-- The start of a line. -/
def start : Cursor := ⟨0, 0, none, false, false, false, false, false⟩

/-- Moves to a column. -/
def goto (k : Cursor) (column : Nat) : Cursor :=
  { k with column := column, extent := max k.extent column }

/-- Does a movement. -/
def move (k : Cursor) : Movement → Cursor
  | .right n => k.goto (k.column + n)
  | .left n => k.goto (k.column - n)
  | .toColumn n => k.goto n

/-- Writes a character that takes columns. -/
def writeBase (k : Cursor) (c : CodePoint) (columns : Nat) : Cursor :=
  { k.move (.right columns) with
    base := some c, takesMark := true, inConjunct := false, afterVirama := false }

/-- Writes a consonant that is joined to the one before. -/
def writeConjunct (k : Cursor) (c : CodePoint) : Cursor :=
  { k.move (.right (if k.inConjunct then 0 else 1)) with
    base := some c, takesMark := true, inConjunct := true, afterVirama := false }

/-- Writes a spacing mark that takes a column. -/
def writeMark (k : Cursor) : Cursor :=
  { k.move (.right (if k.inConjunct then 0 else 1)) with
    takesMark := false, inConjunct := false, afterVirama := false }

/-- Writes a character that neither a joiner nor a partner of a flag stands before. -/
def writeChar (k : Cursor) (c : CodePoint) (style : Option Style) : Cursor :=
  if isSkinTone c && k.base.any isPictograph then k
  else if k.afterVirama && isConsonant c then k.writeConjunct c
  else
    let columns := styledColumns c style
    if 0 < columns then k.writeBase c columns
    else if k.takesMark && isSpacingMark c then k.writeMark
    else { k with afterVirama := isVirama c }

/-- Writes a character. -/
def write (k : Cursor) (c : CodePoint) (style : Option Style) : Cursor :=
  let written :=
    if k.afterJoiner then k
    else if k.afterIndicator && isRegionalIndicator c then { k with base := some c }
    else k.writeChar c style
  { written with
    afterIndicator := isRegionalIndicator c && style.isNone && !k.afterIndicator
    afterJoiner := false }

/-- Passes a zero width joiner.  After a virama it only says how the conjunct is drawn. -/
def join (k : Cursor) : Cursor :=
  { k with
    afterVirama := k.afterVirama && !k.afterJoiner
    afterIndicator := false
    afterJoiner := !k.afterVirama && !k.afterJoiner }

/-- Passes an item. -/
def step (k : Cursor) : Item → Cursor
  | .glyph c style => k.write c style
  | .joiner => k.join
  | .command movement => { k.move movement with afterIndicator := false, afterJoiner := false }

end Cursor

/-- The greatest column that the cursor comes to. -/
def extentOf (items : List Item) : Nat := (items.foldl Cursor.step Cursor.start).extent

/-- The columns of a text without control sequences. -/
def plainExtent (t : Text) : Nat := extentOf (Item.listFrom (fun _ => none) 0 t)

/-- What a control sequence does to the cursor. -/
def ControlSequence.movement : ControlSequence → Movement
  | .right n => .right n
  | .left n => .left n
  | .toColumn n => .toColumn (n - 1)
  | .sized scale columns content =>
      .right (scale * if columns = 0 then plainExtent content else columns)
  | .other => .right 0

/-- The movement of the control sequence after an escape character, and the rest of the text. -/
def movement? (t : Text) : Option (Movement × Text) :=
  (ControlSequence.split? t).map fun (sequence, rest) => (sequence.movement, rest)

/-- The columns that a line reaches to. -/
def extent (line : Text) : Nat := extentOf (Item.listFrom movement? 0 line)

end Text
end Stencil
