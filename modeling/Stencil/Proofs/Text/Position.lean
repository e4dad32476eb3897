import Mathlib.Algebra.GroupWithZero.Nat
import Mathlib.Data.List.Basic
import Mathlib.Data.List.Induction
import Mathlib.Data.Prod.Lex
import Stencil.Text.Position

/-!
# Positions of characters

Which character of a text a position stands for, and how positions are ordered.

A position `Denotes` a character if the character stands in its column of its line.  A line feed
belongs to no line; it is denoted by the column after the last one of the line that it ends.

**Argument.**  The line of an offset counts the line feeds before it (`walk_line`), and so it does
not fall when the offset grows.  The column counts from where the line begins (`walk_column`), so
that the line and the column give the offset back, and in one line the column grows with it.

**Results.**
* `ofOffset_eq_count_lastIndex`: the line and the column by the line feeds before the offset.
* `ofOffset_denotes`: the position of an offset denotes the character at the offset.
* `ofOffset_append`: the position of an offset does not depend on what follows the text.
* `ofOffset_embeds`: positions are in the order of their offsets, and an offset is found again from
  its position.
-/

namespace Stencil

namespace Text

/-- The first piece goes on up to the mark. -/
theorem exists_piecesFrom (mark : CodePoint) (current t : Text) :
    ∃ first others, piecesFrom mark current t = (current.reverse ++ first) :: others := by
  induction t generalizing current with
  | nil =>
      exact ⟨[], [], by simp [piecesFrom]⟩
  | cons c rest ih =>
      by_cases hc : c = mark
      · exact ⟨[], piecesFrom mark [] rest, by simp [piecesFrom, hc]⟩
      · obtain ⟨first, others, hpieces⟩ := ih (c :: current)
        exact ⟨c :: first, others, by simp [piecesFrom, hc, hpieces]⟩

/-- The offset of the last mark in a text, and `-1` if there is none. -/
def lastIndex (mark : CodePoint) (t : Text) : Int := t.length - 1 - t.reverse.idxOf mark

theorem lastIndex_concat (mark c : CodePoint) (t : Text) :
    lastIndex mark (t ++ [c]) = if c = mark then (t.length : Int) else lastIndex mark t := by
  rw [lastIndex, lastIndex, List.reverse_append, List.reverse_singleton, List.singleton_append]
  by_cases hc : c = mark
  · rw [List.idxOf_cons_eq _ hc, if_pos hc, List.length_append, List.length_singleton]
    omega
  · rw [List.idxOf_cons_ne _ hc, if_neg hc, List.length_append, List.length_singleton]
    omega

/-- The offset at which a line begins: the lines before it, each with its line feed, stand in front
of it. -/
def lineStart (t : Text) (line : Nat) : Nat :=
  (((lines t).take (line - 1)).map fun row => row.length + 1).sum

end Text

namespace Position

/-- The character stands in the column of the line; a line feed comes after its last column. -/
structure Denotes (p : Position) (t : Text) (c : CodePoint) : Prop where
  line_pos : 1 ≤ p.line
  column_pos : 1 ≤ p.column
  character : ∃ row, (Text.lines t)[p.line - 1]? = some row ∧
    if c = '\n' then p.column = row.length + 1 else row[p.column - 1]? = some c

/-- Where a line has begun with the reversed `current`, the position of an offset lies in the piece
that holds its character.  The induction follows the text, and `current` grows as the column
does. -/
theorem walk_denotes (current t : Text) (line offset : Nat) {c : CodePoint}
    (hc : t[offset]? = some c) :
    let p := walk ⟨line, current.length + 1⟩ offset t
    line ≤ p.line ∧ 1 ≤ p.column ∧
      ∃ piece, (Text.piecesFrom '\n' current t)[p.line - line]? = some piece ∧
        if c = '\n' then p.column = piece.length + 1 else piece[p.column - 1]? = some c := by
  induction t generalizing current line offset with
  | nil =>
      simp at hc
  | cons d rest ih =>
      cases offset with
      | zero =>
          obtain rfl : d = c := by simpa using hc
          by_cases hd : d = '\n'
          · simp [walk, Text.piecesFrom, hd]
          · obtain ⟨first, others, hpieces⟩ := Text.exists_piecesFrom '\n' (d :: current) rest
            simp [walk, Text.piecesFrom, hd, hpieces]
      | succ offset =>
          replace hc : rest[offset]? = some c := by simpa using hc
          by_cases hd : d = '\n'
          · have hrest := ih [] (line + 1) offset hc
            simp only [List.length_nil, Nat.zero_add] at hrest
            obtain ⟨hline, hcolumn, piece, hpiece, hplace⟩ := hrest
            simp only [walk, advance, hd, if_true, Text.piecesFrom]
            refine ⟨by omega, hcolumn, piece, ?_, hplace⟩
            rw [List.getElem?_cons, if_neg (by omega), Nat.sub_sub, hpiece]
          · have hrest := ih (d :: current) line offset hc
            simpa only [walk, advance, hd, if_false, Text.piecesFrom, List.length_cons] using hrest

/-- The position of an offset denotes the character at the offset. -/
theorem ofOffset_denotes {t : Text} {offset : Nat} {c : CodePoint} (h : t[offset]? = some c) :
    (ofOffset t offset).Denotes t c := by
  obtain ⟨hline, hcolumn, hcharacter⟩ := walk_denotes [] t 1 offset h
  exact ⟨hline, hcolumn, hcharacter⟩

theorem walk_append (p : Position) {offset : Nat} {t : Text} (h : offset ≤ t.length) (u : Text) :
    walk p offset (t ++ u) = walk p offset t := by
  induction t generalizing p offset with
  | nil =>
      obtain rfl : offset = 0 := by simpa using h
      cases u <;> rfl
  | cons c rest ih =>
      cases offset with
      | zero =>
          rfl
      | succ offset =>
          exact ih _ (by simpa using h)

/-- The position of an offset does not depend on what follows the text. -/
theorem ofOffset_append {offset : Nat} {t : Text} (h : offset ≤ t.length) (u : Text) :
    ofOffset (t ++ u) offset = ofOffset t offset :=
  walk_append _ h u

/-- The key that positions are ordered by: the line first, and then the column. -/
def key (p : Position) : Nat ×ₗ Nat := toLex (p.line, p.column)

/-- The line counts the line feeds that have been passed. -/
theorem walk_line (p : Position) (offset : Nat) (t : Text) :
    (walk p offset t).line = p.line + (t.take offset).count (.char '\n') := by
  induction t generalizing p offset with
  | nil =>
      cases offset <;> simp [walk]
  | cons c rest ih =>
      cases offset with
      | zero =>
          simp [walk]
      | succ offset =>
          by_cases hc : c = '\n'
          · simp [walk, advance, hc, ih, Nat.add_assoc, Nat.add_comm 1]
          · simp [walk, advance, hc, ih]

/-- Where a line has begun with the reversed `current`, the column of an offset counts from the end
of the pieces before the one that it is in.  The induction follows the text, and `current` grows as
the column does. -/
theorem walk_column (current t : Text) (line offset : Nat) :
    let p := walk ⟨line, current.length + 1⟩ offset t
    1 ≤ p.column ∧
      (((Text.piecesFrom '\n' current t).take (p.line - line)).map
        fun row => row.length + 1).sum + p.column = current.length + offset + 1 := by
  induction t generalizing current line offset with
  | nil =>
      cases offset with
      | zero =>
          simp [walk]
      | succ offset =>
          simp [walk]
          omega
  | cons c rest ih =>
      cases offset with
      | zero =>
          simp [walk]
      | succ offset =>
          by_cases hc : c = '\n'
          · have hrest := ih [] (line + 1) offset
            simp only [List.length_nil, Nat.zero_add] at hrest
            obtain ⟨hcolumn, hsum⟩ := hrest
            have hline : line + 1 ≤ (walk ⟨line + 1, 1⟩ offset rest).line := by
              rw [walk_line]
              exact Nat.le_add_right _ _
            -- The piece that the line feed ends is one of the pieces before the line.
            have hlater : (walk ⟨line + 1, 1⟩ offset rest).line - line =
                (walk ⟨line + 1, 1⟩ offset rest).line - (line + 1) + 1 := by
              omega
            simp only [walk, advance, hc, if_true, Text.piecesFrom, hlater, List.take_succ_cons,
              List.map_cons, List.sum_cons, List.length_reverse]
            exact ⟨hcolumn, by omega⟩
          · have hrest := ih (c :: current) line offset
            simp only [List.length_cons] at hrest
            simp only [walk, advance, hc, if_false, Text.piecesFrom]
            exact ⟨hrest.1, by omega⟩

theorem ofOffset_line (t : Text) (offset : Nat) :
    (ofOffset t offset).line = (t.take offset).count (.char '\n') + 1 :=
  (walk_line ⟨1, 1⟩ offset t).trans (Nat.add_comm _ _)

/-- Past the end of the text the columns count on. -/
theorem walk_column_eq (p : Position) (offset : Nat) (t : Text) :
    (walk p offset t).column =
      ((t.take offset).foldl advance p).column + (offset - t.length) := by
  induction t generalizing p offset with
  | nil =>
      cases offset <;> simp [walk]
  | cons c rest ih =>
      cases offset with
      | zero =>
          simp [walk]
      | succ offset =>
          simp [walk, ih]

/-- The column counts the characters since the last line feed. -/
theorem column_foldl_advance (t : Text) :
    ((t.foldl advance ⟨1, 1⟩).column : Int) = t.length - (Text.lastIndex '\n' t + 1) + 1 := by
  induction t using List.reverseRecOn with
  | nil => rfl
  | append_singleton t c ih =>
    simp only [List.foldl_append, List.foldl_cons, List.foldl_nil, advance, List.length_append,
      List.length_singleton, Text.lastIndex_concat]
    split <;> push_cast <;> omega

/-- The line is told by the number of the line feeds before the offset, and the column by where the
last of them stands. -/
theorem ofOffset_eq_count_lastIndex (t : Text) (offset : Nat) :
    (ofOffset t offset).line = (t.take offset).count (.char '\n') + 1 ∧
      ((ofOffset t offset).column : Int) =
        offset - (Text.lastIndex '\n' (t.take offset) + 1) + 1 := by
  refine ⟨ofOffset_line t offset, ?_⟩
  have hcolumn := column_foldl_advance (t.take offset)
  rw [List.length_take] at hcolumn
  rw [ofOffset, walk_column_eq]
  omega

theorem ofOffset_column (t : Text) (offset : Nat) :
    1 ≤ (ofOffset t offset).column ∧
      Text.lineStart t (ofOffset t offset).line + (ofOffset t offset).column = offset + 1 := by
  obtain ⟨hcolumn, hsum⟩ := walk_column [] t 1 offset
  exact ⟨hcolumn, hsum.trans (congrArg (· + 1) (Nat.zero_add offset))⟩

/-- Positions are in the order of their offsets. -/
theorem strictMono_key (t : Text) : StrictMono fun offset => (ofOffset t offset).key := by
  intro p q hpq
  obtain ⟨-, hp⟩ := ofOffset_column t p
  obtain ⟨-, hq⟩ := ofOffset_column t q
  have hline : (ofOffset t p).line ≤ (ofOffset t q).line := by
    have htaken : t.take p <+: t.take q := List.take_prefix_take_left hpq.le
    rw [ofOffset_line, ofOffset_line]
    exact Nat.add_le_add_right (htaken.sublist.count_le _) 1
  refine Prod.Lex.toLex_lt_toLex.2 ?_
  rcases hline.lt_or_eq with hlt | heq
  · exact Or.inl hlt
  · -- In one line both columns count from the same place.
    rw [heq] at hp
    exact Or.inr ⟨heq, by simp only; omega⟩

/-- **Positions embed the offsets of a text in order.**

* An offset is before another exactly if its position is, the lines being compared first.
* Lines and columns are counted from one.
* The line is one of the text, and the line feeds before the offset are one less.
* The offset is that of the beginning of the line and one less than the column.
* The position of an offset in a text or at its end is the same whatever follows. -/
theorem ofOffset_embeds (t : Text) :
    (∀ p q, (ofOffset t p).key < (ofOffset t q).key ↔ p < q) ∧
    ∀ offset,
      1 ≤ (ofOffset t offset).line ∧ 1 ≤ (ofOffset t offset).column ∧
      (ofOffset t offset).line ≤ (Text.lines t).length ∧
      (ofOffset t offset).line = (t.take offset).count (.char '\n') + 1 ∧
      offset = Text.lineStart t (ofOffset t offset).line + (ofOffset t offset).column - 1 ∧
      (offset ≤ t.length → ∀ u, ofOffset (t ++ u) offset = ofOffset t offset) := by
  refine ⟨fun p q => (strictMono_key t).lt_iff_lt, fun offset => ?_⟩
  obtain ⟨hcolumn, hoffset⟩ := ofOffset_column t offset
  have hline := ofOffset_line t offset
  have hlast : (ofOffset t offset).line ≤ (Text.lines t).length := by
    rw [hline, Text.lines, Text.pieces, Text.length_piecesFrom]
    exact Nat.add_le_add_right ((List.take_sublist offset t).count_le _) 1
  exact ⟨by omega, hcolumn, hlast, hline, by omega, fun h u => ofOffset_append h u⟩

/-- Past a line feed at the end the columns of the last line count on. -/
example : ofOffset "ab\n".toText 2 = ⟨1, 3⟩ ∧ ofOffset "ab\n".toText 5 = ⟨2, 3⟩ := by decide

/-- The line feed of a text and an offset past its end. -/
theorem ofOffset_embeds_past_end :
    (2 < 5 ∧ (ofOffset "ab\n".toText 2).key < (ofOffset "ab\n".toText 5).key) ∧
    2 ≤ "ab\n".toText.length ∧
      ofOffset ("ab\n".toText ++ "\n".toText) 2 = ofOffset "ab\n".toText 2 := by
  obtain ⟨horder, hposition⟩ := ofOffset_embeds "ab\n".toText
  obtain ⟨-, -, -, -, -, hfollow⟩ := hposition 2
  exact ⟨⟨by decide, (horder 2 5).2 (by decide)⟩, by decide, hfollow (by decide) _⟩

end Position
end Stencil
