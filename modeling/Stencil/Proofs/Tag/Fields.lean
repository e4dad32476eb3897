import Stencil.Proofs.Tag.Tokens

/-!
# The grammar of fields

What the body of an echo tag looks like, said without a machine, and that `Field.split?` accepts
exactly that.

**Grammar.**  A *piece* of a field is a character that is neither blank nor a quote, or a quoted
part: between two quotes, characters other than a quote and a backslash, and backslashes that each
stand before any character.  A field is a sequence of pieces, one at least.  A body is a sequence of
fields and white space.

**Layouts.**  Fields that touch are one field, and so is white space that touches.  A `Layout` is a
body cut into fields with white space between neighbours.

**Argument.**  What is read of a field in progress does not matter for where the field ends
(`splitFrom_plain_pieces`), and a field ends before white space or at the end of the body
(`splitFrom_plain_of_boundary`).  So a layout is split into its fields (`split?_text`).  Conversely
a body that is split is read off piece by piece (`exists_pieces`), and each field that has been read
ends at such a place (`exists_layout`).

**Results.**
* `split?_eq_some_iff`: the fields of a body are those of its layouts.
* `split?_isSome_iff`: a body has fields exactly if it is in the grammar.
* `split?_eq_words`: without a quote the fields are the words.
* `Tag.fields_accept_grammar`: all of it, with the cause of a refusal.
-/

namespace Stencil
namespace Field

/-- What stands between quotes: a character that is neither a quote nor a backslash, or a backslash
and the character after it. -/
inductive Enclosed
  | plain (c : CodePoint) (not_quote : c ≠ '"') (not_backslash : c ≠ '\\')
  | escaped (c : CodePoint)

/-- What stands between quotes as it is written. -/
def Enclosed.raw : Enclosed → Text
  | .plain c _ _ => [c]
  | .escaped c => ['\\', c]

/-- A piece of a field: a character that is neither blank nor a quote, or a quoted part. -/
inductive Piece
  | bare (c : CodePoint) (not_blank : Text.isBlank c = false) (not_quote : c ≠ '"')
  | quoted (inner : List Enclosed)

namespace Piece

/-- A piece as it is written. -/
def raw : Piece → Text
  | .bare c _ _ => [c]
  | .quoted inner => .char '"' :: (inner.flatMap Enclosed.raw ++ [.char '"'])

/-- No piece begins with white space. -/
theorem exists_raw_eq_cons (p : Piece) : ∃ c t, p.raw = c :: t ∧ Text.isBlank c = false := by
  cases p with
  | bare c not_blank not_quote =>
      exact ⟨c, [], rfl, not_blank⟩
  | quoted inner =>
      exact ⟨'"', _, rfl, Text.isBlank_quote⟩

end Piece

/-- A field is a sequence of pieces, one at least. -/
def IsField (f : Text) : Prop :=
  ∃ pieces : List Piece, pieces ≠ [] ∧ pieces.flatMap Piece.raw = f

/-- White space, or nothing. -/
def IsGap (w : Text) : Prop := ∀ c ∈ w, Text.isBlank c = true

/-- A body is a sequence of fields and white space. -/
def InGrammar (body : Text) : Prop :=
  ∃ parts : List Text, (∀ part ∈ parts, IsField part ∨ IsGap part) ∧ parts.flatten = body

/-- A body cut into fields, each with the white space before it, and the white space at the end.
There is white space between any two neighbours. -/
structure Layout where
  items : List (Text × Text)
  trail : Text
  gap_of_mem : ∀ item ∈ items, IsGap item.1
  field_of_mem : ∀ item ∈ items, IsField item.2
  gap_ne_nil : ∀ item ∈ items.tail, item.1 ≠ []
  gap_trail : IsGap trail

/-- Fields as they are written, each after its white space. -/
def spaced (items : List (Text × Text)) : Text := items.flatMap fun item => item.1 ++ item.2

/-- Fields as they are written, with the white space of each between it and the one before. -/
def joined : List (Text × Text) → Text
  | [] => []
  | (_, f) :: rest => f ++ spaced rest

namespace Layout

/-- The body that is cut. -/
def text (l : Layout) : Text := spaced l.items ++ l.trail

/-- The fields that it is cut into. -/
def fields (l : Layout) : List Text := l.items.map Prod.snd

end Layout

@[simp] theorem spaced_nil : spaced [] = [] := rfl

@[simp] theorem spaced_cons (w f : Text) (rest : List (Text × Text)) :
    spaced ((w, f) :: rest) = w ++ f ++ spaced rest := rfl

/-- A field does not begin with white space. -/
theorem IsField.exists_eq_cons {f : Text} (h : IsField f) :
    ∃ c t, f = c :: t ∧ Text.isBlank c = false := by
  obtain ⟨pieces, hne, rfl⟩ := h
  cases pieces with
  | nil =>
      exact absurd rfl hne
  | cons p pieces =>
      obtain ⟨c, t, hraw, hc⟩ := p.exists_raw_eq_cons
      refine ⟨c, t ++ pieces.flatMap Piece.raw, ?_, hc⟩
      rw [List.flatMap_cons, hraw, List.cons_append]

theorem splitFrom_quoted_enclosed (inner : List Enclosed) (read rest : Text) :
    splitFrom (.quoted read) (inner.flatMap Enclosed.raw ++ rest) =
      splitFrom (.quoted ((inner.flatMap Enclosed.raw).reverse ++ read)) rest := by
  induction inner generalizing read with
  | nil =>
      rfl
  | cons u inner ih =>
      cases u with
      | plain c hquote hslash =>
          have hstep : (Mode.quoted read).step c = (none, .quoted (c :: read)) := by
            simp [Mode.step, hquote, hslash]
          simp [Enclosed.raw, splitFrom_cons, hstep, ih]
      | escaped c =>
          have hslash : (Mode.quoted read).step '\\' = (none, .escape (.char '\\' :: read)) := rfl
          have hnext : (Mode.escape (.char '\\' :: read)).step c =
              (none, .quoted (c :: .char '\\' :: read)) := rfl
          simp [Enclosed.raw, splitFrom_cons, hslash, hnext, ih]

theorem splitFrom_plain_piece (p : Piece) (read rest : Text) :
    splitFrom (.plain read) (p.raw ++ rest) = splitFrom (.plain (p.raw.reverse ++ read)) rest := by
  cases p with
  | bare c hblank hquote =>
      have hstep : (Mode.plain read).step c = (none, .plain (c :: read)) := by
        simp [Mode.step, hblank, hquote]
      simp [Piece.raw, splitFrom_cons, hstep]
  | quoted inner =>
      have hopen : (Mode.plain read).step '"' = (none, .quoted (.char '"' :: read)) := by
        simp [Mode.step, Text.isBlank_quote]
      have hclose (read : Text) :
          (Mode.quoted read).step '"' = (none, .plain (.char '"' :: read)) := rfl
      simp [Piece.raw, splitFrom_cons, hopen, hclose, splitFrom_quoted_enclosed]

/-- The pieces of a field are added to what has been read of it. -/
theorem splitFrom_plain_pieces (pieces : List Piece) (read rest : Text) :
    splitFrom (.plain read) (pieces.flatMap Piece.raw ++ rest) =
      splitFrom (.plain ((pieces.flatMap Piece.raw).reverse ++ read)) rest := by
  induction pieces generalizing read with
  | nil =>
      rfl
  | cons p pieces ih =>
      rw [List.flatMap_cons, List.append_assoc, splitFrom_plain_piece, ih, List.reverse_append,
        List.append_assoc]

/-- A field begins with the first character that is not blank. -/
theorem splitFrom_gap_cons {c : CodePoint} (h : Text.isBlank c = false) (t : Text) :
    splitFrom .gap (c :: t) = splitFrom (.plain []) (c :: t) := by
  simp [splitFrom_cons, Mode.step, h]

theorem IsField.splitFrom_gap {f : Text} (h : IsField f) (rest : Text) :
    splitFrom .gap (f ++ rest) = splitFrom (.plain f.reverse) rest := by
  obtain ⟨c, t, hf, hc⟩ := h.exists_eq_cons
  obtain ⟨pieces, -, hpieces⟩ := h
  have hplain := splitFrom_plain_pieces pieces [] rest
  rw [hpieces, List.append_nil] at hplain
  rw [← hplain, hf, List.cons_append, splitFrom_gap_cons hc]

theorem IsGap.splitFrom_gap {w : Text} (h : IsGap w) (rest : Text) :
    splitFrom .gap (w ++ rest) = splitFrom .gap rest := by
  induction w with
  | nil =>
      rfl
  | cons c w ih =>
      obtain ⟨hc, hw⟩ := List.forall_mem_cons.1 h
      have hstep : Mode.gap.step c = (none, .gap) := by simp [Mode.step, hc]
      simp [splitFrom_cons, hstep, ih hw]

/-- A field ends before white space, and at the end of the body. -/
theorem splitFrom_plain_of_boundary {rest : Text} (h : ∀ c ∈ rest.head?, Text.isBlank c = true)
    (read : Text) :
    splitFrom (.plain read) rest = (splitFrom .gap rest).map (read.reverse :: ·) := by
  cases rest with
  | nil =>
      rfl
  | cons c rest =>
      have hc : Text.isBlank c = true := h c rfl
      simp [splitFrom_cons, Mode.step, hc]

/-- What follows a field in a layout is white space, if it is not the end of the body. -/
theorem isBlank_head_spaced {items : List (Text × Text)} {trail : Text}
    (hgap : ∀ item ∈ items, IsGap item.1) (hne : ∀ item ∈ items, item.1 ≠ [])
    (htrail : IsGap trail) : ∀ c ∈ (spaced items ++ trail).head?, Text.isBlank c = true := by
  intro c hc
  cases items with
  | nil =>
      exact htrail c (List.mem_of_mem_head? hc)
  | cons item rest =>
      obtain ⟨w, f⟩ := item
      cases w with
      | nil =>
          exact absurd rfl (hne _ List.mem_cons_self)
      | cons d w =>
          obtain rfl : d = c := by simpa using hc
          exact hgap _ List.mem_cons_self d List.mem_cons_self

theorem splitFrom_spaced {items : List (Text × Text)} {trail : Text}
    (hgap : ∀ item ∈ items, IsGap item.1) (hfield : ∀ item ∈ items, IsField item.2)
    (hne : ∀ item ∈ items.tail, item.1 ≠ []) (htrail : IsGap trail) :
    splitFrom .gap (spaced items ++ trail) = some (items.map Prod.snd) := by
  induction items with
  | nil =>
      have hend := htrail.splitFrom_gap []
      rw [List.append_nil] at hend
      rw [spaced_nil, List.nil_append, hend]
      rfl
  | cons item rest ih =>
      obtain ⟨w, f⟩ := item
      obtain ⟨hw, hgap⟩ := List.forall_mem_cons.1 hgap
      obtain ⟨hf, hfield⟩ := List.forall_mem_cons.1 hfield
      have hrest := ih hgap hfield fun item hitem => hne item (List.mem_of_mem_tail hitem)
      have hend := splitFrom_plain_of_boundary (isBlank_head_spaced hgap hne htrail) f.reverse
      rw [spaced_cons, List.append_assoc, List.append_assoc, hw.splitFrom_gap, hf.splitFrom_gap,
        hend, hrest, List.reverse_reverse]
      rfl

/-- A layout is split into its fields. -/
theorem split?_text (l : Layout) : split? l.text = some l.fields :=
  splitFrom_spaced l.gap_of_mem l.field_of_mem l.gap_ne_nil l.gap_trail

/-- Fields with white space between them are split into the fields. -/
theorem split?_joined {items : List (Text × Text)}
    (h : ∀ item ∈ items, item.1 ≠ [] ∧ IsGap item.1 ∧ IsField item.2) :
    split? (joined items) = some (items.map Prod.snd) := by
  cases items with
  | nil =>
      rfl
  | cons item rest =>
      obtain ⟨w, f⟩ := item
      obtain ⟨⟨-, -, hf⟩, hrest⟩ := List.forall_mem_cons.1 h
      -- The first field has no white space before it.
      have hsplit : splitFrom .gap (spaced (([], f) :: rest) ++ []) =
          some ((([], f) :: rest).map Prod.snd) :=
        splitFrom_spaced
          (List.forall_mem_cons.2 ⟨by simp [IsGap], fun item hitem => (hrest item hitem).2.1⟩)
          (List.forall_mem_cons.2 ⟨hf, fun item hitem => (hrest item hitem).2.2⟩)
          (fun item hitem => (hrest item hitem).1) (by simp [IsGap])
      rw [spaced_cons, List.append_nil, List.nil_append] at hsplit
      exact hsplit

theorem exists_layout_cons_blank {c : CodePoint} (hc : Text.isBlank c = true) (l : Layout) :
    ∃ l' : Layout, l'.text = c :: l.text := by
  obtain ⟨items, trail, hgap, hfield, hne, htrail⟩ := l
  cases items with
  | nil =>
      exact ⟨⟨[], c :: trail, hgap, hfield, hne, List.forall_mem_cons.2 ⟨hc, htrail⟩⟩, rfl⟩
  | cons item rest =>
      obtain ⟨w, f⟩ := item
      obtain ⟨hw, hgap⟩ := List.forall_mem_cons.1 hgap
      obtain ⟨hf, hfield⟩ := List.forall_mem_cons.1 hfield
      exact ⟨⟨(c :: w, f) :: rest, trail,
        List.forall_mem_cons.2 ⟨List.forall_mem_cons.2 ⟨hc, hw⟩, hgap⟩,
        List.forall_mem_cons.2 ⟨hf, hfield⟩, hne, htrail⟩, rfl⟩

/-- A field can stand before a layout that begins with white space. -/
theorem exists_layout_cons_field {f : Text} (hf : IsField f) (l : Layout)
    (hboundary : ∀ c ∈ l.text.head?, Text.isBlank c = true) :
    ∃ l' : Layout, l'.text = f ++ l.text := by
  obtain ⟨items, trail, hgap, hfield, hne, htrail⟩ := l
  have hall : ∀ item ∈ items, item.1 ≠ [] := by
    cases items with
    | nil =>
        simp
    | cons item rest =>
        obtain ⟨w, f'⟩ := item
        refine List.forall_mem_cons.2 ⟨fun hw => ?_, hne⟩
        obtain rfl : w = [] := hw
        obtain ⟨d, t, hd, hblank⟩ := (hfield _ List.mem_cons_self).exists_eq_cons
        obtain rfl : f' = d :: t := hd
        rw [hboundary d rfl] at hblank
        exact Bool.noConfusion hblank
  exact ⟨⟨([], f) :: items, trail, List.forall_mem_cons.2 ⟨by simp [IsGap], hgap⟩,
    List.forall_mem_cons.2 ⟨hf, hfield⟩, hall, htrail⟩, by simp [Layout.text]⟩

/-- What can follow in a field outside of quotes: pieces, and a layout that begins with white
space. -/
def AfterPlain (t : Text) : Prop :=
  ∃ (pieces : List Piece) (l : Layout), pieces.flatMap Piece.raw ++ l.text = t ∧
    ∀ c ∈ l.text.head?, Text.isBlank c = true

/-- What can follow between quotes: the rest of the quoted part, a quote, and what can follow
outside. -/
def AfterQuoted (t : Text) : Prop :=
  ∃ (inner : List Enclosed) (rest : Text), inner.flatMap Enclosed.raw ++ .char '"' :: rest = t ∧
    AfterPlain rest

/-- What can follow in a mode. -/
def Mode.Awaits : Mode → Text → Prop
  | .gap, t => ∃ l : Layout, l.text = t
  | .plain _, t => AfterPlain t
  | .quoted _, t => AfterQuoted t
  | .escape _, t => ∃ c rest, c :: rest = t ∧ AfterQuoted rest

theorem AfterPlain.cons_piece (p : Piece) {t : Text} (h : AfterPlain t) :
    AfterPlain (p.raw ++ t) := by
  obtain ⟨pieces, l, rfl, hboundary⟩ := h
  exact ⟨p :: pieces, l, by simp, hboundary⟩

theorem AfterQuoted.cons_quote {t : Text} (h : AfterQuoted t) : AfterPlain (.char '"' :: t) := by
  obtain ⟨inner, rest, rfl, hrest⟩ := h
  simpa [Piece.raw] using hrest.cons_piece (.quoted inner)

theorem AfterQuoted.cons_enclosed (u : Enclosed) {t : Text} (h : AfterQuoted t) :
    AfterQuoted (u.raw ++ t) := by
  obtain ⟨inner, rest, rfl, hrest⟩ := h
  exact ⟨u :: inner, rest, by simp, hrest⟩

/-- Pieces that do not begin with white space are a field. -/
theorem AfterPlain.exists_layout {c : CodePoint} {t : Text} (h : AfterPlain (c :: t))
    (hc : Text.isBlank c = false) : ∃ l : Layout, l.text = c :: t := by
  obtain ⟨pieces, l, htext, hboundary⟩ := h
  rw [← htext]
  cases pieces with
  | nil =>
      simp only [List.flatMap_nil, List.nil_append] at htext
      rw [hboundary c (by simp [htext])] at hc
      exact Bool.noConfusion hc
  | cons p pieces =>
      exact exists_layout_cons_field ⟨p :: pieces, by simp, rfl⟩ l hboundary

/-- A character that is read goes before what can follow it. -/
theorem awaits_cons {mode : Mode} {c : CodePoint} {t : Text} (h : (mode.step c).2.Awaits t) :
    mode.Awaits (c :: t) := by
  have hplain (read : Text) (hc : Text.isBlank c = false)
      (h : ((Mode.plain read).step c).2.Awaits t) : AfterPlain (c :: t) := by
    by_cases hquote : c = '"'
    · subst hquote
      have hquoted : AfterQuoted t := by simpa [Mode.step, hc, Mode.Awaits] using h
      exact hquoted.cons_quote
    · have hbare : AfterPlain t := by simpa [Mode.step, hc, hquote, Mode.Awaits] using h
      exact hbare.cons_piece (.bare c hc hquote)
  cases mode with
  | gap =>
      cases hc : Text.isBlank c with
      | true =>
          obtain ⟨l, rfl⟩ : ∃ l : Layout, l.text = t := by
            simpa [Mode.step, hc, Mode.Awaits] using h
          exact exists_layout_cons_blank hc l
      | false =>
          have hsame : (Mode.gap.step c).2 = ((Mode.plain []).step c).2 := by simp [Mode.step, hc]
          exact (hplain [] hc (hsame ▸ h)).exists_layout hc
  | plain read =>
      cases hc : Text.isBlank c with
      | true =>
          obtain ⟨l, rfl⟩ : ∃ l : Layout, l.text = t := by
            simpa [Mode.step, hc, Mode.Awaits] using h
          obtain ⟨l', hl'⟩ := exists_layout_cons_blank hc l
          exact ⟨[], l', by simpa using hl', by simp [hl', hc]⟩
      | false =>
          exact hplain read hc h
  | quoted read =>
      by_cases hquote : c = '"'
      · subst hquote
        exact ⟨[], t, rfl, h⟩
      · by_cases hslash : c = '\\'
        · subst hslash
          obtain ⟨d, rest, rfl, hrest⟩ := h
          exact hrest.cons_enclosed (.escaped d)
        · have hinner : AfterQuoted t := by simpa [Mode.step, hquote, hslash, Mode.Awaits] using h
          exact hinner.cons_enclosed (.plain c hquote hslash)
  | escape read =>
      exact ⟨c, t, rfl, h⟩

/-- What is split can follow. -/
theorem awaits_of_isSome (mode : Mode) {t : Text} (h : (splitFrom mode t).isSome) :
    mode.Awaits t := by
  induction t generalizing mode with
  | nil =>
      have hempty : ∃ l : Layout, l.text = [] :=
        ⟨⟨[], [], by simp, by simp, by simp, by simp [IsGap]⟩, rfl⟩
      cases mode with
      | gap =>
          exact hempty
      | plain read =>
          obtain ⟨l, hl⟩ := hempty
          exact ⟨[], l, hl, by simp [hl]⟩
      | quoted read =>
          simp [splitFrom] at h
      | escape read =>
          simp [splitFrom] at h
  | cons c t ih =>
      rw [splitFrom_cons, Option.isSome_map] at h
      exact awaits_cons (ih _ h)

/-- The fields of a body are those of its layouts. -/
theorem split?_eq_some_iff {body : Text} {fields : List Text} :
    split? body = some fields ↔ ∃ l : Layout, l.text = body ∧ l.fields = fields := by
  constructor
  · intro h
    obtain ⟨l, rfl⟩ : ∃ l : Layout, l.text = body :=
      awaits_of_isSome .gap (Option.isSome_of_eq_some h)
    rw [split?_text] at h
    exact ⟨l, rfl, Option.some.inj h⟩
  · rintro ⟨l, rfl, rfl⟩
    exact split?_text l

/-- A sequence of fields and white space is split, where no quoted part is open. -/
theorem isSome_splitFrom_flatten {parts : List Text}
    (h : ∀ part ∈ parts, IsField part ∨ IsGap part) :
    (splitFrom .gap parts.flatten).isSome ∧
      ∀ read, (splitFrom (.plain read) parts.flatten).isSome := by
  induction parts with
  | nil =>
      exact ⟨rfl, fun _ => rfl⟩
  | cons part parts ih =>
      obtain ⟨hpart, hparts⟩ := List.forall_mem_cons.1 h
      obtain ⟨hgap, hplain⟩ := ih hparts
      rw [List.flatten_cons]
      rcases hpart with hfield | hblank
      · refine ⟨by rw [hfield.splitFrom_gap]; exact hplain _, fun read => ?_⟩
        obtain ⟨pieces, -, rfl⟩ := hfield
        rw [splitFrom_plain_pieces]
        exact hplain _
      · refine ⟨by rw [hblank.splitFrom_gap]; exact hgap, fun read => ?_⟩
        cases part with
        | nil =>
            exact hplain read
        | cons c w =>
            have hboundary : ∀ d ∈ (c :: w ++ parts.flatten).head?, Text.isBlank d = true := by
              simpa using hblank c List.mem_cons_self
            rw [splitFrom_plain_of_boundary hboundary, Option.isSome_map, hblank.splitFrom_gap]
            exact hgap

theorem flatten_parts (items : List (Text × Text)) :
    (items.flatMap fun item => [item.1, item.2]).flatten = spaced items := by
  induction items with
  | nil =>
      rfl
  | cons item rest ih =>
      obtain ⟨w, f⟩ := item
      rw [List.flatMap_cons, List.flatten_append, ih]
      simp

/-- A body has fields exactly if it is a sequence of fields and white space. -/
theorem split?_isSome_iff {body : Text} : (split? body).isSome ↔ InGrammar body := by
  constructor
  · intro h
    obtain ⟨l, rfl⟩ : ∃ l : Layout, l.text = body := awaits_of_isSome .gap h
    refine ⟨l.items.flatMap (fun item => [item.1, item.2]) ++ [l.trail], fun part hpart => ?_, ?_⟩
    · rcases List.mem_append.1 hpart with hitem | htrail
      · obtain ⟨item, hmem, hpart⟩ := List.mem_flatMap.1 hitem
        rcases List.mem_pair.1 hpart with rfl | rfl
        · exact Or.inr (l.gap_of_mem item hmem)
        · exact Or.inl (l.field_of_mem item hmem)
      · obtain rfl := List.mem_singleton.1 htrail
        exact Or.inr l.gap_trail
    · rw [List.flatten_append, flatten_parts, List.flatten_singleton]
      rfl
  · rintro ⟨parts, hparts, rfl⟩
    exact (isSome_splitFrom_flatten hparts).1

theorem splitFrom_eq_wordsFrom {t : Text} (h : .char '"' ∉ t) :
    splitFrom .gap t = some (Text.wordsFrom [] t) ∧
      ∀ read, read ≠ [] → splitFrom (.plain read) t = some (Text.wordsFrom read t) := by
  induction t with
  | nil =>
      exact ⟨rfl, fun read hread => by simp [splitFrom, Text.wordsFrom, hread]⟩
  | cons c t ih =>
      obtain ⟨hc, ht⟩ : c ≠ '"' ∧ .char '"' ∉ t := by simpa [eq_comm] using h
      obtain ⟨hgap, hplain⟩ := ih ht
      have hmore (read : Text) := hplain (c :: read) (List.cons_ne_nil c read)
      cases hblank : Text.isBlank c with
      | true =>
          refine ⟨?_, fun read hread => ?_⟩
          · simp [splitFrom_cons, Mode.step, Text.wordsFrom, hblank, hgap]
          · simp [splitFrom_cons, Mode.step, Text.wordsFrom, hblank, hgap, hread]
      | false =>
          refine ⟨?_, fun read hread => ?_⟩
          · simp [splitFrom_cons, Mode.step, Text.wordsFrom, hblank, hc, hmore]
          · simp [splitFrom_cons, Mode.step, Text.wordsFrom, hblank, hc, hmore]

/-- Without a quote the fields of a body are its words. -/
theorem split?_eq_words {body : Text} (h : .char '"' ∉ body) :
    split? body = some (Text.words body) :=
  (splitFrom_eq_wordsFrom h).1

end Field

namespace Tag

open Stencil.Field

theorem fields_eq_ok_iff {body : Text} {found : List Text} :
    fields body = .ok found ↔ split? body = some found := by
  unfold fields
  cases split? body <;> simp

/-- **Fields are split exactly as the grammar says.**

* A body has fields exactly if it is a sequence of fields and white space.
* These are the fields that it can be cut into with white space between neighbours.
* Any other body is refused, with a quote that is never closed as the cause.
* Fields that are written with white space between them are read back.
* Without a quote the fields are the words, as the arguments of a loop are cut. -/
theorem fields_accept_grammar (body : Text) :
    ((∃ found, fields body = .ok found) ↔ InGrammar body) ∧
    (∀ found, fields body = .ok found ↔ ∃ l : Layout, l.text = body ∧ l.fields = found) ∧
    (¬ InGrammar body → fields body = .error (.openString body) ∧
      "unterminated string".toText <+: (Malformed.openString body).message) ∧
    (∀ items : List (Text × Text), (∀ item ∈ items, item.1 ≠ [] ∧ IsGap item.1 ∧ IsField item.2) →
      fields (joined items) = .ok (items.map Prod.snd)) ∧
    (.char '"' ∉ body → fields body = .ok (Text.words body)) := by
  have hsome : (∃ found, fields body = .ok found) ↔ InGrammar body := by
    rw [← split?_isSome_iff, Option.isSome_iff_exists]
    exact exists_congr fun found => fields_eq_ok_iff
  refine ⟨hsome, fun found => ?_, fun hno => ?_, fun items hitems => ?_, fun hquote => ?_⟩
  · rw [fields_eq_ok_iff, split?_eq_some_iff]
  · rw [← split?_isSome_iff, Option.not_isSome_iff_eq_none] at hno
    have hwording : "unterminated string".toText <+: "unterminated string in tag: ".toText := by
      decide
    exact ⟨by rw [fields, hno], hwording.trans (List.prefix_append _ _)⟩
  · rw [fields_eq_ok_iff, split?_joined hitems]
  · rw [fields_eq_ok_iff, split?_eq_words hquote]

/-- Quoted parts touch other pieces, and hold white space and a quote after a backslash; outside of
quotes a backslash protects nothing. -/
example : fields " a\"b c\"d\t\"\\\"\" \\\"x\"".toText =
    .ok ["a\"b c\"d".toText, "\"\\\"\"".toText, "\\\"x\"".toText] := by decide

end Tag
end Stencil
