import Mathlib.Data.List.Chain
import Stencil.Segment

/-!
# The grammar of segments

What a template looks like, said without a machine, and that `Segment.scan` accepts exactly that.

**Grammar.**  A *unit* of text is a character other than a bracket and a backslash, or a backslash
and the character after it.  A *tag* is a bracket, spaces, a dollar sign, a body that is not empty
and holds no dollar sign, a dollar sign, spaces and a bracket.  A template is a sequence of units
and tags.

**Parts.**  The units between two tags belong together.  A `Part` is such a run of units or a tag,
and in a list of `Separated` parts no two runs are neighbours.  Units and tags are told apart by
their first characters, and each of them by itself tells where it ends, so that a text has at most
one such list of parts.

**Results.**
* `scan_raws`: the segments of a list of parts are given out one for each part, at its offset.
* `exists_items_of_scanFrom`: a text that is scanned without a failure is a sequence of items.
* `parts_unique`: a text is cut into separated parts in at most one way.
* `scan_accepts_grammar`: the scanner accepts the grammar and gives out the parts.
-/

namespace Stencil
namespace Segment

/-- A unit of text: a character that is neither a bracket nor a backslash, or a backslash and the
character after it. -/
inductive TextUnit
  | plain (c : CodePoint) (not_bracket : c ≠ '[') (not_backslash : c ≠ '\\')
  | escaped (c : CodePoint)

namespace TextUnit

/-- A unit as it is written. -/
def raw : TextUnit → Text
  | .plain c _ _ => [c]
  | .escaped c => ['\\', c]

/-- What a unit stands for.  Only before a bracket is the backslash left out. -/
def content : TextUnit → Text
  | .plain c _ _ => [c]
  | .escaped c => if c = '[' then [.char '['] else ['\\', c]

theorem raw_ne_nil (u : TextUnit) : u.raw ≠ [] := by
  cases u <;> simp [raw]

theorem content_ne_nil (u : TextUnit) : u.content ≠ [] := by
  cases u with
  | plain c hbracket hslash =>
      exact List.cons_ne_nil c []
  | escaped c =>
      by_cases hc : c = '[' <;> simp [content, hc]

theorem flatMap_content_ne_nil {units : List TextUnit} (h : units ≠ []) :
    units.flatMap content ≠ [] := by
  obtain ⟨u, rest, rfl⟩ := List.exists_cons_of_ne_nil h
  rw [List.flatMap_cons]
  exact List.append_ne_nil_of_left_ne_nil u.content_ne_nil _

/-- No unit begins with a bracket. -/
theorem head_raw_ne (u : TextUnit) (rest : Text) : (u.raw ++ rest).head? ≠ some (.char '[') := by
  cases u with
  | plain c hb hs =>
      simpa [raw] using hb
  | escaped c =>
      simp [raw]

/-- A unit tells where it ends. -/
theorem raw_append_inj {u v : TextUnit} {s t : Text} (h : u.raw ++ s = v.raw ++ t) :
    u = v ∧ s = t := by
  cases u with
  | plain c hb hs =>
      cases v with
      | plain d hb' hs' =>
          simp only [raw, List.cons_append, List.nil_append, List.cons.injEq] at h
          obtain ⟨rfl, rfl⟩ := h
          exact ⟨rfl, rfl⟩
      | escaped d =>
          simp [raw, hs] at h
  | escaped c =>
      cases v with
      | plain d hb' hs' =>
          simp only [raw, List.cons_append, List.cons.injEq] at h
          exact absurd h.1.symm hs'
      | escaped d =>
          simp only [raw, List.cons_append, List.nil_append, List.cons.injEq, true_and] at h
          obtain ⟨rfl, rfl⟩ := h
          exact ⟨rfl, rfl⟩

end TextUnit

/-- A tag as it is written: the numbers of spaces at its two ends, and its body. -/
structure WrittenTag where
  opening : Nat
  body : Text
  closing : Nat
  body_ne_nil : body ≠ []
  dollar_not_mem : .char '$' ∉ body

namespace WrittenTag

/-- What follows the bracket that opens a tag. -/
def inner (t : WrittenTag) : Text :=
  List.replicate t.opening (.char ' ') ++ .char '$' ::
    (t.body ++ .char '$' :: (List.replicate t.closing (.char ' ') ++ [.char ']']))

/-- The text of a tag. -/
def raw (t : WrittenTag) : Text := .char '[' :: t.inner

/-- A run of spaces tells where it ends. -/
theorem spaces_append_inj {m n : Nat} {c d : CodePoint} {s t : Text} (hc : c ≠ ' ') (hd : d ≠ ' ')
    (h : List.replicate m (.char ' ') ++ c :: s = List.replicate n (.char ' ') ++ d :: t) :
    m = n ∧ c = d ∧ s = t := by
  induction m generalizing n with
  | zero =>
      cases n with
      | zero =>
          simpa using h
      | succ n =>
          simp [List.replicate_succ, hc] at h
  | succ m ih =>
      cases n with
      | zero =>
          simp only [List.replicate_succ, List.cons_append, List.replicate_zero, List.nil_append,
            List.cons.injEq] at h
          exact absurd h.1.symm hd
      | succ n =>
          simp only [List.replicate_succ, List.cons_append, List.cons.injEq, true_and] at h
          obtain ⟨rfl, rest⟩ := ih h
          exact ⟨rfl, rest⟩

/-- A body tells where it ends, since it holds no dollar sign. -/
theorem body_append_inj {b b' s t : Text} (hb : .char '$' ∉ b) (hb' : .char '$' ∉ b')
    (h : b ++ .char '$' :: s = b' ++ .char '$' :: t) : b = b' ∧ s = t := by
  induction b generalizing b' with
  | nil =>
      cases b' with
      | nil =>
          simpa using h
      | cons d b' =>
          simp only [List.nil_append, List.cons_append, List.cons.injEq] at h
          exact absurd (h.1 ▸ List.mem_cons_self) hb'
  | cons c b ih =>
      cases b' with
      | nil =>
          simp only [List.nil_append, List.cons_append, List.cons.injEq] at h
          exact absurd (h.1 ▸ List.mem_cons_self) hb
      | cons d b' =>
          simp only [List.cons_append, List.cons.injEq] at h
          obtain ⟨rfl, h⟩ := h
          obtain ⟨rfl, rest⟩ := ih (fun hc => hb (List.mem_cons_of_mem _ hc))
            (fun hc => hb' (List.mem_cons_of_mem _ hc)) h
          exact ⟨rfl, rest⟩

/-- A tag tells where it ends. -/
theorem raw_append_inj {t t' : WrittenTag} {r r' : Text} (h : t.raw ++ r = t'.raw ++ r') :
    t = t' ∧ r = r' := by
  simp only [raw, inner, List.cons_append, List.append_assoc, List.nil_append, List.cons.injEq,
    true_and] at h
  obtain ⟨hopening, -, h⟩ := spaces_append_inj (by decide) (by decide) h
  obtain ⟨hbody, h⟩ := body_append_inj t.dollar_not_mem t'.dollar_not_mem h
  obtain ⟨hclosing, -, hrest⟩ := spaces_append_inj (by decide) (by decide) h
  cases t
  cases t'
  simp_all

end WrittenTag

/-- A unit of text or a tag. -/
inductive Item
  | unit (u : TextUnit)
  | tag (t : WrittenTag)

/-- An item as it is written. -/
def Item.raw : Item → Text
  | .unit u => u.raw
  | .tag t => t.raw

/-- A run of units, which is not empty, or a tag. -/
inductive Part
  | run (units : List TextUnit) (nonempty : units ≠ [])
  | tag (t : WrittenTag)

namespace Part

/-- The part is a run of text. -/
def isRun : Part → Bool
  | .run _ _ => true
  | .tag _ => false

/-- A part as it is written. -/
def raw : Part → Text
  | .run units _ => units.flatMap TextUnit.raw
  | .tag t => t.raw

/-- The segment that a part at an offset gives: the body of a tag as it is written, and of a run
what its units stand for. -/
def segment (offset : Nat) : Part → Segment
  | .run units _ => .text (units.flatMap TextUnit.content) offset
  | .tag t => .tag t.body offset

end Part

/-- No two runs are neighbours, so that each run is as long as it can be. -/
def Separated (parts : List Part) : Prop :=
  parts.IsChain fun p q => (p.isRun && q.isRun) = false

/-- The parts as they are written, one after another. -/
def raws (parts : List Part) : Text := parts.flatMap Part.raw

/-- The segments of the parts of a text that begins at an offset. -/
def segmentsFrom (offset : Nat) : List Part → List Segment
  | [] => []
  | part :: rest => part.segment offset :: segmentsFrom (offset + part.raw.length) rest

@[simp] theorem raws_nil : raws [] = [] := rfl

@[simp] theorem raws_cons (part : Part) (rest : List Part) :
    raws (part :: rest) = part.raw ++ raws rest := rfl

/-- A run of units does not begin with a bracket. -/
theorem head_units_ne (units : List TextUnit) :
    (units.flatMap TextUnit.raw).head? ≠ some (.char '[') := by
  cases units with
  | nil =>
      simp
  | cons u units =>
      exact u.head_raw_ne _

/-- A character that forms no escape with what follows stays as it is. -/
theorem plainText_cons {c : CodePoint} {t : Text} (h : c ≠ '\\' ∨ t.head? ≠ some (.char '[')) :
    plainText (c :: t) = c :: plainText t := by
  cases t with
  | nil =>
      rfl
  | cons d t =>
      have hpair : ¬ (c = '\\' ∧ d = '[') := by
        rintro ⟨rfl, rfl⟩
        simp at h
      simp [plainText, Text.replacePair, hpair]

/-- Replacing the pairs in a run of units is replacing the escaped brackets among them: no other
two characters of a run are a backslash and a bracket. -/
theorem plainText_units (units : List TextUnit) :
    plainText (units.flatMap TextUnit.raw) = units.flatMap TextUnit.content := by
  induction units with
  | nil =>
      rfl
  | cons u units ih =>
      have hhead := head_units_ne units
      cases u with
      | plain c hb hs =>
          simp only [List.flatMap_cons, TextUnit.raw, TextUnit.content, List.cons_append,
            List.nil_append]
          rw [plainText_cons (Or.inl hs), ih]
      | escaped c =>
          simp only [List.flatMap_cons, TextUnit.raw, TextUnit.content, List.cons_append,
            List.nil_append]
          by_cases hc : c = '['
          · subst hc
            rw [if_pos rfl, List.cons_append, List.nil_append, ← ih]
            exact Text.replacePair_pair ..
          · rw [if_neg hc, List.cons_append, List.cons_append, List.nil_append,
              plainText_cons (Or.inr (by simpa using hc)), plainText_cons (Or.inr hhead), ih]

@[simp] theorem Scan.after_nil (scan : Scan) : scan.after [] = scan := rfl

@[simp] theorem Scan.after_after (s t : List Segment) (scan : Scan) :
    (scan.after t).after s = scan.after (s ++ t) := by
  simp [Scan.after]

theorem scanFrom_cons {mode next : Mode} {offset : Nat} {c : CodePoint} {segments : List Segment}
    (h : mode.step offset c = .ok (segments, next)) (rest : Text) :
    scanFrom mode offset (c :: rest) = (scanFrom next (offset + 1) rest).after segments := by
  simp [scanFrom, h]

/-- Spaces before the first dollar sign of a tag. -/
theorem scanFrom_bracket (start offset n : Nat) (rest : Text) :
    scanFrom (.bracket start) offset (List.replicate n (.char ' ') ++ .char '$' :: rest) =
      scanFrom (.dollar start) (offset + n + 1) rest := by
  induction n generalizing offset with
  | zero =>
      have hstep : (Mode.bracket start).step offset '$' = .ok ([], .dollar start) := rfl
      exact scanFrom_cons hstep rest
  | succ n ih =>
      have hstep : (Mode.bracket start).step offset ' ' = .ok ([], .bracket start) := rfl
      rw [List.replicate_succ, List.cons_append, scanFrom_cons hstep, Scan.after_nil, ih]
      congr 1
      omega

/-- The rest of a body, up to its dollar sign. -/
theorem scanFrom_body {b : Text} (hb : .char '$' ∉ b) (read : Text) (start offset : Nat)
    (rest : Text) :
    scanFrom (.body read start) offset (b ++ .char '$' :: rest) =
      (scanFrom (.closing start) (offset + b.length + 1) rest).after
        [.tag (read.reverse ++ b) start] := by
  induction b generalizing read offset with
  | nil =>
      simpa using scanFrom_cons rfl rest
  | cons c b ih =>
      obtain ⟨hc, hb⟩ : '$' ≠ c ∧ .char '$' ∉ b := by simpa using hb
      have hstep : (Mode.body read start).step offset c = .ok ([], .body (c :: read) start) := by
        simp [Mode.step, hc.symm]
      rw [List.cons_append, scanFrom_cons hstep, Scan.after_nil, ih hb]
      simp only [List.reverse_cons, List.append_assoc, List.cons_append, List.nil_append,
        List.length_cons]
      congr 2
      omega

/-- Spaces before the bracket that closes a tag. -/
theorem scanFrom_closing (start offset n : Nat) (rest : Text) :
    scanFrom (.closing start) offset (List.replicate n (.char ' ') ++ .char ']' :: rest) =
      scanFrom (.text [] (offset + n + 1)) (offset + n + 1) rest := by
  induction n generalizing offset with
  | zero =>
      have hstep : (Mode.closing start).step offset ']' = .ok ([], .text [] (offset + 1)) := rfl
      exact scanFrom_cons hstep rest
  | succ n ih =>
      have hstep : (Mode.closing start).step offset ' ' = .ok ([], .closing start) := rfl
      rw [List.replicate_succ, List.cons_append, scanFrom_cons hstep, Scan.after_nil, ih]
      rw [show offset + 1 + n + 1 = offset + (n + 1) + 1 by omega]

/-- A tag ends the run before it and gives out its body. -/
theorem scanFrom_tag (tag : WrittenTag) (run : Text) (start offset : Nat) (rest : Text) :
    scanFrom (.text run start) offset (tag.raw ++ rest) =
      (scanFrom (.text [] (offset + tag.raw.length)) (offset + tag.raw.length) rest).after
        (Mode.flush run start ++ [.tag tag.body offset]) := by
  obtain ⟨opening, body, closing, hne, hdollar⟩ := tag
  cases body with
  | nil =>
      exact absurd rfl hne
  | cons c b =>
      obtain ⟨hc, hb⟩ : '$' ≠ c ∧ .char '$' ∉ b := by simpa using hdollar
      have hopen : (Mode.text run start).step offset '[' =
          .ok (Mode.flush run start, .bracket offset) := rfl
      have hfirst : (Mode.dollar offset).step (offset + 1 + opening + 1) c =
          .ok ([], .body [c] offset) := by
        simp [Mode.step, hc.symm]
      simp only [WrittenTag.raw, WrittenTag.inner, List.cons_append, List.append_assoc,
        List.nil_append]
      rw [scanFrom_cons hopen, scanFrom_bracket, scanFrom_cons hfirst, Scan.after_nil,
        scanFrom_body hb, scanFrom_closing, Scan.after_after]
      have hend : offset + 1 + opening + 1 + 1 + b.length + 1 + closing + 1 =
          offset + (.char '[' :: (List.replicate opening (.char ' ') ++ .char '$' :: c ::
            (b ++ .char '$' :: (List.replicate closing (.char ' ') ++ [.char ']'])))).length := by
        simp
        omega
      simp only [List.reverse_cons, List.reverse_nil, List.nil_append, List.cons_append, hend]

/-- Units are added to the run in progress, which begins at the first of them if it is empty. -/
theorem scanFrom_units (units : List TextUnit) (run : Text) (start offset : Nat) (rest : Text) :
    scanFrom (.text run start) offset (units.flatMap TextUnit.raw ++ rest) =
      scanFrom (.text ((units.flatMap TextUnit.raw).reverse ++ run)
          (if run = [] ∧ units ≠ [] then offset else start))
        (offset + (units.flatMap TextUnit.raw).length) rest := by
  induction units generalizing run start offset with
  | nil =>
      simp
  | cons u units ih =>
      cases u with
      | plain c hb hs =>
          have hstep : (Mode.text run start).step offset c =
              .ok ([], .text (c :: run) (if run = [] then offset else start)) := by
            simp [Mode.step, hb, hs]
          simp only [List.flatMap_cons, TextUnit.raw, List.cons_append, List.nil_append]
          rw [scanFrom_cons hstep, Scan.after_nil, ih]
          simp [Nat.add_assoc, Nat.add_comm 1]
      | escaped c =>
          have hstep : (Mode.text run start).step offset '\\' =
              .ok ([], .escape (.char '\\' :: run) (if run = [] then offset else start)) := by
            simp [Mode.step]
          have hnext (run : Text) (start : Nat) : (Mode.escape run start).step (offset + 1) c =
              .ok ([], .text (c :: run) start) := rfl
          simp only [List.flatMap_cons, TextUnit.raw, List.cons_append, List.nil_append]
          rw [scanFrom_cons hstep, Scan.after_nil, scanFrom_cons (hnext _ _), Scan.after_nil, ih]
          simp [Nat.add_assoc, Nat.add_comm 2]

/-- The run in progress, and the segments of the parts after it, if it does not go on in them. -/
theorem scanFrom_raws {parts : List Part} (hsep : Separated parts) (run : Text)
    (start offset : Nat) (hrun : run = [] ∨ ∀ part ∈ parts.head?, part.isRun = false) :
    scanFrom (.text run start) offset (raws parts) =
      (Mode.flush run start ++ segmentsFrom offset parts, none) := by
  induction parts generalizing run start offset with
  | nil =>
      simp [scanFrom, Mode.finish, segmentsFrom]
  | cons part parts ih =>
      have hrest : Separated parts := hsep.tail
      cases part with
      | tag t =>
          rw [raws_cons, Part.raw, scanFrom_tag, ih hrest _ _ _ (Or.inl rfl)]
          simp [Scan.after, segmentsFrom, Part.segment, Part.raw, Mode.flush]
      | run units hne =>
          have hrun : run = [] := by
            rcases hrun with h | h
            · exact h
            · exact absurd (h _ rfl) (by simp [Part.isRun])
          subst hrun
          have hnext : ∀ part ∈ parts.head?, part.isRun = false := by
            intro part hpart
            have := (List.isChain_cons.1 hsep).1 part hpart
            simpa [Part.isRun] using this
          have hraw : (units.flatMap TextUnit.raw).reverse ≠ [] := by
            cases units with
            | nil =>
                exact absurd rfl hne
            | cons u units =>
                simp [u.raw_ne_nil]
          rw [raws_cons, Part.raw, scanFrom_units, List.append_nil,
            ih hrest _ _ _ (Or.inr hnext)]
          simp [Mode.flush, hraw, hne, segmentsFrom, Part.segment, Part.raw, plainText_units]

/-- The segments of a list of parts are given out one for each part, at its offset. -/
theorem scan_raws {parts : List Part} (hsep : Separated parts) :
    scan (raws parts) = (segmentsFrom 0 parts, none) :=
  scanFrom_raws hsep [] 0 0 (Or.inl rfl)

theorem scanFrom_cons_eq_none {mode : Mode} {offset : Nat} {c : CodePoint} {rest : Text}
    (h : (scanFrom mode offset (c :: rest)).2 = none) :
    ∃ segments next, mode.step offset c = .ok (segments, next) ∧
      (scanFrom next (offset + 1) rest).2 = none := by
  unfold scanFrom at h
  split at h
  · next segments next hstep =>
      exact ⟨segments, next, hstep, h⟩
  · simp at h

theorem exists_closing {start offset : Nat} {t : Text}
    (h : (scanFrom (.closing start) offset t).2 = none) :
    ∃ n rest offset', t = List.replicate n (.char ' ') ++ .char ']' :: rest ∧
      (scanFrom (.text [] offset') offset' rest).2 = none := by
  induction t generalizing offset with
  | nil =>
      simp [scanFrom, Mode.finish] at h
  | cons c t ih =>
      obtain ⟨segments, next, hstep, hscan⟩ := scanFrom_cons_eq_none h
      by_cases hspace : c = ' '
      · subst hspace
        obtain ⟨-, rfl⟩ : [] = segments ∧ Mode.closing start = next := by
          simpa [Mode.step] using hstep
        obtain ⟨n, rest, offset', rfl, hrest⟩ := ih hscan
        exact ⟨n + 1, rest, offset', by simp [List.replicate_succ], hrest⟩
      · by_cases hbracket : c = ']'
        · subst hbracket
          obtain ⟨-, rfl⟩ : [] = segments ∧ Mode.text [] (offset + 1) = next := by
            simpa [Mode.step] using hstep
          exact ⟨0, t, offset + 1, rfl, hscan⟩
        · simp [Mode.step, hspace, hbracket] at hstep

theorem exists_body {read : Text} {start offset : Nat} {t : Text}
    (h : (scanFrom (.body read start) offset t).2 = none) :
    ∃ b rest offset', t = b ++ .char '$' :: rest ∧ .char '$' ∉ b ∧
      (scanFrom (.closing start) offset' rest).2 = none := by
  induction t generalizing read offset with
  | nil =>
      simp [scanFrom, Mode.finish] at h
  | cons c t ih =>
      obtain ⟨segments, next, hstep, hscan⟩ := scanFrom_cons_eq_none h
      by_cases hdollar : c = '$'
      · subst hdollar
        obtain ⟨-, rfl⟩ : [tag read.reverse start] = segments ∧ Mode.closing start = next := by
          simpa [Mode.step] using hstep
        exact ⟨[], t, offset + 1, rfl, by simp, hscan⟩
      · obtain ⟨-, rfl⟩ : [] = segments ∧ Mode.body (c :: read) start = next := by
          simpa [Mode.step, hdollar] using hstep
        obtain ⟨b, rest, offset', rfl, hb, hrest⟩ := ih hscan
        exact ⟨c :: b, rest, offset', rfl, by simp [hb, Ne.symm hdollar], hrest⟩

theorem exists_dollar {start offset : Nat} {t : Text}
    (h : (scanFrom (.dollar start) offset t).2 = none) :
    ∃ b rest offset', t = b ++ .char '$' :: rest ∧ b ≠ [] ∧ .char '$' ∉ b ∧
      (scanFrom (.closing start) offset' rest).2 = none := by
  cases t with
  | nil =>
      simp [scanFrom, Mode.finish] at h
  | cons c t =>
      obtain ⟨segments, next, hstep, hscan⟩ := scanFrom_cons_eq_none h
      by_cases hdollar : c = '$'
      · simp [Mode.step, hdollar] at hstep
      · obtain ⟨-, rfl⟩ : [] = segments ∧ Mode.body [c] start = next := by
          simpa [Mode.step, hdollar] using hstep
        obtain ⟨b, rest, offset', rfl, hb, hrest⟩ := exists_body hscan
        exact ⟨c :: b, rest, offset', rfl, by simp, by simp [hb, Ne.symm hdollar], hrest⟩

theorem exists_bracket {start offset : Nat} {t : Text}
    (h : (scanFrom (.bracket start) offset t).2 = none) :
    ∃ n rest offset', t = List.replicate n (.char ' ') ++ .char '$' :: rest ∧
      (scanFrom (.dollar start) offset' rest).2 = none := by
  induction t generalizing offset with
  | nil =>
      simp [scanFrom, Mode.finish] at h
  | cons c t ih =>
      obtain ⟨segments, next, hstep, hscan⟩ := scanFrom_cons_eq_none h
      by_cases hspace : c = ' '
      · subst hspace
        obtain ⟨-, rfl⟩ : [] = segments ∧ Mode.bracket start = next := by
          simpa [Mode.step] using hstep
        obtain ⟨n, rest, offset', rfl, hrest⟩ := ih hscan
        exact ⟨n + 1, rest, offset', by simp [List.replicate_succ], hrest⟩
      · by_cases hdollar : c = '$'
        · subst hdollar
          obtain ⟨-, rfl⟩ : [] = segments ∧ Mode.dollar start = next := by
            simpa [Mode.step] using hstep
          exact ⟨0, t, offset + 1, rfl, hscan⟩
        · simp [Mode.step, hspace, hdollar] at hstep

/-- A tag that is scanned without a failure is a tag of the grammar. -/
theorem exists_tag {start offset : Nat} {t : Text}
    (h : (scanFrom (.bracket start) offset t).2 = none) :
    ∃ (tag : WrittenTag) (rest : Text) (offset' : Nat), t = tag.inner ++ rest ∧
      (scanFrom (.text [] offset') offset' rest).2 = none := by
  obtain ⟨opening, afterOpen, offset₁, rfl, hopen⟩ := exists_bracket h
  obtain ⟨body, afterBody, offset₂, rfl, hne, hdollar, hbody⟩ := exists_dollar hopen
  obtain ⟨closing, rest, offset₃, rfl, hclose⟩ := exists_closing hbody
  exact ⟨⟨opening, body, closing, hne, hdollar⟩, rest, offset₃, by simp [WrittenTag.inner], hclose⟩

theorem Item.raw_ne_nil (item : Item) : item.raw ≠ [] := by
  cases item with
  | unit u =>
      exact u.raw_ne_nil
  | tag t =>
      simp [Item.raw, WrittenTag.raw]

/-- A text that is scanned without a failure begins with an item, unless it is empty. -/
theorem exists_item {run : Text} {start offset : Nat} {c : CodePoint} {t : Text}
    (h : (scanFrom (.text run start) offset (c :: t)).2 = none) :
    ∃ (item : Item) (rest run' : Text) (start' offset' : Nat), c :: t = item.raw ++ rest ∧
      (scanFrom (.text run' start') offset' rest).2 = none := by
  obtain ⟨segments, next, hstep, hscan⟩ := scanFrom_cons_eq_none h
  by_cases hbracket : c = '['
  · subst hbracket
    obtain ⟨-, rfl⟩ : Mode.flush run start = segments ∧ Mode.bracket offset = next := by
      simpa [Mode.step] using hstep
    obtain ⟨tag, rest, offset', rfl, hrest⟩ := exists_tag hscan
    exact ⟨.tag tag, rest, [], offset', offset', rfl, hrest⟩
  · by_cases hescape : c = '\\'
    · subst hescape
      obtain ⟨-, rfl⟩ : [] = segments ∧
          Mode.escape (.char '\\' :: run) (if run = [] then offset else start) = next := by
        simpa [Mode.step] using hstep
      cases t with
      | nil =>
          simp [scanFrom, Mode.finish] at hscan
      | cons d t =>
          exact ⟨.unit (.escaped d), t, _, _, _, rfl, hscan⟩
    · obtain ⟨-, rfl⟩ : [] = segments ∧
          Mode.text (c :: run) (if run = [] then offset else start) = next := by
        simpa [Mode.step, hbracket, hescape] using hstep
      exact ⟨.unit (.plain c hbracket hescape), t, _, _, _, rfl, hscan⟩

/-- A text that is scanned without a failure is a sequence of items. -/
theorem exists_items_of_scanFrom {t run : Text} {start offset : Nat}
    (h : (scanFrom (.text run start) offset t).2 = none) :
    ∃ items : List Item, items.flatMap Item.raw = t := by
  induction hlen : t.length using Nat.strong_induction_on generalizing t run start offset with
  | _ n ih =>
      cases t with
      | nil =>
          exact ⟨[], rfl⟩
      | cons c t =>
          obtain ⟨item, rest, run', start', offset', ht, hrest⟩ := exists_item h
          have hpos := List.length_pos_iff.2 item.raw_ne_nil
          have hshorter : rest.length < n := by
            rw [← hlen, ht, List.length_append]
            omega
          obtain ⟨items, rfl⟩ := ih rest.length hshorter hrest rfl
          exact ⟨item :: items, ht.symm⟩

/-- Puts an item before a list of parts; a unit joins the run that it stands before. -/
def Part.cons : Item → List Part → List Part
  | .unit u, .run units _ :: parts => .run (u :: units) (List.cons_ne_nil _ _) :: parts
  | .unit u, parts => .run [u] (List.cons_ne_nil _ _) :: parts
  | .tag t, parts => .tag t :: parts

/-- The parts of a sequence of items. -/
def Part.group (items : List Item) : List Part := items.foldr Part.cons []

theorem raws_cons_item (item : Item) (parts : List Part) :
    raws (Part.cons item parts) = item.raw ++ raws parts := by
  unfold Part.cons
  split <;> simp [Part.raw, Item.raw]

theorem separated_cons (item : Item) {parts : List Part} (h : Separated parts) :
    Separated (Part.cons item parts) := by
  cases item with
  | tag t =>
      exact List.isChain_cons.2 ⟨fun q _ => rfl, h⟩
  | unit u =>
      cases parts with
      | nil =>
          exact .singleton _
      | cons part parts =>
          cases part with
          | run units hne =>
              exact List.isChain_cons.2 ⟨fun q hq => (List.isChain_cons.1 h).1 q hq, h.tail⟩
          | tag t =>
              exact List.isChain_cons_cons.2 ⟨rfl, h⟩

theorem raws_group (items : List Item) : raws (Part.group items) = items.flatMap Item.raw := by
  induction items with
  | nil =>
      rfl
  | cons item items ih =>
      rw [List.flatMap_cons, ← ih]
      exact raws_cons_item item _

theorem separated_group (items : List Item) : Separated (Part.group items) := by
  induction items with
  | nil =>
      exact .nil
  | cons item items ih =>
      exact separated_cons item ih

/-- What comes after a run in a list of separated parts: nothing, or a tag. -/
theorem raws_after_run {units : List TextUnit} {hne : units ≠ []} {parts : List Part}
    (h : Separated (.run units hne :: parts)) :
    raws parts = [] ∨ (raws parts).head? = some (.char '[') := by
  cases parts with
  | nil =>
      exact Or.inl rfl
  | cons part parts =>
      cases part with
      | run units' hne' =>
          have := (List.isChain_cons_cons.1 h).1
          simp [Part.isRun] at this
      | tag t =>
          exact Or.inr rfl

/-- A run ends where a tag begins or the text ends. -/
theorem units_append_inj {units units' : List TextUnit} {s t : Text}
    (hs : s = [] ∨ s.head? = some (.char '[')) (ht : t = [] ∨ t.head? = some (.char '['))
    (h : units.flatMap TextUnit.raw ++ s = units'.flatMap TextUnit.raw ++ t) :
    units = units' ∧ s = t := by
  have hclash (u : TextUnit) (r s : Text) (hs : s = [] ∨ s.head? = some (.char '[')) :
      s ≠ u.raw ++ r := by
    rintro rfl
    rcases hs with hs | hs
    · exact u.raw_ne_nil (List.append_eq_nil_iff.1 hs).1
    · exact u.head_raw_ne r hs
  induction units generalizing units' with
  | nil =>
      cases units' with
      | nil =>
          exact ⟨rfl, h⟩
      | cons u units' =>
          simp only [List.flatMap_nil, List.nil_append, List.flatMap_cons, List.append_assoc] at h
          exact absurd h (hclash u _ s hs)
  | cons u units ih =>
      cases units' with
      | nil =>
          simp only [List.flatMap_nil, List.nil_append, List.flatMap_cons, List.append_assoc] at h
          exact absurd h.symm (hclash u _ t ht)
      | cons v units' =>
          simp only [List.flatMap_cons, List.append_assoc] at h
          obtain ⟨rfl, hrest⟩ := TextUnit.raw_append_inj h
          obtain ⟨rfl, hst⟩ := ih hrest
          exact ⟨rfl, hst⟩

theorem Part.raw_ne_nil (part : Part) : part.raw ≠ [] := by
  cases part with
  | run units hne =>
      cases units with
      | nil => exact absurd rfl hne
      | cons u units => simp [Part.raw, u.raw_ne_nil]
  | tag t =>
      simp [Part.raw, WrittenTag.raw]

/-- A run and a tag begin in different ways. -/
theorem run_append_ne_tag {units : List TextUnit} (hne : units ≠ []) (t : WrittenTag)
    (r s : Text) : units.flatMap TextUnit.raw ++ r ≠ t.raw ++ s := by
  cases units with
  | nil =>
      exact absurd rfl hne
  | cons u units =>
      intro h
      have := u.head_raw_ne (units.flatMap TextUnit.raw ++ r)
      rw [List.flatMap_cons, List.append_assoc] at h
      rw [h] at this
      exact this rfl

/-- A text is cut into separated parts in at most one way. -/
theorem parts_unique {parts parts' : List Part} (hsep : Separated parts)
    (hsep' : Separated parts') (h : raws parts = raws parts') : parts = parts' := by
  induction parts generalizing parts' with
  | nil =>
      cases parts' with
      | nil =>
          rfl
      | cons part' parts' =>
          exact absurd (List.append_eq_nil_iff.1 h.symm).1 part'.raw_ne_nil
  | cons part parts ih =>
      cases parts' with
      | nil =>
          exact absurd (List.append_eq_nil_iff.1 h).1 part.raw_ne_nil
      | cons part' parts' =>
          cases part with
          | run units hne =>
              cases part' with
              | run units' hne' =>
                  obtain ⟨rfl, hrest⟩ := units_append_inj (raws_after_run hsep)
                    (raws_after_run hsep') h
                  obtain rfl := ih hsep.tail hsep'.tail hrest
                  rfl
              | tag t' =>
                  exact absurd h (run_append_ne_tag hne t' _ _)
          | tag t =>
              cases part' with
              | run units' hne' =>
                  exact absurd h.symm (run_append_ne_tag hne' t _ _)
              | tag t' =>
                  obtain ⟨rfl, hrest⟩ := WrittenTag.raw_append_inj h
                  obtain rfl := ih hsep.tail hsep'.tail hrest
                  rfl

/-- A text that is scanned without a failure is cut into separated parts. -/
theorem exists_parts {t : Text} (h : (scan t).2 = none) :
    ∃ parts, Separated parts ∧ raws parts = t := by
  obtain ⟨items, rfl⟩ := exists_items_of_scanFrom h
  exact ⟨Part.group items, separated_group items, raws_group items⟩

/-- A sequence of items is scanned without a failure. -/
theorem scan_items (items : List Item) : (scan (items.flatMap Item.raw)).2 = none := by
  rw [← raws_group, scan_raws (separated_group items)]

/-- The segment in progress has begun before an offset. -/
def Mode.BegunBefore (offset : Nat) : Mode → Prop
  | .text _ _ => True
  | .escape _ _ => 0 < offset
  | .bracket start | .dollar start | .body _ start | .closing start => start < offset

/-- A step goes on in a segment that has begun, or fails at a character that has been read. -/
theorem begunBefore_step {mode : Mode} {offset : Nat} (h : mode.BegunBefore offset)
    (c : CodePoint) :
    match mode.step offset c with
    | .ok (_, next) => next.BegunBefore (offset + 1)
    | .error (_, place) => place ≤ offset := by
  cases mode with
  | text run start =>
      by_cases hb : c = '['
      · simp [Mode.step, hb, Mode.BegunBefore]
      · by_cases hs : c = '\\' <;> simp [Mode.step, hb, hs, Mode.BegunBefore]
  | escape run start =>
      trivial
  | bracket start =>
      have hlt : start < offset := h
      by_cases hspace : c = ' '
      · simp [Mode.step, hspace, Mode.BegunBefore, Nat.lt_succ_of_lt hlt]
      · by_cases hdollar : c = '$' <;>
          simp [Mode.step, hspace, hdollar, Mode.BegunBefore, Nat.lt_succ_of_lt hlt]
  | dollar start =>
      have hlt : start < offset := h
      by_cases hdollar : c = '$' <;>
        simp [Mode.step, hdollar, Mode.BegunBefore, hlt.le, Nat.lt_succ_of_lt hlt]
  | body read start =>
      have hlt : start < offset := h
      by_cases hdollar : c = '$' <;>
        simp [Mode.step, hdollar, Mode.BegunBefore, Nat.lt_succ_of_lt hlt]
  | closing start =>
      have hlt : start < offset := h
      by_cases hspace : c = ' '
      · simp [Mode.step, hspace, Mode.BegunBefore, Nat.lt_succ_of_lt hlt]
      · by_cases hbracket : c = ']' <;> simp [Mode.step, hspace, hbracket, Mode.BegunBefore]

theorem finish_error_lt {mode : Mode} {offset place : Nat} {cause : Malformed}
    (h : mode.BegunBefore offset) (hfail : mode.finish offset = .error (cause, place)) :
    place < offset := by
  cases mode <;> simp only [Mode.BegunBefore] at h <;>
    simp only [Mode.finish, Except.error.injEq, Prod.mk.injEq, reduceCtorEq] at hfail <;> omega

/-- A failure is reported at a character of the text. -/
theorem scanFrom_failure_lt {mode : Mode} {offset place : Nat} {cause : Malformed} {t : Text}
    (h : mode.BegunBefore offset) (hfail : (scanFrom mode offset t).2 = some (cause, place)) :
    place < offset + t.length := by
  induction t generalizing mode offset with
  | nil =>
      simp only [scanFrom] at hfail
      split at hfail
      · simp at hfail
      · next hfinish =>
          obtain rfl := Option.some.inj hfail
          exact finish_error_lt h hfinish
  | cons c t ih =>
      have hstep := begunBefore_step h c
      simp only [scanFrom] at hfail
      rw [List.length_cons]
      split at hfail
      · next segments next hnext =>
          rw [hnext] at hstep
          have := ih hstep hfail
          omega
      · next hnext =>
          obtain rfl := Option.some.inj hfail
          rw [hnext] at hstep
          have : place ≤ offset := hstep
          omega

/-- **The scanner accepts exactly its grammar.**  A text is scanned without a failure if and only if
it is a sequence of units and tags.  It is then cut into separated parts in exactly one way, and the
segments are those of the parts at their offsets.  Any other text is refused with a cause that is
found in it. -/
theorem scan_accepts_grammar (t : Text) :
    ((scan t).2 = none ↔ ∃ items : List Item, items.flatMap Item.raw = t) ∧
    ((scan t).2 = none → ∃ parts, Separated parts ∧ raws parts = t ∧
      (scan t).1 = segmentsFrom 0 parts ∧
      ∀ parts', Separated parts' → raws parts' = t → parts' = parts) ∧
    ((¬ ∃ items : List Item, items.flatMap Item.raw = t) →
      ∃ cause offset, (scan t).2 = some (cause, offset) ∧ offset < t.length) := by
  have haccept : (scan t).2 = none ↔ ∃ items : List Item, items.flatMap Item.raw = t := by
    constructor
    · exact exists_items_of_scanFrom
    · rintro ⟨items, rfl⟩
      exact scan_items items
  refine ⟨haccept, fun h => ?_, fun hno => ?_⟩
  · obtain ⟨parts, hsep, rfl⟩ := exists_parts h
    refine ⟨parts, hsep, rfl, by rw [scan_raws hsep], fun parts' hsep' h' => ?_⟩
    exact parts_unique hsep' hsep h'
  · cases hfail : (scan t).2 with
    | none =>
        exact absurd (haccept.1 hfail) hno
    | some failure =>
        obtain ⟨cause, offset⟩ := failure
        have hbegin : Mode.initial.BegunBefore 0 := trivial
        have hlt := scanFrom_failure_lt hbegin hfail
        exact ⟨cause, offset, rfl, by omega⟩

end Segment
end Stencil
