import Stencil.Proofs.Tag.Fields
import Stencil.Proofs.Token.Source

/-!
# Tags that are written and read again

A tag is written with its tokens one after another, and a space between neighbours.

**Argument.**  In an echo tag each token is read as one field, the quotes of a text literal
protecting its white space.  In a loop tag white space is never protected; but a text literal that
has been read there holds no white space other than line feeds, tabs and carriage returns, and these
are written as escapes.

**Results.**
* `writable_of_ofBody`: what has been read from a tag can be written.
* `ofBody_source`: a tag that can be written is read again, its text literals as
  `Escape.reread` says.
-/

namespace Stencil

namespace Text

@[simp] theorem joinWith_singleton (mark part : Text) : joinWith mark [part] = part := by
  simp [joinWith]

@[simp] theorem joinWith_cons_cons (mark part part' : Text) (parts : List Text) :
    joinWith mark (part :: part' :: parts) = part ++ (mark ++ joinWith mark (part' :: parts)) := by
  simp [joinWith, List.intercalate, List.intersperse]

theorem wordsFrom_append {w : Text} (h : ∀ c ∈ w, isBlank c = false) (current rest : Text) :
    wordsFrom current (w ++ rest) = wordsFrom (w.reverse ++ current) rest := by
  induction w generalizing current with
  | nil =>
      rfl
  | cons c w ih =>
      obtain ⟨hc, hw⟩ := List.forall_mem_cons.1 h
      rw [List.cons_append, wordsFrom, hc, if_neg Bool.false_ne_true, ih hw]
      simp

/-- Words are read back if they are written with spaces between them. -/
theorem words_joinWith {ws : List Text} (h : ∀ w ∈ ws, w ≠ [] ∧ ∀ c ∈ w, isBlank c = false) :
    words (joinWith [' '] ws) = ws := by
  unfold words
  induction ws with
  | nil =>
      rfl
  | cons w ws ih =>
      obtain ⟨⟨hne, hblank⟩, hrest⟩ := List.forall_mem_cons.1 h
      have hws := ih hrest
      have hread : w.reverse ++ [] ≠ [] := by simpa using hne
      cases ws with
      | nil =>
          have hword := wordsFrom_append hblank [] []
          rw [List.append_nil] at hword
          rw [joinWith_singleton, hword, wordsFrom, if_neg hread]
          simp
      | cons w' ws =>
          rw [joinWith_cons_cons, wordsFrom_append hblank, List.singleton_append, wordsFrom,
            if_pos isBlank_space, if_neg hread, hws]
          simp

/-- One space is stripped from the end of a text that has no white space at its ends. -/
theorem strip_append_space {c d : CodePoint} (hc : isBlank c = false) (hd : isBlank d = false)
    (s : Text) : strip (c :: (s ++ [d]) ++ [.char ' ']) = c :: (s ++ [d]) := by
  simp [strip, trim, hc, hd, isBlank_space]

end Text

namespace Field

/-- A text that is read as one field, if white space follows. -/
def IsWhole (field : Text) : Prop :=
  ∀ rest, splitFrom .gap (field ++ rest) = splitFrom (.plain field.reverse) rest

theorem isWhole_of_isField {f : Text} (h : IsField f) : IsWhole f := h.splitFrom_gap

theorem exists_bare_pieces {f : Text} (h : ∀ c ∈ f, Text.isInert c = true) :
    ∃ pieces : List Piece, pieces.flatMap Piece.raw = f := by
  induction f with
  | nil =>
      exact ⟨[], rfl⟩
  | cons c f ih =>
      obtain ⟨hc, hf⟩ := List.forall_mem_cons.1 h
      obtain ⟨pieces, rfl⟩ := ih hf
      exact ⟨.bare c (Text.isBlank_of_isInert hc) (Text.ne_quote_of_isInert hc) :: pieces, rfl⟩

theorem isWhole_of_isInert {f : Text} (hne : f ≠ []) (h : ∀ c ∈ f, Text.isInert c = true) :
    IsWhole f := by
  obtain ⟨pieces, rfl⟩ := exists_bare_pieces h
  refine isWhole_of_isField ⟨pieces, fun hnil => hne ?_, rfl⟩
  rw [hnil, List.flatMap_nil]

/-- A character of a text literal is written as it stands, or after a backslash. -/
theorem exists_enclosed_writeChar (c : CodePoint) :
    ∃ u : Enclosed, u.raw = Escape.writeChar c := by
  unfold Escape.writeChar
  split_ifs with hslash hquote
  · exact ⟨.escaped '\\', rfl⟩
  · exact ⟨.escaped '"', rfl⟩
  · exact ⟨.escaped 'n', rfl⟩
  · exact ⟨.escaped 't', rfl⟩
  · exact ⟨.escaped 'r', rfl⟩
  · exact ⟨.plain c hquote hslash, rfl⟩

theorem exists_enclosed_write (t : Text) :
    ∃ inner : List Enclosed, inner.flatMap Enclosed.raw = Escape.write t := by
  induction t with
  | nil =>
      exact ⟨[], rfl⟩
  | cons c t ih =>
      obtain ⟨u, hu⟩ := exists_enclosed_writeChar c
      obtain ⟨inner, hinner⟩ := ih
      exact ⟨u :: inner, by rw [List.flatMap_cons, hu, hinner]; rfl⟩

theorem isWhole_quoted (t : Text) : IsWhole (.char '"' :: Escape.write t ++ [.char '"']) := by
  obtain ⟨inner, hinner⟩ := exists_enclosed_write t
  refine isWhole_of_isField ⟨[.quoted inner], List.cons_ne_nil _ _, ?_⟩
  rw [List.flatMap_singleton, Piece.raw, hinner, List.cons_append]

/-- Whole fields are read back if they are written with spaces between them. -/
theorem split?_joinWith {fields : List Text} (h : ∀ f ∈ fields, IsWhole f) :
    split? (Text.joinWith [' '] fields) = some fields := by
  unfold split?
  induction fields with
  | nil =>
      rfl
  | cons f fields ih =>
      obtain ⟨hwhole, hrest⟩ := List.forall_mem_cons.1 h
      have hfields := ih hrest
      cases fields with
      | nil =>
          have hread := hwhole []
          rw [List.append_nil] at hread
          rw [Text.joinWith_singleton, hread]
          simp [splitFrom]
      | cons f' fields =>
          rw [Text.joinWith_cons_cons, hwhole, List.singleton_append, splitFrom_cons]
          simp [Mode.step, Text.isBlank_space, hfields]

end Field

namespace Token

theorem isWhole_source {t : Token} (h : t.Readable) : Field.IsWhole t.source := by
  by_cases htext : ∃ s, t = .text s
  · obtain ⟨s, rfl⟩ := htext
    exact Field.isWhole_quoted s
  · exact Field.isWhole_of_isInert (source_ne_nil h) fun c hc =>
      isInert_of_mem_source h (fun s hs => htext ⟨s, hs⟩) hc

theorem sources_cons_cons (t t' : Token) (tokens : List Token) :
    sources (t :: t' :: tokens) = t.source ++ .char ' ' :: sources (t' :: tokens) :=
  Text.joinWith_cons_cons _ _ _ _

/-- The tokens of a tag are not written with white space at their end. -/
theorem exists_sources_eq_append {tokens : List Token} (hne : tokens ≠ [])
    (h : ∀ t ∈ tokens, t.Readable) : ∃ s c, sources tokens = s ++ [c] ∧ Text.isBlank c = false := by
  induction tokens with
  | nil =>
      exact absurd rfl hne
  | cons t tokens ih =>
      obtain ⟨ht, hrest⟩ := List.forall_mem_cons.1 h
      cases tokens with
      | nil =>
          obtain ⟨s, c, hs, hc⟩ := exists_source_eq_append ht
          exact ⟨s, c, by rw [← hs]; exact Text.joinWith_singleton _ _, hc⟩
      | cons t' tokens =>
          obtain ⟨s, c, hs, hc⟩ := ih (List.cons_ne_nil _ _) hrest
          exact ⟨t.source ++ .char ' ' :: s, c, by rw [sources_cons_cons, hs]; simp, hc⟩

theorem mem_sources {tokens : List Token} {c : CodePoint} (h : c ∈ sources tokens) :
    c = ' ' ∨ ∃ t ∈ tokens, c ∈ t.source := by
  induction tokens with
  | nil =>
      simp [sources, Text.joinWith] at h
  | cons t tokens ih =>
      cases tokens with
      | nil =>
          exact Or.inr ⟨t, List.mem_cons_self, by simpa [sources] using h⟩
      | cons t' tokens =>
          rw [sources_cons_cons] at h
          rcases List.mem_append.1 h with hc | hc
          · exact Or.inr ⟨t, List.mem_cons_self, hc⟩
          · rcases List.mem_cons.1 hc with rfl | hc
            · exact Or.inl rfl
            · refine (ih hc).imp_right ?_
              rintro ⟨t'', ht, hc⟩
              exact ⟨t'', List.mem_cons_of_mem _ ht, hc⟩

theorem mapM_ofField {tokens : List Token} (h : ∀ t ∈ tokens, t.Readable) :
    (tokens.map source).mapM ofField = .ok (tokens.map reread) := by
  induction tokens with
  | nil =>
      rfl
  | cons t tokens ih =>
      obtain ⟨ht, hrest⟩ := List.forall_mem_cons.1 h
      rw [List.map_cons, List.mapM_cons, ofField_source ht]
      exact bind_eq_ok_iff.2 ⟨_, rfl, bind_eq_ok_iff.2 ⟨_, ih hrest, rfl⟩⟩

end Token

/-- A loop after it has been written and read again. -/
def LoopHead.reread (head : LoopHead) : LoopHead :=
  ⟨head.counter, head.first.reread, head.last.reread, head.step.map Token.reread⟩

namespace Tag

/-- A tag as it is written between its dollar signs. -/
def source : Tag → Text
  | .echo tokens => .char '=' :: .char ' ' :: (Token.sources tokens ++ [.char ' '])
  | .loop head => 'F' :: 'O' :: 'R' :: ' ' :: (Token.sources head.arguments ++ [.char ' '])
  | .close => ['E', 'N', 'D']

/-- A tag after it has been written and read again. -/
def reread : Tag → Tag
  | .echo tokens => .echo (tokens.map Token.reread)
  | .loop head => .loop head.reread
  | .close => .close

/-- The tokens of the tag can be written in it: they hold no dollar sign, and in a loop no white
space. -/
structure Writable (tag : Tag) : Prop where
  readable : ∀ t ∈ tag.tokens, t.Readable
  no_dollar : ∀ t ∈ tag.tokens, .char '$' ∉ t.source
  echo_ne_nil : tag ≠ .echo []
  no_blank : ∀ head, tag = .loop head → ∀ t ∈ head.arguments, ∀ c ∈ t.source, Text.isBlank c = false

theorem readable_of_reads {field : Text} {t : Token} (h : Reads field t) : t.Readable :=
  Token.readable_of_ofField h

/-- The characters of a token that has been read are inert, or come from the field, or are those
that escapes are written with. -/
theorem mem_source_of_reads {field : Text} {t : Token} {c : CodePoint} (h : Reads field t)
    (hc : c ∈ t.source) : Text.isInert c = true ∨ (c ∈ field ∧ c ∉ (['\n', '\t', '\r'] : Text)) ∨
      c ∈ (['\\', '"', 'n', 't', 'r'] : Text) := by
  by_cases htext : ∃ s, t = .text s
  · obtain ⟨s, rfl⟩ := htext
    refine Or.inr ?_
    have hquote : c = '"' ∨ c ∈ Escape.write s := by simpa [Token.source, or_comm] using hc
    rcases hquote with rfl | hwrite
    · exact Or.inr (by decide)
    · rcases Escape.mem_write hwrite with ⟨hs, hnot⟩ | hpair
      · rcases Token.mem_field_of_mem_text h hs with hfield | hescaped
        · exact Or.inl ⟨hfield, hnot⟩
        · refine Or.inr ?_
          simp only [List.mem_cons, List.not_mem_nil, or_false, not_or] at hescaped hnot ⊢
          tauto
      · exact Or.inr hpair
  · exact Or.inl (Token.isInert_of_mem_source (readable_of_reads h) (fun s hs => htext ⟨s, hs⟩) hc)

/-- What has been read from a tag can be written. -/
theorem writable_of_ofBody {body : Text} {tag : Tag} (hbody : .char '$' ∉ body)
    (h : ofBody body = .ok tag) : tag.Writable := by
  have hdollar {field : Text} {t : Token} (hsub : field ⊆ body) (hread : Reads field t) :
      .char '$' ∉ t.source := by
    intro hc
    rcases mem_source_of_reads hread hc with hinert | ⟨hfield, -⟩ | hpair
    · exact Text.ne_dollar_of_isInert hinert rfl
    · exact hbody (hsub hfield)
    · exact absurd hpair (by decide)
  obtain ⟨fields, hfields, hall⟩ := fields_of_ofBody h
  refine ⟨fun t ht => ?_, fun t ht => ?_, ?_, ?_⟩
  · obtain ⟨field, -, hread⟩ := exists_of_forall₂ hall ht
    exact readable_of_reads hread
  · obtain ⟨field, hfield, hread⟩ := exists_of_forall₂ hall ht
    exact hdollar (hfields field hfield) hread
  · rintro rfl
    rcases ofBody_cases h with ⟨rest, -, hecho⟩ | hclose | ⟨rest, -, hloop⟩
    · obtain ⟨fields, tokens, -, hne, heq, hall⟩ := forall₂_of_ofEcho hecho
      obtain rfl := Tag.echo.inj heq
      cases hall
      exact hne rfl
    · simp at hclose
    · obtain ⟨head, heq, -⟩ := forall₂_of_ofLoop hloop
      simp at heq
  · rintro head rfl t ht c hc
    have hpair : (['\\', '"', 'n', 't', 'r'] : Text).all (fun c => !Text.isBlank c) = true := by
      decide
    rcases ofBody_cases h with ⟨rest, -, hecho⟩ | hclose | ⟨rest, -, hloop⟩
    · obtain ⟨fields, tokens, -, -, heq, -⟩ := forall₂_of_ofEcho hecho
      simp at heq
    · simp at hclose
    · obtain ⟨head', heq, hall⟩ := forall₂_of_ofLoop hloop
      obtain rfl := Tag.loop.inj heq
      obtain ⟨field, hfield, hread⟩ := exists_of_forall₂ hall ht
      rcases mem_source_of_reads hread hc with hinert | ⟨hmem, -⟩ | hescape
      · exact Text.isBlank_of_isInert hinert
      · exact (Text.mem_of_mem_words hfield hmem).2
      · have hsolid := List.all_eq_true.1 hpair c hescape
        simpa using hsolid

/-- A tag is written without dollar signs. -/
theorem dollar_not_mem_source {tag : Tag} (h : tag.Writable) : .char '$' ∉ tag.source := by
  have htokens : .char '$' ∉ Token.sources tag.tokens := by
    intro hmem
    rcases Token.mem_sources hmem with heq | ⟨t, ht, hc⟩
    · exact absurd heq (by decide)
    · exact h.no_dollar t ht hc
  cases tag with
  | echo tokens => simpa [source, Tag.tokens] using htokens
  | loop head => simpa [source, Tag.tokens] using htokens
  | close => decide

theorem source_ne_nil (tag : Tag) : tag.source ≠ [] := by
  cases tag <;> simp [source]

-- The space before the last dollar sign is stripped, and the one after the equals sign is a gap.
theorem ofBody_echo {tokens : List Token} (hne : tokens ≠ []) (h : ∀ t ∈ tokens, t.Readable) :
    ofBody (source (.echo tokens)) = .ok (.echo (tokens.map Token.reread)) := by
  obtain ⟨s, c, hs, hc⟩ := Token.exists_sources_eq_append hne h
  have hstrip : Text.strip (source (.echo tokens)) =
      .char '=' :: .char ' ' :: Token.sources tokens := by
    rw [hs]
    have hends := Text.strip_append_space (c := '=') (by decide) hc (.char ' ' :: s)
    simpa [source, hs] using hends
  have hsplit : Field.split? (.char ' ' :: Token.sources tokens) =
      some (tokens.map Token.source) := by
    have hfields : ∀ f ∈ tokens.map Token.source, Field.IsWhole f := by
      intro f hf
      obtain ⟨t, ht, rfl⟩ := List.mem_map.1 hf
      exact Token.isWhole_source (h t ht)
    have hread := Field.split?_joinWith hfields
    have hskip : Field.split? (.char ' ' :: Token.sources tokens) =
        Field.split? (Token.sources tokens) := by
      unfold Field.split?
      rw [Field.splitFrom_cons]
      simp [Field.Mode.step, Text.isBlank_space]
    rw [hskip]
    exact hread
  have hmap : tokens.map Token.source ≠ [] := by simpa using hne
  have hfields : fields (.char ' ' :: Token.sources tokens) = .ok (tokens.map Token.source) := by
    rw [fields, hsplit]
  rw [ofBody, hstrip]
  show ofEcho (.char ' ' :: Token.sources tokens) = _
  refine bind_eq_ok_iff.2 ⟨_, hfields, ?_⟩
  split
  · next heq =>
      exact absurd heq hmap
  · exact bind_eq_ok_iff.2 ⟨_, Token.mapM_ofField h, rfl⟩

theorem ofLoop_arguments {head : LoopHead} (h : ∀ t ∈ head.arguments, t.Readable) :
    ofLoop (head.arguments.map Token.source) = .ok (.loop head.reread) := by
  obtain ⟨counter, first, last, step⟩ := head
  have hcounter : counterOf (Token.source (.var counter)) = .ok counter := by
    rw [counterOf, Token.ofField_source (h _ List.mem_cons_self)]
    rfl
  have hfirst := Token.ofField_source (h first (by simp [LoopHead.arguments]))
  have hlast := Token.ofField_source (h last (by simp [LoopHead.arguments]))
  cases step with
  | none =>
      show ofLoop [Token.source (.var counter), first.source, last.source] = _
      simp only [ofLoop, hcounter, hfirst, hlast]
      rfl
  | some step =>
      have hstep := Token.ofField_source (h step (by simp [LoopHead.arguments]))
      show ofLoop [Token.source (.var counter), first.source, last.source, step.source] = _
      simp only [ofLoop, hcounter, hfirst, hlast, hstep]
      rfl

theorem ofBody_loop {head : LoopHead} (h : ∀ t ∈ head.arguments, t.Readable)
    (hblank : ∀ t ∈ head.arguments, ∀ c ∈ t.source, Text.isBlank c = false) :
    ofBody (source (.loop head)) = .ok (.loop head.reread) := by
  have hne : head.arguments ≠ [] := by simp [LoopHead.arguments]
  obtain ⟨s, c, hs, hc⟩ := Token.exists_sources_eq_append hne h
  have hstrip : Text.strip (source (.loop head)) =
      .char 'F' :: .char 'O' :: .char 'R' :: .char ' ' :: Token.sources head.arguments := by
    rw [hs]
    have hends := Text.strip_append_space (c := 'F') (by decide) hc ('O' :: 'R' :: ' ' :: s)
    simpa [source, hs] using hends
  have hwords : Text.words (.char ' ' :: Token.sources head.arguments) =
      head.arguments.map Token.source := by
    have hall : ∀ w ∈ head.arguments.map Token.source,
        w ≠ [] ∧ ∀ c ∈ w, Text.isBlank c = false := by
      intro w hw
      obtain ⟨t, ht, rfl⟩ := List.mem_map.1 hw
      exact ⟨Token.source_ne_nil (h t ht), hblank t ht⟩
    rw [Text.words, Text.wordsFrom, if_pos Text.isBlank_space, if_pos rfl]
    exact Text.words_joinWith hall
  have hfor : afterFor? ('F' :: 'O' :: 'R' :: ' ' :: Token.sources head.arguments) =
      some (.char ' ' :: Token.sources head.arguments) := by
    have hcase : (['F', 'O', 'R'] : Text).map CodePoint.toUpper =
        [.char 'F', .char 'O', .char 'R'] := by decide
    simp only [afterFor?, List.head?_cons, Option.all_some, Text.isBlank_space, hcase, and_self,
      if_true]
  have hend : (.char 'F' :: .char 'O' :: .char 'R' :: .char ' ' ::
      Token.sources head.arguments).map CodePoint.toUpper ≠
        [.char 'E', .char 'N', .char 'D'] := by
    intro heq
    exact absurd (List.cons.inj heq).1 (by decide)
  rw [ofBody, hstrip]
  unfold ofStripped
  split
  · next heq =>
      simp at heq
  · next heq =>
      exact absurd (List.cons.inj heq).1 (by decide)
  · rw [if_neg hend]
    simp only [hfor, hwords, ofLoop_arguments h]

/-- A tag that can be written is read again, its text literals as `Escape.reread` says. -/
theorem ofBody_source {tag : Tag} (h : tag.Writable) : ofBody tag.source = .ok tag.reread := by
  cases tag with
  | echo tokens =>
      have hne : tokens ≠ [] := by
        rintro rfl
        exact h.echo_ne_nil rfl
      exact ofBody_echo hne h.readable
  | loop head =>
      exact ofBody_loop h.readable (h.no_blank head rfl)
  | close =>
      rfl

end Tag
end Stencil
