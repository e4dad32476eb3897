import Stencil.Proofs.Document.Source

/-!
# Documents that are written and read again

The text of a document that has been read is read again, and what is read has the same shape:
`Document.Matches` compares two documents token by token, and leaves offsets aside.

**Argument.**  The text is scanned into segments that say the same events as the template
(`scan_source`), and events with a given shape are those of a tree (`exists_nodes`).  So the two
trees differ at most in their text literals, each of which has become what `Escape.reread` says.

**Results.**  `parse_source_alike_iff` says that the text is read again, and that what is read is
the document itself exactly if no text literal holds a backslash before `n`, `t` or `r`.  A document
that has been read holds no such literal.
-/

namespace Stencil

/-- Two tokens compare equal.  Doubles do so as numbers: a zero equals a negative zero. -/
def Token.Alike : Token → Token → Prop
  | .number (.double x), .number (.double y) =>
      x = y ∨ (Double.magnitude x = 0 ∧ Double.magnitude y = 0)
  | t, t' => t = t'

mutual

/-- Two nodes have the same shape, and related tokens at the same places. -/
def Node.Matches (R : Token → Token → Prop) : Node → Node → Prop
  | .text content, .text content' => content = content'
  | .echo tokens, .echo tokens' => List.Forall₂ R tokens tokens'
  | .loop head _ body, .loop head' _ body' =>
      List.Forall₂ R head.arguments head'.arguments ∧ Document.Matches R body body'
  | _, _ => False

/-- Two documents have the same shape, and related tokens at the same places. -/
def Document.Matches (R : Token → Token → Prop) : List Node → List Node → Prop
  | [], [] => True
  | node :: rest, node' :: rest' => node.Matches R node' ∧ Document.Matches R rest rest'
  | _, _ => False

end

theorem forall₂_map_iff {f : Token → Token} {R : Token → Token → Prop} {tokens tokens' : List Token}
    (h : List.Forall₂ (fun t t' => t' = f t) tokens tokens') :
    List.Forall₂ R tokens tokens' ↔ ∀ t ∈ tokens, R t (f t) := by
  induction h with
  | nil =>
      simp
  | cons hab _ ih =>
      subst hab
      simp [ih]

mutual

theorem Node.matches_iff (f : Token → Token) (R : Token → Token → Prop) :
    ∀ node node' : Node, node.Matches (fun t t' => t' = f t) node' →
      (node.Matches R node' ↔ ∀ t ∈ node.tokens, R t (f t))
  | .text content, node', h => by
      cases node' with
      | text content' => simpa [Node.Matches, Node.tokens] using h
      | echo tokens' => exact h.elim
      | loop head' offset' body' => exact h.elim
  | .echo tokens, node', h => by
      cases node' with
      | text content' => exact h.elim
      | echo tokens' => exact forall₂_map_iff h
      | loop head' offset' body' => exact h.elim
  | .loop head offset body, node', h => by
      cases node' with
      | text content' => exact h.elim
      | echo tokens' => exact h.elim
      | loop head' offset' body' =>
          simp only [Node.Matches, Node.tokens, List.forall_mem_append] at h ⊢
          rw [forall₂_map_iff h.1, Document.matches_iff f R body body' h.2]

/-- If the tokens of the second document are the images of those of the first one, then a relation
holds between the documents exactly if it holds between each token and its image. -/
theorem Document.matches_iff (f : Token → Token) (R : Token → Token → Prop) :
    ∀ d d' : List Node, Document.Matches (fun t t' => t' = f t) d d' →
      (Document.Matches R d d' ↔ ∀ t ∈ Document.tokens d, R t (f t))
  | [], d', h => by
      cases d' with
      | nil => simp [Document.Matches, Document.tokens]
      | cons node' rest' => exact h.elim
  | node :: rest, d', h => by
      cases d' with
      | nil => exact h.elim
      | cons node' rest' =>
          simp only [Document.Matches, Document.tokens, List.forall_mem_append] at h ⊢
          rw [Node.matches_iff f R node node' h.1, Document.matches_iff f R rest rest' h.2]

end

/-- The tokens of the second document are those of the first one, written and read again. -/
abbrev Document.Rereads (d d' : List Node) : Prop :=
  Document.Matches (fun t t' => t' = t.reread) d d'

theorem LoopHead.arguments_reread (head : LoopHead) :
    head.reread.arguments = head.arguments.map Token.reread := by
  obtain ⟨counter, first, last, step⟩ := head
  cases step <;> rfl

theorem forall₂_map_reread (tokens : List Token) :
    List.Forall₂ (fun t t' => t' = t.reread) tokens (tokens.map Token.reread) :=
  List.forall₂_map_right_iff.2 (List.forall₂_same.2 fun _ _ => rfl)

mutual

theorem Node.exists_node : ∀ (node : Node) (later events' : List Event),
    List.Forall₂ Event.Rereads (node.events ++ later) events' →
      ∃ node' later', events' = Node.events node' ++ later' ∧
        node.Matches (fun t t' => t' = t.reread) node' ∧ List.Forall₂ Event.Rereads later later'
  | .text content, later, events', h => by
      cases h with
      | @cons _ e' _ later' he hlater =>
          obtain ⟨_, rfl⟩ := he
          exact ⟨.text content, later', rfl, rfl, hlater⟩
  | .echo tokens, later, events', h => by
      cases h with
      | @cons _ e' _ later' he hlater =>
          obtain ⟨_, rfl⟩ := he
          exact ⟨.echo (tokens.map Token.reread), later', rfl, forall₂_map_reread tokens, hlater⟩
  | .loop head offset body, later, events', h => by
      -- The body is followed by the end of the loop, which the body of the other loop stops at.
      have hevents : Node.events (.loop head offset body) ++ later =
          .enter head offset :: (Document.events body ++ .leave :: later) := by
        simp [Node.events]
      rw [hevents] at h
      cases h with
      | @cons _ e' _ rest' he hrest =>
          obtain ⟨offset', rfl⟩ := he
          obtain ⟨body', rest, rfl, hmatch, hrest⟩ := Document.exists_nodes body _ _ hrest
          cases hrest with
          | @cons _ e' _ later' hleave hlater =>
              obtain ⟨_, rfl⟩ := hleave
              refine ⟨.loop head.reread offset' body', later', ?_, ⟨?_, hmatch⟩, hlater⟩
              · simp [Node.events, Event.reread]
              · rw [LoopHead.arguments_reread]
                exact forall₂_map_reread head.arguments

/-- What the events of a tree are read again as are the events of a tree of the same shape. -/
theorem Document.exists_nodes : ∀ (nodes : List Node) (later events' : List Event),
    List.Forall₂ Event.Rereads (Document.events nodes ++ later) events' →
      ∃ nodes' later', events' = Document.events nodes' ++ later' ∧
        Document.Rereads nodes nodes' ∧ List.Forall₂ Event.Rereads later later'
  | [], _, events', h => ⟨[], events', rfl, trivial, h⟩
  | node :: rest, later, events', h => by
      rw [Document.events, List.append_assoc] at h
      obtain ⟨node', events₁, rfl, hnode, h⟩ := Node.exists_node node _ _ h
      obtain ⟨rest', later', rfl, hrest, h⟩ := Document.exists_nodes rest _ _ h
      refine ⟨node' :: rest', later', ?_, ⟨hnode, hrest⟩, h⟩
      rw [Document.events, List.append_assoc]

end

namespace Document

/-- The text of a document that has been read is read again, as a document of the same shape. -/
theorem exists_reread {t : Text} {d : Document} (h : parse t = .ok d) :
    ∃ d', parse (source d) = .ok d' ∧ Rereads d d' := by
  obtain ⟨segments, events', hscan, hsays, hreread⟩ := scan_source h
  obtain ⟨d', later, rfl, hmatch, hlater⟩ := exists_nodes d [] events' (by simpa using hreread)
  cases hlater
  rw [List.append_nil] at hsays
  exact ⟨d', parse_eq_ok_iff.2 ⟨segments, hscan, hsays⟩, hmatch⟩

end Document

/-- A token is alike what it is read again as exactly if it is the same. -/
theorem Token.alike_reread_iff {t : Token} :
    t.Alike t.reread ↔
      ∀ s, t = .text s → ∀ l ∈ (['n', 't', 'r'] : Text), ¬ [.char '\\', l] <:+: s := by
  cases t with
  | number n => cases n <;> simp [reread, Alike]
  | text s =>
      constructor
      · intro h s' hs
        obtain rfl := Token.text.inj hs
        exact Escape.reread_eq_iff.1 (Token.text.inj h).symm
      · intro h
        exact congrArg Token.text (Escape.reread_eq_iff.2 (h s rfl)).symm
  | var x => simp [reread, Alike]
  | call x => simp [reread, Alike]
  | operator op => simp [reread, Alike]

namespace Document

/-- A document that was read from some text is written as a text that is read again, and what is
read equals the document exactly if no text literal, at any depth, holds a backslash before `n`, `t`
or `r`; without any backslash it does.  Nothing that has been read holds one of these pairs, so that
the two documents are always the same, up to their offsets. -/
theorem parse_source_alike_iff {t : Text} {d : Document} (hparse : parse t = .ok d) :
    ∃ d', parse (source d) = .ok d' ∧
      (Matches Token.Alike d d' ↔
        ∀ s, Token.text s ∈ tokens d → ∀ l ∈ (['n', 't', 'r'] : Text), ¬ [.char '\\', l] <:+: s) ∧
      ((∀ s, Token.text s ∈ tokens d → .char '\\' ∉ s) → Matches Token.Alike d d') ∧
      Matches (· = ·) d d' := by
  obtain ⟨d', hread, hmatch⟩ := exists_reread hparse
  have hiff : Matches Token.Alike d d' ↔
      ∀ s, Token.text s ∈ tokens d → ∀ l ∈ (['n', 't', 'r'] : Text), ¬ [.char '\\', l] <:+: s := by
    rw [matches_iff Token.reread Token.Alike d d' hmatch]
    constructor
    · intro h s hs
      exact Token.alike_reread_iff.1 (h _ hs) s rfl
    · rintro h token htoken
      refine Token.alike_reread_iff.2 ?_
      rintro s rfl
      exact h s htoken
  refine ⟨d', hread, hiff, fun hslash => hiff.2 fun s hs l _ hoccurs => ?_, ?_⟩
  · exact hslash s hs (hoccurs.subset List.mem_cons_self)
  · rw [matches_iff Token.reread _ d d' hmatch]
    intro token htoken
    have hreadable := readable_of_mem_tokens hparse token htoken
    cases token with
    | text s =>
        obtain ⟨body, rfl⟩ := hreadable
        exact congrArg Token.text (Escape.reread_eq_iff.2 (Escape.not_infix_read body)).symm
    | number n => rfl
    | var x => rfl
    | call x => rfl
    | operator op => rfl

/-- A bracket in a text, and a loop whose last value is a text literal of one backslash. -/
def bracketAndLoop : Document :=
  [.text ['a', '['],
    .loop ⟨['i'], .number (.int 1), .text ['\\'], none⟩ 3 [.echo [.text ['"'], .var ['i']]]]

/-- In the loop tag the backslash does not protect the quote after it, but it is written twice. -/
theorem parse_source_of_bracketAndLoop :
    parse "a\\[[$FOR i 1 \"\\\" $][$=\"\\\"\" i$][$END$]".toText = .ok bracketAndLoop ∧
      ∃ d', parse (source bracketAndLoop) = .ok d' ∧ Matches (· = ·) bracketAndLoop d' := by
  have hparse : parse "a\\[[$FOR i 1 \"\\\" $][$=\"\\\"\" i$][$END$]".toText =
      .ok bracketAndLoop := by rfl
  obtain ⟨d', hread, -, -, hsame⟩ := parse_source_alike_iff hparse
  exact ⟨hparse, d', hread, hsame⟩

end Document
end Stencil
