import Stencil.Proofs.Number.Literal
import Stencil.Proofs.Tag.Tokens
import Stencil.Proofs.Token.Escape
import Stencil.Proofs.Token.Read

/-!
# Tokens that are written and read again

**Results.**
* `ofField_source`: a token that has been read from some field is, once it is written, read as
  itself, except that a text literal is read as `Escape.reread` says.
* `isInert_of_mem_source`: apart from text literals, a token is written without white space, quotes
  and dollar signs.
-/

namespace Stencil

namespace Text

/-- A character that does not end a field or a tag, and opens no quoted part. -/
def isInert (c : CodePoint) : Bool := !isBlank c && c != '$' && c != '"'

theorem isBlank_of_isInert {c : CodePoint} (h : isInert c = true) : isBlank c = false := by
  simp only [isInert, Bool.and_eq_true, Bool.not_eq_true'] at h
  exact h.1.1

theorem ne_dollar_of_isInert {c : CodePoint} (h : isInert c = true) : c ≠ '$' := by
  rintro rfl
  exact absurd h (by decide)

theorem ne_quote_of_isInert {c : CodePoint} (h : isInert c = true) : c ≠ '"' := by
  rintro rfl
  exact absurd h (by decide)

/-- Two classes of characters whose ranges are apart have no character in common. -/
theorem Ranges.holds_eq_false {letters blanks : Ranges} {c : CodePoint}
    (h : ∀ p ∈ letters, ∀ q ∈ blanks, p.2 < q.1 ∨ q.2 < p.1) (hc : letters.holds c = true) :
    blanks.holds c = false := by
  obtain ⟨p, hp, hlow, hhigh⟩ := (Ranges.holds_iff _ _).1 hc
  refine Bool.eq_false_iff.2 fun hblank => ?_
  obtain ⟨q, hq, hlow', hhigh'⟩ := (Ranges.holds_iff _ _).1 hblank
  have hapart := h p hp q hq
  omega

theorem isInert_of_isPlain {c : CodePoint} (h : isPlain c = true) : isInert c = true := by
  have hall : ∀ n < 128, isPlain (Char.ofNat n) = true → isInert (Char.ofNat n) = true := by
    decide +kernel
  have hlt := isPlain_lt h
  cases c with
  | char c =>
      have hc := hall c.toNat hlt
      rw [Char.ofNat_toNat] at hc
      exact hc h
  | surrogate n =>
      have hge : 0xD800 ≤ (CodePoint.surrogate n).toNat := Nat.le_add_right _ _
      omega

theorem isInert_of_holds {ranges : Ranges} {c : CodePoint} (hascii : ¬ c.toNat < 128)
    (h : ∀ p ∈ ranges, ∀ q ∈ blankRanges, p.2 < q.1 ∨ q.2 < p.1)
    (hc : ranges.holds c = true) : isInert c = true := by
  have hblank : isBlank c = false := Ranges.holds_eq_false h hc
  have hdollar : c ≠ '$' := by
    rintro rfl
    exact hascii (by decide)
  have hquote : c ≠ '"' := by
    rintro rfl
    exact hascii (by decide)
  simp [isInert, hblank, hdollar, hquote]

theorem isInert_of_isLetter {c : CodePoint} (h : isLetter c = true) : isInert c = true := by
  unfold isLetter at h
  split at h
  · exact isInert_of_isPlain (by simp [isPlain, CodePoint.isAlphanum, h])
  · next hascii =>
      exact isInert_of_holds hascii (by decide +kernel) h

theorem isInert_of_isDecimalDigit {c : CodePoint} (h : isDecimalDigit c = true) :
    isInert c = true := by
  unfold isDecimalDigit at h
  split at h
  · exact isInert_of_isPlain (isPlain_of_isDigit h)
  · next hascii =>
      exact isInert_of_holds hascii (by decide +kernel) h

end Text

open Text

theorem isName_cons {c : CodePoint} {rest : Text} (h : isName (c :: rest) = true) :
    isLetter c = true ∧ ∀ d ∈ rest, isInert d = true := by
  simp only [isName, Bool.and_eq_true, List.all_eq_true, Bool.or_eq_true, beq_iff_eq] at h
  refine ⟨h.1, fun d hd => ?_⟩
  rcases h.2 d hd with (hletter | hdigit) | rfl
  · exact isInert_of_isLetter hletter
  · exact isInert_of_isDecimalDigit hdigit
  · decide

theorem isInert_of_mem_name {x : Text} (h : isName x = true) {c : CodePoint} (hc : c ∈ x) :
    isInert c = true := by
  cases x with
  | nil =>
      simp at hc
  | cons d rest =>
      obtain ⟨hd, hrest⟩ := isName_cons h
      rcases List.mem_cons.1 hc with rfl | hc
      · exact isInert_of_isLetter hd
      · exact hrest c hc

theorem isLetter_ne {c d : CodePoint} (h : isLetter c = true) (hd : isLetter d = false) :
    c ≠ d := by
  rintro rfl
  rw [hd] at h
  exact Bool.false_ne_true h

/-- A text that begins like no number is none. -/
theorem Number.ofLiteral?_cons_eq_none {c : CodePoint} (hdigit : c.isDigit = false)
    (h : c ∉ (['+', '-', '.', 'N', 'I'] : Text)) (rest : Text) :
    ofLiteral? (c :: rest) = .ok none := by
  simp only [List.mem_cons, List.not_mem_nil, or_false, not_or] at h
  obtain ⟨hplus, hminus, hpoint, hnan, hinfinity⟩ := h
  have hint : int64? (c :: rest) = .ok none := by
    simp only [int64?, Numeral.integer?_eq_none List.mem_cons_self hdigit hminus hplus]
  have hsign : Numeral.splitSign (c :: rest) = (false, c :: rest) := by
    unfold Numeral.splitSign
    split <;> simp_all
  have hbody : c :: rest ≠ "NaN".toText ∧ c :: rest ≠ "Infinity".toText :=
    ⟨fun heq => hnan (List.cons.inj heq).1, fun heq => hinfinity (List.cons.inj heq).1⟩
  have hdrop : (c :: rest).dropWhile CodePoint.isDigit = c :: rest := by simp [hdigit]
  have htake : (c :: rest).takeWhile CodePoint.isDigit = [] := by simp [hdigit]
  have hfraction : Numeral.ofText? (c :: rest) = none := by
    unfold Numeral.ofText?
    rw [hdrop, htake]
    split
    · next heq =>
        exact absurd (List.cons.inj heq).1 hpoint
    · rfl
  simp only [ofLiteral?, hint, Double.ofText?, hsign, if_neg hbody.1, if_neg hbody.2, hfraction,
    Option.map_none]

theorem Operator.ofText?_cons_eq_none {c : CodePoint} (h : c ∉ (['+', '-', '*', '/'] : Text))
    (rest : Text) :
    ofText? (c :: rest) = none := by
  simp only [List.mem_cons, List.not_mem_nil, or_false, not_or] at h
  obtain ⟨hplus, hminus, htimes, hover⟩ := h
  unfold ofText?
  split
  · next heq => exact absurd (List.cons.inj heq).1 hplus
  · next heq => exact absurd (List.cons.inj heq).1 hminus
  · next heq => exact absurd (List.cons.inj heq).1 htimes
  · next heq => exact absurd (List.cons.inj heq).1 hover
  · rfl

namespace Token

/-- A token after it has been written and read again. -/
def reread : Token → Token
  | .text t => .text (Escape.reread t)
  | t => t

/-- A field that begins like no call and like no operator is a string literal or a name. -/
theorem ofWord_cons {c : CodePoint} (hcall : c ≠ '@') (hop : c ∉ (['+', '-', '*', '/'] : Text))
    (rest : Text) :
    ofWord (c :: rest) =
      match unquoted? (c :: rest) with
      | some body => .ok (.text (Escape.read body))
      | none =>
          if isName (c :: rest) then .ok (.var (c :: rest))
          else .error (.badToken (c :: rest)) := by
  unfold ofWord
  split
  · next heq =>
      exact absurd (List.cons.inj heq).1 hcall
  · rw [Operator.ofText?_cons_eq_none hop]
    cases unquoted? (c :: rest) <;> rfl

theorem ofField_number (n : Number) : ofField (source (.number n)) = .ok (.number n) := by
  simp only [ofField, source, Number.ofLiteral?_toText]

theorem ofField_text (t : Text) :
    ofField (source (.text t)) = .ok (.text (Escape.reread t)) := by
  have hliteral : Number.ofLiteral? (.char '"' :: (Escape.write t ++ [.char '"'])) = .ok none :=
    Number.ofLiteral?_cons_eq_none (by decide) (by decide) _
  have hunquoted :
      unquoted? (.char '"' :: (Escape.write t ++ [.char '"'])) = some (Escape.write t) := by
    simp [unquoted?]
  show ofField (.char '"' :: (Escape.write t ++ [.char '"'])) = _
  simp only [ofField, hliteral, ofWord_cons (c := '"') (by decide) (by decide), hunquoted,
    Escape.read_write]

theorem ofField_var {x : Text} (hname : isName x = true)
    (hliteral : Number.ofLiteral? x = .ok none) :
    ofField (source (.var x)) = .ok (.var x) := by
  cases x with
  | nil =>
      simp [isName] at hname
  | cons c rest =>
      have hletter := (isName_cons hname).1
      have hcall : c ≠ '@' := isLetter_ne hletter (by decide)
      have hop : c ∉ (['+', '-', '*', '/'] : Text) := by
        simp only [List.mem_cons, List.not_mem_nil, or_false, not_or]
        exact ⟨isLetter_ne hletter (by decide), isLetter_ne hletter (by decide),
          isLetter_ne hletter (by decide), isLetter_ne hletter (by decide)⟩
      have hunquoted : unquoted? (c :: rest) = none := by
        unfold unquoted?
        split
        · next heq =>
            exact absurd (List.cons.inj heq).1 (isLetter_ne hletter (by decide))
        · rfl
      show ofField (c :: rest) = _
      simp only [ofField, hliteral, ofWord_cons hcall hop, hunquoted, if_pos hname]

theorem ofField_call {x : Text} (hname : isName x = true) :
    ofField (source (.call x)) = .ok (.call x) := by
  have hliteral : Number.ofLiteral? (.char '@' :: x) = .ok none :=
    Number.ofLiteral?_cons_eq_none (by decide) (by decide) _
  simp only [source, ofField, hliteral, ofWord, if_pos hname]

theorem ofField_operator (op : Operator) :
    ofField (source (.operator op)) = .ok (.operator op) := by
  cases op <;> decide

/-- A token that has been read is read again from what it is written as, its text literals as
`Escape.reread` says. -/
theorem ofField_source {t : Token} (h : t.Readable) : ofField t.source = .ok t.reread := by
  cases t with
  | number n => exact ofField_number n
  | text t => exact ofField_text t
  | var x => exact ofField_var h.1 h.2
  | call x => exact ofField_call h
  | operator op => exact ofField_operator op

/-- Apart from text literals, tokens are written without white space, quotes and dollar signs. -/
theorem isInert_of_mem_source {t : Token} (h : t.Readable) (htext : ∀ s, t ≠ .text s)
    {c : CodePoint}
    (hc : c ∈ t.source) : isInert c = true := by
  cases t with
  | number n => exact isInert_of_isPlain (Number.isPlain_of_mem_toText hc)
  | text t => exact absurd rfl (htext t)
  | var x => exact isInert_of_mem_name h.1 hc
  | call x =>
      rcases List.mem_cons.1 hc with rfl | hc
      · decide
      · exact isInert_of_mem_name h hc
  | operator op =>
      obtain rfl := List.mem_singleton.1 hc
      cases op <;> decide

theorem source_ne_nil {t : Token} (h : t.Readable) : t.source ≠ [] := by
  cases t with
  | number n =>
      exact n.toText_ne_nil
  | text t =>
      simp [source]
  | var x =>
      rintro rfl
      simp [Readable, isName] at h
  | call x =>
      simp [source]
  | operator op =>
      simp [source]

/-- No token is written with white space at its end. -/
theorem exists_source_eq_append {t : Token} (h : t.Readable) :
    ∃ s c, t.source = s ++ [c] ∧ isBlank c = false := by
  by_cases htext : ∃ s, t = .text s
  · obtain ⟨s, rfl⟩ := htext
    exact ⟨.char '"' :: Escape.write s, '"', rfl, isBlank_quote⟩
  · have hne := source_ne_nil h
    refine ⟨t.source.dropLast, t.source.getLast hne, (List.dropLast_append_getLast hne).symm, ?_⟩
    exact isBlank_of_isInert (isInert_of_mem_source h (fun s hs => htext ⟨s, hs⟩)
      (List.getLast_mem hne))

theorem unquoted?_subset {field body : Text} (h : unquoted? field = some body) :
    body ⊆ field := by
  unfold unquoted? at h
  split at h
  · split at h
    · obtain rfl := Option.some.inj h
      exact fun c hc => List.mem_cons_of_mem _ (List.dropLast_subset _ hc)
    · simp at h
  · simp at h

/-- The text of a text literal comes from the field that it is read from, but for the five
characters that have an escape. -/
theorem mem_field_of_mem_text {field s : Text} {c : CodePoint} (h : ofField field = .ok (.text s))
    (hc : c ∈ s) : c ∈ field ∨ c ∈ (['\\', '"', '\n', '\t', '\r'] : Text) := by
  obtain ⟨n, heq, -⟩ | ⟨x, heq, -⟩ | ⟨op, heq, -⟩ | ⟨body, heq, hbody⟩ | ⟨heq, -⟩ :=
    ofField_cases h
  · simp at heq
  · simp at heq
  · simp at heq
  · obtain rfl := Token.text.inj heq
    exact (Escape.mem_read hc).imp_left fun hmem => unquoted?_subset hbody hmem
  · simp at heq

end Token
end Stencil
