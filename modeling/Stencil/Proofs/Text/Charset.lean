import Mathlib.Data.List.TakeWhile
import Stencil.Text.Charset

/-!
# What a character set lacks

When a text has no bytes in a character set, and what is then reported.

**Argument.**  A text has bytes if each of its code points has.  Otherwise it is cut at the first
that has none (`exists_first`), which stays the first when the text goes on.  The run that begins
there stays the same run if it ends within the text.

**Results.**
* `lacked?_eq_none_iff`: nothing is lacked exactly if the set has bytes for each code point.
* `encode_append`: two texts may be encoded at once, if what is lacked of them ends in the first.
* `utf8_has`: UTF-8 lacks the surrogates alone.
-/

namespace Stencil
namespace Charset

variable {charset : Charset} {s t before rest : Text} {first : CodePoint}

theorem exists_first (charset : Charset) (t : Text) : (∀ c ∈ t, charset.has c = true) ∨
    ∃ before first rest, t = before ++ first :: rest ∧ (∀ c ∈ before, charset.has c = true) ∧
      charset.has first = false := by
  induction t with
  | nil =>
      exact Or.inl (by simp)
  | cons c t ih =>
      cases hc : charset.has c with
      | false =>
          exact Or.inr ⟨[], c, t, rfl, by simp, hc⟩
      | true =>
          rcases ih with hall | ⟨before, first, rest, rfl, hbefore, hfirst⟩
          · exact Or.inl (List.forall_mem_cons.2 ⟨hc, hall⟩)
          · exact Or.inr
              ⟨c :: before, first, rest, rfl, List.forall_mem_cons.2 ⟨hc, hbefore⟩, hfirst⟩

theorem lacked?_of_has (h : ∀ c ∈ t, charset.has c = true) : charset.lacked? t = none := by
  have hnil : t.dropWhile charset.has = [] := List.dropWhile_eq_nil_iff.2 h
  rw [lacked?, hnil]

theorem lacked?_append_cons (hbefore : ∀ c ∈ before, charset.has c = true)
    (hfirst : charset.has first = false) :
    charset.lacked? (before ++ first :: rest) =
      some (charset.error first before.length (before.length + 1 +
        if charset.reportsRuns then (rest.takeWhile (!charset.has ·)).length else 0)) := by
  simp [lacked?, List.dropWhile_append_of_pos hbefore, List.takeWhile_append_of_pos hbefore, hfirst]

theorem lacked?_eq_none_iff : charset.lacked? t = none ↔ ∀ c ∈ t, charset.has c = true := by
  refine ⟨fun h => ?_, lacked?_of_has⟩
  rcases exists_first charset t with hall | ⟨before, first, rest, rfl, hbefore, hfirst⟩
  · exact hall
  · simp [lacked?_append_cons hbefore hfirst] at h

/-- A run that ends within a text is not longer when the text goes on. -/
theorem takeWhile_append_of_length_le {p : CodePoint → Bool}
    (h : ((s ++ t).takeWhile p).length ≤ s.length) : (s ++ t).takeWhile p = s.takeWhile p := by
  rw [List.takeWhile_append] at h ⊢
  split at h
  · next hall =>
      rw [if_pos hall, (List.takeWhile_prefix p).eq_of_length hall]
      rw [List.length_append] at h
      have hlength : (t.takeWhile p).length = 0 := by omega
      rw [List.length_eq_zero_iff.1 hlength, List.append_nil]
  · next hpart =>
      rw [if_neg hpart]

/-- What the character set lacks of two texts put together, if anything, ends in the first. -/
def Splits (charset : Charset) (s t : Text) : Prop :=
  ∀ e, charset.encode (s ++ t) = .error e → e.stop ≤ s.length

/-- What is lacked of two texts put together is what is lacked of the first, if it ends there. -/
theorem lacked?_of_append {e : Unencodable} (h : charset.lacked? (s ++ t) = some e)
    (hstop : e.stop ≤ s.length) : charset.lacked? s = some e := by
  rcases exists_first charset s with hs | ⟨before, first, rest, rfl, hbefore, hfirst⟩
  · -- The first text lacks nothing, so that the error begins after it.
    rcases exists_first charset t with ht | ⟨before, first, rest, rfl, hbefore, hfirst⟩
    · have hboth : ∀ c ∈ s ++ t, charset.has c = true := fun c hc =>
        (List.mem_append.1 hc).elim (hs c) (ht c)
      simp [lacked?_of_has hboth] at h
    · have hboth : ∀ c ∈ s ++ before, charset.has c = true := fun c hc =>
        (List.mem_append.1 hc).elim (hs c) (hbefore c)
      rw [← List.append_assoc, lacked?_append_cons hboth hfirst] at h
      obtain rfl := Option.some.inj h
      simp only [error, List.length_append] at hstop
      omega
  · rw [List.append_assoc, List.cons_append, lacked?_append_cons hbefore hfirst] at h
    rw [lacked?_append_cons hbefore hfirst]
    obtain rfl := Option.some.inj h
    cases hruns : charset.reportsRuns with
    | false =>
        rfl
    | true =>
        have hrun : ((rest ++ t).takeWhile (!charset.has ·)).length ≤ rest.length := by
          simp only [error, hruns, if_true, List.length_append, List.length_cons] at hstop
          omega
        rw [takeWhile_append_of_length_le hrun]

theorem encode_of_has (h : ∀ c ∈ t, charset.has c = true) :
    charset.encode t = .ok (charset.byteOrderMark ++ charset.bytes t) := by
  simp only [encode, lacked?_of_has h]

theorem encode_eq_error_iff {e : Unencodable} :
    charset.encode t = .error e ↔ charset.lacked? t = some e := by
  unfold encode
  split <;> simp_all

theorem bytes_append (charset : Charset) (s t : Text) :
    charset.bytes (s ++ t) = charset.bytes s ++ charset.bytes t := List.flatMap_append

/-- Without a byte order mark, two texts may be encoded at once: with the bytes of both, or with the
error of the first. -/
theorem encode_append (hmark : charset.byteOrderMark = []) (h : charset.Splits s t) :
    (charset.encode (s ++ t) = .ok (charset.bytes s ++ charset.bytes t) ∧
      charset.encode s = .ok (charset.bytes s) ∧ charset.encode t = .ok (charset.bytes t)) ∨
    ∃ e, charset.encode (s ++ t) = .error e ∧ charset.encode s = .error e := by
  cases hlacked : charset.lacked? (s ++ t) with
  | none =>
      have hall := lacked?_eq_none_iff.1 hlacked
      rw [encode_of_has hall, encode_of_has fun c hc => hall c (List.mem_append_left t hc),
        encode_of_has fun c hc => hall c (List.mem_append_right s hc), hmark, bytes_append]
      exact Or.inl ⟨rfl, rfl, rfl⟩
  | some e =>
      have herror := encode_eq_error_iff.2 hlacked
      exact Or.inr ⟨e, herror, encode_eq_error_iff.2 (lacked?_of_append hlacked (h e herror))⟩

theorem has_of_encode {bytes : List UInt8} (h : charset.encode s = .ok bytes) :
    ∀ c ∈ s, charset.has c = true := by
  rw [← lacked?_eq_none_iff]
  unfold encode at h
  split at h
  · next hnone =>
      exact hnone
  · simp at h

/-- What is lacked of a text ends in it. -/
theorem stop_le_of_encode {e : Unencodable} (h : charset.encode s = .error e) :
    e.stop ≤ s.length := by
  rw [encode_eq_error_iff] at h
  rcases exists_first charset s with hs | ⟨before, first, rest, rfl, hbefore, hfirst⟩
  · simp [lacked?_of_has hs] at h
  · rw [lacked?_append_cons hbefore hfirst] at h
    obtain rfl := Option.some.inj h
    have hrun : (rest.takeWhile (!charset.has ·)).length ≤ rest.length :=
      (List.takeWhile_sublist _).length_le
    simp only [error, List.length_append, List.length_cons]
    split <;> omega

/-- UTF-8 has bytes for the characters. -/
theorem utf8_has {c : CodePoint} : utf8.has c = true ↔ ∃ d, c = .char d := by
  cases c with
  | char d => exact ⟨fun _ => ⟨d, rfl⟩, fun _ => rfl⟩
  | surrogate n => exact ⟨fun h => Bool.noConfusion h, fun ⟨d, hd⟩ => CodePoint.noConfusion hd⟩

/-- A text that is not empty takes bytes in UTF-8, if it can be written at all. -/
theorem ne_nil_of_encode_utf8 {bytes : List UInt8} (hs : s ≠ []) (h : utf8.encode s = .ok bytes) :
    bytes ≠ [] := by
  obtain ⟨c, rest, rfl⟩ := List.exists_cons_of_ne_nil hs
  have hall := has_of_encode h
  obtain ⟨d, rfl⟩ := utf8_has.1 (hall c List.mem_cons_self)
  rw [encode_of_has hall] at h
  obtain rfl := Except.ok.inj h
  have hlength : 0 < (String.utf8EncodeChar d).length := by
    rw [String.length_utf8EncodeChar]
    exact Char.utf8Size_pos d
  exact List.append_ne_nil_of_right_ne_nil _
    (List.append_ne_nil_of_left_ne_nil (List.ne_nil_of_length_pos hlength) _)

end Charset
end Stencil
