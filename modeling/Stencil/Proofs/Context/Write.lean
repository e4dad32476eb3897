import Stencil.Proofs.Context.Header

/-!
# Writes that fail

A write fails for one of two reasons: its text cannot be encoded, or it is the first write and the
header cannot be encoded.

**Argument.**  The text is encoded before anything is changed, so that the first kind of failure
leaves the context as it was (`runIn_write_eq_error_iff`).  What is done next, until a write has
bytes of its own, sends nothing, and that write sends the header before them.  The header is encoded
after it has been marked as sent.  The second kind of failure therefore leaves the mark, from which
on no write sends a header and no part of it can be changed any more.

**Results.**  `failed_write`: what a failed write leaves, and what can be done next.
`header_lost_after_failed_write` is a response that goes out without its header.
-/

namespace Stencil
namespace Context

open Operation

/-- A write fails, without any change, if its text cannot be encoded; or if it would send the header
and that cannot be encoded, with the header marked as sent. -/
theorem runIn_write_eq_error_iff {c c' : Context} {t : Text} {fault : Fault} :
    (write t).runIn c = (.error fault, c') ↔
      (c.encode t = .error fault ∧ c' = c) ∨
      ((∃ bytes, c.encode t = .ok bytes) ∧ c.headerSent = false ∧
        c.headerBytes = .error fault ∧ c' = c.markSent) := by
  have hmarked : c.markSent.headerBytes = c.headerBytes := rfl
  cases hencode : c.encode t with
  | error cause =>
      simp [runIn_write, hencode, eq_comm (a := c)]
  | ok bytes =>
      have hrun : (write t).runIn c = (writeBytes bytes).runIn c := by rw [runIn_write, hencode]
      rw [hrun, runIn_writeBytes, hmarked]
      cases hsent : c.headerSent with
      | true =>
          simp
      | false =>
          cases hheader : c.headerBytes <;> simp [eq_comm (a := c.markSent)]

/-- What a write of a text that fails leaves of a context. -/
structure FailedWrite (c : Context) (t : Text) (fault : Fault) (c' : Context) : Prop where
  /-- Nothing is sent, and nothing but the mark that the header has been sent may be changed. -/
  unchanged : c' = { c with headerSent := c'.headerSent }
  /-- The context is as it was exactly if the text is what cannot be encoded. -/
  eq_iff : c' = c ↔ c.encode t = .error fault
  /-- It is as it was if the header has been sent or can be encoded. -/
  eq_of_header : (c.headerSent = true ∨ ∃ header, c.IsHeader header) → c' = c
  /-- Then the header goes before the next bytes that are written. -/
  header_first : c' = c → c.headerSent = false →
    ∀ (ops : List Operation) (op : Operation) (header bytes : List UInt8),
      firstWrite c' ops = none → (applyAll c' ops).IsHeader header →
      op.bytes? (applyAll c' ops) = some bytes →
      (op.action.runIn (applyAll c' ops)).1 = .ok () ∧
        (op.apply (applyAll c' ops)).output.toList = c.output.toList ++ header ++ bytes
  /-- Otherwise no header is ever sent, nor can any part of it be changed. -/
  header_lost : c' ≠ c → c.headerSent = false ∧ c.headerBytes = .error fault ∧
    ∀ ops : List Operation, (applyAll c' ops).output.toList = c.output.toList ++ sent c' ops ∧
      (applyAll c' ops).header = c.header ∧
      ∀ s : Setting, s.action.runIn (applyAll c' ops)
        = (.error (.headerSent s.field), applyAll c' ops)

/-- A write that fails leaves the context as it was, unless it fails for the header: then the header
counts as sent although it never is. -/
theorem failed_write {c c' : Context} {t : Text} {fault : Fault}
    (h : (write t).runIn c = (.error fault, c')) : FailedWrite c t fault c' := by
  rcases runIn_write_eq_error_iff.1 h with ⟨hencode, rfl⟩ | ⟨⟨own, hown⟩, hunsent, hheader, rfl⟩
  · exact {
      unchanged := rfl
      eq_iff := ⟨fun _ => hencode, fun _ => rfl⟩
      eq_of_header := fun _ => rfl
      header_first := by
        intro _ hunsent ops op header bytes hops hheader hbytes
        have hquiet := quiet_applyAll hops
        have hrun := runIn_of_first (hquiet.headerSent.trans hunsent) hbytes hheader
        rw [apply, hrun]
        exact ⟨rfl, by simp [append, markSent, hquiet.output]⟩
      header_lost := fun hne => absurd rfl hne }
  · have hne : c.markSent ≠ c := fun heq => by
      have hsent : c.markSent.headerSent = true := rfl
      rw [heq, hunsent] at hsent
      simp at hsent
    exact {
      unchanged := rfl
      eq_iff := ⟨fun heq => absurd heq hne, fun hencode => by simp [hown] at hencode⟩
      eq_of_header := by
        rintro (hsent | ⟨header, hok⟩)
        · simp [hunsent] at hsent
        · simp [headerBytes_of_isHeader hok] at hheader
      header_first := fun heq => absurd heq hne
      header_lost := by
        refine fun _ => ⟨hunsent, hheader, fun ops => ?_⟩
        obtain ⟨hfixed, houtput⟩ := applyAll_of_sent (c := c.markSent) rfl ops
        refine ⟨houtput, hfixed.header_eq, fun s => ?_⟩
        rw [Setting.runIn_action, if_pos hfixed.headerSent] }

/-- A response in the first Latin set. -/
def latinResponse : Context := .start .empty .empty [] { charset := "ISO-8859-1".toText }

/-- A response whose header the first Latin set lacks a character of. -/
def unencodableResponse : Context := .start .empty .empty [] { statusText := ['č'] }

theorem runIn_write_unencodableResponse :
    (write ['a']).runIn unencodableResponse
      = (.error (.unencodable (Charset.latin1.error 'č' 13 14)), unencodableResponse.markSent) :=
  runIn_write_eq_error_iff.2 (.inr ⟨⟨[97], rfl⟩, rfl, rfl, rfl⟩)

/-- A text that cannot be encoded, and a header that cannot be. -/
theorem failed_write_text_and_header :
    (∃ fault, (write ['€']).runIn latinResponse = (.error fault, latinResponse) ∧
      FailedWrite latinResponse ['€'] fault latinResponse) ∧
    ∃ fault, (write ['a']).runIn unencodableResponse
        = (.error fault, unencodableResponse.markSent) ∧
      FailedWrite unencodableResponse ['a'] fault unencodableResponse.markSent := by
  have htext : (write ['€']).runIn latinResponse
      = (.error (.unencodable (Charset.latin1.error '€' 0 1)), latinResponse) :=
    runIn_write_eq_error_iff.2 (.inl ⟨rfl, rfl⟩)
  have hheader := runIn_write_unencodableResponse
  exact ⟨⟨_, htext, failed_write htext⟩, ⟨_, hheader, failed_write hheader⟩⟩

/-- A write that fails for the header leaves it marked as sent: the status text that was the cause
cannot be corrected any more, and the next write sends its text without a header. -/
theorem header_lost_after_failed_write :
    unencodableResponse.headerSent = false ∧
      (write ['a']).runIn unencodableResponse
        = (.error (.unencodable (Charset.latin1.error 'č' 13 14)), unencodableResponse.markSent) ∧
      unencodableResponse.markSent.headerSent = true ∧
      (setStatusText "OK".toText).runIn unencodableResponse.markSent
        = (.error (.headerSent .statusText), unencodableResponse.markSent) ∧
      (write ['a']).runIn unencodableResponse.markSent
        = (.ok (), append [97] unencodableResponse.markSent) ∧
      (append [97] unencodableResponse.markSent).output = #[97] :=
  ⟨rfl, runIn_write_unencodableResponse, rfl, rfl, rfl, rfl⟩

end Context
end Stencil
