import Stencil.Proofs.Document.Refusal

/-!
# Faults that stay when a template goes on

A template is read from left to right, and a fault that has been found is reported whatever comes
after it.

**Argument.**  What the scanner gives out for a text, it gives out for every text that begins with
it (`Segment.scan_append`), and the builder takes the segments in their order.  If the scanner or
the builder is stopped within the text, both are stopped there in the longer text too.  Otherwise
the fault is one of the end of the text: a mode in which it must not end, or a loop that is open.

**Results.**  `Document.parse_append_of_refused`: a fault that is not one of the end of the text is
reported for every text that goes on from there, so that a text of which a longer one is read is
read itself or only ends too early.
-/

namespace Stencil

namespace Builder

/-- Adds the segments of a scan to what has been read. -/
def addScan (b : Builder) (scan : Segment.Scan) : Except (Malformed × Nat) Document := do
  let b ← scan.1.foldlM add b
  match scan.2 with
  | some failure => .error failure
  | none => b.finish

theorem addScan_after (b : Builder) (segments : List Segment) (scan : Segment.Scan) :
    b.addScan (scan.after segments) = segments.foldlM add b >>= fun b => b.addScan scan := by
  simp only [addScan, Segment.Scan.after, List.foldlM_append, bind_assoc]

/-- A fault that is found where a text ends says that it ends too early. -/
theorem isEndOfInput_of_addScan {b : Builder} {mode : Segment.Mode} {offset : Nat}
    {cause : Malformed} {place : Nat}
    (h : b.addScan (Segment.scanFrom mode offset []) = .error (cause, place)) :
    cause.isEndOfInput = true := by
  have hfinish {b : Builder} (h : b.finish = .error (cause, place)) :
      cause.isEndOfInput = true := by
    cases hloops : b.loops with
    | nil =>
        simp [finish, hloops] at h
    | cons loop outer =>
        simp only [finish, hloops, Except.error.injEq, Prod.mk.injEq] at h
        obtain ⟨rfl, -⟩ := h
        rfl
  cases mode with
  | text run start =>
      simp only [Segment.scanFrom, Segment.Mode.finish, Segment.Mode.flush] at h
      split at h
      · exact hfinish (b := b) h
      · exact hfinish (b := b.push (.text (Segment.plainText run.reverse))) h
  | escape run start | bracket start | dollar start | body read start | closing start =>
      obtain ⟨rfl, -⟩ := Prod.mk.inj (Except.error.inj h)
      rfl

end Builder

namespace Document

theorem ofScan_eq_addScan (scan : Segment.Scan) : ofScan scan = Builder.empty.addScan scan := rfl

/-- A fault that is found in a text and not at its end is found when the text goes on. -/
theorem ofScan_append {t : Text} {cause : Malformed} {place : Nat}
    (h : ofScan (Segment.scan t) = .error (cause, place)) (hcause : cause.isEndOfInput = false)
    (u : Text) : ofScan (Segment.scan (t ++ u)) = .error (cause, place) := by
  have hshort := Segment.scan_append .initial 0 t []
  have hlong := Segment.scan_append .initial 0 t u
  rw [List.append_nil] at hshort
  rw [ofScan_eq_addScan, Segment.scan] at h ⊢
  -- Either the scanner is stopped within the text, or it goes on from the same mode.
  rcases hrun : Segment.run .initial 0 t with ⟨segments, failure | mode⟩
  · rw [hrun] at hshort hlong
    rwa [hlong, ← hshort]
  · rw [hrun] at hshort hlong
    rw [hshort, Builder.addScan_after] at h
    rw [hlong, Builder.addScan_after]
    rcases bind_eq_error_iff.1 h with hbuild | ⟨b, -, hend⟩
    · rw [hbuild]
      rfl
    · rw [Builder.isEndOfInput_of_addScan hend] at hcause
      exact absurd hcause (by decide)

/-- Where a text is read only up to an offset, the failure at it is the same in a longer text. -/
theorem locate_append {t : Text} {place : Nat} (h : place ≤ t.length) (cause : Malformed)
    (u : Text) : ParseFailure.locate (t ++ u) cause place = .locate t cause place := by
  cases cause <;>
    simp only [ParseFailure.locate, ParseError.locate, Position.ofOffset_append h]

theorem isEndOfInput_locate (t : Text) (cause : Malformed) (place : Nat) :
    (ParseFailure.locate t cause place).isEndOfInput = cause.isEndOfInput := by
  cases cause <;> rfl

/-- A failure that is not one of the end of the text is reported, with its place and position, for
every text that goes on.  So if a longer text is read, the text is read or ends too early. -/
theorem parse_append_of_refused (t u : Text) :
    (∀ failure, parse t = .error failure → failure.isEndOfInput = false →
        parse (t ++ u) = .error failure) ∧
      ∀ d, parse (t ++ u) = .ok d → (∃ d', parse t = .ok d') ∨
        ∃ e : ParseError, parse t = .error (.refused e) ∧ e.cause.isEndOfInput = true := by
  have hstays : ∀ failure, parse t = .error failure → failure.isEndOfInput = false →
      parse (t ++ u) = .error failure := by
    intro failure hfailure hcause
    obtain ⟨cause, place, hfault, rfl⟩ := parse_eq_error_iff.1 hfailure
    rw [isEndOfInput_locate] at hcause
    have hplace : place ≤ t.length := (foundAt_of_ofScan hfault).offset_lt.le
    exact parse_eq_error_iff.2
      ⟨cause, place, ofScan_append hfault hcause u, (locate_append hplace cause u).symm⟩
  refine ⟨hstays, fun d hd => ?_⟩
  cases hparse : parse t with
  | ok d' =>
      exact .inl ⟨d', rfl⟩
  | error failure =>
      have hcause : failure.isEndOfInput = true := by
        by_contra hcause
        rw [hstays failure hparse (Bool.not_eq_true _ ▸ hcause)] at hd
        cases hd
      cases failure with
      | refused e => exact .inr ⟨e, rfl, hcause⟩
      | tooManyDigits e => cases hcause

/-- The tag of no known kind is reported before the bracket is missed. -/
theorem parse_append_unknownTag :
    parse "a[$ZAP$".toText = .error (.refused ⟨.unknownTag "ZAP".toText, 1, ⟨1, 2⟩⟩) ∧
      parse ("a[$ZAP$".toText ++ "x[".toText) =
        .error (.refused ⟨.unknownTag "ZAP".toText, 1, ⟨1, 2⟩⟩) := by
  have hparse : parse "a[$ZAP$".toText =
      .error (.refused ⟨.unknownTag "ZAP".toText, 1, ⟨1, 2⟩⟩) := by rfl
  exact ⟨hparse, (parse_append_of_refused _ _).1 _ hparse (by decide)⟩

end Document
end Stencil
