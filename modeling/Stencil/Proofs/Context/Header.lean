import Stencil.Proofs.Context.Operation

/-!
# The header of a response

The header is sent once, before everything else, as it is at the first write.

**Argument.**  Operations without bytes of their own send nothing, so up to the first write the
output is empty (`applyAll_of_unsent`).  That write sends the header and its own bytes; from then on
no operation changes the header, and each write that succeeds adds its bytes
(`applyAll_of_sent`).  Both are by induction on the operations, one step being `quiet_of_no_bytes`
or `runIn_of_bytes`.

**Results.**  `disciplined_applyAll`: what is known of the response after any operations, if the
header can be encoded where it is sent.
-/

namespace Stencil

namespace Context

open Operation

/-- The bytes are those of the header, of which there are none if no header is sent at all. -/
def IsHeader (c : Context) (bytes : List UInt8) : Prop :=
  if c.settings.sendsHeader then Charset.latin1.encode c.header = .ok bytes else bytes = []

theorem headerBytes_of_isHeader {c : Context} {bytes : List UInt8} (h : c.IsHeader bytes) :
    c.headerBytes = .ok bytes := by
  unfold IsHeader at h
  unfold headerBytes
  split at h
  · next hsends =>
      rw [if_pos hsends, h]
      rfl
  · next hsends =>
      rw [if_neg hsends, h]

/-- The header has been sent, as it was in a context before. -/
structure Fixed (c₁ c : Context) : Prop where
  headerSent : c.headerSent = true
  settings : c.settings = c₁.settings
  cookies : c.cookies = c₁.cookies

theorem Fixed.trans {c c₁ c₂ : Context} (h : Fixed c c₁) (h' : Fixed c₁ c₂) : Fixed c c₂ :=
  ⟨h'.headerSent, h'.settings.trans h.settings, h'.cookies.trans h.cookies⟩

theorem Fixed.header_eq {c₁ c : Context} (h : Fixed c₁ c) : c.header = c₁.header := by
  unfold header
  rw [h.settings, h.cookies]

namespace Operation

theorem sentBy_of_no_bytes {c : Context} {op : Operation} (h : op.bytes? c = none) :
    op.sentBy c = [] := by
  unfold sentBy
  split
  · rw [h]
    rfl
  · rfl

/-- Once the header has been sent an operation adds the bytes of its own, and changes no part of the
header. -/
theorem apply_of_sent {c : Context} (hsent : c.headerSent = true) (op : Operation) :
    Fixed c (op.apply c) ∧ (op.apply c).output.toList = c.output.toList ++ op.sentBy c := by
  cases hbytes : op.bytes? c with
  | none =>
      have hquiet := quiet_of_no_bytes hbytes
      refine ⟨⟨hquiet.headerSent.trans hsent, hquiet.settings hsent, hquiet.cookies hsent⟩, ?_⟩
      rw [hquiet.output, sentBy_of_no_bytes hbytes, List.append_nil]
  | some bytes =>
      have hrun : op.action.runIn c = (.ok (), append bytes c) := by
        rw [runIn_of_bytes hbytes, runIn_writeBytes, if_pos hsent]
      have hby : op.sentBy c = bytes := by
        rw [sentBy, hrun, hbytes]
        rfl
      rw [apply, hrun, hby]
      exact ⟨⟨hsent, rfl, rfl⟩, by simp [append]⟩

/-- The first write succeeds if the header can be encoded. -/
theorem runIn_of_first {c : Context} {op : Operation} {bytes header : List UInt8}
    (hsent : c.headerSent = false) (hbytes : op.bytes? c = some bytes)
    (hheader : c.IsHeader header) :
    op.action.runIn c = (.ok (), append bytes (append header c.markSent)) := by
  have hmarked : c.markSent.headerBytes = .ok header := headerBytes_of_isHeader (c := c) hheader
  rw [runIn_of_bytes hbytes, runIn_writeBytes, hsent, hmarked]
  rfl

/-- The first write sends the header and its own bytes. -/
theorem apply_of_first {c : Context} {op : Operation} {bytes header : List UInt8}
    (hsent : c.headerSent = false) (hoff : c.output = #[]) (hbytes : op.bytes? c = some bytes)
    (hheader : c.IsHeader header) :
    Fixed c (op.apply c) ∧ (op.apply c).output.toList = header ++ op.sentBy c := by
  have hrun := runIn_of_first hsent hbytes hheader
  have hby : op.sentBy c = bytes := by
    rw [sentBy, hrun, hbytes]
    rfl
  rw [apply, hrun, hby]
  exact ⟨⟨rfl, rfl, rfl⟩, by simp [append, markSent, hoff]⟩

/-- From a context on whose header has been sent, the header stays and the bytes of the writes are
added to the output. -/
theorem applyAll_of_sent {c : Context} (hsent : c.headerSent = true) (ops : List Operation) :
    Fixed c (applyAll c ops) ∧
      (applyAll c ops).output.toList = c.output.toList ++ sent c ops := by
  induction ops generalizing c with
  | nil =>
      exact ⟨⟨hsent, rfl, rfl⟩, (List.append_nil _).symm⟩
  | cons op ops ih =>
      obtain ⟨hfixed, houtput⟩ := apply_of_sent hsent op
      obtain ⟨hfixed', houtput'⟩ := ih hfixed.headerSent
      refine ⟨hfixed.trans hfixed', ?_⟩
      rw [applyAll_cons, houtput', houtput, sent, List.append_assoc]

/-- From a context on in which nothing has been sent, either nothing is sent, or the header as the
first write finds it and then the bytes of the writes. -/
theorem applyAll_of_unsent {c : Context} (hsent : c.headerSent = false) (hoff : c.output = #[])
    {ops : List Operation}
    (hheader : ∀ c₁, firstWrite c ops = some c₁ → ∃ header, c₁.IsHeader header) :
    match firstWrite c ops with
    | none => (applyAll c ops).headerSent = false ∧ (applyAll c ops).output = #[] ∧ sent c ops = []
    | some c₁ => Fixed c₁ (applyAll c ops) ∧
        ∃ header, c₁.IsHeader header ∧ (applyAll c ops).output.toList = header ++ sent c ops := by
  induction ops generalizing c with
  | nil =>
      exact ⟨hsent, hoff, rfl⟩
  | cons op ops ih =>
      cases hbytes : op.bytes? c with
      | none =>
          have hquiet := quiet_of_no_bytes hbytes
          have hfirst : firstWrite c (op :: ops) = firstWrite (op.apply c) ops := by
            rw [firstWrite, hbytes]
            rfl
          have hsame : sent c (op :: ops) = sent (op.apply c) ops := by
            rw [sent, sentBy_of_no_bytes hbytes, List.nil_append]
          rw [hfirst] at hheader
          rw [hfirst, hsame]
          exact ih (hquiet.headerSent.trans hsent) (hquiet.output.trans hoff) hheader
      | some bytes =>
          have hfirst : firstWrite c (op :: ops) = some c := by
            rw [firstWrite, hbytes]
            rfl
          obtain ⟨header, hheader⟩ := hheader c hfirst
          obtain ⟨hfixed, houtput⟩ := apply_of_first hsent hoff hbytes hheader
          obtain ⟨hfixed', houtput'⟩ := applyAll_of_sent hfixed.headerSent ops
          rw [hfirst]
          refine ⟨hfixed.trans hfixed', header, hheader, ?_⟩
          rw [applyAll_cons, houtput', houtput, sent, List.append_assoc]

end Operation

/-- What can fail in a context, apart from a header that cannot be encoded, and that it then changes
nothing. -/
structure Guarded (c : Context) : Prop where
  /-- Before the header is sent only a negative length is refused. -/
  refused : c.headerSent = false → ∀ (s : Setting) (fault : Fault) (c' : Context),
    s.action.runIn c = (.error fault, c') → ∃ n, s = .length n ∧ n < 0 ∧ fault = .negativeLength n
  /-- A change of the header that fails changes nothing. -/
  unchanged_of_set : ∀ (s : Setting) (fault : Fault) (c' : Context),
    s.action.runIn c = (.error fault, c') → c' = c
  /-- A write of a text that cannot be encoded changes nothing. -/
  unchanged_of_write : ∀ (t : Text) (fault : Fault), c.encode t = .error fault →
    (write t).runIn c = (.error fault, c)

theorem guarded (c : Context) : Guarded c where
  refused hunsent _ _ _ := Setting.error_of_unsent hunsent
  unchanged_of_set _ _ _ := Setting.eq_of_error
  unchanged_of_write t fault hencode := by rw [runIn_write, hencode]

/-- What is known of a response after some operations on a context in which nothing had been
sent. -/
structure Disciplined (c₀ : Context) (ops : List Operation) (c : Context) : Prop
    extends Guarded c where
  /-- The header is sent by the first write with bytes of its own. -/
  headerSent_iff : c.headerSent = true ↔ (firstWrite c₀ ops).isSome
  /-- Nothing is in the output before the header is sent. -/
  output_of_unsent : c.headerSent = false → c.output = #[]
  /-- The output is the header, as the first write found it, and the bytes of the writes. -/
  output : ∃ header, c.output.toList = header ++ sent c₀ ops ∧
    match firstWrite c₀ ops with
    | none => header = []
    | some c₁ => c₁.IsHeader header
  /-- From the first write on the header stays as it was sent. -/
  fixed : ∀ c₁, firstWrite c₀ ops = some c₁ →
    c.settings = c₁.settings ∧ c.cookies = c₁.cookies ∧ c.header = c₁.header ∧
      ∀ s : Setting, s.action.runIn c = (.error (.headerSent s.field), c)

/-- The response is disciplined after any operations, if the header can be encoded where it is
sent. -/
theorem disciplined_applyAll {c₀ : Context} (hsent : c₀.headerSent = false)
    (hoff : c₀.output = #[]) {ops : List Operation}
    (hheader : ∀ c₁, firstWrite c₀ ops = some c₁ → ∃ header, c₁.IsHeader header) :
    Disciplined c₀ ops (applyAll c₀ ops) := by
  have hcases := applyAll_of_unsent hsent hoff hheader
  cases hfirst : firstWrite c₀ ops with
  | none =>
      rw [hfirst] at hcases
      obtain ⟨hunsent, hempty, hnothing⟩ := hcases
      exact {
        guarded (applyAll c₀ ops) with
        headerSent_iff := by simp [hfirst, hunsent]
        output_of_unsent := fun _ => hempty
        output := ⟨[], by simp [hempty, hnothing], by rw [hfirst]⟩
        fixed := fun c₁ h => by simp [hfirst] at h }
  | some c₁ =>
      rw [hfirst] at hcases
      obtain ⟨hfixed, header, hheader, houtput⟩ := hcases
      exact {
        guarded (applyAll c₀ ops) with
        headerSent_iff := by simp [hfirst, hfixed.headerSent]
        output_of_unsent := fun h => by simp [hfixed.headerSent] at h
        output := ⟨header, houtput, by rw [hfirst]; exact hheader⟩
        fixed := fun c₂ h => by
          obtain rfl : c₁ = c₂ := Option.some.inj (hfirst.symm.trans h)
          refine ⟨hfixed.settings, hfixed.cookies, hfixed.header_eq, fun s => ?_⟩
          rw [Setting.runIn_action, if_pos hfixed.headerSent] }

end Context
end Stencil
