import Stencil.Context.Basic

/-!
# Operations on a context

What can be done to a context from outside, one operation at a time.

An `Operation` is a write, a change of a part of the header, or a change of a parameter.  Whatever
it comes to, it leaves a context (`Operation.apply`), and operations are done one after another
(`Operation.applyAll`).  Reading the header or a parameter is no operation, since it leaves the
context as it is.

**Writes.**  A write has bytes of its own if its text can be encoded (`Operation.bytes?`).  The
first such write finds the context in the state `firstWrite`, and the bytes of the writes that
succeed are `sent`.

**Results.**
* `Setting.runIn_action`: when a change of the header fails, and that it then changes nothing.
* `Operation.runIn_of_bytes` and `Operation.quiet_of_no_bytes`: an operation with bytes of its own
  is a write of these bytes, and every other operation leaves the output and the header flag alone;
  so do any number of them (`Operation.quiet_applyAll`).
-/

namespace Stencil

namespace Context

theorem append_append (bytes bytes' : List UInt8) (c : Context) :
    append (bytes ++ bytes') c = append bytes' (append bytes c) := by
  have houtput : c.output ++ (bytes ++ bytes') = c.output ++ bytes ++ bytes' :=
    Array.ext' (by simp)
  rw [append, houtput]
  rfl

theorem runIn_writeBytes (bytes : List UInt8) (c : Context) :
    (writeBytes bytes).runIn c =
      if c.headerSent then (.ok (), append bytes c)
      else
        match c.markSent.headerBytes with
        | .ok header => (.ok (), append bytes (append header c.markSent))
        | .error fault => (.error fault, c.markSent) := by
  cases hsent : c.headerSent with
  | true =>
      simp [writeBytes, Action.runIn_bind, hsent]
  | false =>
      simp only [writeBytes, sendHeader, Action.runIn_bind, Action.runIn_get, hsent]
      cases hbytes : c.markSent.headerBytes <;> simp [Action.runIn_bind, hbytes]

theorem runIn_write (t : Text) (c : Context) :
    (write t).runIn c =
      match c.encode t with
      | .ok bytes => (writeBytes bytes).runIn c
      | .error fault => (.error fault, c) := by
  simp only [write, Action.runIn_bind, Action.runIn_get, Action.runIn_ofExcept]
  cases c.encode t <;> rfl

theorem runIn_requireUnsent (field : HeaderField) (c : Context) :
    (requireUnsent field).runIn c =
      if c.headerSent then (.error (.headerSent field), c) else (.ok (), c) := by
  simp only [requireUnsent, Action.runIn_bind, Action.runIn_get]
  cases c.headerSent <;> rfl

theorem runIn_change (field : HeaderField) (f : Context → Context) (c : Context) :
    (change field f).runIn c =
      if c.headerSent then (.error (.headerSent field), c) else (.ok (), f c) := by
  rw [change, Action.runIn_bind, runIn_requireUnsent]
  cases c.headerSent <;> rfl

/-- A part of the header, with what it is to be. -/
inductive Setting
  | charset (name : Text)
  | statusCode (code : Int)
  | statusText (t : Text)
  | mimeType (t : Text)
  | length (n : Int)
  | cookie (value : Cookie)
deriving DecidableEq

namespace Setting

/-- Changes the part of the header. -/
def action : Setting → Action Context Unit
  | .charset name => setCharset name
  | .statusCode code => setStatusCode code
  | .statusText t => setStatusText t
  | .mimeType t => setMimeType t
  | .length n => setLength n
  | .cookie value => addCookie value

/-- The part of the header that is changed. -/
def field : Setting → HeaderField
  | .charset _ => .charset
  | .statusCode _ => .statusCode
  | .statusText _ => .statusText
  | .mimeType _ => .mimeType
  | .length _ => .length
  | .cookie _ => .cookies

/-- The context with the part of the header changed. -/
def update (c : Context) : Setting → Context
  | .charset name => { c with settings := { c.settings with charset := name } }
  | .statusCode code => { c with settings := { c.settings with statusCode := code } }
  | .statusText t => { c with settings := { c.settings with statusText := t } }
  | .mimeType t => { c with settings := { c.settings with mimeType := t } }
  | .length n => { c with settings := { c.settings with length := some n } }
  | .cookie value => { c with cookies := c.cookies ++ [value] }

/-- Why what the part is to be is refused, whatever has been sent. -/
def refusal? : Setting → Option Fault
  | .length n => if n < 0 then some (.negativeLength n) else none
  | _ => none

/-- A part of the header is changed unless the header has been sent or the length is negative; then
nothing is. -/
theorem runIn_action (s : Setting) (c : Context) :
    s.action.runIn c =
      if c.headerSent then (.error (.headerSent s.field), c)
      else
        match s.refusal? with
        | some fault => (.error fault, c)
        | none => (.ok (), s.update c) := by
  cases s with
  | charset name | statusCode code | statusText t | mimeType t | cookie value =>
      simp only [action, setCharset, setStatusCode, setStatusText, setMimeType, addCookie,
        changeSettings, runIn_change, field, refusal?, update]
  | length n =>
      simp only [action, setLength, Action.runIn_bind, runIn_requireUnsent]
      cases hsent : c.headerSent with
      | true =>
          rfl
      | false =>
          by_cases hn : n < 0
          · simp [refusal?, hn]
          · simp [refusal?, hn, changeSettings, runIn_change, hsent, update]

/-- A change of the header that fails changes nothing. -/
theorem eq_of_error {s : Setting} {c c' : Context} {fault : Fault}
    (h : s.action.runIn c = (.error fault, c')) : c' = c := by
  rw [runIn_action] at h
  split at h
  · exact (Prod.mk.inj h).2.symm
  · split at h
    · exact (Prod.mk.inj h).2.symm
    · simp at h

/-- Before the header is sent only a negative length is refused. -/
theorem error_of_unsent {s : Setting} {c c' : Context} {fault : Fault}
    (hsent : c.headerSent = false) (h : s.action.runIn c = (.error fault, c')) :
    ∃ n, s = .length n ∧ n < 0 ∧ fault = .negativeLength n := by
  rw [runIn_action, hsent] at h
  cases s with
  | charset name | statusCode code | statusText t | mimeType t | cookie value =>
      simp [refusal?] at h
  | length n =>
      by_cases hn : n < 0
      · simp only [refusal?, hn, if_true, Bool.false_eq_true, if_false, Prod.mk.injEq,
          Except.error.injEq] at h
        exact ⟨n, rfl, hn, h.1.symm⟩
      · simp [refusal?, hn] at h

end Setting

/-- What can be done to a context. -/
inductive Operation
  | write (t : Text)
  | writeBytes (bytes : List UInt8)
  | set (s : Setting)
  | setParameter (store : Store) (name value : Text)
  | removeParameter (store : Store) (name : Text)
deriving DecidableEq

namespace Operation

/-- Does the operation. -/
def action : Operation → Action Context Unit
  | .write t => Context.write t
  | .writeBytes bytes => Context.writeBytes bytes
  | .set s => s.action
  | .setParameter store name value => modify (Context.setParameter store name value)
  | .removeParameter store name => modify (Context.removeParameter store name)

/-- The context that an operation leaves, whether it succeeds or fails. -/
def apply (c : Context) (op : Operation) : Context := (op.action.runIn c).2

/-- The context that some operations leave, done one after another. -/
def applyAll (c : Context) (ops : List Operation) : Context := ops.foldl apply c

/-- The bytes that a write has of its own; a text that cannot be encoded has none. -/
def bytes? (c : Context) : Operation → Option (List UInt8)
  | .write t => (c.encode t).toOption
  | .writeBytes bytes => some bytes
  | _ => none

/-- The bytes of a write that succeeds. -/
def sentBy (c : Context) (op : Operation) : List UInt8 :=
  match (op.action.runIn c).1 with
  | .ok _ => (op.bytes? c).getD []
  | .error _ => []

/-- The bytes of the writes that succeed, in order. -/
def sent (c : Context) : List Operation → List UInt8
  | [] => []
  | op :: ops => op.sentBy c ++ sent (op.apply c) ops

/-- The context that the first write with bytes of its own finds. -/
def firstWrite (c : Context) : List Operation → Option Context
  | [] => none
  | op :: ops => if (op.bytes? c).isSome then some c else firstWrite (op.apply c) ops

@[simp] theorem applyAll_nil (c : Context) : applyAll c [] = c := rfl

@[simp] theorem applyAll_cons (c : Context) (op : Operation) (ops : List Operation) :
    applyAll c (op :: ops) = applyAll (op.apply c) ops := rfl

theorem applyAll_append (c : Context) (ops ops' : List Operation) :
    applyAll c (ops ++ ops') = applyAll (applyAll c ops) ops' :=
  List.foldl_append

/-- More operations do not change which write is the first. -/
theorem firstWrite_append {c c₁ : Context} {ops : List Operation}
    (h : firstWrite c ops = some c₁) (ops' : List Operation) :
    firstWrite c (ops ++ ops') = some c₁ := by
  induction ops generalizing c with
  | nil =>
      simp [firstWrite] at h
  | cons op ops ih =>
      rw [List.cons_append, firstWrite]
      rw [firstWrite] at h
      split at h
      · next hbytes =>
          rw [if_pos hbytes]
          exact h
      · next hbytes =>
          rw [if_neg hbytes]
          exact ih h

/-- An operation with bytes of its own writes these bytes. -/
theorem runIn_of_bytes {c : Context} {op : Operation} {bytes : List UInt8}
    (h : op.bytes? c = some bytes) : op.action.runIn c = (Context.writeBytes bytes).runIn c := by
  cases op with
  | write t =>
      cases hencode : c.encode t with
      | ok own =>
          obtain rfl : own = bytes := by simpa [bytes?, hencode, Except.toOption] using h
          rw [action, runIn_write, hencode]
      | error fault =>
          simp [bytes?, hencode, Except.toOption] at h
  | writeBytes own =>
      obtain rfl := Option.some.inj h
      rfl
  | set s | setParameter store name value | removeParameter store name =>
      simp [bytes?] at h

/-- Nothing is sent, and the header stays as it is if it has been sent. -/
structure Quiet (c c' : Context) : Prop where
  headerSent : c'.headerSent = c.headerSent
  output : c'.output = c.output
  settings : c.headerSent = true → c'.settings = c.settings
  cookies : c.headerSent = true → c'.cookies = c.cookies

theorem Quiet.refl (c : Context) : Quiet c c := ⟨rfl, rfl, fun _ => rfl, fun _ => rfl⟩

theorem Quiet.trans {c c₁ c₂ : Context} (h : Quiet c c₁) (h' : Quiet c₁ c₂) :
    Quiet c c₂ where
  headerSent := h'.headerSent.trans h.headerSent
  output := h'.output.trans h.output
  settings hsent := (h'.settings (h.headerSent.trans hsent)).trans (h.settings hsent)
  cookies hsent := (h'.cookies (h.headerSent.trans hsent)).trans (h.cookies hsent)

/-- An operation without bytes of its own sends nothing. -/
theorem quiet_of_no_bytes {c : Context} {op : Operation} (h : op.bytes? c = none) :
    Quiet c (op.apply c) := by
  cases op with
  | write t =>
      cases hencode : c.encode t with
      | ok own =>
          simp [bytes?, hencode, Except.toOption] at h
      | error fault =>
          rw [apply, action, runIn_write, hencode]
          exact .refl c
  | writeBytes own =>
      simp [bytes?] at h
  | set s =>
      rw [apply, action, Setting.runIn_action]
      split
      · exact .refl c
      · next hsent =>
          split
          · exact .refl c
          · cases s <;> exact ⟨rfl, rfl, fun h => absurd h hsent, fun h => absurd h hsent⟩
  | setParameter store name value | removeParameter store name =>
      cases store <;> exact ⟨rfl, rfl, fun _ => rfl, fun _ => rfl⟩

/-- Operations none of which has bytes of its own send nothing. -/
theorem quiet_applyAll {c : Context} {ops : List Operation} (h : firstWrite c ops = none) :
    Quiet c (applyAll c ops) := by
  induction ops generalizing c with
  | nil =>
      exact .refl c
  | cons op ops ih =>
      rw [firstWrite] at h
      split at h
      · simp at h
      · next hbytes =>
          have hquiet : Quiet c (op.apply c) := quiet_of_no_bytes (by simpa using hbytes)
          exact hquiet.trans (ih h)

end Operation
end Context
end Stencil
