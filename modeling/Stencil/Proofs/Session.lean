import Stencil.Proofs.Context.Header
import Stencil.Proofs.Run.Operations
import Stencil.Session

/-!
# Sessions and the header of the response

A session does to its context what its commands do, and a run of a script does what `Document.run`
does.  All of it is one sequence of operations (`Session.history`), so that what holds after any
operations holds after every command, and also in the middle of a run.

**Results.**
* `Session.context_applyAll`: the commands leave the context that their operations leave.
* `Session.header_discipline`: the response is disciplined at every moment of a session.
-/

namespace Stencil

open Context (Operation Disciplined)
open Context.Operation (applyAll firstWrite sent)

namespace Session

/-- What a command does to the context. -/
def operations (s : Session) : Command → List Operation
  | .write t => [.write t]
  | .writeBytes bytes => [.writeBytes bytes]
  | .setCharset name => [.set (.charset name)]
  | .setStatusCode code => [.set (.statusCode code)]
  | .setStatusText t => [.set (.statusText t)]
  | .setMimeType t => [.set (.mimeType t)]
  | .setLength n => [.set (.length n)]
  | .addCookie cookie => [.set (.cookie cookie)]
  | .set store name value => [.setParameter store name value]
  | .del store name => [.removeParameter store name]
  | .execute =>
      match s.program with
      | some p => p.document.operations p.limit s.context
      | none => []
  | .run text limit =>
      match Document.parse text with
      | .ok d => d.operations limit s.context
      | .error _ => []
  | .header | .get _ _ | .names | .report | .load _ _ => []

/-- The session after some commands. -/
def applyCommands (s : Session) (commands : List Command) : Session :=
  commands.foldl (fun s command => (s.apply command).2) s

/-- What some commands do to the context, one after another. -/
def history (s : Session) : List Command → List Operation
  | [] => []
  | command :: commands => s.operations command ++ history (s.apply command).2 commands

/-- A command leaves the context that its operations leave. -/
theorem context_apply (s : Session) (command : Command) :
    (s.apply command).2.context = applyAll s.context (s.operations command) := by
  cases command with
  | write t | writeBytes bytes | setCharset name | setStatusCode code | setStatusText t
  | setMimeType t | setLength n | addCookie cookie | set store name value | del store name =>
      rfl
  | header | get source name | names | report =>
      rfl
  | load text limit =>
      simp only [apply, load]
      cases Document.parse text <;> rfl
  | execute =>
      simp only [apply, execute, operations]
      cases s.program with
      | none =>
          rfl
      | some p =>
          exact p.document.context_run p.limit s.context
  | run text limit =>
      simp only [apply, load, operations]
      cases Document.parse text with
      | error e =>
          rfl
      | ok d =>
          exact d.context_run limit s.context

/-- Commands leave the context that their operations leave. -/
theorem context_applyCommands (s : Session) (commands : List Command) :
    (s.applyCommands commands).context = applyAll s.context (s.history commands) := by
  induction commands generalizing s with
  | nil =>
      rfl
  | cons command commands ih =>
      rw [history, Context.Operation.applyAll_append, ← context_apply]
      exact ih (s.apply command).2

theorem history_append (s : Session) (commands commands' : List Command) :
    s.history (commands ++ commands') =
      s.history commands ++ (s.applyCommands commands).history commands' := by
  induction commands generalizing s with
  | nil =>
      rfl
  | cons command commands ih =>
      rw [List.cons_append, history, history, ih, List.append_assoc]
      rfl

/-- Take any commands on a fresh context, and let the header be one that can be encoded where the
first write with bytes of its own finds it, if headers are sent at all.  Then the response is
disciplined after every operation of the commands and of the scripts that they run, and so after
every command. -/
theorem header_discipline (request persistent : Index Text) (cookies : List Cookie)
    (settings : Settings) (program : Option Program) {commands : List Command}
    (hheader : ∀ c, firstWrite (.start request persistent cookies settings)
        (history ⟨.start request persistent cookies settings, program⟩ commands) = some c →
      c.settings.sendsHeader = true → ∃ bytes, Charset.latin1.encode c.header = .ok bytes) :
    let c₀ := Context.start request persistent cookies settings
    let s₀ : Session := ⟨c₀, program⟩
    (∀ ops, ops <+: s₀.history commands → Disciplined c₀ ops (applyAll c₀ ops)) ∧
      ∀ done, done <+: commands → s₀.history done <+: s₀.history commands ∧
        (s₀.applyCommands done).context = applyAll c₀ (s₀.history done) := by
  intro c₀ s₀
  constructor
  · rintro ops ⟨more, hmore⟩
    refine Context.disciplined_applyAll rfl rfl fun c₁ hfirst => ?_
    have hfirst' := Context.Operation.firstWrite_append hfirst more
    rw [hmore] at hfirst'
    unfold Context.IsHeader
    by_cases hsends : c₁.settings.sendsHeader = true
    · obtain ⟨bytes, hbytes⟩ := hheader c₁ hfirst' hsends
      exact ⟨bytes, by rw [if_pos hsends]; exact hbytes⟩
    · exact ⟨[], by rw [if_neg hsends]⟩
  · rintro done ⟨more, rfl⟩
    exact ⟨⟨_, (s₀.history_append done more).symm⟩, s₀.context_applyCommands done⟩

/-- A session with a length that is refused, a script that writes a text, and after it a type of the
body that comes too late and another text. -/
def lateMimeType : List Command :=
  [.setLength (-1), .setStatusCode 404, .run "a".toText (some 2), .setMimeType ['x'],
    .write ['b']]

/-- The fresh context of the session. -/
abbrev freshContext : Context := .start .empty .empty [] {}

/-- The text of the script sends the header, and the type of the body stays what it was. -/
theorem header_discipline_lateMimeType :
    history ⟨freshContext, none⟩ lateMimeType =
        [.set (.length (-1)), .set (.statusCode 404), .write ['a'], .set (.mimeType ['x']),
          .write ['b']] ∧
      (applyCommands ⟨freshContext, none⟩ lateMimeType).context.settings =
        { statusCode := 404 } ∧
      ∃ header, (applyCommands ⟨freshContext, none⟩ lateMimeType).context.output.toList =
        header ++ [97, 98] := by
  have hhistory : history ⟨freshContext, none⟩ lateMimeType =
      [.set (.length (-1)), .set (.statusCode 404), .write ['a'], .set (.mimeType ['x']),
        .write ['b']] := by rfl
  have hfirst : firstWrite freshContext (history ⟨freshContext, none⟩ lateMimeType) =
      some { freshContext with settings := { statusCode := 404 } } := by
    rw [hhistory]
    rfl
  have hsent : sent freshContext (history ⟨freshContext, none⟩ lateMimeType) = [97, 98] := by
    rw [hhistory]
    decide +kernel
  have hencodes : (Charset.latin1.encode (Context.header
      { freshContext with settings := { statusCode := 404 } })).isOk = true := by decide +kernel
  have hheader : ∀ c, firstWrite freshContext (history ⟨freshContext, none⟩ lateMimeType) =
      some c → c.settings.sendsHeader = true →
        ∃ bytes, Charset.latin1.encode c.header = .ok bytes := by
    intro c hc _
    obtain rfl := Option.some.inj (hfirst.symm.trans hc)
    cases hbytes : Charset.latin1.encode (Context.header
        { freshContext with settings := { statusCode := 404 } }) with
    | ok bytes =>
        exact ⟨bytes, rfl⟩
    | error e =>
        rw [hbytes] at hencodes
        cases hencodes
  obtain ⟨hdisciplined, hcommands⟩ := header_discipline .empty .empty [] {} none hheader
  obtain ⟨-, hcontext⟩ := hcommands _ List.prefix_rfl
  have hall := hdisciplined _ List.prefix_rfl
  obtain ⟨hsettings, -⟩ := hall.fixed _ hfirst
  obtain ⟨header, houtput, -⟩ := hall.output
  refine ⟨hhistory, ?_, header, ?_⟩
  · rw [hcontext, hsettings]
  · rw [hcontext, houtput, hsent]

end Session
end Stencil
