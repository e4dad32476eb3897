import Stencil.Context.Report
import Stencil.Run.Basic

/-!
# Sessions

A session is a context that is worked on command by command, and the program that has been loaded
last.  A command that fails leaves what it has changed, and the session goes on.
-/

namespace Stencil

/-- A document with a budget of steps, or without one. -/
structure Program where
  document : Document
  limit : Option Int

/-- The parameters that a command can read. -/
inductive Source
  | request
  | store (which : Context.Store)
deriving DecidableEq, Repr

/-- What can be asked of a session. -/
inductive Command
  | write (t : Text)
  | writeBytes (bytes : List UInt8)
  | setCharset (name : Text)
  | setStatusCode (code : Int)
  | setStatusText (t : Text)
  | setMimeType (t : Text)
  | setLength (n : Int)
  | addCookie (cookie : Cookie)
  | header
  | get (source : Source) (name : Text)
  | set (store : Context.Store) (name value : Text)
  | del (store : Context.Store) (name : Text)
  | names
  | report
  | load (text : Text) (limit : Option Int)
  | execute
  | run (text : Text) (limit : Option Int)

/-- What a command answers. -/
inductive Reply
  | done
  | text (t : Text)
  | parameter (t : Option Text)
  | names (request persistent temporary : List Text)
deriving DecidableEq

/-- Why a command failed. -/
inductive CommandError
  | malformed (e : ParseFailure)
  | fault (f : Fault)
  /-- There is no program to execute. -/
  | noProgram
  /-- The program did not end in all patience. -/
  | unfinished
deriving DecidableEq

/-- A context and the program loaded last. -/
structure Session where
  context : Context
  program : Option Program

/-- The answer to a command, and the steps of the run if there was one. -/
structure Response where
  result : Except CommandError Reply
  steps : Option Nat

namespace Context

/-- The parameters of a source. -/
def parameters (c : Context) : Source → Index Text
  | .request => c.request
  | .store which => c.store which

end Context

namespace Session

/-- Does an action on the context. -/
def act (s : Session) (action : Action Context Unit) : Response × Session :=
  let (outcome, context) := action.runIn s.context
  (⟨(outcome.mapError .fault).map fun _ => .done, none⟩, { s with context := context })

/-- Answers without a change. -/
def reply (s : Session) (r : Reply) : Response × Session := (⟨.ok r, none⟩, s)

/-- Fails without a change. -/
def fail (s : Session) (e : CommandError) : Response × Session := (⟨.error e, none⟩, s)

/-- Runs a program. -/
def runProgram (s : Session) (p : Program) : Response × Session :=
  let (outcome, m) := p.document.run p.limit s.context
  let result := match outcome with
    | .finished => .ok .done
    | .failed f => .error (.fault f)
    | .unfinished => .error .unfinished
  (⟨result, some m.steps⟩, { s with context := m.context })

/-- Reads a program. -/
def load (s : Session) (text : Text) (limit : Option Int) : Except CommandError Session :=
  match Document.parse text with
  | .ok d => .ok { s with program := some ⟨d, limit⟩ }
  | .error e => .error (.malformed e)

/-- Executes the program loaded last. -/
def execute (s : Session) : Response × Session :=
  match s.program with
  | some p => s.runProgram p
  | none => s.fail .noProgram

/-- Does a command. -/
def apply (s : Session) : Command → Response × Session
  | .write t => s.act (Context.write t)
  | .writeBytes bytes => s.act (Context.writeBytes bytes)
  | .setCharset name => s.act (Context.setCharset name)
  | .setStatusCode code => s.act (Context.setStatusCode code)
  | .setStatusText t => s.act (Context.setStatusText t)
  | .setMimeType t => s.act (Context.setMimeType t)
  | .setLength n => s.act (Context.setLength n)
  | .addCookie cookie => s.act (Context.addCookie cookie)
  | .header => s.reply (.text s.context.header)
  | .get source name => s.reply (.parameter ((s.context.parameters source).get? name))
  | .set store name value => s.act (modify (Context.setParameter store name value))
  | .del store name => s.act (modify (Context.removeParameter store name))
  | .names =>
      s.reply (.names s.context.request.names s.context.persistent.names s.context.temporary.names)
  | .report => s.reply (.text s.context.report)
  | .load text limit =>
      match s.load text limit with
      | .ok s => s.reply .done
      | .error e => s.fail e
  | .execute => s.execute
  | .run text limit =>
      match s.load text limit with
      | .ok s => s.execute
      | .error e => s.fail e

end Session
end Stencil
