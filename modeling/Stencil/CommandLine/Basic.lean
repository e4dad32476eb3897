import Stencil.CommandLine.Options
import Stencil.Context.Report
import Stencil.Document.Source
import Stencil.Run.Basic

/-!
# The command line tool

The tool reads a script and writes what it writes.  Messages go to a channel of their own: what went
wrong, the report of the parameters if it is asked for, and the number of steps.

A fault of the script is reported and makes the exit code one.  Any other fault ends the tool.
-/

namespace Stencil
namespace CommandLine

/-- How the tool ends. -/
inductive Ending
  /-- With an exit code. -/
  | code (n : Nat)
  /-- By a fault that is not one of the script. -/
  | fault (f : Fault)
  /-- The script did not end in all patience. -/
  | unfinished
deriving DecidableEq

/-- How the tool ends, what it has written, and the lines of its messages. -/
structure Result where
  ending : Ending
  output : Array UInt8
  messages : List Text
deriving DecidableEq

/-- The line that says what went wrong. -/
def errorLine (message : Text) : Text := "Error: ".toText ++ message

/-- The messages after a run. -/
def closing (o : Options) (m : Machine) : List Text :=
  (if o.dump then m.context.reportLines else [])
    ++ ["Steps: ".toText ++ Text.ofNat m.steps]

/-- Runs a document as the options say. -/
def runDocument (o : Options) (d : Document) : Result :=
  let settings : Settings := { sendsHeader := o.http }
  let context := Context.start (Index.ofList o.params) (Index.ofList o.persistent) [] settings
  let (outcome, m) := d.run o.gas context
  let output := m.context.output
  match outcome with
  | .finished => ⟨.code 0, output, closing o m⟩
  | .failed f =>
      if f.isOfScript then ⟨.code 1, output, errorLine f.message :: closing o m⟩
      else ⟨.fault f, output, []⟩
  | .unfinished => ⟨.unfinished, output, []⟩

/-- Prints a document as a template, in UTF-8. -/
def printSource (d : Document) : Result :=
  match Charset.utf8.encode (Document.source d ++ [.char '\n']) with
  | .ok bytes => ⟨.code 0, bytes.toArray, []⟩
  | .error e => ⟨.fault (.unencodable e), #[], []⟩

/-- Does what the options say with a script. -/
def runScript (o : Options) (script : Text) : Result :=
  match Document.parse script with
  | .error (.refused e) => ⟨.code 1, #[], [errorLine e.message]⟩
  | .error (.tooManyDigits e) => ⟨.fault (.tooManyDigits e), #[], []⟩
  | .ok d => if o.tree then printSource d else runDocument o d

/-- The line that refuses the arguments. -/
def usageLine (e : UsageError) : Text := "smartscript: error: ".toText ++ e.message

/-- Does what the arguments say with a script. -/
def run (arguments : List Text) (script : Text) : Result :=
  match parse arguments with
  | .ok o => runScript o script
  | .error .help => ⟨.code 0, #[], []⟩
  | .error (.usage e) => ⟨.code 2, #[], [usageLine e]⟩

end CommandLine
end Stencil
