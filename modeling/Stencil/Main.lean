import Stencil.CommandLine.Basic

/-!
# The program

Reads the script from standard input, or from the file that the arguments name, and writes what the
tool writes.
-/

namespace Stencil

/-- The bytes of a result. -/
def CommandLine.Result.bytes (r : CommandLine.Result) : ByteArray := ⟨r.output⟩

/-- A text as the terminal shows it: a surrogate by its number. -/
def shown (t : Text) : String :=
  String.join (t.map fun
    | .char c => c.toString
    | .surrogate n => "\\u" ++ String.ofList (Nat.toDigits 16 (CodePoint.surrogate n).toNat))

/-- The script that the arguments name. -/
def readScript (arguments : List Text) : IO String := do
  match CommandLine.parse arguments with
  | .ok o =>
      let file := o.file.getD ['-']
      if file = [.char '-'] then (← IO.getStdin).readToEnd else IO.FS.readFile (shown file)
  | .error _ => return ""

end Stencil

/-- Runs the tool. -/
def main (arguments : List String) : IO UInt32 := do
  let arguments := arguments.map String.toText
  let script ← Stencil.readScript arguments
  let result := Stencil.CommandLine.run arguments script.toText
  (← IO.getStdout).write result.bytes
  let messages ← IO.getStderr
  for line in result.messages do
    messages.putStrLn (Stencil.shown line)
  match result.ending with
  | .code n => return UInt32.ofNat n
  | .fault f =>
      messages.putStrLn (Stencil.shown f.message)
      return 1
  | .unfinished => return 1
