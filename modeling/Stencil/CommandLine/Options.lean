import Stencil.Index
import Stencil.Number.Basic
import Stencil.Text.Blank
import Stencil.Text.Letter
import Stencil.Text.Quoted

/-!
# Command line options

The options of the command line tool, and how a list of arguments sets them.

**Arguments.**  An argument that begins with a dash is an option: by its full name, by an
unambiguous beginning of a long name, or by a short name with further characters after it.  A value
is what follows an equals sign, what follows a short name, or the next argument.  The further
characters after a short name that takes no value are short names again, also after an equals
sign.  After `--` nothing is an option, and neither is a single dash, a negative number, or an
argument with a space that is not a known option.

The first argument that is no option is the script file; the others are not recognized.

All arguments are told apart before any of them is looked at more closely, so that an ambiguous name
is reported before any other fault.  Of the short names in one argument none is set before all of
them are known and a value has been found for the last.
-/

namespace Stencil
namespace CommandLine

/-- The options. -/
inductive Switch
  | help
  | param
  | persistent
  | http
  | tree
  | gas
  | profile
  | dump
deriving DecidableEq, Repr

namespace Switch

/-- The names of each option. -/
def known : List (String × Switch) :=
  [("-h", .help), ("--help", .help), ("-P", .param), ("--param", .param), ("--pparam", .persistent),
   ("--http", .http), ("-t", .tree), ("--tree", .tree), ("-g", .gas), ("--gas", .gas),
   ("-p", .profile), ("--profile", .profile), ("-c", .dump), ("--dump-ctx", .dump)]

/-- The option of a full name. -/
def ofName? (name : Text) : Option Switch :=
  (known.find? fun entry => entry.1.toText == name).map Prod.snd

/-- All names of an option, as messages give them. -/
def label (s : Switch) : Text :=
  Text.joinWith ['/'] ((known.filter fun entry => entry.2 == s).map fun entry => entry.1.toText)

/-- The option takes a value. -/
def takesValue : Switch → Bool
  | .param | .persistent | .gas => true
  | .help | .http | .tree | .profile | .dump => false

end Switch

/-- Why a list of arguments is refused. -/
inductive UsageError
  | ambiguous (argument : Text) (names : List Text)
  | missingValue (s : Switch)
  | unusedValue (s : Switch) (value : Text)
  | notAnInteger (s : Switch) (value : Text)
  | notAPair (s : Switch) (value : Text)
  | missingFile
  | unrecognized (arguments : List Text)
deriving DecidableEq, Repr

namespace UsageError

/-- The wording of what is wrong with a pair. -/
def pairMessage (value : Text) : Text := "expected key=value: ".toText ++ Text.quoted value

/-- What is wrong with the value of an option. -/
def aboutOption (s : Switch) (wording : Text) : Text :=
  "argument ".toText ++ s.label ++ ": ".toText ++ wording

/-- The wording of a usage error. -/
def message : UsageError → Text
  | .ambiguous argument names =>
      "ambiguous option: ".toText ++ argument ++ " could match ".toText
        ++ Text.joinWith ", ".toText names
  | .missingValue s => aboutOption s "expected one argument".toText
  | .unusedValue s value =>
      aboutOption s ("ignored explicit argument ".toText ++ Text.quoted value)
  | .notAnInteger s value => aboutOption s ("invalid int value: ".toText ++ Text.quoted value)
  | .notAPair s value => aboutOption s (pairMessage value)
  | .missingFile => "the following arguments are required: file".toText
  | .unrecognized arguments =>
      "unrecognized arguments: ".toText ++ Text.joinWith [' '] arguments

end UsageError

/-- What the arguments ask for. -/
structure Options where
  file : Option Text := none
  params : List (Text × Text) := []
  persistent : List (Text × Text) := []
  http : Bool := false
  tree : Bool := false
  gas : Option Int := none
  profile : Bool := false
  dump : Bool := false
deriving DecidableEq, Repr

/-- Why the arguments do not lead to a run. -/
inductive Stop
  | usage (e : UsageError)
  /-- The list of the options is asked for. -/
  | help
deriving DecidableEq, Repr

/-- The key before the first equals sign and the value after it; a key is not empty. -/
def keyValue? (t : Text) : Option (Text × Text) :=
  let key := t.takeWhile (· ≠ .char '=')
  match t.dropWhile (· ≠ .char '=') with
  | _ :: value => if key = [] then none else some (key, value)
  | [] => none

/-- The value of a decimal digit.  The digits of a script follow one another, zero first. -/
def digitValue? (c : CodePoint) : Option Nat :=
  if c.isDigit then some (c.toNat - '0'.toNat)
  else (Text.decimalDigitRanges.find? fun range => range.1 ≤ c.toNat ∧ c.toNat ≤ range.2).map
    fun range => (c.toNat - range.1) % 10

/-- Reads digits, with an underscore allowed between two of them. -/
def digitsFrom (n : Nat) : Text → Option Nat
  | [] => some n
  | ['_'] => none
  | '_' :: d :: rest => do digitsFrom (10 * n + (← digitValue? d)) rest
  | d :: rest => do digitsFrom (10 * n + (← digitValue? d)) rest

/-- Reads at least one digit. -/
def natural? : Text → Option Nat
  | [] => none
  | d :: rest => do digitsFrom (← digitValue? d) rest

/-- Reads an integer, with white space around it and not too many digits. -/
def integer? (t : Text) : Option Int :=
  if digitLimit < t.countP fun c => (digitValue? c).isSome then none
  else match Text.trim Text.isWhiteSpace t with
  | '-' :: rest => (natural? rest).map fun n => -(n : Int)
  | '+' :: rest => (natural? rest).map fun n => (n : Int)
  | rest => (natural? rest).map fun n => (n : Int)

/-- Reads a pair for an option. -/
def pairFor (s : Switch) (value : Text) : Except Stop (Text × Text) :=
  match keyValue? value with
  | some pair => .ok pair
  | none => .error (.usage (.notAPair s value))

/-- Sets an option that takes a value. -/
def setValue (o : Options) (s : Switch) (value : Text) : Except Stop Options :=
  match s with
  | .param => return { o with params := o.params ++ [← pairFor s value] }
  | .persistent => return { o with persistent := o.persistent ++ [← pairFor s value] }
  | .gas =>
      match integer? value with
      | some n => .ok { o with gas := some n }
      | none => .error (.usage (.notAnInteger s value))
  | .help | .http | .tree | .profile | .dump => .error (.usage (.unusedValue s value))

/-- Sets an option that takes no value. -/
def setFlag (o : Options) (s : Switch) : Except Stop Options :=
  match s with
  | .http => .ok { o with http := true }
  | .tree => .ok { o with tree := true }
  | .profile => .ok { o with profile := true }
  | .dump => .ok { o with dump := true }
  | .help => .error .help
  | .param | .persistent | .gas => .error (.usage (.missingValue s))

/-- An argument by its form. -/
inductive Argument
  | plain (t : Text)
  /-- The mark after which nothing is an option. -/
  | endOfOptions
  /-- An option, with the value that is part of the argument: what follows an equals sign, or what
  follows a short name. -/
  | option (s : Switch) (isLong : Bool) (attached : Option Text)
  | unknown (t : Text)
deriving DecidableEq, Repr

/-- A negative number is no option, nor is one with a line feed at its end. -/
def isNegativeNumber : Text → Bool
  | '-' :: rest =>
      let isDigit := Text.isDecimalDigit
      let number := if rest.getLast? = some (.char '\n') then rest.dropLast else rest
      match number.dropWhile isDigit with
      | [] => number ≠ []
      | '.' :: places => places ≠ [] && places.all isDigit
      | _ => false
  | _ => false

/-- What an equals sign attaches to a name. -/
def splitEquals (t : Text) : Text × Option Text :=
  match t.dropWhile (· ≠ .char '=') with
  | _ :: value => (t.takeWhile (· ≠ .char '='), some value)
  | [] => (t, none)

/-- The options that an argument may mean, with the names that it may stand for. -/
def candidates (t : Text) : List (Text × Argument) :=
  match t with
  | '-' :: '-' :: _ =>
      let (name, attached) := splitEquals t
      (Switch.known.filter fun entry => name.isPrefixOf entry.1.toText).map fun entry =>
        (entry.1.toText, .option entry.2 true attached)
  | '-' :: c :: rest =>
      (Switch.known.filter fun entry => entry.1.toText = [.char '-', c]).map fun entry =>
        (entry.1.toText, .option entry.2 false (some rest))
  | _ => []

/-- The form of an argument that begins with a dash, is longer than that and is no full name. -/
def classifyOption (t : Text) : Except Stop Argument :=
  match candidates t with
  | [] =>
      if isNegativeNumber t || t.contains ' ' then .ok (.plain t) else .ok (.unknown t)
  | [(_, argument)] => .ok argument
  | several => .error (.usage (.ambiguous t (several.map Prod.fst)))

/-- A name is a long one. -/
def isLong : Text → Bool
  | '-' :: '-' :: _ => true
  | _ => false

/-- The form of an argument. -/
def classify (t : Text) : Except Stop Argument :=
  match t with
  | '-' :: _ :: _ =>
      match Switch.ofName? t with
      | some s => .ok (.option s (isLong t) none)
      | none =>
          let (name, attached) := splitEquals t
          match attached, Switch.ofName? name with
          | some _, some s => .ok (.option s (isLong name) attached)
          | _, _ => classifyOption t
  | _ => .ok (.plain t)

/-- The forms of arguments. -/
def classifyAll : List Text → Except Stop (List Argument)
  | [] => .ok []
  | t :: rest =>
      if t = [.char '-', .char '-'] then .ok (.endOfOptions :: rest.map .plain)
      else do return (← classify t) :: (← classifyAll rest)

/-- The options set so far, and the arguments that are not recognized. -/
structure Reading where
  options : Options
  extras : List Text
deriving DecidableEq, Repr

/-- The options that one argument sets: some that take no value, and at last perhaps one that takes
a value.  If the value is not part of the argument it is the next argument. -/
structure Request where
  flags : List Switch
  valued : Option (Switch × Option Text)
deriving DecidableEq, Repr

/-- The request for one option without a value of its own. -/
def Request.single (s : Switch) : Request :=
  if s.takesValue then ⟨[], some (s, none)⟩ else ⟨[s], none⟩

/-- A request with an option that takes no value before it. -/
def Request.after (request : Request) (s : Switch) : Request :=
  { request with flags := s :: request.flags }

/-- The request of an option with what is attached to its short name.  If the option takes no value
the attached characters are short names themselves. -/
def cluster (s : Switch) : Text → Except Stop Request
  | [] => if s.takesValue then .ok ⟨[], some (s, some [])⟩ else .error (.usage (.unusedValue s []))
  | c :: rest =>
      if s.takesValue then .ok ⟨[], some (s, some (c :: rest))⟩
      else
        match Switch.ofName? ['-', c], rest with
        | none, _ => .error (.usage (.unusedValue s (c :: rest)))
        | some next, [] => .ok ((Request.single next).after s)
        | some next, d :: rest => do
            return (← cluster next (d :: rest)).after s

/-- The request of an option. -/
def requestOf (s : Switch) (isLong : Bool) : Option Text → Except Stop Request
  | none => .ok (Request.single s)
  | some value =>
      if isLong && !s.takesValue then .error (.usage (.unusedValue s value)) else cluster s value

/-- Sets options that take no value, and then perhaps one that takes a value. -/
def set (r : Reading) (flags : List Switch) (valued : Option (Switch × Text)) :
    Except Stop Reading := do
  let o ← flags.foldlM setFlag r.options
  match valued with
  | some (s, value) => return { r with options := ← setValue o s value }
  | none => return { r with options := o }

/-- Reads an argument that is no option. -/
def readPlain (r : Reading) (t : Text) : Reading :=
  match r.options.file with
  | none => { r with options := { r.options with file := some t } }
  | some _ => { r with extras := r.extras ++ [t] }

/-- Reads arguments.  The mark that ends the options is dropped before the script file and right
after it. -/
def read (r : Reading) : List Argument → Except Stop Reading
  | [] => .ok r
  | .plain t :: rest =>
      match r.options.file, rest with
      | none, .endOfOptions :: rest => read (readPlain r t) rest
      | _, rest => read (readPlain r t) rest
  | .endOfOptions :: rest =>
      if r.options.file = none then read r rest else read (readPlain r ['-', '-']) rest
  | .unknown t :: rest => read { r with extras := r.extras ++ [t] } rest
  | .option s isLong attached :: rest =>
      match requestOf s isLong attached, rest with
      | .error stop, _ => .error stop
      | .ok ⟨flags, none⟩, rest => do read (← set r flags none) rest
      | .ok ⟨flags, some (s, some value)⟩, rest => do read (← set r flags (some (s, value))) rest
      | .ok ⟨flags, some (s, none)⟩, .plain value :: rest => do
          read (← set r flags (some (s, value))) rest
      | .ok ⟨_, some (s, none)⟩, _ => .error (.usage (.missingValue s))

/-- The options that a list of arguments sets. -/
def parse (arguments : List Text) : Except Stop Options := do
  let forms ← classifyAll arguments
  let r ← read ⟨{}, []⟩ forms
  if r.options.file = none then throw (.usage .missingFile)
  if r.extras ≠ [] then throw (.usage (.unrecognized r.extras))
  return r.options

end CommandLine
end Stencil
