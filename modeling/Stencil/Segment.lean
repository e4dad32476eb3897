import Stencil.Malformed

/-!
# Segments of a template

A template is text with tags in it.  A tag is a bracket and a dollar sign, a body without dollar
signs, a dollar sign and a bracket; spaces may stand between a bracket and its dollar sign.  In the
text a backslash protects the character after it, so that a bracket after a backslash opens no tag.

**Algorithm.**  `scan` reads one character at a time.  Its `Mode` holds the segment that has begun,
with the characters read so far in reverse.  A tag is given out at its second dollar sign, before
the bracket after it is seen; a run of text at the bracket that ends it.

**Results.**  `scan_append` says that what has been given out, and any error that has been found,
does not depend on what follows.
-/

namespace Stencil

/-- A run of text, or the body of a tag, with the offset at which it begins. -/
inductive Segment
  | text (content : Text) (offset : Nat)
  | tag (body : Text) (offset : Nat)
deriving DecidableEq, Repr

namespace Segment

/-- A bracket after a backslash stands for the bracket; other backslashes stand for themselves. -/
def plainText (run : Text) : Text := Text.replacePair '\\' '[' '[' run

/-- What has been read of the segment in progress.  Runs and bodies are held in reverse. -/
inductive Mode
  /-- In text, or before the first character of a segment if the run is empty. -/
  | text (run : Text) (start : Nat)
  /-- After a backslash in text; the backslash is part of the run. -/
  | escape (run : Text) (start : Nat)
  /-- After the bracket that opens a tag. -/
  | bracket (start : Nat)
  /-- After the dollar sign that opens a tag. -/
  | dollar (start : Nat)
  /-- In the body of a tag. -/
  | body (read : Text) (start : Nat)
  /-- After the dollar sign that closes a tag. -/
  | closing (start : Nat)
deriving DecidableEq, Repr

namespace Mode

/-- Before the first character. -/
def initial : Mode := .text [] 0

/-- The run of text that ends here, if there is one. -/
def flush (run : Text) (start : Nat) : List Segment :=
  if run = [] then [] else [.text (plainText run.reverse) start]

/-- Reads the character at an offset: the segments that end with it and the mode after it, or a
cause and the offset that it is reported at. -/
def step (offset : Nat) (c : CodePoint) : Mode → Except (Malformed × Nat) (List Segment × Mode)
  | .text run start =>
      if c = '[' then .ok (flush run start, .bracket offset)
      else
        let start := if run = [] then offset else start
        .ok ([], if c = '\\' then .escape (c :: run) start else .text (c :: run) start)
  | .escape run start => .ok ([], .text (c :: run) start)
  | .bracket start =>
      if c = ' ' then .ok ([], .bracket start)
      else if c = '$' then .ok ([], .dollar start)
      else .error (.badOpening, offset)
  | .dollar start =>
      if c = '$' then .error (.emptyTag, start) else .ok ([], .body [c] start)
  | .body read start =>
      if c = '$' then .ok ([.tag read.reverse start], .closing start)
      else .ok ([], .body (c :: read) start)
  | .closing start =>
      if c = ' ' then .ok ([], .closing start)
      else if c = ']' then .ok ([], .text [] (offset + 1))
      else .error (.badClosing, offset)

/-- The end of the text at an offset: the last run of text, or a cause. -/
def finish (offset : Nat) : Mode → Except (Malformed × Nat) (List Segment)
  | .text run start => .ok (flush run start)
  | .escape _ _ => .error (.openEscape, offset - 1)
  | .bracket start | .dollar start | .body _ start | .closing start => .error (.openTag, start)

end Mode

/-- The segments found in a text, and the cause and place of the failure that ended the search. -/
abbrev Scan := List Segment × Option (Malformed × Nat)

/-- Segments that come before those of a scan. -/
def Scan.after (segments : List Segment) (scan : Scan) : Scan := (segments ++ scan.1, scan.2)

/-- Reads a text that begins at an offset, in a mode. -/
def scanFrom (mode : Mode) (offset : Nat) : Text → Scan
  | [] =>
      match mode.finish offset with
      | .ok segments => (segments, none)
      | .error failure => ([], some failure)
  | c :: rest =>
      match mode.step offset c with
      | .ok (segments, next) => (scanFrom next (offset + 1) rest).after segments
      | .error failure => ([], some failure)

/-- The segments of a text. -/
def scan (text : Text) : Scan := scanFrom .initial 0 text

/-- The mode after a text, with the segments given out on the way. -/
def run (mode : Mode) (offset : Nat) : Text → List Segment × Except (Malformed × Nat) Mode
  | [] => ([], .ok mode)
  | c :: rest =>
      match mode.step offset c with
      | .ok (segments, next) =>
          let (later, outcome) := run next (offset + 1) rest
          (segments ++ later, outcome)
      | .error failure => ([], .error failure)

/-- Reading a text and then another one gives out what the first gives out by itself; a failure
in the first is final. -/
theorem scan_append (mode : Mode) (offset : Nat) (s t : Text) :
    scanFrom mode offset (s ++ t) =
      match run mode offset s with
      | (segments, .ok next) => (scanFrom next (offset + s.length) t).after segments
      | (segments, .error failure) => (segments, some failure) := by
  induction s generalizing mode offset with
  | nil => simp [run, Scan.after]
  | cons c rest ih =>
      cases hstep : mode.step offset c with
      | error failure => simp [run, scanFrom, hstep]
      | ok result =>
          obtain ⟨segments, next⟩ := result
          simp only [List.cons_append, scanFrom, run, hstep, ih]
          obtain ⟨later, outcome⟩ := run next (offset + 1) rest
          cases outcome with
          | error failure => rfl
          | ok mode =>
              simp only [Scan.after, List.append_assoc, List.length_cons]
              rw [show offset + 1 + rest.length = offset + (rest.length + 1) by omega]

end Segment
end Stencil
