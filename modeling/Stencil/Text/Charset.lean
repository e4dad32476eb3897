import Stencil.Text.Quoted

/-!
# Character sets

The encodings that a response may be written in.  Each of them turns a text into bytes, or names the
first code points that it has no bytes for: UTF-16 the first, the others the first run of them.
Which names are known is a matter of the host; `Charset.codec?` knows those of the sets below.

The single-byte sets are partial functions from code points to bytes.  UTF-8 and the three forms of
UTF-16 have bytes for every character, but none for a surrogate that stands by itself; the form
without a stated byte order begins every text with a byte order mark and goes on in little-endian
order.
-/

namespace Stencil

/-- A run of code points that cannot be encoded: `first` is the one at `start`, and `stop` is the
offset after the run.  The encoding is named by its rule, and gives a reason. -/
structure Unencodable where
  rule : Text
  first : CodePoint
  start : Nat
  stop : Nat
  reason : Text
deriving DecidableEq, Repr

/-- The wording of an encoding error.  A single code point is shown by its number, a longer run by
its first and last offset. -/
def Unencodable.message (e : Unencodable) : Text :=
  let subject :=
    if e.stop = e.start + 1 then
      "character '".toText ++ Text.numbered e.first ++ "' in position ".toText ++ Text.ofNat e.start
    else
      "characters in position ".toText ++ Text.ofNat e.start ++ .char '-' :: Text.ofNat (e.stop - 1)
  .char '\'' :: e.rule ++ "' codec can't encode ".toText ++ subject ++ ": ".toText ++ e.reason

/-- An encoding of texts as bytes. -/
abbrev Codec := Text → Except Unencodable (List UInt8)

/-- A character set. -/
inductive Charset
  | utf8
  | utf16
  | utf16Little
  | utf16Big
  | ascii
  | latin1
  | latin2
deriving DecidableEq, Repr

namespace Charset

/-- A name of a character set reduced to its letters, digits and points, in lower case, with one
underscore for each run of other characters between them. -/
def reducedName (name : Text) : Text :=
  let kept : Text := name.map fun c => if c.isAlphanum || c = .char '.' then c.toLower else ' '
  let parts := kept.splitBy fun a b => (a = .char ' ') = (b = .char ' ')
  Text.joinWith ['_'] (parts.filter (·.head? ≠ some (.char ' ')))

/-- The reduced names of each character set. -/
def knownNames : List (Charset × List String) :=
  [(.utf8, ["utf_8", "utf8", "u8", "utf", "utf8_ucs2", "utf8_ucs4", "cp65001"]),
   (.utf16, ["utf_16", "utf16", "u16"]),
   (.utf16Little, ["utf_16_le", "utf_16le", "unicodelittleunmarked"]),
   (.utf16Big, ["utf_16_be", "utf_16be", "unicodebigunmarked"]),
   (.ascii, ["ascii", "us_ascii", "us", "646", "iso646_us", "iso_646.irv_1991", "iso_ir_6",
     "ansi_x3.4_1968", "ansi_x3_4_1968", "ansi_x3.4_1986", "cp367", "csascii", "ibm367"]),
   (.latin1, ["iso_8859_1", "iso8859_1", "iso8859", "8859", "latin_1", "latin1", "latin", "l1",
     "iso_8859_1_1987", "iso_ir_100", "cp819", "ibm819", "csisolatin1"]),
   (.latin2, ["iso_8859_2", "iso8859_2", "latin2", "l2", "iso_8859_2_1987", "iso_ir_101",
     "csisolatin2"])]

/-- The character set of a name, in whatever case and with whatever marks between its parts. -/
def ofName? (name : Text) : Option Charset :=
  (knownNames.find? fun known => known.2.any fun k => k.toText == reducedName name).map Prod.fst

/-- The characters of the second Latin set from `U+00A0` on, in the order of their bytes. -/
def latin2Upper : List Nat :=
  [160, 260, 728, 321, 164, 317, 346, 167, 168, 352, 350, 356, 377, 173, 381, 379, 176, 261, 731,
   322, 180, 318, 347, 711, 184, 353, 351, 357, 378, 733, 382, 380, 340, 193, 194, 258, 196,
   313, 262, 199, 268, 201, 280, 203, 282, 205, 206, 270, 272, 323, 327, 211, 212, 336, 214,
   215, 344, 366, 218, 368, 220, 221, 354, 223, 341, 225, 226, 259, 228, 314, 263, 231, 269,
   233, 281, 235, 283, 237, 238, 271, 273, 324, 328, 243, 244, 337, 246, 247, 345, 367, 250,
   369, 252, 253, 355, 729]

/-- The byte of a code point in a single-byte set; there is none in the other sets. -/
def byte? (charset : Charset) (c : CodePoint) : Option UInt8 :=
  let n := c.toNat
  match charset with
  | .ascii => if n < 128 then some (UInt8.ofNat n) else none
  | .latin1 => if n < 256 then some (UInt8.ofNat n) else none
  | .latin2 =>
      if n < 160 then some (UInt8.ofNat n)
      else (latin2Upper.idxOf? n).map fun i => UInt8.ofNat (160 + i)
  | .utf8 | .utf16 | .utf16Little | .utf16Big => none

/-- The bytes of a code point in UTF-8. -/
def utf8? : CodePoint → Option (List UInt8)
  | .char c => some (String.utf8EncodeChar c)
  | .surrogate _ => none

/-- The units of 16 bits that a code point takes: one, or a pair of surrogates. -/
def units16? : CodePoint → Option (List Nat)
  | .char c =>
      let n := c.toNat
      if n < 0x10000 then some [n]
      else some [0xD800 + (n - 0x10000) / 0x400, 0xDC00 + (n - 0x10000) % 0x400]
  | .surrogate _ => none

/-- A unit of 16 bits, the low byte first. -/
def littleEndian (unit : Nat) : List UInt8 := [UInt8.ofNat unit, UInt8.ofNat (unit / 256)]

/-- A unit of 16 bits, the high byte first. -/
def bigEndian (unit : Nat) : List UInt8 := [UInt8.ofNat (unit / 256), UInt8.ofNat unit]

/-- The bytes of a code point. -/
def bytes? (charset : Charset) (c : CodePoint) : Option (List UInt8) :=
  match charset with
  | .utf8 => utf8? c
  | .utf16 | .utf16Little => (units16? c).map (·.flatMap littleEndian)
  | .utf16Big => (units16? c).map (·.flatMap bigEndian)
  | .ascii | .latin1 | .latin2 => (charset.byte? c).map ([·])

/-- The bytes before those of a text. -/
def byteOrderMark : Charset → List UInt8
  | .utf16 => littleEndian 0xFEFF
  | _ => []

/-- An error of the character set is about a whole run of code points, and not about one. -/
def reportsRuns : Charset → Bool
  | .utf16 | .utf16Little | .utf16Big => false
  | _ => true

/-- How messages call the rule by which a character set encodes. -/
def ruleName : Charset → Text
  | .utf8 => "utf-8".toText
  | .utf16 => "utf-16".toText
  | .utf16Little => "utf-16-le".toText
  | .utf16Big => "utf-16-be".toText
  | .ascii => "ascii".toText
  | .latin1 => "latin-1".toText
  | .latin2 => "charmap".toText

/-- Why a character set has no bytes for a character. -/
def reason : Charset → Text
  | .ascii => "ordinal not in range(128)".toText
  | .latin1 => "ordinal not in range(256)".toText
  | .latin2 => "character maps to <undefined>".toText
  | .utf8 | .utf16 | .utf16Little | .utf16Big => "surrogates not allowed".toText

/-- The error about the code points from `start` up to `stop`. -/
def error (charset : Charset) (first : CodePoint) (start stop : Nat) : Unencodable :=
  ⟨charset.ruleName, first, start, stop, charset.reason⟩

/-- The character set has bytes for a code point. -/
def has (charset : Charset) (c : CodePoint) : Bool := (charset.bytes? c).isSome

/-- The first code points of a text that the character set has no bytes for. -/
def lacked? (charset : Charset) (t : Text) : Option Unencodable :=
  match t.dropWhile charset.has with
  | [] => none
  | first :: rest =>
      let start := (t.takeWhile charset.has).length
      let more := if charset.reportsRuns then (rest.takeWhile (!charset.has ·)).length else 0
      some (charset.error first start (start + 1 + more))

/-- The bytes that the character set has for the code points of a text. -/
def bytes (charset : Charset) (t : Text) : List UInt8 :=
  t.flatMap fun c => (charset.bytes? c).getD []

/-- The bytes of a text. -/
def encode (charset : Charset) : Codec := fun t =>
  match charset.lacked? t with
  | none => .ok (charset.byteOrderMark ++ charset.bytes t)
  | some e => .error e

/-- The codec of a name. -/
def codec? (name : Text) : Option Codec := (ofName? name).map encode

end Charset
end Stencil
