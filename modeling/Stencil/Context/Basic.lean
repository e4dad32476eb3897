import Stencil.Action
import Stencil.Context.Cookie
import Stencil.Index

/-!
# The context of a run

What a script can reach outside of itself: the parameters of the request, two stores of parameters
that it may change, and the response that it writes.

**The response.**  Its header is sent by the first write that has bytes to send, be there any or
none, and the parts of the header can only be set before that.  A text is encoded before anything is
sent, so that a text the character set lacks sends nothing.  The header itself is always written in
the first Latin set; if that fails the header counts as sent all the same.
-/

namespace Stencil

/-- The parts of a response that its header is made from. -/
structure Settings where
  charset : Text := "UTF-8".toText
  statusCode : Int := 200
  statusText : Text := "OK".toText
  mimeType : Text := "text/html".toText
  length : Option Int := none
  /-- A header is sent at all. -/
  sendsHeader : Bool := true
  /-- The host's codec of a name. -/
  codec? : Text → Option Codec := Charset.codec?

/-- What a script can reach outside of itself. -/
structure Context where
  request : Index Text
  persistent : Index Text
  temporary : Index Text
  settings : Settings
  cookies : List Cookie
  headerSent : Bool
  output : Array UInt8

namespace Context

/-- The context of a request, before anything has been written. -/
def start (request persistent : Index Text) (cookies : List Cookie) (settings : Settings) :
    Context where
  request := request
  persistent := persistent
  temporary := .empty
  settings := settings
  cookies := cookies
  headerSent := false
  output := #[]

/-- The line about the type of the body, which names the character set of a text. -/
def contentType (s : Settings) : Text :=
  "Content-Type: ".toText ++ s.mimeType
    ++ (if "text/".toText.isPrefixOf s.mimeType then "; charset=".toText ++ s.charset else [])
    ++ lineEnd

/-- The text of the header. -/
def header (c : Context) : Text :=
  "HTTP/1.1 ".toText ++ Text.ofInt c.settings.statusCode ++ .char ' ' :: c.settings.statusText
    ++ lineEnd
    ++ contentType c.settings
    ++ (match c.settings.length with
        | some n => "Content-Length: ".toText ++ Text.ofInt n ++ lineEnd
        | none => [])
    ++ c.cookies.flatMap Cookie.headerLine
    ++ lineEnd

/-- Adds bytes to the output. -/
def append (bytes : List UInt8) (c : Context) : Context :=
  { c with output := c.output ++ bytes }

/-- The header counts as sent. -/
def markSent (c : Context) : Context := { c with headerSent := true }

/-- The bytes of a text in the character set of the response. -/
def encode (c : Context) (t : Text) : Except Fault (List UInt8) :=
  match c.settings.codec? c.settings.charset with
  | none => .error (.unknownCharset c.settings.charset)
  | some codec => (codec t).mapError .unencodable

/-- The bytes of the header; there are none if no header is sent at all. -/
def headerBytes (c : Context) : Except Fault (List UInt8) :=
  if c.settings.sendsHeader then (Charset.latin1.encode c.header).mapError .unencodable else .ok []

/-- Sends the header. -/
def sendHeader : Action Context Unit := do
  modify markSent
  let bytes ← Action.ofExcept (← get).headerBytes
  modify (append bytes)

/-- Sends bytes, after the header if it has not been sent. -/
def writeBytes (bytes : List UInt8) : Action Context Unit := do
  if !(← get).headerSent then sendHeader
  modify (append bytes)

/-- Sends a text. -/
def write (t : Text) : Action Context Unit := do
  let bytes ← Action.ofExcept ((← get).encode t)
  writeBytes bytes

/-- Fails if the header has been sent. -/
def requireUnsent (field : HeaderField) : Action Context Unit := do
  if (← get).headerSent then throw (.headerSent field)

/-- Changes a part of the header, unless it has been sent. -/
def change (field : HeaderField) (f : Context → Context) : Action Context Unit := do
  requireUnsent field
  modify f

/-- Changes the settings, unless the header has been sent. -/
def changeSettings (field : HeaderField) (f : Settings → Settings) : Action Context Unit :=
  change field fun c => { c with settings := f c.settings }

/-- Sets the name of the character set, which is looked up when a text is written. -/
def setCharset (name : Text) : Action Context Unit :=
  changeSettings .charset ({ · with charset := name })

/-- Sets the status code. -/
def setStatusCode (code : Int) : Action Context Unit :=
  changeSettings .statusCode ({ · with statusCode := code })

/-- Sets the text after the status code. -/
def setStatusText (t : Text) : Action Context Unit :=
  changeSettings .statusText ({ · with statusText := t })

/-- Sets the type of the body. -/
def setMimeType (t : Text) : Action Context Unit :=
  changeSettings .mimeType ({ · with mimeType := t })

/-- Sets the length of the body.  A header that has been sent is reported before a negative
length. -/
def setLength (n : Int) : Action Context Unit := do
  requireUnsent .length
  if n < 0 then throw (.negativeLength n)
  changeSettings .length ({ · with length := some n })

/-- Adds a cookie. -/
def addCookie (cookie : Cookie) : Action Context Unit :=
  change .cookies fun c => { c with cookies := c.cookies ++ [cookie] }

/-- The two stores of parameters that a script may change. -/
inductive Store
  | persistent
  | temporary
deriving DecidableEq, Repr

/-- The parameters in a store. -/
def store (c : Context) : Store → Index Text
  | .persistent => c.persistent
  | .temporary => c.temporary

/-- The context with a store changed. -/
def modifyStore (which : Store) (f : Index Text → Index Text) (c : Context) : Context :=
  match which with
  | .persistent => { c with persistent := f c.persistent }
  | .temporary => { c with temporary := f c.temporary }

/-- Sets a parameter. -/
def setParameter (which : Store) (name value : Text) (c : Context) : Context :=
  c.modifyStore which (·.put name value)

/-- Removes a parameter, if it is there. -/
def removeParameter (which : Store) (name : Text) (c : Context) : Context :=
  c.modifyStore which (·.erase name)

end Context
end Stencil
