import Flashpoint.Library.Climb
import Flashpoint.Server.HttpServer

/-!
# The HTTP scanner and parser

`HttpScanner` and `HttpParser` on what `SSL_read` has left in memory: the bytes that were received,
without a terminating zero, and whatever lies behind them. The scanner is a `Climb`: a computation
that may throw, and that only adds to `accesses`, the record of every index of `text` it read and of
every value that it gave `position`. `char` is signed.
-/

namespace Flashpoint

open Library

inductive HttpMethod where
  | none | get | post | put | delete | patch | head | connect | options | trace
deriving DecidableEq, Repr

inductive HttpHeader where
  | unknown | accept | acceptCharset | acceptEncoding | acceptLanguage | acceptPost
  | acceptRanges | age | allow | alpn | altSvc | altUsed | authenticationInfo | authorization
  | cacheControl | calDAVTimezones | connection | contentDisposition | contentEncoding
  | contentLanguage | contentLength | contentLocation | contentRange | contentType | cookie
  | dasl | dav | date | depth | destination | eTag | expect | expires | forwarded | from_ | host
  | http2Settings | if_ | ifMatch | ifModifiedSince | ifNoneMatch | ifRange | ifScheduleTagMatch
  | ifUnmodifiedSince | lastModified | link | location | lockToken | maxForwards | mimeVersion
  | orderingType | origin | overwrite | position | pragma | prefer | preferenceApplied
  | proxyAuthenticate | proxyAuthenticationInfo | proxyAuthorization | publicKeyPins
  | publicKeyPinsReportOnly | range | referer | retryAfter | scheduleReply | scheduleTag
  | secWebSocketAccept | secWebSocketExtensions | secWebSocketKey | secWebSocketProtocol
  | secWebSocketVersion | server | setCookie | slug | strictTransportSecurity | te | timeout
  | topic | trailer | transferEncoding | ttl | urgency | upgrade | userAgent | vary | via
  | wwwAuthenticate | warning | xContentTypeOptions | end_
deriving DecidableEq, Repr

/-- The memory that `text` points to. -/
structure Text where
  received : Bytes
  beyond : Nat → UInt8

namespace Text

/-- The `size` the scanner is given. -/
def size (text : Text) : Nat := text.received.length

def char (text : Text) (i : Nat) : UInt8 := (text.received[i]?).getD (text.beyond i)

end Text

/-- What the scanner did with `text` and `position`. -/
inductive Access where
  | read (index : Nat)
  | moveTo (position : Nat)
deriving DecidableEq, Repr

structure HttpScanner.SavedTextCursor where
  position : Nat
  startPosition : Nat
deriving DecidableEq, Repr

structure HttpScanner where
  position : Nat := 0
  startPosition : Nat := 0
  currentHeader : Bytes := []
  savedTextCursors : List HttpScanner.SavedTextCursor := []
  accesses : List Access := []

instance : Preorder HttpScanner where
  le s t := s.accesses <+: t.accesses
  le_refl s := List.prefix_refl s.accesses
  le_trans _ _ _ h h' := h.trans h'

/-- Computations of the scanner; a stop is an exception with its text. -/
abbrev ScannerM := Climb String HttpScanner

namespace HttpScanner

/-! ## Characters -/

def slash : UInt8 := 0x2F

def question : UInt8 := 0x3F

def colon : UInt8 := 0x3A

def percent : UInt8 := 0x25

def space : UInt8 := 0x20

def horizontalTab : UInt8 := 0x09

def carriageReturn : UInt8 := 0x0D

def newLine : UInt8 := 0x0A

def isAlpha (ch : UInt8) : Bool := (0x61 ≤ ch && ch ≤ 0x7A) || (0x41 ≤ ch && ch ≤ 0x5A)

def isDigit (ch : UInt8) : Bool := 0x30 ≤ ch && ch ≤ 0x39

/-- `isalnum` in the C locale. -/
def isAlnum (ch : UInt8) : Bool := isAlpha ch || isDigit ch

/-- `isxdigit` in the C locale. -/
def isXdigit (ch : UInt8) : Bool :=
  isDigit ch || (0x61 ≤ ch && ch ≤ 0x66) || (0x41 ≤ ch && ch ≤ 0x46)

/-- `tolower` in the C locale. -/
def toLower (ch : UInt8) : UInt8 := if 0x41 ≤ ch ∧ ch ≤ 0x5A then ch + 0x20 else ch

def isHeaderFieldStart (ch : UInt8) : Bool := isAlpha ch

def isHeaderFieldPart (ch : UInt8) : Bool := isAlpha ch || ch = 0x2D

/-- Letters and digits, and `-`, `.`, `_` and `~`. -/
def isUnreservedChar (ch : UInt8) : Bool :=
  isAlnum ch || ch = 0x2D || ch = 0x2E || ch = 0x5F || ch = 0x7E

/-- The characters `!$&'()*+,;=`. -/
def isSubDelimiter (ch : UInt8) : Bool :=
  ch = 0x21 || ch = 0x24 || ch = 0x26 || ch = 0x27 || ch = 0x28 || ch = 0x29 || ch = 0x2A ||
    ch = 0x2B || ch = 0x2C || ch = 0x3B || ch = 0x3D

/-- The characters `is_pchar` takes without moving on. -/
def isPlainPchar (ch : UInt8) : Bool :=
  isUnreservedChar ch || isSubDelimiter ch || ch = colon || ch = 0x40

def isVchar (ch : UInt8) : Bool := 0x21 ≤ ch && ch ≤ 0x7E

/-- The comparison is one of a signed character with `0x80`. -/
def isObsText (ch : UInt8) : Bool := 0x80 ≤ ch.toInt8.toInt && ch.toInt8.toInt ≤ 0xFF

/-- The names are compared with lower-cased ones: those with a capital letter are never found. -/
def stringToToken : List (String × HttpHeader) := [
  ("accept", .accept), ("accept-charset", .acceptCharset), ("accept-encoding", .acceptEncoding),
  ("accept-language", .acceptLanguage), ("accept-post", .acceptPost),
  ("accept-ranges", .acceptRanges), ("age", .age), ("allow", .allow), ("alpn", .alpn),
  ("alt-svc", .altSvc), ("alt-used", .altUsed), ("authentication-info", .authenticationInfo),
  ("authorization", .authorization), ("cache-control", .cacheControl),
  ("caldav-timezones", .calDAVTimezones), ("connection", .connection),
  ("content-disposition", .contentDisposition), ("content-encoding", .contentEncoding),
  ("content-language", .contentLanguage), ("content-length", .contentLength),
  ("content-location", .contentLocation), ("content-range", .contentRange),
  ("content-type", .contentType), ("cookie", .cookie), ("dasl", .dasl), ("dav", .dav),
  ("date", .date), ("depth", .depth), ("destination", .destination), ("etag", .eTag),
  ("expect", .expect), ("expires", .expires), ("forwarded", .forwarded), ("from", .from_),
  ("host", .host), ("http2-settings", .http2Settings), ("if", .if_), ("if-match", .ifMatch),
  ("if-modified-since", .ifModifiedSince), ("if-none-match", .ifNoneMatch),
  ("if-range", .ifRange), ("if-schedule-tag-match", .ifScheduleTagMatch),
  ("if-unmodified-since", .ifUnmodifiedSince), ("last-modified", .lastModified), ("link", .link),
  ("location", .location), ("lock-token", .lockToken), ("max-forwards", .maxForwards),
  ("mime-version", .mimeVersion), ("ordering-type", .orderingType), ("origin", .origin),
  ("overwrite", .overwrite), ("position", .position), ("pragma", .pragma), ("prefer", .prefer),
  ("preference-applied", .preferenceApplied), ("proxy-authenticate", .proxyAuthenticate),
  ("proxy-authentication-info", .proxyAuthenticationInfo),
  ("proxy-authorization", .proxyAuthorization), ("public-key-pins", .publicKeyPins),
  ("public-key-pins-report-only", .publicKeyPinsReportOnly), ("range", .range),
  ("referer", .referer), ("retry-after", .retryAfter), ("schedule-reply", .scheduleReply),
  ("schedule-tag", .scheduleTag), ("sec-webSocket-accept", .secWebSocketAccept),
  ("sec-webSocket-extensions", .secWebSocketExtensions), ("sec-webSocket-key", .secWebSocketKey),
  ("sec-webSocket-protocol", .secWebSocketProtocol),
  ("sec-webSocket-version", .secWebSocketVersion), ("server", .server),
  ("set-cookie", .setCookie), ("slug", .slug),
  ("strict-transport-security", .strictTransportSecurity), ("te", .te), ("timeout", .timeout),
  ("topic", .topic), ("trailer", .trailer), ("transfer-encoding", .transferEncoding),
  ("ttl", .ttl), ("urgency", .urgency), ("upgrade", .upgrade), ("user-agent", .userAgent),
  ("vary", .vary), ("via", .via), ("www-authenticate", .wwwAuthenticate), ("warning", .warning),
  ("x-content-type-options", .xContentTypeOptions)]

def getHeader (name : Bytes) : HttpHeader :=
  match stringToToken.find? fun entry => HttpServer.bytesOf entry.1 = name with
  | some entry => entry.2
  | none => .unknown

/-! ## Access to the text -/

section

variable (text : Text)

/-- Read a member. -/
def read {α : Type} (f : HttpScanner → α) : ScannerM α := do
  let s ← Climb.get
  return f s

/-- Change the scanner, with what is done with the text. -/
def update (accesses : HttpScanner → List Access) (f : HttpScanner → HttpScanner) :
    ScannerM Unit :=
  Climb.step (fun s => ((), { f s with accesses := s.accesses ++ accesses s }))
    fun s => List.prefix_append s.accesses _

def throwLogicError {α : Type} (message : String) : ScannerM α := Climb.stop message

/-- `text[index]` -/
def charAt (index : Nat) : ScannerM UInt8 := do
  update (fun _ => [.read index]) id
  return text.char index

def currentChar : ScannerM UInt8 := do
  let position ← read (·.position)
  charAt text position

/-- `position += k`, without a look at the size. -/
def skip (k : Nat) : ScannerM Unit :=
  update (fun s => [.moveTo (s.position + k)]) fun s => { s with position := s.position + k }

def incrementPosition : ScannerM Unit := do
  let position ← read (·.position)
  if position ≥ text.size then throwLogicError "You cannot increment more than max size."
  else skip 1

def save : ScannerM Unit :=
  update (fun _ => []) fun s =>
    { s with savedTextCursors := ⟨s.position, s.startPosition⟩ :: s.savedTextCursors }

def revert : ScannerM Unit := do
  let cursors ← read (·.savedTextCursors)
  match cursors with
  | [] => throwLogicError "no saved cursor"
  | cursor :: cursors =>
    update (fun _ => [.moveTo cursor.position]) fun s => { s with
      position := cursor.position
      startPosition := cursor.startPosition
      savedTextCursors := cursors }

def setTokenStartPosition : ScannerM Unit :=
  update (fun _ => []) fun s => { s with startPosition := s.position }

/-- An `int` from a `long long`. -/
def toInt (n : Int) : Int := (n + 2 ^ 31) % 2 ^ 32 - 2 ^ 31

/-- The indices `strncpy` reads: up to the zero, or `n` of them. -/
def strncpyIndices (start : Nat) : Nat → List Nat
  | 0 => []
  | n + 1 => if text.char start = 0 then [start] else start :: strncpyIndices (start + 1) n

/-- The string `strncpy` leaves, of at most `n` characters. -/
def strncpy (start : Nat) : Nat → Bytes
  | 0 => []
  | n + 1 => if text.char start = 0 then [] else text.char start :: strncpy (start + 1) n

/-- `get_token_value`: one character more than the token is copied, and then overwritten. Without
room for the terminating zero there is no string. -/
def getTokenValue : ScannerM Bytes := do
  let start ← read (·.startPosition)
  let position ← read (·.position)
  let size := toInt ((position : Int) - start + 1)
  if size ≤ 0 then throwLogicError "std::bad_array_new_length"
  else
    update (fun _ => (strncpyIndices text start size.toNat).map .read) id
    return strncpy text start (size.toNat - 1)

/-- `get_lower_cased_value`: the loop counts with an `int`. The value is used up to its first
zero. -/
def getLowerCasedValue : ScannerM Bytes := do
  let start ← read (·.startPosition)
  let position ← read (·.position)
  let size := position - start + 1
  if size ≥ 2 ^ 31 then throwLogicError "int overflow"
  else
    update (fun _ => ((List.range size).map (start + ·)).map .read) id
    return (((List.range (size - 1)).map fun i => toLower (text.char (start + i)))).takeWhile (· ≠ 0)

/-! ## The scanner -/

def scanOptional (ch : UInt8) : ScannerM Bool := do
  save
  let current ← currentChar text
  if current = ch then
    incrementPosition text
    return true
  else
    revert
    return false

def expectedMessage (ch : UInt8) : String :=
  if ch = carriageReturn then "Expected character '\\r'."
  else if ch = newLine then "Expected character '\\n'."
  else "Expected character '" ++ String.singleton (Char.ofNat ch.toNat) ++ "'"

def scanExpected (ch : UInt8) : ScannerM Unit := do
  let current ← currentChar text
  if current = ch then incrementPosition text
  else throwLogicError (expectedMessage ch)

/-- What `scan_method` does after the first letter `P`. -/
def scanMethodAfterP : ScannerM HttpMethod := do
  incrementPosition text
  let ch ← currentChar text
  if ch = 0x41 then
    skip 4
    return .patch
  else if ch = 0x4F then
    skip 3
    return .post
  else if ch = 0x55 then
    skip 2
    return .put
  else return .none

/-- The method is told by its first letter, and for `P` the second, and the rest of it is skipped. -/
def scanMethodName : ScannerM HttpMethod := do
  let ch ← currentChar text
  if ch = 0x43 then
    skip 7
    return .connect
  else if ch = 0x44 then
    skip 6
    return .delete
  else if ch = 0x47 then
    skip 3
    return .get
  else if ch = 0x48 then
    skip 4
    return .head
  else if ch = 0x4F then
    skip 7
    return .options
  else if ch = 0x50 then scanMethodAfterP text
  else if ch = 0x54 then
    skip 5
    return .trace
  else return .none

def scanMethod : ScannerM HttpMethod := do
  let token ← scanMethodName text
  let position ← read (·.position)
  if position ≥ text.size then throwLogicError "Invalid request."
  else return token

/-- A digit of a percent escape. -/
def scanXdigit : ScannerM Unit := do
  incrementPosition text
  let ch ← currentChar text
  if isXdigit ch then return ()
  else throwLogicError "Expected hex number."

/-- `is_pchar`, which moves on to the second digit of a percent escape. -/
def isPchar (ch : UInt8) : ScannerM Bool := do
  if isPlainPchar ch then return true
  else if ch = percent then
    scanXdigit text
    scanXdigit text
    return true
  else return false

/-- The loops of `scan_absolute_path` and `scan_query`, on a bound. -/
def scanPchars (also : UInt8 → Bool) : Nat → UInt8 → ScannerM Unit
  | 0, _ => return ()
  | n + 1, ch => do
    let position ← read (·.position)
    if position < text.size then
      let taken ← isPchar text ch
      if taken || also ch then
        incrementPosition text
        let ch ← currentChar text
        scanPchars also n ch
      else return ()
    else return ()

def scanAbsolutePath : ScannerM Bytes := do
  setTokenStartPosition
  scanExpected text slash
  let ch ← currentChar text
  scanPchars text (· = slash) text.size ch
  getTokenValue text

def scanQuery : ScannerM Bytes := do
  setTokenStartPosition
  let found ← scanOptional text question
  if found then
    let ch ← currentChar text
    scanPchars text (fun ch => ch = slash || ch = question) text.size ch
  getTokenValue text

/-- `scan_http_version` looks at the first letter only. -/
def scanHttpVersion : ScannerM Unit := do
  scanExpected text 0x48
  skip 7
  let position ← read (·.position)
  let _ ← charAt text position
  return ()

/-- The loop of `scan_header` over the name, on a bound. -/
def scanHeaderName : Nat → ScannerM Unit
  | 0 => return ()
  | n + 1 => do
    let position ← read (·.position)
    if position < text.size then
      let ch ← currentChar text
      if isHeaderFieldPart ch then
        incrementPosition text
        scanHeaderName n
      else return ()
    else return ()

/-- The loop of `scan_field_content` over blanks, on a bound. -/
def scanBlanks : Nat → UInt8 → ScannerM Unit
  | 0, _ => return ()
  | n + 1, ch => do
    let position ← read (·.position)
    if position < text.size ∧ (ch = space ∨ ch = horizontalTab) then
      incrementPosition text
      let ch ← currentChar text
      scanBlanks n ch
    else return ()

def scanFieldContent : ScannerM Bool := do
  save
  let ch ← currentChar text
  if isVchar ch || isObsText ch then
    incrementPosition text
    let ch ← currentChar text
    if ch = space ∨ ch = horizontalTab then
      incrementPosition text
      let ch ← currentChar text
      scanBlanks text text.size ch
      let ch ← currentChar text
      if isVchar ch then
        incrementPosition text
        return true
      else
        revert
        return false
    else return true
  else
    revert
    return false

/-- The loop of `scan_header_value`, on a bound. -/
def scanHeaderValue : Nat → ScannerM Unit
  | 0 => return ()
  | n + 1 => do
    let position ← read (·.position)
    if position < text.size then
      let content ← scanFieldContent text
      if content then scanHeaderValue n
      else
        let ch ← currentChar text
        if isObsText ch then
          incrementPosition text
          scanHeaderValue n
        else return ()
    else return ()

/-- What follows the name of a header. -/
def scanHeaderRest : ScannerM Unit := do
  scanExpected text colon
  let _ ← scanOptional text space
  setTokenStartPosition
  scanHeaderValue text text.size
  let value ← getTokenValue text
  update (fun _ => []) fun s => { s with currentHeader := value }
  let _ ← scanOptional text space
  scanExpected text carriageReturn
  scanExpected text newLine

def scanHeader : ScannerM HttpHeader := do
  setTokenStartPosition
  let ch ← currentChar text
  if isHeaderFieldStart ch then
    scanHeaderName text text.size
    let name ← getLowerCasedValue text
    scanHeaderRest text
    return getHeader name
  else
    let found ← scanOptional text carriageReturn
    if found then
      scanExpected text newLine
      return .end_
    else throwLogicError "Parse error in the header"

/-- The loop of `scan_body`, for at most `n` characters. -/
def scanBodyChars : Nat → ScannerM Unit
  | 0 => return ()
  | n + 1 => do
    let position ← read (·.position)
    if position < text.size then
      incrementPosition text
      scanBodyChars n
    else return ()

/-- `scan_body` takes the length as an `unsigned int`. -/
def scanBody (length : Int) : ScannerM Bytes := do
  setTokenStartPosition
  scanBodyChars text (length % 2 ^ 32).toNat
  getTokenValue text

end

end HttpScanner

/-! ## The parser -/

namespace HttpParser

open HttpScanner

structure RequestLine where
  method : HttpMethod
  path : Bytes
  query : Bytes
deriving DecidableEq, Repr

/-- A map with pointers as values, which may be null. -/
abbrev Headers := List (HttpHeader × Option Bytes)

/-- `headers[header] = value` -/
def Headers.set (headers : Headers) (header : HttpHeader) (value : Option Bytes) : Headers :=
  (header, value) :: headers.filter fun entry => entry.1 ≠ header

structure HttpRequest where
  method : HttpMethod
  path : Bytes
  query : Bytes
  headers : Headers
  body : Option Bytes
deriving DecidableEq, Repr

/-- The digits at the start of a text, onto a number. -/
def digits : Nat → Bytes → Nat
  | n, [] => n
  | n, ch :: rest => if isDigit ch then digits (10 * n + (ch.toNat - 0x30)) rest else n

/-- `std::atoll`: a number that is no `long long` is cut off at the ends of its range. -/
def atoll (string : Bytes) : Int :=
  let string := string.dropWhile fun ch => ch = space || (0x09 ≤ ch && ch ≤ 0x0D)
  match string with
  | 0x2D :: rest => max (-2 ^ 63) (-(digits 0 rest : Int))
  | 0x2B :: rest => min (2 ^ 63 - 1) (digits 0 rest : Int)
  | rest => min (2 ^ 63 - 1) (digits 0 rest : Int)

section

variable (text : Text)

def parseRequestLine : ScannerM RequestLine := do
  let method ← scanMethod text
  scanExpected text space
  let path ← scanAbsolutePath text
  let query ← scanQuery text
  scanExpected text space
  scanHttpVersion text
  scanExpected text carriageReturn
  scanExpected text newLine
  return { method, path, query }

/-- The loop of `parse_headers`, on a bound. -/
def parseHeaders : Nat → Headers → ScannerM Headers
  | 0, _ => throwLogicError "out of fuel"
  | n + 1, headers => do
    let header ← scanHeader text
    if header = .end_ then return headers
    else
      let value ← read (·.currentHeader)
      parseHeaders n (headers.set header value)

/-- The body is read if there is a length for it; looking for the length puts a null pointer where
there is none. -/
def parseBody (method : HttpMethod) (headers : Headers) : ScannerM (Headers × Option Bytes) := do
  if method = .get then return (headers, none)
  else
    match headers.lookup .contentLength with
    | some (some value) =>
      let body ← scanBody text (atoll value)
      return (headers, some body)
    | some none => return (headers, none)
    | none => return (headers.set .contentLength none, none)

/-- `Parse` gives a pointer to a new request; the other outcome is an exception. -/
def parse : ScannerM (Option HttpRequest) := do
  let line ← parseRequestLine text
  let headers ← parseHeaders text (text.size + 1) []
  let (headers, body) ← parseBody text line.method headers
  return some { method := line.method, path := line.path, query := line.query, headers, body }

end

end HttpParser

end Flashpoint
