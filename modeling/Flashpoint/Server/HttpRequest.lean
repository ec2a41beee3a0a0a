import Mathlib.Data.List.Basic
import Flashpoint.Server.HttpHeaders
import Flashpoint.Server.HttpWriter

/-!
# Requests, written and read

A request line that `WriteRequest` writes is read back exactly if it is one of the four methods that
`WriteRequest` has a text for (`roundTrips_iff`). The body of a request is what was received of it, up
to its first zero, and its length goes through an `unsigned int` and an `int` on its way
(`readsWhole_iff`).
-/

namespace Flashpoint

namespace HttpReading

open Library HttpScanner HttpParser

/-! ## The request line -/

/-- The bytes that the writer puts into its buffer. -/
def putBytes (actions : List HttpWriter.Action) : Bytes :=
  actions.filterMap fun
    | .put ch => some ch
    | .finish => none

/-- The methods that `WriteRequest` has a text for. -/
def isWritten : HttpMethod → Bool
  | .get | .post | .patch | .head => true
  | _ => false

/-- What `WriteRequest` writes is parsed to the method, the path and an empty query, up to its end and
no further. -/
def RoundTrips (method : HttpMethod) (path : CString) : Prop :=
  ∀ beyond : Nat → UInt8, ∃ s : HttpScanner,
    (parseRequestLine ⟨putBytes (HttpWriter.writeRequest method path), beyond⟩).run {} =
        .ok ⟨method, path.1, []⟩ s ∧
      s.position = (putBytes (HttpWriter.writeRequest method path)).length

theorem putBytes_append (actions actions' : List HttpWriter.Action) :
    putBytes (actions ++ actions') = putBytes actions ++ putBytes actions' :=
  List.filterMap_append

theorem putBytes_write (text : CString) : putBytes (HttpWriter.write text) = text.1 := by
  unfold putBytes HttpWriter.write
  rw [List.filterMap_map]
  exact List.filterMap_some

/-- The request line of a method that is written. -/
theorem isRequestLine_writeRequest {method : HttpMethod} (hmethod : isWritten method = true)
    {path : CString} (hpath : IsPath path.1) :
    IsRequestLine ⟨method, path.1, []⟩ (putBytes (HttpWriter.writeRequest method path)) := by
  obtain ⟨name, hname, htext⟩ : ∃ name, methodName method = some name ∧
      putBytes (HttpWriter.writeRequest.writeMethod method) = name ++ [space] := by
    cases method with
    | get | post | patch | head => exact ⟨_, rfl, rfl⟩
    | _ => cases hmethod
  have hbytes : putBytes (HttpWriter.writeRequest method path) =
      name ++ space :: (path.1 ++ ([] ++ space :: (version ++ crlf))) := by
    have hversion : putBytes (HttpWriter.write (.ofAscii " HTTP/1.1\r\n" (by decide))) =
        space :: (version ++ crlf) := rfl
    rw [HttpWriter.writeRequest, putBytes_append, putBytes_append, htext, putBytes_write, hversion]
    simp
  rw [hbytes]
  exact .intro hname hpath (.inl rfl)

/-- Without a method the line is rejected at its first character. -/
theorem readRequestLine_slash (rest : Bytes) : readRequestLine (slash :: rest) = .rejected := by
  have hname : readMethodName (slash :: rest) = .done .none (slash :: rest) := by
    simp [readMethodName, slash]
  have hne : slash ≠ space := by decide
  have hexpected : readExpected space (slash :: rest) = .rejected := by
    rw [readExpected, if_neg hne]
  rw [readRequestLine, readMethod, hname, Reading.done_bind, if_neg (List.cons_ne_nil _ _),
    Reading.done_bind, hexpected]
  rfl

/-- What is written for a method without a text starts with the path. -/
theorem putBytes_slash {method : HttpMethod} (hmethod : isWritten method = false) {path : CString}
    (hpath : IsPath path.1) :
    ∃ rest, putBytes (HttpWriter.writeRequest method path) = slash :: rest := by
  have hnone : HttpWriter.writeRequest.writeMethod method = [] := by
    cases method with
    | get | post | patch | head => cases hmethod
    | _ => rfl
  obtain ⟨rest, hrest, -⟩ := hpath
  rw [HttpWriter.writeRequest, hnone, List.nil_append, putBytes_append, putBytes_write, hrest]
  exact ⟨_, rfl⟩

/-- **The writer and the parser agree on a request line exactly if the method is one of the four that
are written, and the path can be copied.** -/
theorem roundTrips_iff (method : HttpMethod) {path : CString} (hpath : IsPath path.1) :
    RoundTrips method path ↔ isWritten method = true ∧ path.1.length + 1 < 2 ^ 31 := by
  have hmatches (text : Text) := matches_parseRequestLine (at_start text)
  cases hwritten : isWritten method with
  | false =>
    obtain ⟨rest, hrest⟩ := putBytes_slash hwritten hpath
    refine iff_of_false (fun h => ?_) fun h => absurd h.1 (by decide)
    obtain ⟨s, hrun, -⟩ := h fun _ => 0
    have hrejected := hmatches ⟨putBytes (HttpWriter.writeRequest method path), fun _ => 0⟩
    rw [hrun, hrest, readRequestLine_slash] at hrejected
    obtain ⟨_, _, hdone, -⟩ := hrejected.done_of_ok nofun
    cases hdone
  | true =>
    have hline := readRequestLine_append (isRequestLine_writeRequest hwritten hpath) []
    rw [List.append_nil] at hline
    have hempty : Fits ([] : Bytes) ∧ copied [] = [] := by
      apply fits_of_lt
      rw [List.length_nil]
      omega
    constructor
    · intro h
      refine ⟨rfl, ?_⟩
      obtain ⟨s, hrun, -⟩ := h fun _ => 0
      have hdone := hmatches ⟨putBytes (HttpWriter.writeRequest method path), fun _ => 0⟩
      rw [hrun, hline] at hdone
      by_cases hfits : Fits path.1
      · rw [if_pos ⟨hfits, hempty.1⟩] at hdone
        obtain ⟨_, _, hdone, heq, -⟩ := hdone.done_of_ok nofun
        rw [← heq] at hdone
        have hcopied := congrArg RequestLine.path (Reading.done.inj hdone).1
        dsimp only at hcopied
        exact lt_of_copied_eq hfits hcopied
      · rw [if_neg fun hand => hfits hand.1] at hdone
        obtain ⟨_, _, hdone, -⟩ := hdone.done_of_ok nofun
        cases hdone
    · rintro ⟨-, hlt⟩ beyond
      obtain ⟨hfits, hcopied⟩ := fits_of_lt hlt
      have hdone := hmatches ⟨putBytes (HttpWriter.writeRequest method path), beyond⟩
      rw [hline, if_pos ⟨hfits, hempty.1⟩, hcopied, hempty.2] at hdone
      obtain ⟨s, hrun, start, hat⟩ := hdone.exists_ok
      exact ⟨s, hrun, hat.position_eq⟩

/-- A path with a percent escape. -/
theorem roundTrips_of_escape : RoundTrips .get (.ofAscii "/a%20b" (by decide)) := by
  have hpath : IsPath (CString.ofAscii "/a%20b" (by decide)).1 :=
    ⟨_, rfl, .plain (.inl (by decide)) (.escape (by decide) (by decide) (.plain (.inl (by decide)) .nil))⟩
  exact (roundTrips_iff .get hpath).2 (by decide +kernel)

/-- Nothing is written for the method. -/
theorem not_roundTrips_of_put : ¬ RoundTrips .put (.ofAscii "/" (by decide)) := by
  intro h
  obtain ⟨s, hrun, -⟩ := h fun _ => 0
  exact absurd (show _ = true from congrArg (Option.isSome ∘ Outcome.value?) hrun) (by decide +kernel)

/-! ## The length of the body -/

/-- The name of a header line, in lower case. -/
def lineName (l : Bytes) : Bytes := (l.takeWhile (· ≠ colon)).map toLower

def contentLength : Bytes := HttpServer.bytesOf "content-length"

/-- The number of decimal digits. -/
def decimal (digits : Bytes) : Nat := digits.foldl (fun n ch => 10 * n + (ch.toNat - 0x30)) 0

/-- Header lines, with the digits in the last `Content-Length` of them. -/
inductive TellsLength (digits : Bytes) : List Bytes → Prop where
  | intro {before after : List Bytes} {name leading trailing : Bytes}
    (hname : name.map toLower = contentLength) (hleading : ∀ ch ∈ leading, isBlank ch)
    (htrailing : ∀ ch ∈ trailing, isBlank ch) (hafter : ∀ l ∈ after, lineName l ≠ contentLength) :
    TellsLength digits
      (before ++ (name ++ colon :: (leading ++ (digits ++ trailing) ++ crlf)) :: after)

/-- A request line of a method other than `GET`, header lines with the digits of a length, the blank
line and what was received behind it. -/
structure IsBodyRequest (line : RequestLine) (lines : List Bytes) (digits rest bytes : Bytes) : Prop where
  method_ne : line.method ≠ .get
  header : ∀ l ∈ lines, IsHeaderLine l
  tells : TellsLength digits lines
  digits_ne : digits ≠ []
  digits_all : ∀ ch ∈ digits, isDigit ch
  bytes_eq : ∃ first, IsRequestLine line first ∧ bytes = first ++ (lines.flatten ++ (crlf ++ rest))

/-- What `Parse` gives for the body; nothing if it throws. -/
def bodyOf (text : Text) : Option (Option Bytes) :=
  ((parse text).run {}).value?.map fun request => request.bind HttpParser.HttpRequest.body

/-- The body is whole, or the request fails. -/
def IsWhole (text : Text) (n : Nat) (rest : Bytes) : Prop :=
  bodyOf text = if n ≤ rest.length then some (some (rest.take n)) else none

/-- The length that `scan_body` is called with. -/
def announced (digits : Bytes) : Nat := (atoll (copied digits) % 2 ^ 32).toNat

/-- The request line and the headers are read. -/
structure IsHeadRead (line : RequestLine) (lines : List Bytes) : Prop where
  path : Fits line.path
  query : Fits line.query
  header : ∀ l ∈ lines, ∃ header : HeaderLine, header.bytes = l

/-! ### The headers -/

theorem lookup_set_self (headers : Headers) (header : HttpHeader) (value : Option Bytes) :
    (headers.set header value).lookup header = some value := by
  rw [Headers.set, List.lookup_cons, beq_self_eq_true]

theorem lookup_set_of_ne {header other : HttpHeader} (hne : header ≠ other) (headers : Headers)
    (value : Option Bytes) : (headers.set other value).lookup header = headers.lookup header := by
  rw [Headers.set, List.lookup_cons, beq_false_of_ne hne]
  induction headers with
  | nil => rfl
  | cons entry headers ih =>
    obtain ⟨key, value'⟩ := entry
    by_cases hkey : key = other
    · subst hkey
      rw [List.filter_cons_of_neg (by simp), List.lookup_cons, beq_false_of_ne hne]
      exact ih
    · rw [List.filter_cons_of_pos (by simpa using hkey), List.lookup_cons, List.lookup_cons]
      cases header == key with
      | true => rfl
      | false => exact ih

theorem headersOf_append (headers : Headers) (lines lines' : List HeaderLine) :
    headersOf headers (lines ++ lines') = headersOf (headersOf headers lines) lines' := by
  induction lines generalizing headers with
  | nil => rfl
  | cons line lines ih => exact ih _

theorem lookup_headersOf_of_ne {header : HttpHeader} {lines : List HeaderLine}
    (h : ∀ line ∈ lines, line.entry.1 ≠ header) (headers : Headers) :
    (headersOf headers lines).lookup header = headers.lookup header := by
  induction lines generalizing headers with
  | nil => rfl
  | cons line lines ih =>
    rw [List.forall_mem_cons] at h
    rw [headersOf, ih h.2, lookup_set_of_ne h.1.symm]

/-- Header lines are read to their end if each of them is read, and else they are rejected. -/
theorem readHeaders_eq {lines : List Bytes} (h : ∀ l ∈ lines, IsHeaderLine l) (rest : Bytes) :
    (∃ read : List HeaderLine, read.map HeaderLine.bytes = lines) ∨
      (¬ ∀ l ∈ lines, ∃ header : HeaderLine, header.bytes = l) ∧
        ∀ n headers, readHeaders n headers (lines.flatten ++ (crlf ++ rest)) = .rejected := by
  induction lines with
  | nil => exact .inl ⟨[], rfl⟩
  | cons l lines ih =>
    rw [List.forall_mem_cons] at h
    by_cases hl : ∃ header : HeaderLine, header.bytes = l
    · obtain ⟨header, rfl⟩ := hl
      rcases ih h.2 with ⟨read, rfl⟩ | ⟨hnot, hrejected⟩
      · exact .inl ⟨header :: read, rfl⟩
      · refine .inr ⟨fun hall => hnot fun l hl => hall l (List.mem_cons_of_mem _ hl), ?_⟩
        intro n headers
        cases n with
        | zero => rfl
        | succ n =>
          rw [List.flatten_cons, List.append_assoc, readHeaders, header.readHeader_append,
            Reading.done_bind]
          exact hrejected n _
    · refine .inr ⟨fun hall => hl (hall l (List.mem_cons_self ..)), ?_⟩
      intro n headers
      cases n with
      | zero => rfl
      | succ n =>
        have hrejected := (readHeader_line h.1 (lines.flatten ++ (crlf ++ rest))).resolve_right hl
        rw [List.flatten_cons, List.append_assoc, readHeaders, hrejected]
        rfl

theorem getHeader_eq_contentLength_iff (name : Bytes) :
    getHeader name = .contentLength ↔ name = contentLength := by
  have hentries : ∀ entry ∈ stringToToken, entry.2 = HttpHeader.contentLength →
      HttpServer.bytesOf entry.1 = contentLength := by decide +kernel
  constructor
  · intro h
    rw [getHeader_eq_elim] at h
    cases hfind : stringToToken.find? fun entry => HttpServer.bytesOf entry.1 = name with
    | none =>
      rw [hfind] at h
      cases h
    | some entry =>
      rw [hfind] at h
      have hname : HttpServer.bytesOf entry.1 = name := by simpa using List.find?_some hfind
      rw [← hname]
      exact hentries entry (List.mem_of_find?_eq_some hfind) h
  · rintro rfl
    decide +kernel

theorem lineName_append {name : Bytes} (h : colon ∉ name) (rest : Bytes) :
    lineName (name ++ colon :: rest) = name.map toLower := by
  have hname : ∀ ch ∈ name, decide (ch ≠ colon) = true := by
    intro ch hch
    rw [decide_eq_true_eq]
    rintro rfl
    exact h hch
  rw [lineName, List.takeWhile_append_of_pos hname, List.takeWhile_cons_of_neg (by simp),
    List.append_nil]

theorem HeaderLine.colon_not_mem (line : HeaderLine) : colon ∉ line.name := by
  intro hmem
  exact absurd (line.name_part colon hmem) (by decide)

theorem colon_not_mem_of_contentLength {name : Bytes} (h : name.map toLower = contentLength) :
    colon ∉ name := by
  intro hmem
  have hlower : toLower colon ∈ contentLength := h ▸ List.mem_map_of_mem hmem
  exact absurd hlower (by decide)

/-- What is left of a text without the blanks at its ends. -/
def trim (bytes : Bytes) : Bytes :=
  ((bytes.dropWhile isBlank).reverse.dropWhile isBlank).reverse

theorem dropWhile_visible {value : Bytes} (h : ∀ ch ∈ value.head?, isVchar ch) (rest : Bytes) :
    value ≠ [] → (value ++ rest).dropWhile isBlank = value ++ rest := by
  intro hne
  obtain ⟨ch, value, rfl⟩ := List.exists_cons_of_ne_nil hne
  rw [List.cons_append, List.dropWhile_cons_of_neg]
  simpa using isBlank_eq_false_of_isVchar (h ch rfl)

theorem trim_eq {leading value trailing : Bytes} (hleading : ∀ ch ∈ leading, isBlank ch)
    (htrailing : ∀ ch ∈ trailing, isBlank ch) (hfirst : ∀ ch ∈ value.head?, isVchar ch)
    (hlast : ∀ ch ∈ value.getLast?, isVchar ch) : trim (leading ++ (value ++ trailing)) = value := by
  have hreverse : ∀ ch ∈ trailing.reverse, isBlank ch = true := by simpa using htrailing
  rw [trim, List.dropWhile_append_of_pos hleading]
  by_cases hne : value = []
  · rw [hne, List.nil_append, List.dropWhile_eq_nil_iff.2 htrailing]
    rfl
  · rw [dropWhile_visible hfirst trailing hne, List.reverse_append,
      List.dropWhile_append_of_pos hreverse, ← List.append_nil value.reverse,
      dropWhile_visible (by simpa using hlast) [] (by simpa using hne), List.append_nil,
      List.reverse_reverse]

theorem dropWhile_colon {name : Bytes} (h : colon ∉ name) (rest : Bytes) :
    (name ++ colon :: rest).dropWhile (· ≠ colon) = colon :: rest := by
  have hname : ∀ ch ∈ name, decide (ch ≠ colon) = true := by
    intro ch hch
    rw [decide_eq_true_eq]
    rintro rfl
    exact h hch
  rw [List.dropWhile_append_of_pos hname, List.dropWhile_cons_of_neg (by simp)]

theorem isBlank_of_mem_spaceIf {b : Bool} {ch : UInt8} (h : ch ∈ spaceIf b) : isBlank ch = true := by
  cases b with
  | false => cases h
  | true =>
    rw [List.mem_singleton.1 h]
    rfl

theorem isVchar_of_isDigit {ch : UInt8} (h : isDigit ch = true) : isVchar ch = true := by
  simp only [isDigit, isVchar, Bool.and_eq_true, decide_eq_true_eq, UInt8.le_iff_toNat_le] at *
  simp at *
  omega

section

variable {digits : Bytes}

theorem trim_line {leading trailing : Bytes} (hdigits : ∀ ch ∈ digits, isDigit ch)
    (hleading : ∀ ch ∈ leading, isBlank ch) (htrailing : ∀ ch ∈ trailing, isBlank ch) :
    trim (leading ++ (digits ++ trailing)) = digits := by
  apply trim_eq hleading htrailing
  · exact fun ch hch => isVchar_of_isDigit (hdigits ch (List.mem_of_mem_head? hch))
  · exact fun ch hch => isVchar_of_isDigit (hdigits ch (List.mem_of_mem_getLast? hch))

/-- What is recorded of a `Content-Length`. -/
theorem HeaderLine.entry_eq (line : HeaderLine) {name leading trailing : Bytes}
    (hdigits : ∀ ch ∈ digits, isDigit ch) (hname : name.map toLower = contentLength)
    (hleading : ∀ ch ∈ leading, isBlank ch) (htrailing : ∀ ch ∈ trailing, isBlank ch)
    (hbytes : line.bytes = name ++ colon :: (leading ++ (digits ++ trailing) ++ crlf)) :
    line.entry = (.contentLength, copied digits) := by
  have hcolon := colon_not_mem_of_contentLength hname
  have hlower : line.name.map toLower = contentLength := by
    have hlower := congrArg lineName hbytes
    rwa [HeaderLine.bytes, lineName_append line.colon_not_mem, lineName_append hcolon, hname] at hlower
  have htext : line.text = leading ++ (digits ++ trailing) := by
    have htext := congrArg (List.dropWhile (· ≠ colon)) hbytes
    rw [HeaderLine.bytes, dropWhile_colon line.colon_not_mem, dropWhile_colon hcolon] at htext
    exact List.append_cancel_right (List.cons.inj htext).2
  have hvalue : line.value = digits := by
    have hvalue : trim line.text = line.value :=
      trim_eq (fun _ => isBlank_of_mem_spaceIf) (fun _ => isBlank_of_mem_spaceIf)
        line.value_contents.first line.value_contents.last
    rw [← hvalue, htext, trim_line hdigits hleading htrailing]
  rw [HeaderLine.entry, hlower, hvalue, (getHeader_eq_contentLength_iff _).2 rfl]

/-- The last `Content-Length` is the one that is found. -/
theorem lookup_contentLength (hdigits : ∀ ch ∈ digits, isDigit ch) {read : List HeaderLine}
    (h : TellsLength digits (read.map HeaderLine.bytes)) :
    (headersOf [] read).lookup .contentLength = some (some (copied digits)) := by
  generalize hlines : read.map HeaderLine.bytes = lines at h
  obtain ⟨hname, hleading, htrailing, hafter⟩ := h
  obtain ⟨before, read', rfl, -, hread⟩ := List.map_eq_append_iff.1 hlines
  obtain ⟨line, after, rfl, hline, rfl⟩ := List.map_eq_cons_iff.1 hread
  have hother : ∀ other ∈ after, other.entry.1 ≠ .contentLength := by
    intro other hmem hheader
    apply hafter other.bytes (List.mem_map_of_mem hmem)
    rw [HeaderLine.bytes, lineName_append other.colon_not_mem]
    exact (getHeader_eq_contentLength_iff _).1 hheader
  rw [headersOf_append, headersOf, lookup_headersOf_of_ne hother,
    line.entry_eq hdigits hname hleading htrailing hline, lookup_set_self]

end

/-! ### The body -/

section

variable {text : Text} {start : Nat} {rest : Bytes} {s : HttpScanner}

/-- What is copied of a token: it up to its first zero, if it can be copied. -/
def copyOf (token : Bytes) : Option Bytes :=
  if Fits token then some ((copied token).takeWhile (· ≠ 0)) else none

theorem value?_getTokenValue {token : Bytes} (hstart : s.startPosition = start)
    (htoken : text.received.drop start = token ++ rest)
    (hposition : s.position = start + token.length) :
    ((getTokenValue text).run s).value? = copyOf token := by
  rw [run_getTokenValue hstart hposition, copyOf]
  by_cases hfits : Fits token
  · have hle : (toInt (token.length + 1)).toNat - 1 ≤ token.length := by
      have hle := toInt_le token.length
      omega
    rw [if_pos hfits, if_neg (Int.not_le.2 hfits), copied, ← List.take_append_of_le_length hle,
      ← strncpy_eq htoken (by rw [List.length_append]; omega)]
    rfl
  · rw [if_neg hfits, if_pos (Int.not_lt.1 hfits)]
    rfl

theorem value?_scanBody (length : Int) (h : At text start rest s) :
    ((scanBody text length).run s).value? = copyOf (rest.take (length % 2 ^ 32).toNat) := by
  unfold scanBody
  generalize (length % 2 ^ 32).toNat = n
  let s₀ : HttpScanner := { s with startPosition := s.position, accesses := s.accesses ++ [] }
  have h₀ : At text s.position rest s₀ := by
    refine { h with inside := ?_, start := rfl }
    rw [staysInside_append rfl]
    exact ⟨h.inside, by simp⟩
  show ((scanBodyChars text n >>= fun _ => getTokenValue text).run s₀).value? = _
  cases matches_scanBodyChars (n := n) h₀ with
  | @done _ _ _ s₁ ho htook =>
    obtain ⟨hrest, h₁⟩ := htook
    rw [Climb.run_bind_ok ho]
    apply value?_getTokenValue h₁.start
    · rw [h.drop]
      exact hrest
    · have hlength := h.length
      have hlength₁ := h₁.length
      rw [List.length_drop] at hlength₁
      rw [List.length_take]
      have hle : s₁.position ≤ text.size := h₁.position_le
      omega

theorem value?_bind_eq_none {α β : Type} {m : ScannerM α} (h : (m.run s).value? = none)
    (f : α → ScannerM β) : ((m >>= f).run s).value? = none := by
  rw [Climb.run_bind]
  cases hrun : m.run s with
  | ok a s' =>
    rw [hrun] at h
    cases h
  | stop e s' => rfl

theorem value?_bind_pure {α β : Type} (m : ScannerM α) (f : α → β) :
    ((m >>= fun a => pure (f a)).run s).value? = (m.run s).value?.map f := by
  rw [Climb.run_bind]
  cases m.run s <;> rfl

theorem Matches.value?_of_rejected {α β : Type} {o : Outcome String HttpScanner α}
    {Q : α → β → Bytes → HttpScanner → Prop} (h : Matches text o Q .rejected) : o.value? = none := by
  cases h with
  | rejected hvalue => exact hvalue

theorem value?_parseBody {method : HttpMethod} (hmethod : method ≠ .get) {headers : Headers}
    {value : Bytes} (hlookup : headers.lookup .contentLength = some (some value))
    (h : At text start rest s) :
    ((parseBody text method headers).run s).value? =
      (copyOf (rest.take (atoll value % 2 ^ 32).toNat)).map fun body => (headers, some body) := by
  rw [parseBody, if_neg hmethod, hlookup]
  dsimp only
  rw [value?_bind_pure, value?_scanBody (atoll value) h]

/-- The body is what `parse_body` gives. -/
theorem bodyOf_eq_value? {line : RequestLine} {headers : Headers} {s₁ s₂ : HttpScanner}
    (hline : (parseRequestLine text).run {} = .ok line s₁)
    (hheaders : (parseHeaders text (text.size + 1) []).run s₁ = .ok headers s₂) :
    bodyOf text = ((parseBody text line.method headers).run s₂).value?.map Prod.snd := by
  rw [bodyOf, parse, Climb.run_bind_ok hline, Climb.run_bind_ok hheaders, Climb.run_bind]
  cases (parseBody text line.method headers).run s₂ <;> rfl

/-- What `Parse` gives for the body of a request: nothing if the request line or a header is not read,
or the body cannot be copied. -/
theorem bodyOf_eq {line : RequestLine} {lines : List Bytes} {digits : Bytes}
    (h : IsBodyRequest line lines digits rest text.received) :
    IsHeadRead line lines ∧ bodyOf text = (copyOf (rest.take (announced digits))).map some ∨
      ¬ IsHeadRead line lines ∧ bodyOf text = none := by
  obtain ⟨first, hfirst, hbytes⟩ := h.bytes_eq
  have hline := matches_parseRequestLine (at_start text)
  rw [hbytes, readRequestLine_append hfirst] at hline
  by_cases hfits : Fits line.path ∧ Fits line.query
  swap
  · rw [if_neg hfits] at hline
    refine .inr ⟨fun hread => hfits ⟨hread.path, hread.query⟩, ?_⟩
    rw [bodyOf, parse, value?_bind_eq_none hline.value?_of_rejected]
    rfl
  rw [if_pos hfits] at hline
  obtain ⟨s₁, hrun₁, start₁, h₁⟩ := hline.exists_ok
  have hheaders : Matches text ((parseHeaders text (text.size + 1) []).run s₁) (Read text)
      (readHeaders (text.size + 1) [] (lines.flatten ++ (crlf ++ rest))) := matches_parseHeaders h₁
  rcases readHeaders_eq h.header rest with ⟨read, hread⟩ | ⟨hnot, hrejected⟩
  swap
  · rw [hrejected] at hheaders
    refine .inr ⟨fun hread => hnot hread.header, ?_⟩
    rw [bodyOf, parse, Climb.run_bind_ok hrun₁, value?_bind_eq_none hheaders.value?_of_rejected]
    rfl
  have hall : ∀ l ∈ lines, ∃ header : HeaderLine, header.bytes = l := by
    intro l hl
    rw [← hread] at hl
    obtain ⟨header, -, heq⟩ := List.mem_map.1 hl
    exact ⟨header, heq⟩
  refine .inl ⟨⟨hfits.1, hfits.2, hall⟩, ?_⟩
  have hflatten : lines.flatten = read.flatMap HeaderLine.bytes := by rw [← hread, List.flatMap_def]
  rw [hflatten] at hheaders hbytes
  rw [readHeaders_append (length_lt hbytes)] at hheaders
  obtain ⟨s₂, hrun₂, start₂, h₂⟩ := hheaders.exists_ok
  have hlookup : (headersOf [] read).lookup .contentLength = some (some (copied digits)) :=
    lookup_contentLength h.digits_all (hread ▸ h.tells)
  rw [bodyOf_eq_value? hrun₁ hrun₂, value?_parseBody h.method_ne hlookup h₂, ← announced,
    Option.map_map]
  rfl

end

/-! ### The number -/

theorem digits_eq_foldl {bytes : Bytes} (h : ∀ ch ∈ bytes, isDigit ch) (n : Nat) :
    HttpParser.digits n bytes = bytes.foldl (fun n ch => 10 * n + (ch.toNat - 0x30)) n := by
  induction bytes generalizing n with
  | nil => rfl
  | cons ch bytes ih =>
    rw [List.forall_mem_cons] at h
    rw [HttpParser.digits, if_pos h.1, ih h.2, List.foldl_cons]

theorem atoll_eq {digits : Bytes} (h : ∀ ch ∈ digits, isDigit ch) :
    atoll digits = min (2 ^ 63 - 1) (decimal digits : Int) := by
  have hvalue := digits_eq_foldl h 0
  have hdrop : (digits.dropWhile fun ch => ch = space || (0x09 ≤ ch && ch ≤ 0x0D)) = digits := by
    cases digits with
    | nil => rfl
    | cons ch digits =>
      rw [List.dropWhile_cons_of_neg]
      have hdigit := h ch (List.mem_cons_self ..)
      simp only [isDigit, space, Bool.and_eq_true, decide_eq_true_eq, UInt8.le_iff_toNat_le,
        Bool.or_eq_true, ← UInt8.toNat_inj] at *
      simp at *
      omega
  unfold atoll
  rw [hdrop]
  dsimp only
  split
  · exact absurd (h _ (List.mem_cons_self ..)) (by decide)
  · exact absurd (h _ (List.mem_cons_self ..)) (by decide)
  · rw [hvalue]
    rfl

theorem le_foldl (digits : Bytes) (n : Nat) :
    n ≤ digits.foldl (fun n ch => 10 * n + (ch.toNat - 0x30)) n := by
  induction digits generalizing n with
  | nil => exact Nat.le_refl n
  | cons ch digits ih =>
    have hle := ih (10 * n + (ch.toNat - 0x30))
    rw [List.foldl_cons]
    omega

theorem decimal_take_le (digits : Bytes) (k : Nat) : decimal (digits.take k) ≤ decimal digits := by
  have hsplit : decimal digits =
      (digits.drop k).foldl (fun n ch => 10 * n + (ch.toNat - 0x30)) (decimal (digits.take k)) := by
    rw [decimal, decimal, ← List.foldl_append, List.take_append_drop]
  rw [hsplit]
  exact le_foldl _ _

/-- Digits that can be copied give the number as an `unsigned int`. -/
theorem announced_eq {digits : Bytes} (h : ∀ ch ∈ digits, isDigit ch)
    (hlt : digits.length + 1 < 2 ^ 31) :
    announced digits = min (decimal digits) (2 ^ 63 - 1) % 2 ^ 32 := by
  rw [announced, (fits_of_lt hlt).2, atoll_eq h]
  omega

theorem announced_le {digits : Bytes} (h : ∀ ch ∈ digits, isDigit ch) :
    announced digits ≤ decimal digits := by
  have hcopied : ∀ ch ∈ copied digits, isDigit ch = true :=
    fun ch hch => h ch (List.mem_of_mem_take hch)
  have hle : decimal (copied digits) ≤ decimal digits := decimal_take_le digits _
  rw [announced, atoll_eq hcopied]
  omega

theorem length_copyOf_le {token copy : Bytes} (h : copyOf token = some copy) :
    copy.length ≤ token.length := by
  unfold copyOf at h
  split at h
  · rw [← Option.some.inj h]
    calc ((copied token).takeWhile (· ≠ 0)).length
        ≤ (copied token).length := (List.takeWhile_prefix _).length_le
      _ ≤ token.length := (List.take_prefix _ token).length_le
  · cases h

/-- A token is copied whole exactly if it is short enough and has no zero. -/
theorem copyOf_eq_self_iff (token : Bytes) :
    copyOf token = some token ↔ token.length + 1 < 2 ^ 31 ∧ 0 ∉ token := by
  unfold copyOf
  constructor
  · intro h
    split at h
    swap
    · cases h
    next hfits =>
    have h := Option.some.inj h
    have hfront : (copied token).takeWhile (· ≠ 0) <+: copied token := List.takeWhile_prefix _
    have hcopied : copied token = token := by
      apply List.IsPrefix.eq_of_length (List.take_prefix _ token)
      have hle := hfront.length_le
      rw [h] at hle
      exact Nat.le_antisymm (List.take_prefix _ token).length_le hle
    refine ⟨lt_of_copied_eq hfits hcopied, fun hzero => ?_⟩
    rw [← h] at hzero
    simpa using List.mem_takeWhile_imp hzero
  · rintro ⟨hlt, hzero⟩
    obtain ⟨hfits, hcopied⟩ := fits_of_lt hlt
    rw [if_pos hfits, hcopied, List.takeWhile_eq_self_iff.2]
    intro ch hch
    rw [decide_eq_true_eq]
    rintro rfl
    exact hzero hch

theorem copyOf_eq_none_iff (token : Bytes) : copyOf token = none ↔ ¬ Fits token := by
  unfold copyOf
  split
  next hfits => exact iff_of_false nofun (not_not_intro hfits)
  next hfits => exact iff_of_true rfl hfits

/-- **The body is whole, or the request fails, exactly if: where the bytes are there, the request line
and the headers are read, the length keeps its value, the body can be copied and no byte of it is zero;
and where they are not, a header or the body that is there cannot be read.** -/
theorem isWhole_iff {text : Text} {line : RequestLine} {lines : List Bytes} {digits rest : Bytes}
    (h : IsBodyRequest line lines digits rest text.received) :
    IsWhole text (decimal digits) rest ↔
      if decimal digits ≤ rest.length then
        IsHeadRead line lines ∧ announced digits = decimal digits ∧ decimal digits + 1 < 2 ^ 31 ∧
          0 ∉ rest.take (decimal digits)
      else ¬ (IsHeadRead line lines ∧ Fits (rest.take (announced digits))) := by
  unfold IsWhole
  by_cases hle : decimal digits ≤ rest.length
  · have hlength : (rest.take (decimal digits)).length = decimal digits := by
      rw [List.length_take]
      omega
    have hcopy := copyOf_eq_self_iff (rest.take (decimal digits))
    rw [hlength] at hcopy
    rw [if_pos hle, if_pos hle]
    rcases bodyOf_eq h with ⟨hread, hbody⟩ | ⟨hnot, hbody⟩
    swap
    · rw [hbody]
      exact iff_of_false nofun fun hall => hnot hall.1
    rw [hbody, Option.map_eq_some_iff]
    constructor
    · rintro ⟨copy, heq, hsome⟩
      obtain rfl := Option.some.inj hsome
      have hannounced : announced digits = decimal digits := by
        apply Nat.le_antisymm (announced_le h.digits_all)
        calc decimal digits
            = (rest.take (decimal digits)).length := hlength.symm
          _ ≤ (rest.take (announced digits)).length := length_copyOf_le heq
          _ ≤ announced digits := List.length_take_le _ _
      rw [hannounced] at heq
      exact ⟨hread, hannounced, hcopy.1 heq⟩
    · rintro ⟨-, hannounced, hwhole⟩
      rw [hannounced]
      exact ⟨_, hcopy.2 hwhole, rfl⟩
  · rw [if_neg hle, if_neg hle]
    rcases bodyOf_eq h with ⟨hread, hbody⟩ | ⟨hnot, hbody⟩
    · rw [hbody, Option.map_eq_none_iff, copyOf_eq_none_iff, not_and]
      exact ⟨fun hfits _ => hfits, fun hfits => hfits hread⟩
    · exact iff_of_true hbody fun hand => hnot hand.1

/-- A request with a length of three bytes, and what was received behind the blank line. -/
def bodyRequest (body : String) : Text :=
  ⟨HttpServer.bytesOf "PUT / HTTP/1.1\r\n" ++ (HttpServer.bytesOf "Content-Length: 3\r\n" ++
    (crlf ++ HttpServer.bytesOf body)), fun _ => 0⟩

theorem isBodyRequest_bodyRequest (body : String) :
    IsBodyRequest ⟨.put, [slash], []⟩ [HttpServer.bytesOf "Content-Length: 3\r\n"]
      (HttpServer.bytesOf "3") (HttpServer.bytesOf body) (bodyRequest body).received where
  method_ne := by decide
  header := by
    intro l hl
    have hline : IsHeaderLine (HttpServer.bytesOf "Content-Length" ++
        colon :: (HttpServer.bytesOf " 3" ++ crlf)) :=
      .intro (by decide) (by decide +kernel) (by decide +kernel)
    rw [List.mem_singleton.1 hl]
    exact hline
  tells := by
    have htells : TellsLength (HttpServer.bytesOf "3") ([] ++ (HttpServer.bytesOf "Content-Length" ++
        colon :: ([space] ++ (HttpServer.bytesOf "3" ++ []) ++ crlf)) :: []) :=
      .intro (by decide) (List.all_eq_true.1 rfl) nofun nofun
    exact htells
  digits_ne := by decide
  digits_all := List.all_eq_true.1 rfl
  bytes_eq := by
    have hfirst : IsRequestLine ⟨.put, [slash], []⟩
        (HttpServer.bytesOf "PUT" ++ space :: ([slash] ++ ([] ++ space :: (version ++ crlf)))) :=
      .intro rfl ⟨[], rfl, .nil⟩ (.inl rfl)
    have hbytes : HttpServer.bytesOf "PUT / HTTP/1.1\r\n" =
        HttpServer.bytesOf "PUT" ++ space :: ([slash] ++ ([] ++ space :: (version ++ crlf))) := by
      decide
    exact ⟨HttpServer.bytesOf "PUT / HTTP/1.1\r\n", hbytes ▸ hfirst, by simp [bodyRequest]⟩

/-- A body that is there. -/
theorem isWhole_of_complete :
    IsWhole (bodyRequest "abc") (decimal (HttpServer.bytesOf "3")) (HttpServer.bytesOf "abc") := by
  refine (isWhole_iff (isBodyRequest_bodyRequest "abc")).2 ?_
  rw [if_pos (by decide)]
  refine ⟨⟨by decide, by decide, ?_⟩, by decide +kernel, by decide, by decide⟩
  intro l hl
  rw [List.mem_singleton.1 hl]
  exact ⟨⟨HttpServer.bytesOf "Content-Length", true, HttpServer.bytesOf "3", false, ⟨_, _, rfl, by decide⟩,
    List.all_eq_true.1 rfl, by decide, .single (by decide) (fun _ => rfl) .nil, by decide, nofun⟩, rfl⟩

/-- Of the body a byte is missing, and it is given as it is. -/
theorem not_isWhole_of_truncated :
    IsBodyRequest ⟨.put, [slash], []⟩ [HttpServer.bytesOf "Content-Length: 3\r\n"]
        (HttpServer.bytesOf "3") (HttpServer.bytesOf "ab") (bodyRequest "ab").received ∧
      ¬ IsWhole (bodyRequest "ab") (decimal (HttpServer.bytesOf "3")) (HttpServer.bytesOf "ab") := by
  refine ⟨isBodyRequest_bodyRequest "ab", fun hwhole => ?_⟩
  exact absurd (show bodyOf (bodyRequest "ab") = none from hwhole) (by decide +kernel)

end HttpReading

end Flashpoint
