import Mathlib.Data.List.TakeWhile
import Flashpoint.Server.HttpReading

/-!
# Requests of the grammar

The grammar of HTTP/1.1 requests on bytes (`IsRequest`), and the requests of it that `Parse` reads
(`IsReadable`): the names of their headers are letters and dashes, and their values fit the way
`scan_header_value` takes them, which is one visible character, or two with blanks between them, at
a time.

`Parse` has no way to say that the bytes are no request but an exception, so it answers as its
caller expects exactly when it is given a request that it can read (`answers_iff_isReadable`).
-/

namespace Flashpoint

namespace HttpReading

open Library HttpScanner HttpParser

/-! ## The grammar -/

def methodName : HttpMethod → Option Bytes
  | .none => none
  | .get => some (HttpServer.bytesOf "GET")
  | .post => some (HttpServer.bytesOf "POST")
  | .put => some (HttpServer.bytesOf "PUT")
  | .delete => some (HttpServer.bytesOf "DELETE")
  | .patch => some (HttpServer.bytesOf "PATCH")
  | .head => some (HttpServer.bytesOf "HEAD")
  | .connect => some (HttpServer.bytesOf "CONNECT")
  | .options => some (HttpServer.bytesOf "OPTIONS")
  | .trace => some (HttpServer.bytesOf "TRACE")

/-- Characters of a path segment, other characters that are allowed, and percent escapes. -/
inductive Pchars (also : UInt8 → Bool) : Bytes → Prop where
  | nil : Pchars also []
  | plain {ch : UInt8} {rest : Bytes} (hch : isPlainPchar ch ∨ also ch) (h : Pchars also rest) :
    Pchars also (ch :: rest)
  | escape {x y : UInt8} {rest : Bytes} (hx : isXdigit x) (hy : isXdigit y)
    (h : Pchars also rest) : Pchars also (percent :: x :: y :: rest)

def IsPath (path : Bytes) : Prop := ∃ rest, path = slash :: rest ∧ Pchars (· = slash) rest

/-- The query with its question mark, or nothing. -/
def IsQuery (query : Bytes) : Prop :=
  query = [] ∨
    ∃ rest, query = question :: rest ∧ Pchars (fun ch => ch = slash || ch = question) rest

def crlf : Bytes := [carriageReturn, newLine]

def version : Bytes := HttpServer.bytesOf "HTTP/1.1"

/-- A request line, up to and with the line break. -/
inductive IsRequestLine (line : RequestLine) : Bytes → Prop where
  | intro {name : Bytes} (hmethod : methodName line.method = some name) (hpath : IsPath line.path)
    (hquery : IsQuery line.query) :
    IsRequestLine line
      (name ++ space :: (line.path ++ (line.query ++ space :: (version ++ crlf))))

/-- A character of a token. -/
def isTchar (ch : UInt8) : Bool :=
  isAlnum ch || (HttpServer.bytesOf "!#$%&'*+-.^_`|~").contains ch

/-- A character between the colon and the end of a header line. -/
def isFieldChar (ch : UInt8) : Bool := isVchar ch || isBlank ch || 0x80 ≤ ch

/-- A header line, up to and with the line break. -/
inductive IsHeaderLine : Bytes → Prop where
  | intro {name text : Bytes} (hne : name ≠ []) (hname : ∀ ch ∈ name, isTchar ch)
    (htext : ∀ ch ∈ text, isFieldChar ch) : IsHeaderLine (name ++ colon :: (text ++ crlf))

/-- The bytes start with a request: a request line, header lines and a blank line. -/
def IsRequest (line : RequestLine) (bytes : Bytes) : Prop :=
  ∃ (first : Bytes) (lines : List Bytes) (rest : Bytes),
    IsRequestLine line first ∧ (∀ l ∈ lines, IsHeaderLine l) ∧
    bytes = first ++ (lines.flatten ++ (crlf ++ rest))

/-- `Parse` answers as its caller expects: with the request where there is one, and with the null
pointer where there is none. -/
def Answers (text : Text) : Prop :=
  ((∃ line, IsRequest line text.received) →
    ∃ request s, (parse text).run {} = .ok (some request) s ∧
      IsRequest ⟨request.method, request.path, request.query⟩ text.received) ∧
  ((¬ ∃ line, IsRequest line text.received) → ∃ s, (parse text).run {} = .ok none s)

/-! ## The requests that are read -/

/-- A value as `scan_header_value` takes it. A blank behind the value ends it only behind a pair. -/
inductive IsFieldValue (trailing : Bool) : Bytes → Prop where
  | nil : IsFieldValue trailing []
  | single {ch : UInt8} {rest : Bytes} (hch : isVchar ch) (hlast : rest = [] → trailing = false)
    (h : IsFieldValue trailing rest) : IsFieldValue trailing (ch :: rest)
  | pair {first second : UInt8} {blanks rest : Bytes} (hfirst : isVchar first)
    (hsecond : isVchar second) (hne : blanks ≠ []) (hblanks : ∀ ch ∈ blanks, isBlank ch)
    (h : IsFieldValue trailing rest) : IsFieldValue trailing (first :: (blanks ++ second :: rest))

/-- A token that `get_token_value` can copy. -/
def Fits (token : Bytes) : Prop := 0 < toInt (token.length + 1)

instance (token : Bytes) : Decidable (Fits token) :=
  inferInstanceAs (Decidable (0 < toInt (token.length + 1)))

/-- What `get_token_value` copies of a token without a zero. -/
def copied (token : Bytes) : Bytes := token.take ((toInt (token.length + 1)).toNat - 1)

/-- The space that `scan_optional` takes. -/
def spaceIf (b : Bool) : Bytes := if b then [space] else []

/-- A header line that is read. -/
structure HeaderLine where
  name : Bytes
  leading : Bool
  value : Bytes
  trailing : Bool
  name_start : ∃ ch rest, name = ch :: rest ∧ isHeaderFieldStart ch
  name_part : ∀ ch ∈ name, isHeaderFieldPart ch
  name_fits : name.length + 1 < 2 ^ 31
  value_contents : IsFieldValue trailing value
  value_fits : Fits value
  /-- A space right behind the colon is taken as the leading one. -/
  leading_first : leading = false → value = [] → trailing = false

namespace HeaderLine

/-- What stands between the colon and the line break. -/
def text (line : HeaderLine) : Bytes := spaceIf line.leading ++ (line.value ++ spaceIf line.trailing)

def bytes (line : HeaderLine) : Bytes := line.name ++ colon :: (line.text ++ crlf)

/-- What is recorded of the line. -/
def entry (line : HeaderLine) : HttpHeader × Bytes :=
  (getHeader (line.name.map toLower), copied line.value)

end HeaderLine

/-- The map after the lines. -/
def headersOf (headers : Headers) : List HeaderLine → Headers
  | [] => headers
  | line :: lines => headersOf (headers.set line.entry.1 line.entry.2) lines

/-- The body can be copied. -/
def BodyFits (method : HttpMethod) (headers : Headers) (rest : Bytes) : Prop :=
  method ≠ .get → ∀ value, headers.lookup .contentLength = some (some value) →
    Fits (rest.take (atoll value % 2 ^ 32).toNat)

/-- The bytes start with a request that is read. -/
def IsReadable (bytes : Bytes) : Prop :=
  ∃ line first lines rest, IsRequestLine line first ∧
    bytes = first ++ (lines.flatMap HeaderLine.bytes ++ (crlf ++ rest)) ∧
    line.path.length + 1 < 2 ^ 31 ∧ line.query.length + 1 < 2 ^ 31 ∧
    BodyFits line.method (headersOf [] lines) rest

/-! ## The request line -/

theorem readPchars_append {also : UInt8 → Bool} {token : Bytes} (h : Pchars also token)
    (halso : also percent = false) {ch : UInt8} {rest : Bytes} (hch : isPlainPchar ch = false)
    (hpercent : ch ≠ percent) (hnot : also ch = false) :
    readPchars also (token ++ ch :: rest) = .done token (ch :: rest) := by
  induction h with
  | nil =>
    rw [List.nil_append]
    unfold readPchars
    simp only [hch, hnot, if_neg hpercent, Bool.false_eq_true, if_false]
  | @plain c token hc h ih =>
    have hne : c ≠ percent := by
      rintro rfl
      rcases hc with hc | hc
      · exact absurd hc (by decide)
      · rw [halso] at hc
        cases hc
    rw [List.cons_append]
    unfold readPchars
    by_cases hplain : isPlainPchar c
    · rw [if_pos hplain, ih]
      rfl
    · have hc' : also c = true := hc.resolve_left hplain
      rw [if_neg hplain, if_neg hne, if_pos hc', ih]
      rfl
  | @escape x y token hx hy h ih =>
    have hplain : ¬ isPlainPchar percent = true := by decide
    simp only [List.cons_append, readPchars, if_neg hplain, if_true, if_pos hx, if_pos hy, ih]
    rfl

/-- No character of a path or a query is a zero. -/
theorem Pchars.zero_not_mem {also : UInt8 → Bool} (halso : also 0 = false) {token : Bytes}
    (h : Pchars also token) : 0 ∉ token := by
  have hne : ∀ ch : UInt8, isXdigit ch = true → 0 ≠ ch := by
    rintro ch hch rfl
    exact absurd hch (by decide)
  induction h with
  | nil => simp
  | @plain c token hc h ih =>
    have hc0 : 0 ≠ c := by
      rintro rfl
      rcases hc with hc | hc
      · exact absurd hc (by decide)
      · rw [halso] at hc
        cases hc
    simp [hc0, ih]
  | @escape x y token hx hy h ih =>
    have hpercent : 0 ≠ percent := by decide
    simp [hpercent, hne x hx, hne y hy, ih]

/-- A token without a zero before other bytes is copied, as far as it fits. -/
theorem readToken_of_cons {token : Bytes} (hzero : 0 ∉ token) (ch : UInt8) (rest : Bytes) :
    readToken token (ch :: rest) =
      if Fits token then .done (copied token) (ch :: rest) else .rejected := by
  have hwhile : ∀ n, (token.take n).takeWhile (· ≠ 0) = token.take n := by
    intro n
    rw [List.takeWhile_eq_self_iff]
    intro c hc
    have hne : c ≠ 0 := by
      rintro rfl
      exact hzero (List.mem_of_mem_take hc)
    simpa using hne
  have hcons : ¬ (token.length < (toInt (token.length + 1)).toNat ∧ 0 ∉ token ∧
      ch :: rest = []) := fun h => absurd h.2.2 (List.cons_ne_nil _ _)
  unfold readToken
  by_cases hfits : Fits token
  · rw [if_pos hfits, if_neg (Int.not_le.2 hfits), if_neg hcons, hwhile]
    rfl
  · rw [if_neg hfits, if_pos (Int.not_lt.1 hfits)]

theorem fits_of_lt {token : Bytes} (h : token.length + 1 < 2 ^ 31) :
    Fits token ∧ copied token = token := by
  have hsize : toInt (token.length + 1) = token.length + 1 := by
    unfold toInt
    omega
  refine ⟨?_, ?_⟩
  · unfold Fits
    omega
  · rw [copied, hsize]
    exact List.take_of_length_le (by omega)

/-- A token that is copied as it is fits an `int`. -/
theorem lt_of_copied_eq {token : Bytes} (hfits : Fits token) (h : copied token = token) :
    token.length + 1 < 2 ^ 31 := by
  have hlength := congrArg List.length h
  rw [copied, List.length_take] at hlength
  unfold Fits at hfits
  have hbound : toInt (token.length + 1) < 2 ^ 31 := by
    unfold toInt
    omega
  omega

theorem readMethod_append {method : HttpMethod} {name : Bytes} (h : methodName method = some name)
    (ch : UInt8) (rest : Bytes) :
    readMethod (name ++ ch :: rest) = .done method (ch :: rest) := by
  cases method <;> cases h <;>
    simp [readMethod, readMethodName, readMethodAfterP, jump, Reading.bind, Reading.map,
      HttpServer.bytesOf]

@[simp] theorem readExpected_cons (ch : UInt8) (rest : Bytes) :
    readExpected ch (ch :: rest) = .done () rest := by
  simp [readExpected]

theorem readAbsolutePath_append {path : Bytes} (h : IsPath path) {ch : UInt8} (rest : Bytes)
    (hch : ch = question ∨ ch = space) :
    readAbsolutePath (path ++ ch :: rest) =
      if Fits path then .done (copied path) (ch :: rest) else .rejected := by
  obtain ⟨token, rfl, htoken⟩ := h
  have hread : readPchars (· = slash) (token ++ ch :: rest) = .done token (ch :: rest) := by
    rcases hch with rfl | rfl
    · exact readPchars_append htoken rfl (by decide) (by decide) (by decide)
    · exact readPchars_append htoken rfl (by decide) (by decide) (by decide)
  have hzero : 0 ∉ slash :: token := by
    have hslash : (0 : UInt8) ≠ slash := by decide
    simp [hslash, htoken.zero_not_mem rfl]
  rw [readAbsolutePath, List.cons_append, readExpected_cons, Reading.done_bind, hread,
    Reading.done_bind, readToken_of_cons hzero]

theorem readQuery_append {query : Bytes} (h : IsQuery query) (rest : Bytes) :
    readQuery (query ++ space :: rest) =
      if Fits query then .done (copied query) (space :: rest) else .rejected := by
  rcases h with rfl | ⟨token, rfl, htoken⟩
  · have hoptional : readOptional question (space :: rest) = .done false (space :: rest) := by
      rw [readOptional, if_neg (by decide)]
    rw [readQuery, List.nil_append, hoptional, Reading.done_bind, if_neg (by decide),
      readToken_of_cons (by simp)]
  · have hoptional : readOptional question (question :: (token ++ space :: rest)) =
        .done true (token ++ space :: rest) := by
      rw [readOptional, if_pos rfl]
    have hread : readPchars (fun ch => ch = slash || ch = question) (token ++ space :: rest) =
        .done token (space :: rest) :=
      readPchars_append htoken (by decide) (by decide) (by decide) (by decide)
    have hzero : 0 ∉ question :: token := by
      have hquestion : (0 : UInt8) ≠ question := by decide
      simp [hquestion, htoken.zero_not_mem (by decide)]
    rw [readQuery, List.cons_append, hoptional, Reading.done_bind, if_pos rfl, hread,
      Reading.done_bind, readToken_of_cons hzero]

theorem readHttpVersion_append (rest : Bytes) :
    readHttpVersion (version ++ (crlf ++ rest)) = .done () (crlf ++ rest) := by
  simp [readHttpVersion, version, crlf, readExpected, jump, readChar, Reading.bind, Reading.map,
    HttpServer.bytesOf]

/-- What is read of a request line. -/
theorem readRequestLine_append {line : RequestLine} {first : Bytes} (h : IsRequestLine line first)
    (rest : Bytes) :
    readRequestLine (first ++ rest) =
      if Fits line.path ∧ Fits line.query then
        .done ⟨line.method, copied line.path, copied line.query⟩ rest
      else .rejected := by
  obtain ⟨hmethod, hpath, hquery⟩ := h
  have hnext : ∃ ch tail, (ch = question ∨ ch = space) ∧
      line.query ++ space :: (version ++ (crlf ++ rest)) = ch :: tail := by
    rcases hquery with hnil | ⟨token, hcons, -⟩
    · exact ⟨space, _, .inr rfl, by rw [hnil, List.nil_append]⟩
    · exact ⟨question, _, .inl rfl, by rw [hcons, List.cons_append]⟩
  obtain ⟨ch, tail, hch, htail⟩ := hnext
  simp only [List.append_assoc, List.cons_append]
  rw [readRequestLine, readMethod_append hmethod, Reading.done_bind, readExpected_cons,
    Reading.done_bind, htail, readAbsolutePath_append hpath tail hch]
  by_cases hfits : Fits line.path
  · rw [if_pos hfits, Reading.done_bind, ← htail, readQuery_append hquery]
    by_cases hfits' : Fits line.query
    · rw [if_pos hfits', Reading.done_bind, readExpected_cons, Reading.done_bind,
        readHttpVersion_append, Reading.done_bind, if_pos ⟨hfits, hfits'⟩]
      rfl
    · rw [if_neg hfits', if_neg fun hand => hfits' hand.2]
      rfl
  · rw [if_neg hfits, if_neg fun hand => hfits hand.1]
    rfl

/-! ## The value of a header -/

theorem isBlank_eq_false_of_isVchar {ch : UInt8} (h : isVchar ch) : isBlank ch = false := by
  cases hblank : isBlank ch with
  | false => rfl
  | true =>
    have heq : ch = space ∨ ch = horizontalTab := by simpa [isBlank] using hblank
    rcases heq with rfl | rfl
    · exact absurd h (by decide)
    · exact absurd h (by decide)

theorem readContent_single {ch next : UInt8} {rest : Bytes} (hch : isVchar ch)
    (hnext : isBlank next = false) : readContent (ch :: next :: rest) = .done true (next :: rest) := by
  simp [readContent, hch, hnext]

theorem readContent_pair {first second : UInt8} {blanks rest : Bytes} (hfirst : isVchar first)
    (hsecond : isVchar second) (hne : blanks ≠ []) (hblanks : ∀ ch ∈ blanks, isBlank ch) :
    readContent (first :: (blanks ++ second :: rest)) = .done true rest := by
  obtain ⟨next, tail, rfl⟩ := List.exists_cons_of_ne_nil hne
  have hdrop : (next :: tail ++ second :: rest).dropWhile isBlank = second :: rest := by
    rw [List.dropWhile_append_of_pos hblanks,
      List.dropWhile_cons_of_neg (by simp [isBlank_eq_false_of_isVchar hsecond])]
  have hnext : isBlank next = true := hblanks next (List.mem_cons_self ..)
  rw [List.cons_append] at hdrop
  rw [List.cons_append]
  simp only [readContent, hfirst, hnext, if_true, hdrop, hsecond]

theorem readContent_other {ch : UInt8} {rest : Bytes} (hch : isVchar ch = false) :
    readContent (ch :: rest) = .done false (ch :: rest) := by
  simp [readContent, hch]

/-- A visible character with blanks behind it, and then something else. -/
theorem readContent_stop {first second : UInt8} {blanks rest : Bytes} (hfirst : isVchar first)
    (hsecond : isVchar second = false) (hblank : isBlank second = false) (hne : blanks ≠ [])
    (hblanks : ∀ ch ∈ blanks, isBlank ch) :
    readContent (first :: (blanks ++ second :: rest)) =
      .done false (first :: (blanks ++ second :: rest)) := by
  obtain ⟨next, tail, rfl⟩ := List.exists_cons_of_ne_nil hne
  have hdrop : (next :: tail ++ second :: rest).dropWhile isBlank = second :: rest := by
    rw [List.dropWhile_append_of_pos hblanks,
      List.dropWhile_cons_of_neg (by rw [hblank]; exact Bool.false_ne_true)]
  have hnext : isBlank next = true := hblanks next (List.mem_cons_self ..)
  rw [List.cons_append] at hdrop
  rw [List.cons_append]
  simp only [readContent, hfirst, hnext, if_true, hdrop, hsecond, Bool.false_eq_true, if_false]

theorem readValue_true {n : Nat} {bytes rest : Bytes} (h : readContent bytes = .done true rest) :
    readValue (n + 1) bytes = readValue n rest := by
  have hne : bytes ≠ [] := by
    rintro rfl
    cases h
  rw [readValue, if_neg hne, h, Reading.done_bind, if_pos rfl]

theorem readValue_false {n : Nat} {bytes rest : Bytes} (h : readContent bytes = .done false rest) :
    readValue (n + 1) bytes = .done () rest := by
  have hne : bytes ≠ [] := by
    rintro rfl
    cases h
  rw [readValue, if_neg hne, h, Reading.done_bind, if_neg Bool.false_ne_true]

/-- A text before a carriage return is read up to where it stops being a value. -/
theorem readValue_line {n : Nat} {text : Bytes} (htext : carriageReturn ∉ text) (more : Bytes)
    (hn : text.length < n) :
    ∃ value rest, text = value ++ rest ∧
      readValue n (text ++ carriageReturn :: more) = .done () (rest ++ carriageReturn :: more) ∧
      ∀ trailing, rest = spaceIf trailing → IsFieldValue trailing value := by
  have hcr : isVchar carriageReturn = false := by decide
  have hcr' : isBlank carriageReturn = false := by decide
  -- Where the reading stops at once, only a space can be left behind an empty value.
  have hstop : ∀ {n : Nat} {ch : UInt8} {rest : Bytes},
      readContent (ch :: (rest ++ carriageReturn :: more)) =
        .done false (ch :: (rest ++ carriageReturn :: more)) →
      ∃ value rest', ch :: rest = value ++ rest' ∧
        readValue (n + 1) (ch :: rest ++ carriageReturn :: more) =
          .done () (rest' ++ carriageReturn :: more) ∧
        ∀ trailing, rest' = spaceIf trailing → IsFieldValue trailing value := by
    intro n ch rest hcontent
    exact ⟨[], ch :: rest, rfl, readValue_false hcontent, fun _ _ => .nil⟩
  induction n generalizing text with
  | zero => omega
  | succ n ih =>
    cases text with
    | nil => exact ⟨[], [], rfl, readValue_false (readContent_other hcr), fun _ _ => .nil⟩
    | cons ch rest =>
      simp only [List.length_cons] at hn
      have hrest : carriageReturn ∉ rest := fun hmem => htext (List.mem_cons_of_mem ch hmem)
      by_cases hch : isVchar ch
      swap
      · exact hstop (readContent_other (by simpa using hch))
      cases hblanks : rest.takeWhile isBlank with
      | nil =>
        -- The next character is no blank: the character stands alone.
        have hnext : ∃ next tail, rest ++ carriageReturn :: more = next :: tail ∧
            isBlank next = false ∧ rest ≠ [space] := by
          cases rest with
          | nil => exact ⟨_, _, rfl, hcr', by simp⟩
          | cons next tail =>
            have hnext : isBlank next = false := by
              by_contra hnext
              rw [Bool.not_eq_false] at hnext
              rw [List.takeWhile_cons_of_pos hnext] at hblanks
              cases hblanks
            refine ⟨_, _, rfl, hnext, ?_⟩
            rintro heq
            cases heq
            exact absurd hnext (by decide)
        obtain ⟨next, tail, hcons, hnext, hspace⟩ := hnext
        obtain ⟨value, rest', rfl, hread, hvalue⟩ := ih hrest (by omega)
        refine ⟨ch :: value, rest', rfl, ?_, ?_⟩
        · rw [← hread]
          refine readValue_true ?_
          rw [List.cons_append, hcons]
          exact readContent_single hch hnext
        · intro trailing htrailing
          refine .single hch (fun hnil => ?_) (hvalue trailing htrailing)
          cases trailing with
          | false => rfl
          | true =>
            rw [hnil, htrailing] at hspace
            exact absurd rfl hspace
      | cons blank blanks =>
        have hsplit : rest = blank :: blanks ++ rest.dropWhile isBlank := by
          rw [← hblanks, List.takeWhile_append_dropWhile]
        have hall : ∀ c ∈ blank :: blanks, isBlank c = true := by
          intro c hc
          rw [← hblanks] at hc
          exact List.mem_takeWhile_imp hc
        cases hdrop : rest.dropWhile isBlank with
        | nil =>
          refine hstop ?_
          rw [hsplit, hdrop, List.append_nil]
          exact readContent_stop hch hcr hcr' (List.cons_ne_nil _ _) hall
        | cons second rest₂ =>
          have hsecond' : isBlank second = false := by
            have hhead := List.head?_dropWhile_not isBlank rest
            rw [hdrop] at hhead
            simpa using hhead
          rw [hsplit, hdrop]
          by_cases hsecond : isVchar second
          swap
          · refine hstop ?_
            rw [List.append_assoc, List.cons_append]
            exact readContent_stop hch (by simpa using hsecond) hsecond' (List.cons_ne_nil _ _) hall
          have hmem : carriageReturn ∉ rest₂ := by
            intro hmem
            refine hrest (hsplit ▸ List.mem_append_right _ ?_)
            rw [hdrop]
            exact List.mem_cons_of_mem second hmem
          have hlength : rest₂.length < n := by
            have hlength := congrArg List.length hsplit
            rw [hdrop, List.length_append, List.length_cons, List.length_cons] at hlength
            omega
          obtain ⟨value, rest', rfl, hread, hvalue⟩ := ih hmem hlength
          refine ⟨ch :: (blank :: blanks ++ second :: value), rest', by simp, ?_, ?_⟩
          · rw [← hread]
            refine readValue_true ?_
            have hassoc : ch :: (blank :: blanks ++ second :: (value ++ rest')) ++
                carriageReturn :: more = ch :: (blank :: blanks ++ second ::
                  (value ++ rest' ++ carriageReturn :: more)) := by simp
            rw [hassoc]
            exact readContent_pair hch hsecond (List.cons_ne_nil _ _) hall
          · exact fun trailing htrailing =>
              .pair hch hsecond (List.cons_ne_nil _ _) hall (hvalue trailing htrailing)

/-- The value of a line is read up to what follows it. -/
theorem IsFieldValue.readValue_append {trailing : Bool} {value : Bytes}
    (h : IsFieldValue trailing value) (more : Bytes) {n : Nat} (hn : value.length < n) :
    readValue n (value ++ (spaceIf trailing ++ carriageReturn :: more)) =
      .done () (spaceIf trailing ++ carriageReturn :: more) := by
  -- The byte behind a value is no visible character, and a blank only if a space follows.
  have hend : ∃ ch tail, spaceIf trailing ++ carriageReturn :: more = ch :: tail ∧
      isVchar ch = false ∧ (trailing = false → isBlank ch = false) := by
    cases trailing with
    | false => exact ⟨_, _, rfl, by decide, fun _ => by decide⟩
    | true => exact ⟨_, _, rfl, by decide, fun h => absurd h (by decide)⟩
  obtain ⟨last, tail, hcons, hlast, hblank⟩ := hend
  rw [hcons]
  induction h generalizing n with
  | nil =>
    obtain ⟨n, rfl⟩ : ∃ m, n = m + 1 := ⟨n - 1, by omega⟩
    exact readValue_false (readContent_other hlast)
  | @single ch rest hch hsingle h ih =>
    obtain ⟨n, rfl⟩ : ∃ m, n = m + 1 := ⟨n - 1, by omega⟩
    rw [← ih (n := n) (by simpa using hn)]
    refine readValue_true ?_
    have hnext : ∃ next rest', rest ++ last :: tail = next :: rest' ∧ isBlank next = false := by
      cases h with
      | nil => exact ⟨_, _, rfl, hblank (hsingle rfl)⟩
      | single hch => exact ⟨_, _, rfl, isBlank_eq_false_of_isVchar hch⟩
      | pair hfirst => exact ⟨_, _, rfl, isBlank_eq_false_of_isVchar hfirst⟩
    obtain ⟨next, rest', hrest, hnext⟩ := hnext
    rw [List.cons_append, hrest]
    exact readContent_single hch hnext
  | @pair first second blanks rest hfirst hsecond hne hblanks h ih =>
    obtain ⟨n, rfl⟩ : ∃ m, n = m + 1 := ⟨n - 1, by omega⟩
    rw [← ih (n := n) (by simp at hn; omega)]
    refine readValue_true ?_
    have hassoc : first :: (blanks ++ second :: rest) ++ last :: tail =
        first :: (blanks ++ second :: (rest ++ last :: tail)) := by simp
    rw [hassoc]
    exact readContent_pair hfirst hsecond hne hblanks

theorem IsFieldValue.mem {trailing : Bool} {value : Bytes} (h : IsFieldValue trailing value) :
    ∀ ch ∈ value, isVchar ch || isBlank ch := by
  induction h with
  | nil => simp
  | single hch _ _ ih =>
    simp only [List.mem_cons, forall_eq_or_imp, hch, Bool.true_or, true_and]
    exact ih
  | pair hfirst hsecond _ hblanks _ ih =>
    intro ch hmem
    simp only [List.mem_cons, List.mem_append] at hmem
    rcases hmem with rfl | hmem | rfl | hmem
    · simp [hfirst]
    · simp [hblanks ch hmem]
    · simp [hsecond]
    · exact ih ch hmem

theorem IsFieldValue.zero_not_mem {trailing : Bool} {value : Bytes}
    (h : IsFieldValue trailing value) : 0 ∉ value :=
  fun hmem => absurd (h.mem 0 hmem) (by decide)

/-! ## A header line -/

/-- The space behind the colon is taken if it is there. -/
theorem readOptional_leading {leading : Bool} {text tail : Bytes} {ch : UInt8}
    (hleading : leading = false → ∃ c r, text ++ ch :: tail = c :: r ∧ c ≠ space) :
    readOptional space (spaceIf leading ++ (text ++ ch :: tail)) =
      .done leading (text ++ ch :: tail) := by
  cases leading with
  | true => simp [spaceIf, readOptional]
  | false =>
    obtain ⟨c, r, hcons, hne⟩ := hleading rfl
    rw [spaceIf, if_neg Bool.false_ne_true, List.nil_append, hcons, readOptional, if_neg hne]

/-- What is behind the value, when the value was taken. -/
theorem readLineEnd {rest : Bytes} (hrest : carriageReturn ∉ rest) (more value : Bytes) :
    ((readOptional space (rest ++ (crlf ++ more))).bind fun _ rest =>
      (readExpected carriageReturn rest).bind fun _ rest =>
      (readExpected newLine rest).map fun _ => value) =
    if rest = [] ∨ rest = [space] then .done value more else .rejected := by
  have hcr : carriageReturn ≠ space := by decide
  cases rest with
  | nil => simp [crlf, readOptional, hcr, Reading.bind, Reading.map]
  | cons ch rest =>
    have hch : ch ≠ carriageReturn := fun heq => hrest (by simp [heq])
    by_cases hspace : ch = space
    · subst hspace
      cases rest with
      | nil => simp [crlf, readOptional, Reading.bind, Reading.map]
      | cons next rest =>
        have hnext : next ≠ carriageReturn := fun heq => hrest (by simp [heq])
        simp [readOptional, readExpected, hnext, Reading.bind]
    · simp [readOptional, readExpected, hspace, hch, Reading.bind]

theorem readHeaderRest_eq {leading : Bool} {value rest more : Bytes}
    (hleading : leading = false → ∃ c r, value ++ (rest ++ (crlf ++ more)) = c :: r ∧ c ≠ space)
    (hrest : carriageReturn ∉ rest) (hzero : 0 ∉ value)
    (hread : readValue (value ++ (rest ++ (crlf ++ more))).length (value ++ (rest ++ (crlf ++ more))) =
      .done () (rest ++ (crlf ++ more))) :
    readHeaderRest (colon :: (spaceIf leading ++ (value ++ (rest ++ (crlf ++ more))))) =
      if Fits value ∧ (rest = [] ∨ rest = [space]) then .done (copied value) more
      else .rejected := by
  have hoptional : readOptional space (spaceIf leading ++ (value ++ (rest ++ (crlf ++ more)))) =
      .done leading (value ++ (rest ++ (crlf ++ more))) := by
    have hassoc : value ++ (rest ++ (crlf ++ more)) =
        (value ++ rest) ++ carriageReturn :: newLine :: more := by simp [crlf]
    rw [hassoc] at hleading ⊢
    exact readOptional_leading hleading
  have htake : (value ++ (rest ++ (crlf ++ more))).take
      ((value ++ (rest ++ (crlf ++ more))).length - (rest ++ (crlf ++ more)).length) = value := by
    simp
  obtain ⟨ch, tail, hcons⟩ : ∃ ch tail, rest ++ (crlf ++ more) = ch :: tail := by
    cases rest <;> exact ⟨_, _, rfl⟩
  have htoken : readToken value (rest ++ (crlf ++ more)) =
      if Fits value then .done (copied value) (rest ++ (crlf ++ more)) else .rejected := by
    rw [hcons]
    exact readToken_of_cons hzero ch tail
  rw [readHeaderRest, readExpected_cons, Reading.done_bind, hoptional, Reading.done_bind, hread,
    Reading.done_bind, htake, htoken]
  by_cases hfits : Fits value
  · rw [if_pos hfits, Reading.done_bind, readLineEnd hrest]
    simp only [hfits, true_and]
  · rw [if_neg hfits, if_neg fun hand => hfits hand.1]
    rfl

/-- The text of a header line is read, or the line is rejected. -/
theorem readHeaderRest_line {text : Bytes} (htext : ∀ ch ∈ text, isFieldChar ch) (more : Bytes) :
    readHeaderRest (colon :: (text ++ (crlf ++ more))) = .rejected ∨
    ∃ leading value trailing, text = spaceIf leading ++ (value ++ spaceIf trailing) ∧
      IsFieldValue trailing value ∧ Fits value ∧
      (leading = false → value = [] → trailing = false) ∧
      readHeaderRest (colon :: (text ++ (crlf ++ more))) = .done (copied value) more := by
  have hcr : ∀ {t : Bytes}, (∀ ch ∈ t, isFieldChar ch) → carriageReturn ∉ t :=
    fun ht hmem => absurd (ht _ hmem) (by decide)
  obtain ⟨leading, body, rfl, hhead⟩ : ∃ leading body, text = spaceIf leading ++ body ∧
      (leading = false → ∀ c r, body = c :: r → c ≠ space) := by
    cases text with
    | nil => exact ⟨false, [], rfl, fun _ _ _ h => by cases h⟩
    | cons ch rest =>
      by_cases hspace : ch = space
      · exact ⟨true, rest, by simp [spaceIf, hspace], fun h => absurd h (by decide)⟩
      · refine ⟨false, ch :: rest, rfl, ?_⟩
        rintro _ c r heq
        cases heq
        exact hspace
  have hbody : ∀ ch ∈ body, isFieldChar ch := fun ch hmem =>
    htext ch (List.mem_append_right _ hmem)
  obtain ⟨value, rest, rfl, hread, hvalue⟩ :=
    readValue_line (n := (body ++ (crlf ++ more)).length) (hcr hbody) (newLine :: more)
      (by simp [crlf])
  have hzero : 0 ∉ value := fun hmem =>
    absurd (hbody 0 (List.mem_append_left _ hmem)) (by decide)
  have hrest : carriageReturn ∉ rest :=
    hcr fun ch hmem => hbody ch (List.mem_append_right _ hmem)
  have hassoc : value ++ rest ++ (crlf ++ more) = value ++ (rest ++ (crlf ++ more)) :=
    List.append_assoc ..
  have hcons : value ++ rest ++ carriageReturn :: newLine :: more =
      value ++ (rest ++ (crlf ++ more)) := by simp [crlf]
  rw [hcons, hassoc] at hread
  have hleading : leading = false →
      ∃ c r, value ++ (rest ++ (crlf ++ more)) = c :: r ∧ c ≠ space := by
    intro hfalse
    rw [← hassoc]
    cases hvr : value ++ rest with
    | nil => exact ⟨_, _, rfl, by decide⟩
    | cons c r => exact ⟨_, _, rfl, hhead hfalse c r hvr⟩
  have heq := readHeaderRest_eq hleading hrest hzero hread
  rw [List.append_assoc, hassoc]
  by_cases hok : Fits value ∧ (rest = [] ∨ rest = [space])
  swap
  · rw [if_neg hok] at heq
    exact .inl heq
  rw [if_pos hok] at heq
  obtain ⟨hfits, hend⟩ := hok
  obtain ⟨trailing, htrailing⟩ : ∃ trailing, rest = spaceIf trailing := by
    rcases hend with rfl | rfl
    · exact ⟨false, rfl⟩
    · exact ⟨true, rfl⟩
  refine .inr ⟨leading, value, trailing, by rw [htrailing], hvalue trailing htrailing, hfits, ?_, heq⟩
  intro hfalse hnil
  cases trailing with
  | false => rfl
  | true =>
    refine absurd rfl (hhead hfalse space [] ?_)
    rw [hnil, htrailing]
    rfl

theorem HeaderLine.readHeaderRest_append (line : HeaderLine) (more : Bytes) :
    readHeaderRest (colon :: (line.text ++ (crlf ++ more))) = .done (copied line.value) more := by
  have hcr : carriageReturn ∉ spaceIf line.trailing := by
    cases line.trailing <;> decide
  have hleading : line.leading = false →
      ∃ c r, line.value ++ (spaceIf line.trailing ++ (crlf ++ more)) = c :: r ∧ c ≠ space := by
    intro hfalse
    have hvalue := line.value_contents
    have hfirst := line.leading_first hfalse
    have hne : ∀ ch : UInt8, isVchar ch = true → ch ≠ space := by
      rintro ch hch rfl
      exact absurd hch (by decide)
    cases hcases : line.value with
    | nil =>
      rw [hfirst hcases]
      exact ⟨_, _, rfl, by decide⟩
    | cons c r =>
      rw [hcases] at hvalue
      cases hvalue with
      | single hch => exact ⟨_, _, rfl, hne c hch⟩
      | pair hfirst => exact ⟨_, _, rfl, hne c hfirst⟩
  have hread := line.value_contents.readValue_append (newLine :: more)
    (n := (line.value ++ (spaceIf line.trailing ++ (crlf ++ more))).length)
    (by simp only [crlf, List.length_append, List.length_cons]; omega)
  have heq := readHeaderRest_eq hleading hcr line.value_contents.zero_not_mem hread
  have hok : Fits line.value ∧ (spaceIf line.trailing = [] ∨ spaceIf line.trailing = [space]) := by
    refine ⟨line.value_fits, ?_⟩
    cases line.trailing
    · exact .inl rfl
    · exact .inr rfl
  rw [if_pos hok] at heq
  rw [← heq, HeaderLine.text]
  simp only [List.append_assoc]

/-- The name of a header line. -/
theorem takeWhile_name {name : Bytes} (h : ∀ ch ∈ name, isHeaderFieldPart ch) (rest : Bytes) :
    (name ++ colon :: rest).takeWhile isHeaderFieldPart = name ∧
      (name ++ colon :: rest).dropWhile isHeaderFieldPart = colon :: rest := by
  have hcolon : ¬ isHeaderFieldPart colon = true := by decide
  rw [List.takeWhile_append_of_pos h, List.dropWhile_append_of_pos h,
    List.takeWhile_cons_of_neg hcolon, List.dropWhile_cons_of_neg hcolon, List.append_nil]
  exact ⟨rfl, rfl⟩

theorem readLowerCased_cons {name : Bytes} (h : ∀ ch ∈ name, isHeaderFieldPart ch) (ch : UInt8)
    (rest : Bytes) :
    readLowerCased name (ch :: rest) =
      if name.length + 1 < 2 ^ 31 then .done (name.map toLower) (ch :: rest) else .rejected := by
  have hlower : ∀ c : UInt8, isHeaderFieldPart c = true → toLower c ≠ 0 := by
    intro c hc hzero
    unfold toLower at hzero
    split at hzero
    next hupper =>
      have hnat := congrArg UInt8.toNat hzero
      have hlower := UInt8.le_iff_toNat_le.1 hupper.1
      have hhigher := UInt8.le_iff_toNat_le.1 hupper.2
      rw [UInt8.toNat_add] at hnat
      simp at hnat hlower hhigher
      omega
    next =>
      rw [hzero] at hc
      exact absurd hc (by decide)
  have hwhile : (name.map toLower).takeWhile (· ≠ 0) = name.map toLower := by
    rw [List.takeWhile_eq_self_iff]
    intro c hc
    obtain ⟨letter, hletter, rfl⟩ := List.mem_map.1 hc
    simpa using hlower letter (h letter hletter)
  rw [readLowerCased, if_neg (List.cons_ne_nil ch rest), hwhile]
  by_cases hlt : name.length + 1 < 2 ^ 31
  · rw [if_pos hlt, if_neg (Nat.not_le.2 hlt)]
  · rw [if_neg hlt, if_pos (Nat.not_lt.1 hlt)]

/-- A header line whose name is no name for the scanner is rejected at its first wrong character. -/
theorem readHeader_eq_rejected {name text more : Bytes} (hne : name ≠ [])
    (hname : ∀ ch ∈ name, isTchar ch)
    (h : ¬ ((∃ ch rest, name = ch :: rest ∧ isHeaderFieldStart ch) ∧
      ∀ ch ∈ name, isHeaderFieldPart ch)) :
    readHeader (name ++ colon :: (text ++ (crlf ++ more))) = .rejected := by
  obtain ⟨ch, rest, rfl⟩ := List.exists_cons_of_ne_nil hne
  have hcr : ch ≠ carriageReturn := by
    rintro rfl
    exact absurd (hname _ (List.mem_cons_self ..)) (by decide)
  by_cases hstart : isHeaderFieldStart ch
  swap
  · simp only [List.cons_append, readHeader, if_neg hstart, if_neg hcr]
  -- The first character that is no part of a name, and it is no colon.
  have hpart : ¬ ∀ c ∈ ch :: rest, isHeaderFieldPart c := fun hall => h ⟨⟨ch, rest, rfl, hstart⟩, hall⟩
  obtain ⟨wrong, tail, hdrop⟩ : ∃ wrong tail, (ch :: rest).dropWhile isHeaderFieldPart = wrong :: tail := by
    cases hdrop : (ch :: rest).dropWhile isHeaderFieldPart with
    | nil => exact absurd (List.dropWhile_eq_nil_iff.1 hdrop) hpart
    | cons wrong tail => exact ⟨wrong, tail, rfl⟩
  have hwrong : wrong ≠ colon := by
    rintro rfl
    have hmem : colon ∈ ch :: rest := by
      have hsuffix := List.dropWhile_suffix (l := ch :: rest) isHeaderFieldPart
      rw [hdrop] at hsuffix
      exact hsuffix.subset (List.mem_cons_self ..)
    exact absurd (hname _ hmem) (by decide)
  have hsplit : ch :: rest = (ch :: rest).takeWhile isHeaderFieldPart ++ wrong :: tail := by
    rw [← hdrop, List.takeWhile_append_dropWhile]
  have hnotpart : ¬ isHeaderFieldPart wrong = true := by
    have hhead := List.head?_dropWhile_not isHeaderFieldPart (ch :: rest)
    rw [hdrop] at hhead
    simpa using hhead
  have hall : ∀ c ∈ (ch :: rest).takeWhile isHeaderFieldPart, isHeaderFieldPart c = true :=
    fun c hc => List.mem_takeWhile_imp hc
  have htake : (ch :: rest ++ colon :: (text ++ (crlf ++ more))).takeWhile isHeaderFieldPart =
      (ch :: rest).takeWhile isHeaderFieldPart := by
    rw [hsplit, List.append_assoc, List.takeWhile_append_of_pos hall, List.cons_append,
      List.takeWhile_cons_of_neg hnotpart, List.append_nil, ← hsplit]
  have hdrop' : (ch :: rest ++ colon :: (text ++ (crlf ++ more))).dropWhile isHeaderFieldPart =
      wrong :: (tail ++ colon :: (text ++ (crlf ++ more))) := by
    rw [hsplit, List.append_assoc, List.dropWhile_append_of_pos hall, List.cons_append,
      List.dropWhile_cons_of_neg hnotpart]
  rw [List.cons_append] at htake hdrop' ⊢
  simp only [readHeader, if_pos hstart, htake, hdrop']
  rw [readLowerCased_cons hall]
  split
  · rw [Reading.done_bind, readHeaderRest, readExpected, if_neg hwrong]
    rfl
  · rfl

theorem readHeader_name {name text : Bytes} (hstart : ∃ ch rest, name = ch :: rest ∧ isHeaderFieldStart ch)
    (hpart : ∀ ch ∈ name, isHeaderFieldPart ch) (more : Bytes) :
    readHeader (name ++ colon :: (text ++ (crlf ++ more))) =
      if name.length + 1 < 2 ^ 31 then
        (readHeaderRest (colon :: (text ++ (crlf ++ more)))).map fun value =>
          some (getHeader (name.map toLower), value)
      else .rejected := by
  obtain ⟨ch, rest, rfl, hch⟩ := hstart
  obtain ⟨htake, hdrop⟩ := takeWhile_name hpart (text ++ (crlf ++ more))
  rw [List.cons_append] at htake hdrop ⊢
  simp only [readHeader, if_pos hch, htake, hdrop]
  rw [readLowerCased_cons hpart]
  split <;> rfl

/-- A line of a header that is read. -/
theorem HeaderLine.readHeader_append (line : HeaderLine) (more : Bytes) :
    readHeader (line.bytes ++ more) = .done (some line.entry) more := by
  have hassoc : line.bytes ++ more = line.name ++ colon :: (line.text ++ (crlf ++ more)) := by
    simp [HeaderLine.bytes]
  rw [hassoc, readHeader_name line.name_start line.name_part, if_pos line.name_fits,
    line.readHeaderRest_append]
  rfl

/-- A header line is read, or it is rejected. -/
theorem readHeader_line {l : Bytes} (h : IsHeaderLine l) (more : Bytes) :
    readHeader (l ++ more) = .rejected ∨ ∃ line : HeaderLine, line.bytes = l := by
  obtain @⟨name, text, hne, hname, htext⟩ := h
  have hassoc : name ++ colon :: (text ++ crlf) ++ more =
      name ++ colon :: (text ++ (crlf ++ more)) := by simp
  rw [hassoc]
  by_cases hgood : (∃ ch rest, name = ch :: rest ∧ isHeaderFieldStart ch) ∧
      ∀ ch ∈ name, isHeaderFieldPart ch
  swap
  · exact .inl (readHeader_eq_rejected hne hname hgood)
  rw [readHeader_name hgood.1 hgood.2]
  by_cases hlt : name.length + 1 < 2 ^ 31
  swap
  · rw [if_neg hlt]
    exact .inl rfl
  rw [if_pos hlt]
  rcases readHeaderRest_line htext more with hrejected | ⟨leading, value, trailing, rfl, hvalue, hfits,
    hfirst, hread⟩
  · rw [hrejected]
    exact .inl rfl
  · refine .inr ⟨{
      name, leading, value, trailing
      name_start := hgood.1
      name_part := hgood.2
      name_fits := hlt
      value_contents := hvalue
      value_fits := hfits
      leading_first := hfirst }, rfl⟩

theorem HeaderLine.isHeaderLine (line : HeaderLine) : IsHeaderLine line.bytes := by
  refine .intro ?_ ?_ ?_
  · obtain ⟨ch, rest, heq, -⟩ := line.name_start
    rw [heq]
    exact List.cons_ne_nil ch rest
  · intro ch hmem
    have hpart := line.name_part ch hmem
    unfold isHeaderFieldPart at hpart
    rw [Bool.or_eq_true] at hpart
    rcases hpart with halpha | hdash
    · simp [isTchar, isAlnum, halpha]
    · rw [decide_eq_true_eq] at hdash
      subst hdash
      decide
  · have hspace : ∀ b, ∀ ch ∈ spaceIf b, isFieldChar ch = true := by
      intro b ch hmem
      cases b with
      | false => cases hmem
      | true =>
        rw [List.mem_singleton.1 hmem]
        decide
    intro ch hmem
    rcases List.mem_append.1 hmem with hmem | hmem
    · exact hspace _ ch hmem
    rcases List.mem_append.1 hmem with hmem | hmem
    · have hmem := line.value_contents.mem ch hmem
      simp only [isFieldChar, hmem, Bool.true_or]
    · exact hspace _ ch hmem

/-! ## The headers and the body -/

theorem readHeader_crlf (rest : Bytes) : readHeader (crlf ++ rest) = .done none rest := by
  have hstart : ¬ isHeaderFieldStart carriageReturn = true := by decide
  simp only [crlf, List.cons_append, List.nil_append, readHeader, if_neg hstart, if_true,
    readExpected_cons]
  rfl

theorem readHeaders_append {lines : List HeaderLine} {headers : Headers} {n : Nat}
    (hn : lines.length < n) (rest : Bytes) :
    readHeaders n headers (lines.flatMap HeaderLine.bytes ++ (crlf ++ rest)) =
      .done (headersOf headers lines) rest := by
  induction lines generalizing headers n with
  | nil =>
    obtain ⟨n, rfl⟩ : ∃ m, n = m + 1 := ⟨n - 1, by omega⟩
    rw [List.flatMap_nil, List.nil_append, readHeaders, readHeader_crlf]
    rfl
  | cons line lines ih =>
    obtain ⟨n, rfl⟩ : ∃ m, n = m + 1 := ⟨n - 1, by omega⟩
    rw [List.flatMap_cons, List.append_assoc, readHeaders, line.readHeader_append,
      Reading.done_bind, headersOf]
    generalize line.entry = entry
    obtain ⟨header, value⟩ := entry
    exact ih (by simpa using hn)

/-- Header lines are read, or one of them is rejected. -/
theorem readHeaders_lines {lines : List Bytes} (h : ∀ l ∈ lines, IsHeaderLine l) {n : Nat}
    {headers : Headers} (rest : Bytes) :
    readHeaders n headers (lines.flatten ++ (crlf ++ rest)) = .rejected ∨
      ∃ read : List HeaderLine, read.flatMap HeaderLine.bytes = lines.flatten := by
  induction lines generalizing n headers with
  | nil => exact .inr ⟨[], rfl⟩
  | cons l lines ih =>
    cases n with
    | zero => exact .inl rfl
    | succ n =>
      rw [List.flatten_cons, List.append_assoc, readHeaders]
      rcases readHeader_line (h l (List.mem_cons_self ..)) (lines.flatten ++ (crlf ++ rest)) with
        hrejected | ⟨line, rfl⟩
      · rw [hrejected]
        exact .inl rfl
      · rw [line.readHeader_append, Reading.done_bind]
        generalize line.entry = entry
        obtain ⟨header, value⟩ := entry
        rcases ih fun l hl => h l (List.mem_cons_of_mem _ hl) with hrejected | ⟨read, hread⟩
        · exact .inl hrejected
        · exact .inr ⟨line :: read, by rw [List.flatMap_cons, hread]⟩

section

variable {text : Text} {start : Nat} {rest : Bytes} {s : HttpScanner}

theorem exists_ok_getTokenValue {token : Bytes} (hstart : s.startPosition = start)
    (hposition : s.position = start + token.length) :
    (∃ value s', (getTokenValue text).run s = .ok value s') ↔ Fits token := by
  rw [run_getTokenValue hstart hposition]
  unfold Fits
  generalize toInt (token.length + 1) = size
  by_cases hsize : size ≤ 0
  · rw [if_pos hsize]
    refine iff_of_false ?_ (Int.not_lt.2 hsize)
    rintro ⟨value, s', h⟩
    cases h
  · rw [if_neg hsize]
    exact iff_of_true ⟨_, _, rfl⟩ (Int.not_le.1 hsize)

/-- The body is read if and only if it can be copied. -/
theorem exists_ok_scanBody (length : Int) (h : At text start rest s) :
    (∃ body s', (scanBody text length).run s = .ok body s') ↔
      Fits (rest.take (length % 2 ^ 32).toNat) := by
  unfold scanBody
  generalize (length % 2 ^ 32).toNat = n
  let s₀ : HttpScanner := { s with startPosition := s.position, accesses := s.accesses ++ [] }
  have h₀ : At text s.position rest s₀ := by
    refine { h with inside := ?_, start := rfl }
    rw [staysInside_append rfl]
    exact ⟨h.inside, by simp⟩
  show (∃ body s', (scanBodyChars text n >>= fun _ => getTokenValue text).run s₀ = .ok body s') ↔ _
  cases matches_scanBodyChars (n := n) h₀ with
  | @done _ _ _ s₁ ho htook =>
    obtain ⟨hrest, h₁⟩ := htook
    rw [Climb.run_bind_ok ho]
    refine exists_ok_getTokenValue h₁.start ?_
    have hlength := h.length
    have hlength₁ := h₁.length
    rw [List.length_drop] at hlength₁
    rw [List.length_take]
    have hle : s₁.position ≤ text.size := h₁.position_le
    omega

theorem exists_ok_parseBody (method : HttpMethod) (headers : Headers) (h : At text start rest s) :
    (∃ result s', (parseBody text method headers).run s = .ok result s') ↔
      BodyFits method headers rest := by
  unfold parseBody BodyFits
  by_cases hget : method = .get
  · rw [if_pos hget]
    exact iff_of_true ⟨_, _, rfl⟩ fun hne => absurd hget hne
  rw [if_neg hget]
  cases hlookup : headers.lookup .contentLength with
  | none => exact iff_of_true ⟨_, _, rfl⟩ fun _ _ h => by cases h
  | some value =>
    cases value with
    | none => exact iff_of_true ⟨_, _, rfl⟩ fun _ _ h => by cases h
    | some value =>
      have hbody := exists_ok_scanBody (atoll value) h
      have hiff : (∃ result s', (scanBody text (atoll value) >>= fun body =>
          (pure (headers, some body) : ScannerM (Headers × Option Bytes))).run s = .ok result s') ↔
          ∃ body s', (scanBody text (atoll value)).run s = .ok body s' := by
        constructor
        · rintro ⟨result, s', hrun⟩
          obtain ⟨body, s₁, hbody, -⟩ := Climb.run_bind_eq_ok.1 hrun
          exact ⟨body, s₁, hbody⟩
        · rintro ⟨body, s', hbody⟩
          exact ⟨_, _, Climb.run_bind_ok hbody⟩
      refine hiff.trans (hbody.trans ?_)
      constructor
      · intro hfits _ value' heq
        cases heq
        exact hfits
      · exact fun hall => hall hget value rfl

/-- `Parse` does not give the null pointer. -/
theorem parse_ne_none (text : Text) (s s' : HttpScanner) : (parse text).run s ≠ .ok none s' := by
  intro hrun
  obtain ⟨line, s₁, -, hrun⟩ := Climb.run_bind_eq_ok.1 hrun
  obtain ⟨headers, s₂, -, hrun⟩ := Climb.run_bind_eq_ok.1 hrun
  obtain ⟨body, s₃, -, hrun⟩ := Climb.run_bind_eq_ok.1 hrun
  cases hrun

/-- A run that has a value reads a value, if it does not run out. -/
theorem Matches.done_of_ok {α β : Type} {Q : α → β → Bytes → HttpScanner → Prop} {a : α}
    {s : HttpScanner} {r : Reading β} (h : Matches text (.ok a s) Q r) (hran : r ≠ .ranOut) :
    ∃ b rest, r = .done b rest ∧ Q a b rest s := by
  cases h with
  | ranOut => exact absurd rfl hran
  | rejected hvalue => cases hvalue
  | done ho h =>
    cases ho
    exact ⟨_, _, rfl, h⟩

theorem Matches.exists_ok {α : Type} {o : Outcome String HttpScanner α} {a : α} {rest : Bytes}
    (h : Matches text o (Read text) (.done a rest)) :
    ∃ s, o = .ok a s ∧ ∃ start, At text start rest s := by
  cases h with
  | done ho h =>
    obtain ⟨rfl, hat⟩ := h
    exact ⟨_, ho, hat⟩

theorem at_start (text : Text) : At text 0 text.received {} where
  inside _ hmem := absurd hmem List.not_mem_nil
  position_le := Nat.zero_le _
  drop := rfl
  start := rfl

/-- There are no more header lines than bytes. -/
theorem length_lt {first rest : Bytes} {lines : List HeaderLine}
    (h : text.received = first ++ (lines.flatMap HeaderLine.bytes ++ (crlf ++ rest))) :
    lines.length < text.size + 1 := by
  have hlines : lines.length ≤ (lines.flatMap HeaderLine.bytes).length := by
    clear h
    induction lines with
    | nil => exact Nat.le_refl 0
    | cons line lines ih =>
      have hline : 0 < line.bytes.length := by
        rw [HeaderLine.bytes, List.length_append, List.length_cons]
        omega
      rw [List.flatMap_cons, List.length_append, List.length_cons]
      omega
  have hlength := congrArg List.length h
  simp only [List.length_append] at hlength
  unfold Text.size
  omega

/-- A request that is given back has been read. -/
theorem isReadable_of_ok {request : HttpParser.HttpRequest}
    (hrun : (parse text).run {} = .ok (some request) s)
    (h : IsRequest ⟨request.method, request.path, request.query⟩ text.received) :
    IsReadable text.received := by
  obtain ⟨first, lines, rest, hfirst, hlines, hbytes⟩ := h
  obtain ⟨line, s₁, hline, hrun⟩ := Climb.run_bind_eq_ok.1 hrun
  obtain ⟨headers, s₂, hheaders, hrun⟩ := Climb.run_bind_eq_ok.1 hrun
  obtain ⟨⟨headers', body⟩, s₃, hbody, hrun⟩ := Climb.run_bind_eq_ok.1 hrun
  cases hrun
  -- The request line: the path and the query were copied as they are.
  have hmatches := matches_parseRequestLine (at_start text)
  rw [hline, hbytes, readRequestLine_append hfirst] at hmatches
  by_cases hfits : Fits line.path ∧ Fits line.query
  swap
  · rw [if_neg hfits] at hmatches
    obtain ⟨_, _, hrejected, -⟩ := hmatches.done_of_ok nofun
    cases hrejected
  rw [if_pos hfits] at hmatches
  obtain ⟨line', rest₁, hdone, hsame, start₁, h₁⟩ := hmatches.done_of_ok nofun
  subst hsame
  obtain ⟨heq, rfl⟩ := Reading.done.inj hdone
  have hpath := congrArg RequestLine.path heq
  have hquery := congrArg RequestLine.query heq
  dsimp only at hpath hquery
  -- The headers: no line of them was rejected.
  have hmatches : Matches text ((parseHeaders text (text.size + 1) []).run s₁) (Read text)
      (readHeaders (text.size + 1) [] (lines.flatten ++ (crlf ++ rest))) := matches_parseHeaders h₁
  rw [hheaders] at hmatches
  have hlines : readHeaders (text.size + 1) [] (lines.flatten ++ (crlf ++ rest)) = .rejected ∨ _ :=
    readHeaders_lines hlines rest
  rcases hlines with hrejected | ⟨read, hread⟩
  · rw [hrejected] at hmatches
    obtain ⟨_, _, hrejected, -⟩ := hmatches.done_of_ok nofun
    cases hrejected
  rw [← hread] at hbytes hmatches
  rw [readHeaders_append (length_lt hbytes)] at hmatches
  obtain ⟨_, rest₂, hdone, hsame, start₂, h₂⟩ := hmatches.done_of_ok nofun
  subst hsame
  obtain ⟨rfl, rfl⟩ := Reading.done.inj hdone
  refine ⟨_, first, read, rest, hfirst, hbytes, lt_of_copied_eq hfits.1 hpath,
    lt_of_copied_eq hfits.2 hquery, ?_⟩
  exact (exists_ok_parseBody line.method _ h₂).1 ⟨_, _, hbody⟩

/-- A request that can be read is given back. -/
theorem exists_ok_of_isReadable (h : IsReadable text.received) :
    ∃ request s, (parse text).run {} = .ok (some request) s ∧
      IsRequest ⟨request.method, request.path, request.query⟩ text.received := by
  obtain ⟨line, first, lines, rest, hfirst, hbytes, hpath, hquery, hbody⟩ := h
  obtain ⟨hfits, hcopied⟩ := fits_of_lt hpath
  obtain ⟨hfits', hcopied'⟩ := fits_of_lt hquery
  have hline := matches_parseRequestLine (at_start text)
  rw [hbytes, readRequestLine_append hfirst, if_pos ⟨hfits, hfits'⟩, hcopied, hcopied'] at hline
  obtain ⟨s₁, hrun₁, start₁, h₁⟩ := hline.exists_ok
  have hheaders : Matches text ((parseHeaders text (text.size + 1) []).run s₁) (Read text)
      (readHeaders (text.size + 1) [] (lines.flatMap HeaderLine.bytes ++ (crlf ++ rest))) :=
    matches_parseHeaders h₁
  rw [readHeaders_append (length_lt hbytes)] at hheaders
  obtain ⟨s₂, hrun₂, start₂, h₂⟩ := hheaders.exists_ok
  obtain ⟨⟨headers, body⟩, s₃, hrun₃⟩ := (exists_ok_parseBody line.method _ h₂).2 hbody
  refine ⟨{ method := line.method, path := line.path, query := line.query, headers, body }, s₃,
    ?_, ?_⟩
  · rw [parse, Climb.run_bind_ok hrun₁, Climb.run_bind_ok hrun₂, Climb.run_bind_ok hrun₃]
    rfl
  · refine ⟨first, lines.map HeaderLine.bytes, rest, hfirst, ?_, ?_⟩
    · intro l hl
      obtain ⟨line, -, rfl⟩ := List.mem_map.1 hl
      exact line.isHeaderLine
    · rw [hbytes, List.flatMap_def]

/-- **`Parse` answers as its caller expects if and only if it is given a request that it can read.** -/
theorem answers_iff_isReadable (text : Text) : Answers text ↔ IsReadable text.received := by
  constructor
  · rintro ⟨hsome, hnone⟩
    by_cases h : ∃ line, IsRequest line text.received
    · obtain ⟨request, s, hrun, hrequest⟩ := hsome h
      exact isReadable_of_ok hrun hrequest
    · obtain ⟨s, hrun⟩ := hnone h
      exact absurd hrun (parse_ne_none text {} s)
  · intro h
    obtain ⟨request, s, hrun, hrequest⟩ := exists_ok_of_isReadable h
    exact ⟨fun _ => ⟨request, s, hrun, hrequest⟩, fun hnot => absurd ⟨_, hrequest⟩ hnot⟩

end

/-- A request with a word of one letter between two others in a header, and a byte that starts no
request. -/
def unreadable : Text := ⟨HttpServer.bytesOf "GET / HTTP/1.1\r\nA: a b c\r\n\r\n", fun _ => 0⟩

def noRequest : Text := ⟨HttpServer.bytesOf "A", fun _ => 0⟩

theorem not_answers_unreadable : ¬ Answers unreadable ∧ ¬ Answers noRequest := by
  constructor
  · rintro ⟨hsome, -⟩
    have hrequest : IsRequest ⟨.get, [slash], []⟩ unreadable.received := by
      refine ⟨_, [HttpServer.bytesOf "A" ++ colon :: (HttpServer.bytesOf " a b c" ++ crlf)], [],
        .intro rfl ⟨[], rfl, .nil⟩ (.inl rfl), ?_, ?_⟩
      · intro l hl
        rw [List.mem_singleton.1 hl]
        exact .intro (by decide) (by decide +kernel) (by decide +kernel)
      · decide
    obtain ⟨request, s, hrun, -⟩ := hsome ⟨_, hrequest⟩
    have hvalue : ((parse unreadable).run {}).value?.isSome = true := by
      rw [hrun]
      rfl
    exact absurd hvalue (by decide +kernel)
  · rintro ⟨-, hnone⟩
    have hnot : ¬ ∃ line, IsRequest line noRequest.received := by
      rintro ⟨line, first, lines, rest, -, -, heq⟩
      have hlength := congrArg List.length heq
      simp only [List.length_append] at hlength
      have hcrlf : crlf.length = 2 := rfl
      have hone : noRequest.received.length = 1 := rfl
      omega
    obtain ⟨s, hrun⟩ := hnone hnot
    exact parse_ne_none noRequest {} s hrun

end HttpReading

end Flashpoint
