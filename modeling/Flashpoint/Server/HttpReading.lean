import Flashpoint.Server.HttpScanner

/-!
# Reading a request from the bytes that are left

The scanner of the source moves a position over a text and looks at the character there, whether or
not it was received. Here the same scan is a function of the bytes that are left (`readRequest`),
with an outcome of its own for a scan that gets to their end and goes on (`ranOut`). The scanner
follows it (`matches_parse`): where the bytes are enough it returns and throws accordingly and does
not leave the received bytes, and where the reading runs out it does leave them.
-/

namespace Flashpoint

open Library

/-- How a reading ends: at the end of the bytes while it goes on, at a byte it does not take, or with
a value and the bytes that are left. -/
inductive Reading (α : Type) where
  | ranOut
  | rejected
  | done (a : α) (rest : Bytes)
deriving DecidableEq, Repr

namespace Reading

variable {α β : Type}

def bind : Reading α → (α → Bytes → Reading β) → Reading β
  | ranOut, _ => ranOut
  | rejected, _ => rejected
  | done a rest, f => f a rest

def map (f : α → β) (r : Reading α) : Reading β := r.bind fun a rest => done (f a) rest

theorem done_bind (a : α) (rest : Bytes) (f : α → Bytes → Reading β) :
    (done a rest).bind f = f a rest := rfl

theorem bind_eq_done {r : Reading α} {f : α → Bytes → Reading β} {b : β} {rest : Bytes} :
    r.bind f = done b rest ↔ ∃ a rest', r = done a rest' ∧ f a rest' = done b rest := by
  cases r <;> simp [bind]

end Reading

namespace HttpReading

open HttpScanner HttpParser

/-! ## The readers -/

def readChar : Bytes → Reading UInt8
  | [] => .ranOut
  | ch :: rest => .done ch (ch :: rest)

def readOptional (ch : UInt8) : Bytes → Reading Bool
  | [] => .ranOut
  | current :: rest => if current = ch then .done true rest else .done false (current :: rest)

def readExpected (ch : UInt8) : Bytes → Reading Unit
  | [] => .ranOut
  | current :: rest => if current = ch then .done () rest else .rejected

/-- A jump over bytes that are not looked at. -/
def jump (k : Nat) (bytes : Bytes) : Reading Unit :=
  if k ≤ bytes.length then .done () (bytes.drop k) else .ranOut

/-- The copy of a token looks at the byte behind it, unless the token has a zero. -/
def readToken (token rest : Bytes) : Reading Bytes :=
  let size := toInt (token.length + 1)
  if size ≤ 0 then .rejected
  else if token.length < size.toNat ∧ 0 ∉ token ∧ rest = [] then .ranOut
  else .done ((token.take (size.toNat - 1)).takeWhile (· ≠ 0)) rest

def readMethodAfterP : Bytes → Reading HttpMethod
  | [] => .ranOut
  | ch :: rest =>
    if ch = 0x41 then (jump 4 (ch :: rest)).map fun _ => .patch
    else if ch = 0x4F then (jump 3 (ch :: rest)).map fun _ => .post
    else if ch = 0x55 then (jump 2 (ch :: rest)).map fun _ => .put
    else .done .none (ch :: rest)

def readMethodName : Bytes → Reading HttpMethod
  | [] => .ranOut
  | ch :: rest =>
    if ch = 0x43 then (jump 7 (ch :: rest)).map fun _ => .connect
    else if ch = 0x44 then (jump 6 (ch :: rest)).map fun _ => .delete
    else if ch = 0x47 then (jump 3 (ch :: rest)).map fun _ => .get
    else if ch = 0x48 then (jump 4 (ch :: rest)).map fun _ => .head
    else if ch = 0x4F then (jump 7 (ch :: rest)).map fun _ => .options
    else if ch = 0x50 then readMethodAfterP rest
    else if ch = 0x54 then (jump 5 (ch :: rest)).map fun _ => .trace
    else .done .none (ch :: rest)

def readMethod (bytes : Bytes) : Reading HttpMethod :=
  (readMethodName bytes).bind fun method rest =>
    if rest = [] then .rejected else .done method rest

/-- The characters of a path or a query. -/
def readPchars (also : UInt8 → Bool) : Bytes → Reading Bytes
  | [] => .ranOut
  | ch :: rest =>
    if isPlainPchar ch then (readPchars also rest).map (ch :: ·)
    else if ch = percent then
      match rest with
      | [] => .ranOut
      | [x] => if isXdigit x then .ranOut else .rejected
      | x :: y :: rest =>
        if isXdigit x then
          if isXdigit y then (readPchars also rest).map fun token => ch :: x :: y :: token
          else .rejected
        else .rejected
    else if also ch then (readPchars also rest).map (ch :: ·)
    else .done [] (ch :: rest)

def readAbsolutePath (bytes : Bytes) : Reading Bytes :=
  (readExpected slash bytes).bind fun _ rest =>
    (readPchars (· = slash) rest).bind fun token rest => readToken (slash :: token) rest

def readQuery (bytes : Bytes) : Reading Bytes :=
  (readOptional question bytes).bind fun found rest =>
    if found then
      (readPchars (fun ch => ch = slash || ch = question) rest).bind fun token rest =>
        readToken (question :: token) rest
    else readToken [] rest

def readHttpVersion (bytes : Bytes) : Reading Unit :=
  (readExpected 0x48 bytes).bind fun _ rest =>
    (jump 7 rest).bind fun _ rest => (readChar rest).map fun _ => ()

def readRequestLine (bytes : Bytes) : Reading RequestLine :=
  (readMethod bytes).bind fun method rest =>
  (readExpected space rest).bind fun _ rest =>
  (readAbsolutePath rest).bind fun path rest =>
  (readQuery rest).bind fun query rest =>
  (readExpected space rest).bind fun _ rest =>
  (readHttpVersion rest).bind fun _ rest =>
  (readExpected carriageReturn rest).bind fun _ rest =>
  (readExpected newLine rest).map fun _ => { method, path, query }

/-- The copy of a name looks at the byte behind it. -/
def readLowerCased (name rest : Bytes) : Reading Bytes :=
  if name.length + 1 ≥ 2 ^ 31 then .rejected
  else if rest = [] then .ranOut
  else .done ((name.map toLower).takeWhile (· ≠ 0)) rest

def isBlank (ch : UInt8) : Bool := ch = space || ch = horizontalTab

/-- A visible character, or two with blanks between them. -/
def readContent : Bytes → Reading Bool
  | [] => .ranOut
  | ch :: rest =>
    if isVchar ch then
      match rest with
      | [] => .ranOut
      | next :: _ =>
        if isBlank next then
          match rest.dropWhile isBlank with
          | [] => .ranOut
          | second :: rest' => if isVchar second then .done true rest' else .done false (ch :: rest)
        else .done true rest
    else .done false (ch :: rest)

/-- The value of a header, on a bound. -/
def readValue : Nat → Bytes → Reading Unit
  | 0, bytes => .done () bytes
  | n + 1, bytes =>
    if bytes = [] then .done () []
    else (readContent bytes).bind fun content rest =>
      if content then readValue n rest else .done () rest

/-- What follows the name of a header: the value. -/
def readHeaderRest (bytes : Bytes) : Reading Bytes :=
  (readExpected colon bytes).bind fun _ rest =>
  (readOptional space rest).bind fun _ start =>
  (readValue start.length start).bind fun _ rest =>
  (readToken (start.take (start.length - rest.length)) rest).bind fun value rest =>
  (readOptional space rest).bind fun _ rest =>
  (readExpected carriageReturn rest).bind fun _ rest =>
  (readExpected newLine rest).map fun _ => value

/-- A header, or none at the blank line. -/
def readHeader : Bytes → Reading (Option (HttpHeader × Bytes))
  | [] => .ranOut
  | ch :: rest =>
    if isHeaderFieldStart ch then
      let name := (ch :: rest).takeWhile isHeaderFieldPart
      (readLowerCased name ((ch :: rest).dropWhile isHeaderFieldPart)).bind fun lower rest =>
        (readHeaderRest rest).map fun value => some (getHeader lower, value)
    else if ch = carriageReturn then (readExpected newLine rest).map fun _ => none
    else .rejected

/-- The headers, on a bound. -/
def readHeaders : Nat → Headers → Bytes → Reading Headers
  | 0, _, _ => .rejected
  | n + 1, headers, bytes =>
    (readHeader bytes).bind fun header rest =>
      match header with
      | none => .done headers rest
      | some (header, value) => readHeaders n (headers.set header value) rest

def readBody (method : HttpMethod) (headers : Headers) (bytes : Bytes) :
    Reading (Headers × Option Bytes) :=
  if method = .get then .done (headers, none) bytes
  else
    match headers.lookup .contentLength with
    | some (some value) =>
      let length := (atoll value % 2 ^ 32).toNat
      (readToken (bytes.take length) (bytes.drop length)).map fun body => (headers, some body)
    | some none => .done (headers, none) bytes
    | none => .done (headers.set .contentLength none, none) bytes

def readRequest (bytes : Bytes) : Reading HttpParser.HttpRequest :=
  (readRequestLine bytes).bind fun line rest =>
  (readHeaders (bytes.length + 1) [] rest).bind fun headers rest =>
  (readBody line.method headers rest).map fun (headers, body) =>
    { method := line.method, path := line.path, query := line.query, headers, body }

/-- The index was received, and the position is at most behind the last one that was. -/
def IsInside (size : Nat) : Access → Prop
  | .read index => index < size
  | .moveTo position => position ≤ size

instance (size : Nat) : DecidablePred (IsInside size)
  | .read index => inferInstanceAs (Decidable (index < size))
  | .moveTo position => inferInstanceAs (Decidable (position ≤ size))

/-- The scanner has stayed inside the received bytes. -/
def StaysInside (text : Text) (s : HttpScanner) : Prop :=
  ∀ access ∈ s.accesses, IsInside text.size access

/-- The scanner stands before `rest`. -/
structure At (text : Text) (start : Nat) (rest : Bytes) (s : HttpScanner) : Prop where
  inside : StaysInside text s
  position_le : s.position ≤ text.size
  drop : text.received.drop s.position = rest
  start : s.startPosition = start

section

variable {text : Text} {start : Nat} {rest : Bytes} {s s' : HttpScanner}

theorem StaysInside.of_le (h : StaysInside text s') (hle : s ≤ s') : StaysInside text s :=
  fun access hmem => h access (List.IsPrefix.mem hmem hle)

theorem staysInside_append {accesses : List Access} (hs : s'.accesses = s.accesses ++ accesses) :
    StaysInside text s' ↔ StaysInside text s ∧ ∀ access ∈ accesses, IsInside text.size access := by
  simp only [StaysInside, hs, List.mem_append, or_imp, forall_and]

theorem At.length (h : At text start rest s) : s.position + rest.length = text.size := by
  have hlength := congrArg List.length h.drop
  rw [List.length_drop] at hlength
  have hle := h.position_le
  unfold Text.size at *
  omega

theorem At.char_eq {ch : UInt8} (h : At text start (ch :: rest) s) :
    text.char s.position = ch := by
  have hhead := congrArg List.head? h.drop
  rw [List.head?_drop] at hhead
  simp [Text.char, hhead]

theorem At.position_lt {ch : UInt8} (h : At text start (ch :: rest) s) :
    s.position < text.size := by
  have hlength := h.length
  rw [List.length_cons] at hlength
  omega

theorem At.position_eq (h : At text start [] s) : s.position = text.size := h.length

end

/-- How a run of the scanner ends when the reading ends as given. -/
inductive Matches {α β : Type} (text : Text) (o : Outcome String HttpScanner α)
    (Q : α → β → Bytes → HttpScanner → Prop) : Reading β → Prop where
  | ranOut (h : ¬ StaysInside text o.state) : Matches text o Q .ranOut
  | rejected (hvalue : o.value? = none) (h : StaysInside text o.state) : Matches text o Q .rejected
  | done {a : α} {b : β} {rest : Bytes} {s : HttpScanner} (ho : o = .ok a s) (h : Q a b rest s) :
    Matches text o Q (.done b rest)

/-- The value is that of the reading, and the scanner stands before the rest. -/
def Same {α : Type} (text : Text) (start : Nat) (a b : α) (rest : Bytes) (s : HttpScanner) : Prop :=
  a = b ∧ At text start rest s

section

variable {text : Text} {start : Nat} {rest : Bytes} {s s' : HttpScanner}
  {α β γ δ : Type} {Q : α → β → Bytes → HttpScanner → Prop}
  {Q' : γ → δ → Bytes → HttpScanner → Prop}

theorem Matches.bind {m : ScannerM α} {f : α → ScannerM γ} {r : Reading β}
    {g : β → Bytes → Reading δ} (h : Matches text (m.run s) Q r)
    (hf : ∀ a b rest s', Q a b rest s' → Matches text ((f a).run s') Q' (g b rest)) :
    Matches text ((m >>= f).run s) Q' (r.bind g) := by
  cases h with
  | ranOut h =>
    refine .ranOut fun hinside => h (hinside.of_le ?_)
    rw [Climb.run_bind]
    cases m.run s with
    | ok a s' => exact (f a).le_run s'
    | stop e s' => exact le_rfl
  | rejected hvalue hinside =>
    cases hrun : m.run s with
    | ok a s' =>
      rw [hrun] at hvalue
      cases hvalue
    | stop e s' =>
      rw [hrun] at hinside
      rw [Climb.run_bind_stop hrun]
      exact .rejected rfl hinside
  | done ho hQ =>
    rw [Climb.run_bind_ok ho]
    exact hf _ _ _ _ hQ

theorem Matches.map {m : ScannerM α} {f : α → ScannerM γ} {r : Reading β} {g : β → δ}
    (h : Matches text (m.run s) Q r)
    (hf : ∀ a b rest s', Q a b rest s' → Matches text ((f a).run s') Q' (.done (g b) rest)) :
    Matches text ((m >>= f).run s) Q' (r.map g) :=
  h.bind hf

theorem Matches.mapReading {o : Outcome String HttpScanner α} {r : Reading β} {g : β → δ}
    {Q₁ : α → δ → Bytes → HttpScanner → Prop} (h : Matches text o Q r)
    (hQ : ∀ a b rest s, Q a b rest s → Q₁ a (g b) rest s) : Matches text o Q₁ (r.map g) := by
  cases h with
  | ranOut h => exact .ranOut h
  | rejected hvalue h => exact .rejected hvalue h
  | done ho h => exact .done ho (hQ _ _ _ _ h)

theorem Matches.conseq {o : Outcome String HttpScanner α} {r : Reading β}
    {Q₁ : α → β → Bytes → HttpScanner → Prop} (h : Matches text o Q r)
    (hQ : ∀ a b rest s, Q a b rest s → Q₁ a b rest s) : Matches text o Q₁ r := by
  cases h with
  | ranOut h => exact .ranOut h
  | rejected hvalue h => exact .rejected hvalue h
  | done ho h => exact .done ho (hQ _ _ _ _ h)

/-- What a reading has given is known when the scanner goes on. -/
theorem Matches.reading {o : Outcome String HttpScanner α} {r : Reading β}
    (h : Matches text o Q r) :
    Matches text o (fun a b rest s => Q a b rest s ∧ r = .done b rest) r := by
  cases h with
  | ranOut h => exact .ranOut h
  | rejected hvalue h => exact .rejected hvalue h
  | done ho h => exact .done ho ⟨h, rfl⟩

theorem matches_pure {a : α} {b : β} (h : Q a b rest s) :
    Matches text ((pure a : ScannerM α).run s) Q (.done b rest) := .done rfl h

theorem matches_throw {message : String} (h : At text start rest s) :
    Matches text ((throwLogicError message : ScannerM α).run s) Q .rejected :=
  .rejected rfl h.inside

theorem matches_read {f : HttpScanner → γ} {k : γ → ScannerM α} {r : Reading β}
    (h : Matches text ((k (f s)).run s) Q r) :
    Matches text ((read f >>= k).run s) Q r := h

/-! ## Access to the text -/

/-- A read of a byte that was received. -/
theorem At.charAt (h : At text start rest s) {index : Nat} (hindex : index < text.size) :
    At text start rest { s with accesses := s.accesses ++ [.read index] } where
  inside := by
    rw [staysInside_append rfl]
    refine ⟨h.inside, ?_⟩
    simpa [IsInside] using hindex
  position_le := h.position_le
  drop := h.drop
  start := h.start

/-- The character behind the last byte is looked at. -/
theorem matches_currentChar_nil {k : UInt8 → ScannerM α} (h : At text start [] s) :
    Matches text ((currentChar text >>= k).run s) Q .ranOut := by
  refine .ranOut fun hinside => ?_
  have hread : StaysInside text { s with accesses := s.accesses ++ [.read s.position] } :=
    hinside.of_le ((k (text.char s.position)).le_run _)
  have hlt := ((staysInside_append rfl).1 hread).2 (.read s.position) (List.mem_singleton_self _)
  rw [h.position_eq] at hlt
  exact Nat.lt_irrefl _ hlt

theorem matches_currentChar_cons {k : UInt8 → ScannerM α} {ch : UInt8} {r : Reading β}
    (h : At text start (ch :: rest) s)
    (hk : ∀ s', s'.savedTextCursors = s.savedTextCursors → At text start (ch :: rest) s' →
      s'.position = s.position → Matches text ((k ch).run s') Q r) :
    Matches text ((currentChar text >>= k).run s) Q r := by
  have hrun : (currentChar text >>= k).run s =
      (k ch).run { s with accesses := s.accesses ++ [.read s.position] } := by
    rw [← h.char_eq]
    rfl
  rw [hrun]
  exact hk _ rfl (h.charAt h.position_lt) rfl

theorem At.skip (h : At text start rest s) {k : Nat} (hk : k ≤ rest.length) :
    At text start (rest.drop k) { s with
      position := s.position + k
      accesses := s.accesses ++ [.moveTo (s.position + k)] } := by
  have hlength := h.length
  refine { inside := ?_, position_le := ?_, drop := ?_, start := h.start }
  · rw [staysInside_append rfl]
    refine ⟨h.inside, ?_⟩
    simp only [List.mem_singleton, forall_eq, IsInside]
    omega
  · show s.position + k ≤ text.size
    omega
  · rw [← h.drop, List.drop_drop]

theorem matches_skip (h : At text start rest s) (k : Nat) :
    Matches text ((skip k).run s) (Same text start) (jump k rest) := by
  unfold jump
  split
  next hk => exact .done rfl ⟨rfl, h.skip hk⟩
  next hk =>
    refine .ranOut fun hinside => ?_
    have hlength := h.length
    have hle : s.position + k ≤ text.size :=
      ((staysInside_append rfl).1 hinside).2 (.moveTo (s.position + k)) (List.mem_singleton_self _)
    omega

theorem run_incrementPosition (hlt : s.position < text.size) :
    (incrementPosition text).run s = .ok () { s with
      position := s.position + 1
      accesses := s.accesses ++ [.moveTo (s.position + 1)] } := by
  have hnot : ¬ s.position ≥ text.size := by omega
  have hrun : (incrementPosition text).run s =
      (if s.position ≥ text.size then throwLogicError "You cannot increment more than max size."
        else skip 1).run s := rfl
  rw [hrun, if_neg hnot]
  rfl

/-- The position is moved on over a byte that was received. -/
theorem matches_incrementPosition {k : Unit → ScannerM α} {r : Reading β} {ch : UInt8}
    (h : At text start (ch :: rest) s)
    (hk : ∀ s', s'.savedTextCursors = s.savedTextCursors → At text start rest s' →
      s'.position = s.position + 1 → Matches text ((k ()).run s') Q r) :
    Matches text ((incrementPosition text >>= k).run s) Q r := by
  rw [Climb.run_bind_ok (run_incrementPosition h.position_lt)]
  refine hk _ rfl ?_ rfl
  have hskip := h.skip (k := 1) (by simp)
  exact hskip

/-- The cursor that `save` leaves. -/
def cursorOf (s : HttpScanner) : HttpScanner.SavedTextCursor := ⟨s.position, s.startPosition⟩

theorem matches_save {k : Unit → ScannerM α} {r : Reading β} (h : At text start rest s)
    (hk : ∀ s', s'.savedTextCursors = cursorOf s :: s.savedTextCursors → At text start rest s' →
      s'.position = s.position → Matches text ((k ()).run s') Q r) :
    Matches text ((save >>= k).run s) Q r := by
  let s' : HttpScanner := { s with
    savedTextCursors := cursorOf s :: s.savedTextCursors
    accesses := s.accesses ++ [] }
  have hs' : At text start rest s' := by
    refine { h with inside := ?_ }
    rw [staysInside_append rfl]
    exact ⟨h.inside, by simp⟩
  exact hk s' rfl hs' rfl

/-- The scanner goes back to where it saved the cursor. -/
theorem matches_revert {k : Unit → ScannerM α} {r : Reading β} {start' : Nat} {rest' : Bytes}
    {cursors : List HttpScanner.SavedTextCursor} {s₀ : HttpScanner} (h₀ : At text start rest s₀)
    (h : At text start' rest' s) (hsaved : s.savedTextCursors = cursorOf s₀ :: cursors)
    (hk : ∀ s', At text start rest s' → Matches text ((k ()).run s') Q r) :
    Matches text ((revert >>= k).run s) Q r := by
  let s' : HttpScanner := { s with
    position := s₀.position
    startPosition := s₀.startPosition
    savedTextCursors := cursors
    accesses := s.accesses ++ [.moveTo s₀.position] }
  have hrun : revert.run s = .ok () s' := by
    have hread : (HttpScanner.read (·.savedTextCursors)).run s = .ok s.savedTextCursors s := rfl
    unfold revert
    rw [Climb.run_bind_ok hread, hsaved]
    rfl
  have hs' : At text start rest s' := by
    refine { inside := ?_, position_le := h₀.position_le, drop := h₀.drop, start := h₀.start }
    rw [staysInside_append rfl]
    refine ⟨h.inside, ?_⟩
    simpa [IsInside] using h₀.position_le
  rw [Climb.run_bind_ok hrun]
  exact hk s' hs'

/-! ## The functions of the scanner -/

/-- What an optional character has taken from the bytes. -/
def TookOptional (text : Text) (start : Nat) (ch : UInt8) (bytes : Bytes) (found found' : Bool)
    (rest : Bytes) (s : HttpScanner) : Prop :=
  found = found' ∧ bytes = (if found' then [ch] else []) ++ rest ∧ At text start rest s

theorem matches_scanOptional {ch : UInt8} (h : At text start rest s) :
    Matches text ((scanOptional text ch).run s) (TookOptional text start ch rest)
      (readOptional ch rest) := by
  refine matches_save h fun s₁ hsaved₁ h₁ _ => ?_
  cases rest with
  | nil => exact matches_currentChar_nil h₁
  | cons current rest =>
    refine matches_currentChar_cons h₁ fun s₂ hsaved₂ h₂ _ => ?_
    by_cases heq : current = ch
    · subst heq
      simp only [readOptional, if_true]
      exact matches_incrementPosition h₂ fun s₃ _ h₃ _ => matches_pure ⟨rfl, rfl, h₃⟩
    · simp only [readOptional, if_neg heq]
      refine matches_revert h h₂ (hsaved₂.trans hsaved₁) fun s₃ h₃ => ?_
      exact matches_pure ⟨rfl, rfl, h₃⟩

/-- The scanner stands behind the token that was read. -/
def Took (text : Text) (start : Nat) (bytes : Bytes) (_ : Unit) (token rest : Bytes)
    (s : HttpScanner) : Prop :=
  bytes = token ++ rest ∧ At text start rest s

theorem matches_scanExpected {ch : UInt8} (h : At text start rest s) :
    Matches text ((scanExpected text ch).run s) (fun u _ => Took text start rest u [ch])
      (readExpected ch rest) := by
  cases rest with
  | nil => exact matches_currentChar_nil h
  | cons current rest =>
    refine matches_currentChar_cons h fun s₂ _ h₂ _ => ?_
    by_cases heq : current = ch
    · subst heq
      simp only [readExpected, if_true]
      exact .done (run_incrementPosition h₂.position_lt) ⟨rfl, h₂.skip (k := 1) (by simp)⟩
    · simp only [readExpected, if_neg heq]
      exact matches_throw h₂

/-- A jump at the end of a branch. -/
theorem matches_jump (h : At text start rest s) (k : Nat) (a : α) :
    Matches text ((skip k >>= fun _ => pure a).run s) (Same text start)
      ((jump k rest).map fun _ => a) :=
  (matches_skip h k).map fun _ _ _ _ hsame => matches_pure ⟨rfl, hsame.2⟩

theorem matches_scanMethodAfterP {ch : UInt8} (h : At text start (ch :: rest) s) :
    Matches text ((scanMethodAfterP text).run s) (Same text start) (readMethodAfterP rest) := by
  refine matches_incrementPosition h fun s₁ _ h₁ _ => ?_
  cases rest with
  | nil => exact matches_currentChar_nil h₁
  | cons ch rest =>
    refine matches_currentChar_cons h₁ fun s₂ _ h₂ _ => ?_
    simp only [readMethodAfterP]
    split
    · exact matches_jump h₂ 4 _
    split
    · exact matches_jump h₂ 3 _
    split
    · exact matches_jump h₂ 2 _
    · exact matches_pure ⟨rfl, h₂⟩

theorem matches_scanMethodName (h : At text start rest s) :
    Matches text ((scanMethodName text).run s) (Same text start) (readMethodName rest) := by
  cases rest with
  | nil => exact matches_currentChar_nil h
  | cons ch rest =>
    refine matches_currentChar_cons h fun s₁ _ h₁ _ => ?_
    simp only [readMethodName]
    split
    · exact matches_jump h₁ 7 _
    split
    · exact matches_jump h₁ 6 _
    split
    · exact matches_jump h₁ 3 _
    split
    · exact matches_jump h₁ 4 _
    split
    · exact matches_jump h₁ 7 _
    split
    · exact matches_scanMethodAfterP h₁
    split
    · exact matches_jump h₁ 5 _
    · exact matches_pure ⟨rfl, h₁⟩

theorem matches_scanMethod (h : At text start rest s) :
    Matches text ((scanMethod text).run s) (Same text start) (readMethod rest) := by
  refine (matches_scanMethodName h).bind ?_
  rintro method _ rest₁ s₁ ⟨rfl, h₁⟩
  refine matches_read ?_
  have hlength := h₁.length
  cases rest₁ with
  | nil =>
    rw [if_pos rfl, if_pos (Nat.le_of_eq h₁.position_eq.symm)]
    exact matches_throw h₁
  | cons ch rest₁ =>
    have hlt := h₁.position_lt
    rw [if_neg (List.cons_ne_nil _ _), if_neg (by omega)]
    exact matches_pure ⟨rfl, h₁⟩

/-! ### Tokens -/

theorem char_of_drop {index : Nat} {ch : UInt8} {bytes : Bytes}
    (h : text.received.drop index = ch :: bytes) :
    text.char index = ch ∧ index < text.size ∧ text.received.drop (index + 1) = bytes := by
  have hhead := congrArg List.head? h
  have htail := congrArg List.tail h
  rw [List.head?_drop] at hhead
  rw [List.tail_drop] at htail
  refine ⟨by simp [Text.char, hhead], ?_, htail⟩
  exact (List.getElem?_eq_some_iff.1 hhead).1

theorem strncpyIndices_inside {n : Nat} {index : Nat} {bytes : Bytes}
    (h : text.received.drop index = bytes) :
    (∀ i ∈ strncpyIndices text index n, i < text.size) ↔ n ≤ bytes.length ∨ 0 ∈ bytes := by
  induction n generalizing index bytes with
  | zero => simp [strncpyIndices]
  | succ n ih =>
    cases bytes with
    | nil =>
      have hle : text.size ≤ index := List.drop_eq_nil_iff.1 h
      have hmem : index ∈ strncpyIndices text index (n + 1) := by
        unfold strncpyIndices
        split <;> simp
      constructor
      · intro hall
        have hlt := hall index hmem
        omega
      · rintro (hn | hzero)
        · simp at hn
        · cases hzero
    | cons ch bytes =>
      obtain ⟨hch, hlt, hdrop⟩ := char_of_drop h
      unfold strncpyIndices
      rw [hch]
      split
      next hzero => simp [hzero, hlt]
      next hzero =>
        have hne : (0 : UInt8) ≠ ch := fun heq => hzero heq.symm
        simp [ih hdrop, hlt, hne]

theorem strncpy_eq {n : Nat} {index : Nat} {bytes : Bytes} (h : text.received.drop index = bytes)
    (hn : n ≤ bytes.length) :
    strncpy text index n = (bytes.take n).takeWhile (· ≠ 0) := by
  induction n generalizing index bytes with
  | zero => simp [strncpy]
  | succ n ih =>
    cases bytes with
    | nil => simp at hn
    | cons ch bytes =>
      obtain ⟨hch, -, hdrop⟩ := char_of_drop h
      unfold strncpy
      rw [hch, List.take_succ_cons, List.takeWhile_cons]
      split
      next hzero => simp [hzero]
      next hzero => simp [hzero, ih hdrop (by simpa using hn)]

theorem toInt_le (n : Nat) : toInt (n + 1) ≤ n + 1 := by
  unfold toInt
  omega

theorem run_getTokenValue {token : Bytes} (hstart : s.startPosition = start)
    (hposition : s.position = start + token.length) :
    (getTokenValue text).run s =
      (if toInt (token.length + 1) ≤ 0 then throwLogicError "std::bad_array_new_length"
        else do
          update (fun _ => (strncpyIndices text start (toInt (token.length + 1)).toNat).map .read) id
          return strncpy text start ((toInt (token.length + 1)).toNat - 1)).run s := by
  have hsize : (s.position : Int) - start + 1 = token.length + 1 := by omega
  rw [← hsize, ← hstart]
  rfl

theorem matches_getTokenValue {token : Bytes} (h : At text start rest s)
    (htoken : text.received.drop start = token ++ rest)
    (hposition : s.position = start + token.length) :
    Matches text ((getTokenValue text).run s) (Same text start) (readToken token rest) := by
  rw [run_getTokenValue h.start hposition]
  unfold readToken
  have hle := toInt_le token.length
  generalize toInt (token.length + 1) = size at *
  by_cases hpositive : size ≤ 0
  · rw [if_pos hpositive, if_pos hpositive]
    exact matches_throw h
  · rw [if_neg hpositive, if_neg hpositive]
    have hn : size.toNat ≤ token.length + 1 := by omega
    generalize size.toNat = n at *
    have hinside := strncpyIndices_inside (n := n) htoken
    let s' : HttpScanner :=
      { s with accesses := s.accesses ++ (strncpyIndices text start n).map .read }
    have hs' : StaysInside text s' ↔ n ≤ (token ++ rest).length ∨ 0 ∈ token ++ rest := by
      rw [staysInside_append rfl, ← hinside]
      simp only [List.mem_map, forall_exists_index, and_imp, forall_apply_eq_imp_iff₂, IsInside]
      exact and_iff_right h.inside
    split
    next hout =>
      obtain ⟨hlt, hzero, rfl⟩ := hout
      refine .ranOut ?_
      show ¬ StaysInside text s'
      rw [hs', List.append_nil]
      rintro (hle | hmem)
      · omega
      · exact hzero hmem
    next hin =>
      refine .done (s := s') rfl ⟨?_, ?_⟩
      · rw [strncpy_eq htoken (by simp; omega), List.take_append_of_le_length (by omega)]
      · refine { h with inside := hs'.2 ?_ }
        rw [List.length_append, List.mem_append]
        by_cases hlt : n ≤ token.length
        · left
          omega
        · by_cases hzero : 0 ∈ token
          · exact .inr (.inl hzero)
          · have hrest : rest ≠ [] := fun heq => hin ⟨by omega, hzero, heq⟩
            have hpos := List.length_pos_iff.2 hrest
            left
            omega

/-! ### The request line -/

/-- The digit that follows the current character. -/
def readXdigit : Bytes → Reading Unit
  | [] => .ranOut
  | x :: rest => if isXdigit x then .done () (x :: rest) else .rejected

theorem matches_scanXdigit {ch : UInt8} (h : At text start (ch :: rest) s) :
    Matches text ((scanXdigit text).run s)
      (fun _ _ rest' s' => rest' = rest ∧ rest ≠ [] ∧ At text start rest s') (readXdigit rest) := by
  refine matches_incrementPosition h fun s₁ _ h₁ _ => ?_
  cases rest with
  | nil => exact matches_currentChar_nil h₁
  | cons x rest =>
    refine matches_currentChar_cons h₁ fun s₂ _ h₂ _ => ?_
    by_cases hx : isXdigit x
    · simp only [readXdigit, if_pos hx]
      exact matches_pure ⟨rfl, List.cons_ne_nil x rest, h₂⟩
    · simp only [readXdigit, if_neg hx]
      exact matches_throw h₂

/-- The two digits of a percent escape; the second of them is still to be passed. -/
def readEscape (bytes : Bytes) : Reading Bool :=
  (readXdigit bytes).bind fun _ rest => (readXdigit rest.tail).bind fun _ rest => .done true rest

theorem matches_scanEscape {ch : UInt8} (h : At text start (ch :: rest) s) :
    Matches text ((scanXdigit text >>= fun _ => scanXdigit text >>= fun _ => pure true).run s)
      (fun taken _ rest' s' => taken = true ∧ ∃ x y r, rest = x :: y :: r ∧ rest' = y :: r ∧
        At text start (y :: r) s') (readEscape rest) := by
  refine (matches_scanXdigit h).bind ?_
  rintro _ _ rest₁ s₁ ⟨hrest₁, hne, h₁⟩
  subst rest₁
  cases rest with
  | nil => exact absurd rfl hne
  | cons x rest =>
    refine (matches_scanXdigit h₁).bind ?_
    rintro _ _ rest₂ s₂ ⟨hrest₂, hne, h₂⟩
    subst rest₂
    cases rest with
    | nil => exact absurd rfl hne
    | cons y rest => exact matches_pure ⟨rfl, x, y, rest, rfl, rfl, h₂⟩

theorem readPchars_percent (also : UInt8 → Bool) (rest : Bytes) :
    readPchars also (percent :: rest) = (readEscape rest).bind fun _ rest' =>
      (readPchars also rest'.tail).map fun token => percent :: rest.take 2 ++ token := by
  have hplain : isPlainPchar percent = false := by decide
  match rest with
  | [] => simp [readPchars, hplain, readEscape, readXdigit, Reading.bind]
  | [x] =>
    by_cases hx : isXdigit x <;>
      simp [readPchars, hplain, readEscape, readXdigit, Reading.bind, hx]
  | x :: y :: rest =>
    by_cases hx : isXdigit x <;> by_cases hy : isXdigit y <;>
      simp [readPchars, hplain, readEscape, readXdigit, Reading.bind, hx, hy]

theorem matches_scanPchars {also : UInt8 → Bool} {n : Nat} (h : At text start rest s)
    (hn : rest.length ≤ n) :
    Matches text ((currentChar text >>= scanPchars text also n).run s) (Took text start rest)
      (readPchars also rest) := by
  induction n generalizing rest s with
  | zero =>
    rw [List.length_eq_zero_iff.1 (Nat.le_zero.1 hn)] at h ⊢
    exact matches_currentChar_nil h
  | succ n ih =>
    cases rest with
    | nil => exact matches_currentChar_nil h
    | cons ch rest =>
      refine matches_currentChar_cons h fun s₁ _ h₁ _ => ?_
      have hlength : rest.length ≤ n := by simpa using hn
      -- Going round again after one more character of the token.
      have hagain : ∀ {bytes : Bytes} {c : UInt8} {s₂ : HttpScanner},
          At text start (c :: bytes) s₂ → bytes.length ≤ n → Matches text
            ((incrementPosition text >>= fun _ => currentChar text >>= scanPchars text also n).run s₂)
            (Took text start bytes) (readPchars also bytes) := by
        intro bytes c s₂ h₂ hle
        exact matches_incrementPosition h₂ fun s₃ _ h₃ _ => ih h₃ hle
      show Matches text ((read _ >>= _).run s₁) _ _
      refine matches_read ?_
      rw [if_pos h₁.position_lt]
      by_cases hpercent : ch = percent
      · subst hpercent
        have hplain : ¬ isPlainPchar percent = true := by decide
        rw [readPchars_percent]
        unfold isPchar
        rw [if_neg hplain, if_pos rfl]
        refine (matches_scanEscape h₁).bind ?_
        rintro _ _ _ s₂ ⟨rfl, x, y, r, rfl, rfl, h₂⟩
        refine (hagain h₂ (by simp at hlength; omega)).mapReading ?_
        rintro _ token rest' s' ⟨hr, hs'⟩
        exact ⟨by simp [hr], hs'⟩
      unfold readPchars isPchar
      by_cases hplain : isPlainPchar ch
      · rw [if_pos hplain, if_pos hplain]
        refine (hagain h₁ hlength).mapReading ?_
        rintro _ token rest' s' ⟨rfl, hs'⟩
        exact ⟨rfl, hs'⟩
      rw [if_neg hplain, if_neg hplain, if_neg hpercent, if_neg hpercent]
      show Matches text ((if (false || also ch) = true then
        incrementPosition text >>= fun _ => currentChar text >>= scanPchars text also n
        else pure ()).run s₁) _ _
      rw [Bool.false_or]
      by_cases halso : also ch
      · rw [if_pos halso, if_pos halso]
        refine (hagain h₁ hlength).mapReading ?_
        rintro _ token rest' s' ⟨rfl, hs'⟩
        exact ⟨rfl, hs'⟩
      · rw [if_neg halso, if_neg halso]
        exact matches_pure ⟨rfl, h₁⟩

/-- The value is that of the reading, wherever the last token started. -/
def Read {α : Type} (text : Text) (a b : α) (rest : Bytes) (s : HttpScanner) : Prop :=
  a = b ∧ ∃ start, At text start rest s

theorem matches_setTokenStartPosition {k : Unit → ScannerM α} {r : Reading β}
    (h : At text start rest s)
    (hk : ∀ s', At text s.position rest s' → s'.position = s.position →
      s'.currentHeader = s.currentHeader → Matches text ((k ()).run s') Q r) :
    Matches text ((setTokenStartPosition >>= k).run s) Q r := by
  let s' : HttpScanner := { s with startPosition := s.position, accesses := s.accesses ++ [] }
  have hs' : At text s.position rest s' := by
    refine { h with inside := ?_, start := rfl }
    rw [staysInside_append rfl]
    exact ⟨h.inside, by simp⟩
  exact hk s' hs' rfl rfl

/-- The token that was scanned since the scanner stood before `bytes`. -/
theorem matches_token {bytes token : Bytes} {s₀ : HttpScanner} (h₀ : At text start bytes s₀)
    (hstart : s₀.position = start) (h : At text start rest s) (hbytes : bytes = token ++ rest) :
    Matches text ((getTokenValue text).run s) (Same text start) (readToken token rest) := by
  have hlength₀ := h₀.length
  have hlength := h.length
  rw [hbytes, List.length_append] at hlength₀
  refine matches_getTokenValue h ?_ (by omega)
  rw [← hstart, h₀.drop, hbytes]

/-- The rest of a token that goes on with characters of a path or a query. -/
theorem matches_pcharsToken {also : UInt8 → Bool} {bytes : Bytes} {first : UInt8}
    {s₀ : HttpScanner} (h₀ : At text start bytes s₀) (hstart : s₀.position = start)
    (h : At text start rest s) (hbytes : bytes = first :: rest) :
    Matches text ((currentChar text >>= fun ch =>
        scanPchars text also text.size ch >>= fun _ => getTokenValue text).run s) (Read text)
      ((readPchars also rest).bind fun token rest => readToken (first :: token) rest) := by
  have hlength : rest.length ≤ text.size := by
    have hlength := h.length
    omega
  rw [← Climb.bind_bind_eq]
  refine (matches_scanPchars h hlength).bind ?_
  rintro _ token rest' s' ⟨hrest, h'⟩
  refine (matches_token h₀ hstart h' ?_).conseq fun _ _ _ _ hsame => ⟨hsame.1, start, hsame.2⟩
  rw [hbytes, hrest, List.cons_append]

theorem matches_scanAbsolutePath (h : At text start rest s) :
    Matches text ((scanAbsolutePath text).run s) (Read text) (readAbsolutePath rest) := by
  refine matches_setTokenStartPosition h fun s₀ h₀ hposition _ => ?_
  refine (matches_scanExpected h₀).bind ?_
  rintro _ _ rest₁ s₁ ⟨hrest₁, h₁⟩
  exact matches_pcharsToken h₀ hposition h₁ hrest₁

theorem matches_scanQuery (h : At text start rest s) :
    Matches text ((scanQuery text).run s) (Read text) (readQuery rest) := by
  refine matches_setTokenStartPosition h fun s₀ h₀ hposition _ => ?_
  refine (matches_scanOptional h₀).bind ?_
  rintro found _ rest₁ s₁ ⟨rfl, hrest₁, h₁⟩
  cases found with
  | true => exact matches_pcharsToken h₀ hposition h₁ hrest₁
  | false =>
    refine (matches_token h₀ hposition h₁ hrest₁).conseq ?_
    exact fun _ _ _ _ hsame => ⟨hsame.1, s.position, hsame.2⟩

theorem matches_scanHttpVersion (h : At text start rest s) :
    Matches text ((scanHttpVersion text).run s) (Same text start) (readHttpVersion rest) := by
  refine (matches_scanExpected h).bind ?_
  rintro _ _ rest₁ s₁ ⟨-, h₁⟩
  refine (matches_skip h₁ 7).bind ?_
  rintro _ _ rest₂ s₂ ⟨-, h₂⟩
  show Matches text ((currentChar text >>= fun _ => pure ()).run s₂) _ _
  cases hrest₂ : rest₂ with
  | nil =>
    rw [hrest₂] at h₂
    exact matches_currentChar_nil h₂
  | cons ch rest₃ =>
    rw [hrest₂] at h₂
    exact matches_currentChar_cons h₂ fun s₃ _ h₃ _ => matches_pure ⟨rfl, h₃⟩

theorem matches_parseRequestLine (h : At text start rest s) :
    Matches text ((parseRequestLine text).run s) (Read text) (readRequestLine rest) := by
  refine (matches_scanMethod h).bind ?_
  rintro method _ rest₁ s₁ ⟨rfl, h₁⟩
  refine (matches_scanExpected h₁).bind ?_
  rintro _ _ rest₂ s₂ ⟨-, h₂⟩
  refine (matches_scanAbsolutePath h₂).bind ?_
  rintro path _ rest₃ s₃ ⟨rfl, _, h₃⟩
  refine (matches_scanQuery h₃).bind ?_
  rintro query _ rest₄ s₄ ⟨rfl, _, h₄⟩
  refine (matches_scanExpected h₄).bind ?_
  rintro _ _ rest₅ s₅ ⟨-, h₅⟩
  refine (matches_scanHttpVersion h₅).bind ?_
  rintro _ _ rest₆ s₆ ⟨-, h₆⟩
  refine (matches_scanExpected h₆).bind ?_
  rintro _ _ rest₇ s₇ ⟨-, h₇⟩
  refine (matches_scanExpected h₇).map ?_
  rintro _ _ rest₈ s₈ ⟨-, h₈⟩
  exact matches_pure ⟨rfl, _, h₈⟩

/-! ### The headers -/

theorem Matches.keeps {R : HttpScanner → HttpScanner → Prop} {m : ScannerM α} {r : Reading β}
    (h : Matches text (m.run s) Q r) (hm : Climb.Keeps R m) :
    Matches text (m.run s) (fun a b rest s' => Q a b rest s' ∧ R s s') r := by
  cases h with
  | ranOut h => exact .ranOut h
  | rejected hvalue h => exact .rejected hvalue h
  | done ho h => exact .done ho ⟨h, hm _ _ _ ho⟩

theorem matches_scanHeaderName {n : Nat} (h : At text start rest s) (hn : rest.length ≤ n) :
    Matches text ((scanHeaderName text n).run s) (Took text start rest)
      (.done (rest.takeWhile isHeaderFieldPart) (rest.dropWhile isHeaderFieldPart)) := by
  induction n generalizing rest s with
  | zero =>
    rw [List.length_eq_zero_iff.1 (Nat.le_zero.1 hn)] at h ⊢
    exact matches_pure ⟨rfl, h⟩
  | succ n ih =>
    show Matches text ((read _ >>= _).run s) _ _
    refine matches_read ?_
    cases rest with
    | nil =>
      rw [if_neg (by rw [h.position_eq]; exact Nat.lt_irrefl _)]
      exact matches_pure ⟨rfl, h⟩
    | cons ch rest =>
      rw [if_pos h.position_lt]
      refine matches_currentChar_cons h fun s₁ _ h₁ _ => ?_
      by_cases hpart : isHeaderFieldPart ch
      · rw [if_pos hpart, List.takeWhile_cons_of_pos hpart, List.dropWhile_cons_of_pos hpart]
        refine matches_incrementPosition h₁ fun s₂ _ h₂ _ => ?_
        refine (ih h₂ (by simpa using hn)).mapReading (g := (ch :: ·)) ?_
        rintro _ token rest' s' ⟨hrest, hs'⟩
        exact ⟨by rw [hrest, List.cons_append], hs'⟩
      · rw [if_neg hpart, List.takeWhile_cons_of_neg hpart, List.dropWhile_cons_of_neg hpart]
        exact matches_pure ⟨rfl, h₁⟩

theorem lowerCased_eq {name : Bytes} {index : Nat}
    (h : text.received.drop index = name ++ rest) :
    ((List.range name.length).map fun i => toLower (text.char (index + i))) = name.map toLower := by
  refine List.ext_getElem (by simp) fun i hi hi' => ?_
  have hlt : i < name.length := by simpa using hi
  have hget : text.received[index + i]? = some name[i] := by
    rw [← List.getElem?_drop, h, List.getElem?_append_left hlt, List.getElem?_eq_getElem hlt]
  simp [Text.char, hget]

theorem matches_getLowerCasedValue {bytes name : Bytes} {s₀ : HttpScanner}
    (h₀ : At text start bytes s₀) (hstart : s₀.position = start) (h : At text start rest s)
    (hbytes : bytes = name ++ rest) :
    Matches text ((getLowerCasedValue text).run s) (Same text start)
      (readLowerCased name rest) := by
  have hlength₀ := h₀.length
  have hlength := h.length
  rw [hbytes, List.length_append] at hlength₀
  have hsize : s.position - start = name.length := by omega
  have hdrop : text.received.drop start = name ++ rest := by rw [← hstart, h₀.drop, hbytes]
  have hrun : (getLowerCasedValue text).run s =
      (if name.length + 1 ≥ 2 ^ 31 then throwLogicError "int overflow"
        else do
          update (fun _ => ((List.range (name.length + 1)).map (start + ·)).map .read) id
          return ((List.range (name.length + 1 - 1)).map
            fun i => toLower (text.char (start + i))).takeWhile (· ≠ 0)).run s := by
    rw [← hsize, ← h.start]
    rfl
  rw [hrun]
  unfold readLowerCased
  generalize (2 : Nat) ^ 31 = bound
  by_cases hbound : name.length + 1 ≥ bound
  · rw [if_pos hbound, if_pos hbound]
    exact matches_throw h
  rw [if_neg hbound, if_neg hbound]
  let s' : HttpScanner := { s with
    accesses := s.accesses ++ ((List.range (name.length + 1)).map (start + ·)).map .read }
  have hinside : StaysInside text s' ↔ rest ≠ [] := by
    rw [staysInside_append rfl, and_iff_right h.inside]
    simp only [List.map_map, List.mem_map, List.mem_range, forall_exists_index, and_imp,
      forall_apply_eq_imp_iff₂, Function.comp_apply, IsInside]
    rw [← List.length_pos_iff]
    constructor
    · intro hall
      have hlast := hall name.length (Nat.lt_succ_self _)
      omega
    · intro hpos i hi
      omega
  by_cases hrest : rest = []
  · rw [if_pos hrest]
    exact .ranOut fun hstays => hinside.1 hstays hrest
  · rw [if_neg hrest]
    refine .done (s := s') rfl ⟨?_, { h with inside := hinside.2 hrest }⟩
    rw [Nat.add_sub_cancel, lowerCased_eq hdrop]

/-- The cursors that were saved are the same. -/
def SameCursors (s s' : HttpScanner) : Prop := s'.savedTextCursors = s.savedTextCursors

/-- The value of the last header is the same. -/
def SameHeader (s s' : HttpScanner) : Prop := s'.currentHeader = s.currentHeader

instance : IsPreorder HttpScanner SameCursors where
  refl _ := rfl
  trans _ _ _ h h' := Eq.trans h' h

instance : IsPreorder HttpScanner SameHeader where
  refl _ := rfl
  trans _ _ _ h h' := Eq.trans h' h

theorem isObsText_eq_false (ch : UInt8) : isObsText ch = false := by
  have hlt := Int8.toInt_lt ch.toInt8
  have hnot : ¬ 0x80 ≤ ch.toInt8.toInt := by omega
  simp [isObsText, hnot]

/-- The blanks up to the next character. -/
def readBlanks (bytes : Bytes) : Reading Unit :=
  if bytes.dropWhile isBlank = [] then .ranOut else .done () (bytes.dropWhile isBlank)

theorem matches_scanBlanks {n : Nat} (h : At text start rest s) (hn : rest.length ≤ n) :
    Matches text ((currentChar text >>= scanBlanks text n).run s)
      (fun _ _ rest' s' => At text start rest' s' ∧ SameCursors s s') (readBlanks rest) := by
  induction n generalizing rest s with
  | zero =>
    rw [List.length_eq_zero_iff.1 (Nat.le_zero.1 hn)] at h ⊢
    exact matches_currentChar_nil h
  | succ n ih =>
    cases rest with
    | nil => exact matches_currentChar_nil h
    | cons ch rest =>
      refine matches_currentChar_cons h fun s₁ hsaved₁ h₁ _ => ?_
      show Matches text ((read _ >>= _).run s₁) _ _
      refine matches_read ?_
      unfold readBlanks
      by_cases hblank : ch = space ∨ ch = horizontalTab
      · have hch : isBlank ch = true := by simpa [isBlank] using hblank
        rw [if_pos ⟨h₁.position_lt, hblank⟩, List.dropWhile_cons_of_pos hch]
        refine matches_incrementPosition h₁ fun s₂ hsaved₂ h₂ _ => ?_
        refine (ih h₂ (by simpa using hn)).conseq ?_
        rintro _ _ rest' s' ⟨h', hsaved'⟩
        exact ⟨h', hsaved'.trans (hsaved₂.trans hsaved₁)⟩
      · have hch : ¬ isBlank ch = true := by simpa [isBlank] using hblank
        rw [if_neg (fun hand => hblank hand.2), List.dropWhile_cons_of_neg hch,
          if_neg (List.cons_ne_nil _ _)]
        exact matches_pure ⟨h₁, hsaved₁⟩

theorem matches_scanFieldContent (h : At text start rest s) :
    Matches text ((scanFieldContent text).run s) (Same text start) (readContent rest) := by
  refine matches_save h fun s₁ hsaved₁ h₁ _ => ?_
  cases rest with
  | nil => exact matches_currentChar_nil h₁
  | cons ch rest =>
    refine matches_currentChar_cons h₁ fun s₂ hsaved₂ h₂ _ => ?_
    rw [isObsText_eq_false, Bool.or_false]
    by_cases hvchar : isVchar ch
    swap
    · simp only [readContent, if_neg hvchar]
      refine matches_revert h h₂ (hsaved₂.trans hsaved₁) fun s₃ h₃ => ?_
      exact matches_pure ⟨rfl, h₃⟩
    rw [if_pos hvchar]
    refine matches_incrementPosition h₂ fun s₃ hsaved₃ h₃ _ => ?_
    cases rest with
    | nil =>
      simp only [readContent, if_pos hvchar]
      exact matches_currentChar_nil h₃
    | cons next rest =>
      refine matches_currentChar_cons h₃ fun s₄ hsaved₄ h₄ _ => ?_
      by_cases hblank : next = space ∨ next = horizontalTab
      swap
      · have hnext : ¬ isBlank next = true := by simpa [isBlank] using hblank
        simp only [readContent, if_pos hvchar, if_neg hnext]
        rw [if_neg hblank]
        exact matches_pure ⟨rfl, h₄⟩
      have hnext : isBlank next = true := by simpa [isBlank] using hblank
      rw [if_pos hblank]
      refine matches_incrementPosition h₄ fun s₅ hsaved₅ h₅ _ => ?_
      have hlength : rest.length ≤ text.size := by
        have hlength := h₅.length
        omega
      rw [← Climb.bind_bind_eq]
      have hreading : readContent (ch :: next :: rest) = (readBlanks rest).bind fun _ rest' =>
          match rest' with
          | [] => .ranOut
          | second :: rest'' =>
            if isVchar second then .done true rest'' else .done false (ch :: next :: rest) := by
        simp only [readContent, if_pos hvchar, if_pos hnext, List.dropWhile_cons_of_pos hnext,
          readBlanks]
        cases hdrop : rest.dropWhile isBlank with
        | nil => rfl
        | cons second rest'' => rfl
      rw [hreading]
      refine (matches_scanBlanks h₅ hlength).bind ?_
      rintro _ _ rest' s₆ ⟨h₆, hsaved₆⟩
      cases rest' with
      | nil => exact matches_currentChar_nil h₆
      | cons second rest'' =>
        refine matches_currentChar_cons h₆ fun s₇ hsaved₇ h₇ _ => ?_
        by_cases hsecond : isVchar second
        · simp only [if_pos hsecond]
          exact matches_incrementPosition h₇ fun s₈ _ h₈ _ => matches_pure ⟨rfl, h₈⟩
        · simp only [if_neg hsecond]
          have hsaved : s₇.savedTextCursors = cursorOf s :: s.savedTextCursors := by
            rw [hsaved₇, hsaved₆, hsaved₅, hsaved₄, hsaved₃, hsaved₂, hsaved₁]
          refine matches_revert h h₇ hsaved fun s₈ h₈ => ?_
          exact matches_pure ⟨rfl, h₈⟩

theorem readContent_suffix {bytes rest' : Bytes} {content : Bool}
    (h : readContent bytes = .done content rest') :
    if content then rest' <:+ bytes ∧ rest'.length < bytes.length else rest' = bytes := by
  cases bytes with
  | nil => cases h
  | cons ch rest =>
    simp only [readContent] at h
    split at h
    swap
    · cases h
      rfl
    split at h
    · cases h
    next next rest =>
    split at h
    swap
    · cases h
      simp
    split at h
    · cases h
    next second rest₂ hdrop =>
    have hsuffix : second :: rest₂ <:+ next :: rest := hdrop ▸ List.dropWhile_suffix isBlank
    split at h
    · cases h
      have hlength := hsuffix.length_le
      simp only [if_true, List.length_cons] at hlength ⊢
      refine ⟨?_, by omega⟩
      exact (List.suffix_cons second _).trans (hsuffix.trans (List.suffix_cons ch _))
    · cases h
      rfl

theorem readValue_suffix {n : Nat} {bytes rest' : Bytes} {u : Unit}
    (h : readValue n bytes = .done u rest') : rest' <:+ bytes := by
  induction n generalizing bytes with
  | zero =>
    cases h
    exact List.suffix_rfl
  | succ n ih =>
    simp only [readValue] at h
    split at h
    next hnil =>
      cases h
      exact List.nil_suffix
    next =>
      obtain ⟨content, rest₁, hcontent, hrest⟩ := Reading.bind_eq_done.1 h
      have hsuffix := readContent_suffix hcontent
      cases content with
      | true =>
        simp only [if_true] at hsuffix hrest
        exact (ih hrest).trans hsuffix.1
      | false =>
        simp only [Bool.false_eq_true, if_false] at hsuffix hrest
        cases hrest
        rw [hsuffix]

theorem matches_scanHeaderValue {n m : Nat} (h : At text start rest s) (hn : rest.length ≤ n)
    (hm : rest.length ≤ m) :
    Matches text ((scanHeaderValue text n).run s) (Same text start) (readValue m rest) := by
  induction n generalizing rest s m with
  | zero =>
    rw [List.length_eq_zero_iff.1 (Nat.le_zero.1 hn)] at h ⊢
    cases m <;> exact matches_pure ⟨rfl, h⟩
  | succ n ih =>
    show Matches text ((read _ >>= _).run s) _ _
    refine matches_read ?_
    by_cases hnil : rest = []
    · subst hnil
      rw [if_neg (by rw [h.position_eq]; exact Nat.lt_irrefl _)]
      cases m <;> exact matches_pure ⟨rfl, h⟩
    · have hpos := List.length_pos_iff.2 hnil
      have hlength := h.length
      obtain ⟨m, rfl⟩ : ∃ m', m = m' + 1 := ⟨m - 1, by omega⟩
      rw [if_pos (by omega)]
      unfold readValue
      rw [if_neg hnil]
      refine (matches_scanFieldContent h).reading.bind ?_
      rintro content _ rest₁ s₁ ⟨⟨rfl, h₁⟩, hreading⟩
      have hsuffix := readContent_suffix hreading
      cases content with
      | true =>
        simp only [if_true] at hsuffix ⊢
        exact ih h₁ (by omega) (by omega)
      | false =>
        simp only [Bool.false_eq_true, if_false] at hsuffix ⊢
        subst hsuffix
        obtain ⟨ch, rest₂, rfl⟩ := List.exists_cons_of_ne_nil hnil
        refine matches_currentChar_cons h₁ fun s₂ _ h₂ _ => ?_
        rw [isObsText_eq_false]
        exact matches_pure ⟨rfl, h₂⟩

theorem keeps_currentChar {R : HttpScanner → HttpScanner → Prop} [IsPreorder HttpScanner R]
    (hR : ∀ s accesses, R s { s with accesses }) : Climb.Keeps R (currentChar text) := by
  refine Climb.keeps_bind (Climb.keeps_bind Climb.keeps_get fun _ => Climb.keeps_pure) fun _ => ?_
  refine Climb.keeps_bind (Climb.keeps_step fun s => hR s _) fun _ => ?_
  exact Climb.keeps_pure

theorem keeps_incrementPosition : Climb.Keeps SameHeader (incrementPosition text) := by
  refine Climb.keeps_bind (Climb.keeps_bind Climb.keeps_get fun _ => Climb.keeps_pure) fun _ => ?_
  split
  · exact Climb.keeps_stop
  · exact Climb.keeps_step fun _ => rfl

theorem keeps_scanExpected (ch : UInt8) : Climb.Keeps SameHeader (scanExpected text ch) := by
  refine Climb.keeps_bind (keeps_currentChar fun _ _ => rfl) fun current => ?_
  split
  · exact keeps_incrementPosition
  · exact Climb.keeps_stop

theorem keeps_revert : Climb.Keeps SameHeader revert := by
  refine Climb.keeps_bind (Climb.keeps_bind Climb.keeps_get fun _ => Climb.keeps_pure) fun cursors => ?_
  split
  · exact Climb.keeps_stop
  · exact Climb.keeps_step fun _ => rfl

theorem keeps_scanOptional (ch : UInt8) : Climb.Keeps SameHeader (scanOptional text ch) := by
  refine Climb.keeps_bind (Climb.keeps_step fun _ => rfl) fun _ => ?_
  refine Climb.keeps_bind (keeps_currentChar fun _ _ => rfl) fun current => ?_
  split
  · exact Climb.keeps_bind keeps_incrementPosition fun _ => Climb.keeps_pure
  · exact Climb.keeps_bind keeps_revert fun _ => Climb.keeps_pure

/-- The value of the header is the current one afterwards. -/
theorem matches_scanHeaderRest (h : At text start rest s) :
    Matches text ((scanHeaderRest text).run s)
      (fun _ value rest' s' => s'.currentHeader = value ∧ ∃ start', At text start' rest' s')
      (readHeaderRest rest) := by
  refine (matches_scanExpected h).bind ?_
  rintro _ _ rest₁ s₁ ⟨-, h₁⟩
  refine (matches_scanOptional h₁).bind ?_
  rintro _ _ rest₂ s₂ ⟨-, -, h₂⟩
  refine matches_setTokenStartPosition h₂ fun s₃ h₃ hposition _ => ?_
  have hlength : rest₂.length ≤ text.size := by
    have hlength := h₃.length
    omega
  refine (matches_scanHeaderValue h₃ hlength (Nat.le_refl _)).reading.bind ?_
  rintro _ _ rest₄ s₄ ⟨⟨-, h₄⟩, hreading⟩
  have hbytes : rest₂ = rest₂.take (rest₂.length - rest₄.length) ++ rest₄ := by
    obtain ⟨token, rfl⟩ := readValue_suffix hreading
    simp
  refine (matches_token h₃ hposition h₄ hbytes).bind ?_
  rintro value _ rest₅ s₅ ⟨rfl, h₅⟩
  let s₆ : HttpScanner := { s₅ with currentHeader := value, accesses := s₅.accesses ++ [] }
  have h₆ : At text s₂.position rest₅ s₆ := by
    refine { h₅ with inside := ?_ }
    rw [staysInside_append rfl]
    exact ⟨h₅.inside, by simp⟩
  show Matches text ((scanOptional text space >>= fun _ => scanExpected text carriageReturn >>=
    fun _ => scanExpected text newLine).run s₆) _ _
  refine ((matches_scanOptional h₆).keeps (keeps_scanOptional space)).bind ?_
  rintro _ _ rest₇ s₇ ⟨⟨-, -, h₇⟩, hheader₇⟩
  refine ((matches_scanExpected h₇).keeps (keeps_scanExpected carriageReturn)).bind ?_
  rintro _ _ rest₈ s₈ ⟨⟨-, h₈⟩, hheader₈⟩
  refine ((matches_scanExpected h₈).keeps (keeps_scanExpected newLine)).mapReading ?_
  rintro _ _ rest₉ s₉ ⟨⟨-, h₉⟩, hheader₉⟩
  exact ⟨hheader₉.trans (hheader₈.trans hheader₇), _, h₉⟩

theorem getHeader_ne_end (name : Bytes) : getHeader name ≠ .end_ := by
  have hall : ∀ entry ∈ stringToToken, entry.2 ≠ HttpHeader.end_ := by decide
  unfold getHeader
  split
  next entry hentry => exact hall entry (List.mem_of_find?_eq_some hentry)
  next => decide

/-- The header that was scanned, with its value in the scanner, or the end of the headers. -/
def IsHeader (header : HttpHeader) (s : HttpScanner) : Option (HttpHeader × Bytes) → Prop
  | none => header = .end_
  | some (header', value) => header = header' ∧ header ≠ .end_ ∧ s.currentHeader = value

theorem matches_scanHeader (h : At text start rest s) :
    Matches text ((scanHeader text).run s)
      (fun header result rest' s' => IsHeader header s' result ∧ ∃ start', At text start' rest' s')
      (readHeader rest) := by
  refine matches_setTokenStartPosition h fun s₀ h₀ hposition _ => ?_
  cases rest with
  | nil => exact matches_currentChar_nil h₀
  | cons ch rest =>
    refine matches_currentChar_cons h₀ fun s₁ _ h₁ hposition₁ => ?_
    by_cases hstart : isHeaderFieldStart ch
    · simp only [readHeader, if_pos hstart]
      have hlength : (ch :: rest).length ≤ text.size := by
        have hlength := h₁.length
        omega
      refine (matches_scanHeaderName h₁ hlength).bind (g := fun name rest' =>
        (readLowerCased name rest').bind fun lower rest' =>
          (readHeaderRest rest').map fun value => some (getHeader lower, value)) ?_
      rintro _ name rest₂ s₂ ⟨hbytes, h₂⟩
      refine (matches_getLowerCasedValue h₀ hposition h₂ hbytes).bind ?_
      rintro lower _ rest₃ s₃ ⟨rfl, h₃⟩
      refine (matches_scanHeaderRest h₃).map ?_
      rintro _ value rest₄ s₄ ⟨hheader, hs₄⟩
      exact matches_pure ⟨⟨rfl, getHeader_ne_end lower, hheader⟩, hs₄⟩
    · have hreading : readHeader (ch :: rest) =
          (readOptional carriageReturn (ch :: rest)).bind fun found rest' =>
            if found then (readExpected newLine rest').map fun _ => none else .rejected := by
        by_cases hch : ch = carriageReturn
        · simp only [readHeader, if_neg hstart, if_pos hch, readOptional, Reading.bind, if_true]
        · simp only [readHeader, if_neg hstart, if_neg hch, readOptional, Reading.bind,
            Bool.false_eq_true, if_false]
      rw [if_neg hstart, hreading]
      refine (matches_scanOptional h₁).bind ?_
      rintro found _ rest₂ s₂ ⟨rfl, -, h₂⟩
      cases found with
      | true =>
        refine (matches_scanExpected h₂).map ?_
        rintro _ _ rest₃ s₃ ⟨-, h₃⟩
        exact matches_pure ⟨rfl, _, h₃⟩
      | false => exact matches_throw h₂

theorem matches_parseHeaders {n : Nat} {headers : Headers} (h : At text start rest s) :
    Matches text ((parseHeaders text n headers).run s) (Read text)
      (readHeaders n headers rest) := by
  induction n generalizing headers start rest s with
  | zero => exact matches_throw h
  | succ n ih =>
    refine (matches_scanHeader h).bind ?_
    rintro header result rest₁ s₁ ⟨hresult, start₁, h₁⟩
    cases result with
    | none =>
      cases hresult
      exact matches_pure ⟨rfl, start₁, h₁⟩
    | some entry =>
      obtain ⟨header', value⟩ := entry
      obtain ⟨rfl, hne, hvalue⟩ := hresult
      rw [if_neg hne]
      refine matches_read ?_
      rw [hvalue]
      exact ih h₁

/-! ### The body -/

theorem matches_scanBodyChars {n : Nat} (h : At text start rest s) :
    Matches text ((scanBodyChars text n).run s) (Took text start rest)
      (.done (rest.take n) (rest.drop n)) := by
  induction n generalizing rest s with
  | zero => exact matches_pure ⟨rfl, h⟩
  | succ n ih =>
    show Matches text ((read _ >>= _).run s) _ _
    refine matches_read ?_
    cases rest with
    | nil =>
      rw [if_neg (by rw [h.position_eq]; exact Nat.lt_irrefl _)]
      exact matches_pure ⟨rfl, h⟩
    | cons ch rest =>
      rw [if_pos h.position_lt]
      refine matches_incrementPosition h fun s₁ _ h₁ _ => ?_
      refine (ih h₁).mapReading (g := (ch :: ·)) ?_
      rintro _ token rest' s' ⟨hrest, hs'⟩
      exact ⟨by rw [hrest, List.cons_append], hs'⟩

theorem matches_scanBody (length : Int) (h : At text start rest s) :
    Matches text ((scanBody text length).run s) (Read text)
      (readToken (rest.take (length % 2 ^ 32).toNat) (rest.drop (length % 2 ^ 32).toNat)) := by
  unfold scanBody
  generalize (length % 2 ^ 32).toNat = n
  refine matches_setTokenStartPosition h fun s₀ h₀ hposition _ => ?_
  rw [← Reading.done_bind _ _ readToken]
  refine (matches_scanBodyChars h₀).bind ?_
  rintro _ token rest₁ s₁ ⟨hbytes, h₁⟩
  refine (matches_token h₀ hposition h₁ hbytes).conseq ?_
  exact fun _ _ _ _ hsame => ⟨hsame.1, _, hsame.2⟩

theorem matches_parseBody (method : HttpMethod) (headers : Headers) (h : At text start rest s) :
    Matches text ((parseBody text method headers).run s) (Read text)
      (readBody method headers rest) := by
  unfold parseBody readBody
  by_cases hget : method = .get
  · rw [if_pos hget, if_pos hget]
    exact matches_pure ⟨rfl, _, h⟩
  · rw [if_neg hget, if_neg hget]
    cases headers.lookup .contentLength with
    | none => exact matches_pure ⟨rfl, _, h⟩
    | some value =>
      cases value with
      | none => exact matches_pure ⟨rfl, _, h⟩
      | some value =>
        refine (matches_scanBody (atoll value) h).map ?_
        rintro body _ rest₁ s₁ ⟨rfl, start₁, h₁⟩
        exact matches_pure ⟨rfl, start₁, h₁⟩

/-- **The scanner does what the reading says.** -/
theorem matches_parse (text : Text) :
    Matches text ((parse text).run {}) (fun request request' rest s =>
      request = some request' ∧ ∃ start, At text start rest s) (readRequest text.received) := by
  have h : At text 0 text.received {} :=
    { inside := fun _ hmem => absurd hmem List.not_mem_nil
      position_le := Nat.zero_le _
      drop := rfl
      start := rfl }
  refine (matches_parseRequestLine h).bind ?_
  rintro line _ rest₁ s₁ ⟨rfl, start₁, h₁⟩
  refine (matches_parseHeaders h₁).bind ?_
  rintro headers _ rest₂ s₂ ⟨rfl, start₂, h₂⟩
  refine (matches_parseBody line.method headers h₂).map ?_
  rintro ⟨headers', body⟩ _ rest₃ s₃ ⟨rfl, start₃, h₃⟩
  exact matches_pure ⟨rfl, start₃, h₃⟩

end

/-! ## The bounds of the text -/

/-- The reading of the bytes ends before they do. -/
def Suffices (bytes : Bytes) : Prop := readRequest bytes ≠ .ranOut

instance (bytes : Bytes) : Decidable (Suffices bytes) :=
  inferInstanceAs (Decidable (readRequest bytes ≠ .ranOut))

theorem suffices_of_staysInside {text : Text}
    (h : StaysInside text ((parse text).run {}).state) : Suffices text.received := by
  intro hran
  have hmatches := matches_parse text
  rw [hran] at hmatches
  cases hmatches with
  | ranOut hnot => exact hnot h

theorem staysInside_of_suffices {text : Text} (h : Suffices text.received) :
    StaysInside text ((parse text).run {}).state := by
  have hmatches := matches_parse text
  unfold Suffices at h
  generalize readRequest text.received = r at hmatches h
  cases hmatches with
  | ranOut => exact absurd rfl h
  | rejected _ hinside => exact hinside
  | done ho hs =>
    obtain ⟨-, start, hat⟩ := hs
    rw [ho]
    exact hat.inside

/-- **`Parse` stays inside the received bytes if and only if the reading of them does not run out**,
whatever lies behind them. -/
theorem staysInside_iff_suffices (text : Text) :
    StaysInside text ((parse text).run {}).state ↔ Suffices text.received :=
  ⟨suffices_of_staysInside, staysInside_of_suffices⟩

/-- A path that ends with the text. -/
def truncated : Text := ⟨HttpServer.bytesOf "GET /", fun _ => 0⟩

/-- A body that ends with the text. -/
def complete : Text :=
  ⟨HttpServer.bytesOf "PUT / HTTP/1.1\r\nContent-Length: 1\r\n\r\na", fun _ => 0⟩

theorem not_staysInside_of_truncated :
    ¬ StaysInside truncated ((parse truncated).run {}).state ∧
      ¬ StaysInside complete ((parse complete).run {}).state := by
  constructor
  · exact fun h => absurd (suffices_of_staysInside h) (by decide +kernel)
  · exact fun h => absurd (suffices_of_staysInside h) (by decide +kernel)

end HttpReading

end Flashpoint
