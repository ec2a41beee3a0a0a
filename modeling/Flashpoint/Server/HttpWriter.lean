import Mathlib.Data.List.ReduceOption
import Flashpoint.Server.HttpScanner

/-!
# The HTTP writer

`HttpWriter` without SSL over a stream of `libuv`. The writer has one buffer of 4096 bytes; a flush
hands it to `uv_write` and the writer goes on filling it from the start. `libuv` completes the
requests in order, and it reads a byte of the buffer that a request points to at any time before the
request is complete.

A run interleaves the loop turns of `Write`, up to the flush in `End`, with the reads and completions
of `libuv` in every way (`Event`). What is sent is what was written if and only if bytes that share a
place in the buffer are equal (`transmits_iff`).
-/

namespace Flashpoint

/-- A C string: its bytes, without a zero. -/
abbrev CString := { bytes : Bytes // 0 ∉ bytes }

def CString.ofAscii (text : String) (h : 0 ∉ HttpServer.bytesOf text) : CString :=
  ⟨HttpServer.bytesOf text, h⟩

namespace HttpWriter

/-- `buffer_size_` -/
def bufferSize : Nat := 4096

/-- What the writer does step by step: a turn of the loop of `Write`, or `End`. -/
inductive Action where
  | put (ch : UInt8)
  | finish
deriving DecidableEq, Repr

/-- A request that was passed to `uv_write`: for each byte, what was read of it. -/
abbrev UvWrite := List (Option UInt8)

/-- The writer, what it has left to do, and the stream: the requests that are not complete, in the
order of the calls, and the bytes that were sent. -/
structure State where
  writeBuffer : Bytes
  position : Nat := 0
  isEnd : Bool := false
  actions : List Action
  requests : List UvWrite := []
  sent : Bytes := []
deriving DecidableEq, Repr

/-! ## The calls -/

def write (text : CString) : List Action := text.1.map .put

def crlf : CString := .ofAscii "\r\n" (by decide)

/-- `WriteLine` with one text or more, or with none. -/
def writeLine (texts : List CString) : List Action := texts.flatMap write ++ write crlf

def writeRequest (method : HttpMethod) (path : CString) : List Action :=
  writeMethod method ++ write path ++ write (.ofAscii " HTTP/1.1\r\n" (by decide))
where
  writeMethod : HttpMethod → List Action
    | .get => write (.ofAscii "GET " (by decide))
    | .post => write (.ofAscii "POST " (by decide))
    | .patch => write (.ofAscii "PATCH " (by decide))
    | .head => write (.ofAscii "HEAD " (by decide))
    | _ => []

inductive Call where
  /-- `Write` with one text or more. -/
  | write (texts : List CString)
  | writeLine (texts : List CString)
  | writeRequest (method : HttpMethod) (path : CString)

def Call.actions : Call → List Action
  | .write texts => texts.flatMap HttpWriter.write
  | .writeLine texts => HttpWriter.writeLine texts
  | .writeRequest method path => HttpWriter.writeRequest method path

/-- The calls one after the other, and then `End`. -/
def actionsOf (calls : List Call) : List Action := calls.flatMap Call.actions ++ [.finish]

/-! ## The writer and the stream -/

/-- `FlushBuffer` with `WriteToSocket`: the request points to the buffer, nothing is copied. -/
def flushBuffer (s : State) : State :=
  if s.position = 0 then s
  else { s with requests := s.requests ++ [List.replicate s.position none], position := 0 }

/-- The writer goes on. A turn of the loop that finds the buffer full flushes it first. -/
def act (s : State) : Option State :=
  match s.actions with
  | [] => none
  | .put ch :: actions =>
    if s.position = bufferSize then some (flushBuffer s)
    else some { s with
      writeBuffer := s.writeBuffer.set s.position ch
      position := s.position + 1
      actions }
  | .finish :: actions => some { flushBuffer s with isEnd := true, actions }

/-- `libuv` reads the byte `i` of the buffer for the request `r`. -/
def readByte (s : State) (r i : Nat) : Option State :=
  match s.requests[r]? with
  | none => none
  | some request =>
    if request[i]? = some none then
      some { s with requests := s.requests.set r (request.set i s.writeBuffer[i]?) }
    else none

/-- The first request is complete: its bytes were read and are sent. -/
def complete (s : State) : Option State :=
  match s.requests with
  | [] => none
  | request :: requests =>
    if request.all Option.isSome then
      some { s with requests, sent := s.sent ++ request.reduceOption }
    else none

inductive Event where
  | act
  | readByte (r i : Nat)
  | complete
deriving DecidableEq, Repr

def step (s : State) : Event → Option State
  | .act => act s
  | .readByte r i => readByte s r i
  | .complete => complete s

def run : State → List Event → Option State
  | s, [] => some s
  | s, event :: events => (step s event).bind (run · events)

/-- The writer is done and `libuv` is too. -/
def State.Finished (s : State) : Prop := s.actions = [] ∧ s.requests = []

/-- A new writer, with whatever `new char[buffer_size_]` holds. -/
def start (memory : Bytes) (calls : List Call) : State where
  writeBuffer := memory
  actions := actionsOf calls

/-! ## What has to be sent -/

def Call.written : Call → Bytes
  | .write texts => texts.flatMap (·.1)
  | .writeLine texts => texts.flatMap (·.1) ++ HttpServer.bytesOf "\r\n"
  | .writeRequest method path =>
    methodText method ++ path.1 ++ HttpServer.bytesOf " HTTP/1.1\r\n"
where
  methodText : HttpMethod → Bytes
    | .get => HttpServer.bytesOf "GET "
    | .post => HttpServer.bytesOf "POST "
    | .patch => HttpServer.bytesOf "PATCH "
    | .head => HttpServer.bytesOf "HEAD "
    | _ => []

/-- The texts of the calls. -/
def written (calls : List Call) : Bytes := calls.flatMap Call.written

/-- Every run sends the written texts: what is sent is always the start of them, and all of them when
the run is finished. -/
def Transmits (calls : List Call) : Prop :=
  ∀ (memory : Bytes) (events : List Event) (s : State), memory.length = bufferSize →
    run (start memory calls) events = some s →
    s.sent <+: written calls ∧ (s.Finished → s.sent = written calls)

/-- Bytes that are written to one place of the buffer are equal. -/
def Repeats (bytes : Bytes) : Prop :=
  ∀ k, k + bufferSize < bytes.length → bytes[k]? = bytes[k + bufferSize]?

theorem Repeats.mod_eq {bytes : Bytes} (h : Repeats bytes) {k m : Nat} (hm : m < bytes.length)
    (hk : k ≤ m) (hmod : k % bufferSize = m % bufferSize) : bytes[k]? = bytes[m]? := by
  -- The distance of the two places is a number of buffers.
  obtain ⟨n, rfl⟩ : ∃ n, m = k + n * bufferSize := by
    refine ⟨(m - k) / bufferSize, ?_⟩
    unfold bufferSize at *
    omega
  clear hmod hk
  induction n with
  | zero => simp
  | succ n ih =>
    have hnext : k + (n + 1) * bufferSize = k + n * bufferSize + bufferSize := by
      rw [Nat.succ_mul]
      omega
    rw [hnext] at hm ⊢
    rw [← h _ hm]
    exact ih (by omega)

theorem actionsOf_eq (calls : List Call) :
    actionsOf calls = (written calls).map .put ++ [.finish] := by
  have hcall : ∀ call : Call, call.actions = call.written.map .put := by
    intro call
    have htexts : ∀ texts : List CString,
        texts.flatMap write = (texts.flatMap (·.1)).map .put := by
      intro texts
      rw [List.map_flatMap]
      rfl
    cases call with
    | write texts => exact htexts texts
    | writeLine texts =>
      simp only [Call.actions, writeLine, Call.written, List.map_append, htexts]
      rfl
    | writeRequest method path =>
      simp only [Call.actions, writeRequest, Call.written, List.map_append]
      cases method <;> rfl
  rw [actionsOf, written, List.map_flatMap]
  congr 1
  exact List.flatMap_congr fun call _ => hcall call

/-! ## Where the requests lie in the written bytes -/

/-- The requests lie one after the other from one place of the written bytes to another, each from
the start of the buffer. -/
def Spans : Nat → List UvWrite → Nat → Prop
  | o, [], e => o = e
  | o, request :: requests, e =>
    o % bufferSize = 0 ∧ request.length ≤ bufferSize ∧ Spans (o + request.length) requests e

/-- What was read for the requests is what was written. -/
def Slots (bytes : Bytes) : Nat → List UvWrite → Prop
  | _, [] => True
  | o, request :: requests =>
    (∀ i b, request[i]? = some (some b) → bytes[o + i]? = some b) ∧
      Slots bytes (o + request.length) requests

theorem Spans.le {requests : List UvWrite} {o e : Nat} (h : Spans o requests e) : o ≤ e := by
  induction requests generalizing o with
  | nil => exact Nat.le_of_eq h
  | cons first requests ih => exact Nat.le_trans (Nat.le_add_right o _) (ih h.2.2)

theorem Spans.append {requests : List UvWrite} {o e : Nat} (h : Spans o requests e)
    {request : UvWrite} (he : e % bufferSize = 0) (hlength : request.length ≤ bufferSize) :
    Spans o (requests ++ [request]) (e + request.length) := by
  induction requests generalizing o with
  | nil =>
    cases h
    exact ⟨he, hlength, rfl⟩
  | cons first requests ih => exact ⟨h.1, h.2.1, ih h.2.2⟩

theorem Slots.append {bytes : Bytes} {requests : List UvWrite} {o : Nat}
    (h : Slots bytes o requests) (n : Nat) :
    Slots bytes o (requests ++ [List.replicate n none]) := by
  induction requests generalizing o with
  | nil =>
    refine ⟨?_, trivial⟩
    intro i b hi
    rw [List.getElem?_replicate] at hi
    split at hi <;> cases hi
  | cons first requests ih => exact ⟨h.1, ih h.2⟩

theorem Spans.set {requests : List UvWrite} {o e : Nat} (h : Spans o requests e) {r : Nat}
    {request request' : UvWrite} (hr : requests[r]? = some request)
    (hlength : request'.length = request.length) : Spans o (requests.set r request') e := by
  induction requests generalizing o r with
  | nil => exact h
  | cons first requests ih =>
    cases r with
    | zero =>
      cases hr
      refine ⟨h.1, ?_, ?_⟩
      · rw [hlength]
        exact h.2.1
      · rw [hlength]
        exact h.2.2
    | succ r => exact ⟨h.1, h.2.1, ih h.2.2 hr⟩

/-- A byte that is read from the buffer is the one that was written, as long as the buffer holds
what was written. -/
theorem Slots.set {bytes buffer : Bytes} {requests : List UvWrite} {o e : Nat}
    (h : Slots bytes o requests) (hspans : Spans o requests e)
    (hbuffer : ∀ k < e, buffer[k % bufferSize]? = bytes[k]?) {r i : Nat} {request : UvWrite}
    (hr : requests[r]? = some request) (hi : i < request.length) :
    Slots bytes o (requests.set r (request.set i buffer[i]?)) := by
  induction requests generalizing o r with
  | nil => exact h
  | cons first requests ih =>
    cases r with
    | succ r => exact ⟨h.1, ih h.2 hspans.2.2 hr⟩
    | zero =>
      cases hr
      obtain ⟨hmod, hlength, hrest⟩ := hspans
      have hle : o + request.length ≤ e := hrest.le
      refine ⟨?_, by rw [List.length_set]; exact h.2⟩
      intro j b hj
      rw [List.getElem?_set] at hj
      split at hj
      next hij =>
        have hplace : (o + j) % bufferSize = i := by
          rw [← hij, Nat.add_mod, hmod, Nat.zero_add, Nat.mod_mod]
          exact Nat.mod_eq_of_lt (by omega)
        rw [← hbuffer (o + j) (by omega), hplace]
        exact Option.some.inj hj
      next => exact h.1 j b hj

/-! ## What a step keeps -/

/-- The state after `m` of the bytes were stored. -/
structure Layout (bytes : Bytes) (s : State) (m : Nat) : Prop where
  buffer : s.writeBuffer.length = bufferSize
  position_le : s.position ≤ bufferSize
  position_le_stored : s.position ≤ m
  stored_le : m ≤ bytes.length
  actions : s.actions = (bytes.drop m).map .put ++ [.finish] ∧ (m - s.position) % bufferSize = 0 ∨
    s.actions = [] ∧ s.position = 0 ∧ m = bytes.length
  requests : Spans s.sent.length s.requests (m - s.position)

/-- The buffer, the requests and the stream hold what was written. -/
structure Contents (bytes : Bytes) (s : State) (m : Nat) : Prop where
  buffer : ∀ k < m, s.writeBuffer[k % bufferSize]? = bytes[k]?
  slots : Slots bytes s.sent.length s.requests
  sent : s.sent <+: bytes

/-- A step keeps the layout, and it keeps the contents if bytes at one place are equal. -/
def Kept (bytes : Bytes) (s s' : State) (m : Nat) : Prop :=
  ∃ m', Layout bytes s' m' ∧ (Repeats bytes → Contents bytes s m → Contents bytes s' m')

theorem layout_start {memory : Bytes} (hmemory : memory.length = bufferSize) (calls : List Call) :
    Layout (written calls) (start memory calls) 0 where
  buffer := hmemory
  position_le := Nat.zero_le bufferSize
  position_le_stored := Nat.le_refl 0
  stored_le := Nat.zero_le _
  actions := .inl ⟨actionsOf_eq calls, rfl⟩
  requests := rfl

theorem contents_start (memory : Bytes) (calls : List Call) :
    Contents (written calls) (start memory calls) 0 where
  buffer _ hk := absurd hk (Nat.not_lt_zero _)
  slots := trivial
  sent := List.nil_prefix

section

variable {bytes : Bytes} {s s' : State} {m : Nat}

theorem Layout.requests_flushBuffer (h : Layout bytes s m) (hmod : (m - s.position) % bufferSize = 0) :
    Spans s.sent.length (flushBuffer s).requests m := by
  have hrequests := h.requests
  have hle := h.position_le_stored
  unfold flushBuffer
  split
  next hposition =>
    rw [hposition] at hrequests
    exact hrequests
  next =>
    have hlength : (List.replicate s.position (none : Option UInt8)).length ≤ bufferSize := by
      simpa using h.position_le
    have happend := hrequests.append hmod hlength
    rw [List.length_replicate, Nat.sub_add_cancel hle] at happend
    exact happend

@[simp] theorem writeBuffer_flushBuffer : (flushBuffer s).writeBuffer = s.writeBuffer := by
  unfold flushBuffer
  split <;> rfl

@[simp] theorem position_flushBuffer : (flushBuffer s).position = 0 := by
  unfold flushBuffer
  split
  next h => exact h
  next => rfl

@[simp] theorem sent_flushBuffer : (flushBuffer s).sent = s.sent := by
  unfold flushBuffer
  split <;> rfl

@[simp] theorem actions_flushBuffer : (flushBuffer s).actions = s.actions := by
  unfold flushBuffer
  split <;> rfl

theorem Contents.slots_flushBuffer (h : Contents bytes s m) :
    Slots bytes s.sent.length (flushBuffer s).requests := by
  unfold flushBuffer
  split
  next => exact h.slots
  next => exact h.slots.append s.position

theorem kept_flush (h : Layout bytes s m) (hfull : s.position = bufferSize) :
    Kept bytes s (flushBuffer s) m := by
  have hactions := h.actions
  have hpositive : s.position ≠ 0 := by
    rw [hfull]
    decide
  rcases hactions with ⟨hactions, hmod⟩ | ⟨-, hzero, -⟩
  · have hm : m % bufferSize = 0 := by
      have hle := h.position_le_stored
      unfold bufferSize at *
      omega
    refine ⟨m, ?_, fun _ hcontents => ?_⟩
    · exact {
        buffer := by simpa using h.buffer
        position_le := by simp
        position_le_stored := by simp
        stored_le := h.stored_le
        actions := .inl ⟨by simpa using hactions, by simpa using hm⟩
        requests := by simpa using h.requests_flushBuffer hmod }
    · exact {
        buffer := by simpa using hcontents.buffer
        slots := by simpa using hcontents.slots_flushBuffer
        sent := by simpa using hcontents.sent }
  · exact absurd hzero hpositive

theorem kept_finish (h : Layout bytes s m) {actions : List Action}
    (hactions : s.actions = .finish :: actions) :
    Kept bytes s { flushBuffer s with isEnd := true, actions } m := by
  rcases h.actions with ⟨heq, hmod⟩ | ⟨heq, -⟩
  · rw [hactions] at heq
    cases hdrop : bytes.drop m with
    | cons ch rest => simp [hdrop] at heq
    | nil =>
      have hrest : actions = [] := by simpa [hdrop] using heq
      have hm : m = bytes.length := by
        have hlength := List.drop_eq_nil_iff.1 hdrop
        have hle := h.stored_le
        omega
      refine ⟨m, ?_, fun _ hcontents => ?_⟩
      · exact {
          buffer := by simpa using h.buffer
          position_le := by simp
          position_le_stored := by simp
          stored_le := h.stored_le
          actions := .inr ⟨hrest, by simp, hm⟩
          requests := by simpa using h.requests_flushBuffer hmod }
      · exact {
          buffer := by simpa using hcontents.buffer
          slots := by simpa using hcontents.slots_flushBuffer
          sent := by simpa using hcontents.sent }
  · rw [hactions] at heq
    cases heq

theorem kept_store (h : Layout bytes s m) {ch : UInt8} {actions : List Action}
    (hactions : s.actions = .put ch :: actions) (hroom : s.position ≠ bufferSize) :
    Kept bytes s { s with
      writeBuffer := s.writeBuffer.set s.position ch
      position := s.position + 1
      actions } m := by
  have hle := h.position_le
  have hstored := h.position_le_stored
  rcases h.actions with ⟨heq, hmod⟩ | ⟨heq, -⟩
  swap
  · rw [hactions] at heq
    cases heq
  rw [hactions] at heq
  cases hdrop : bytes.drop m with
  | nil => simp [hdrop] at heq
  | cons ch' rest =>
    obtain ⟨rfl, hrest⟩ : ch = ch' ∧ actions = rest.map .put ++ [.finish] := by
      simpa [hdrop] using heq
    have hm : m < bytes.length := by
      have hlength := congrArg List.length hdrop
      rw [List.length_drop, List.length_cons] at hlength
      omega
    have hch : bytes[m]? = some ch := by
      have hhead := congrArg List.head? hdrop
      rwa [List.head?_drop] at hhead
    have htail : bytes.drop (m + 1) = rest := by
      have htail := congrArg List.tail hdrop
      rwa [List.tail_drop] at htail
    have hplace : m % bufferSize = s.position := by
      unfold bufferSize at *
      omega
    refine ⟨m + 1, ?_, fun hrepeats hcontents => ?_⟩
    · exact {
        buffer := by simpa using h.buffer
        position_le := by
          show s.position + 1 ≤ bufferSize
          omega
        position_le_stored := by
          show s.position + 1 ≤ m + 1
          omega
        stored_le := hm
        actions := by
          refine .inl ⟨?_, ?_⟩
          · rw [htail]
            exact hrest
          · show (m + 1 - (s.position + 1)) % bufferSize = 0
            rw [Nat.add_sub_add_right]
            exact hmod
        requests := by
          show Spans s.sent.length s.requests (m + 1 - (s.position + 1))
          rw [Nat.add_sub_add_right]
          exact h.requests }
    · refine { slots := hcontents.slots, sent := hcontents.sent, buffer := ?_ }
      intro k hk
      show (s.writeBuffer.set s.position ch)[k % bufferSize]? = bytes[k]?
      by_cases hkm : k % bufferSize = s.position
      · have hlt : s.position < s.writeBuffer.length := by
          rw [h.buffer]
          omega
        rw [hkm, List.getElem?_set_self hlt, ← hch]
        exact (hrepeats.mod_eq hm (by omega) (by rw [hkm, hplace])).symm
      · rw [List.getElem?_set_ne (fun heq => hkm heq.symm)]
        refine hcontents.buffer k ?_
        -- The byte `m` itself is at the place that was set.
        rcases Nat.lt_or_eq_of_le (Nat.le_of_lt_succ hk) with hlt | rfl
        · exact hlt
        · exact absurd hplace hkm

theorem kept_readByte (h : Layout bytes s m) {r i : Nat} (hstep : readByte s r i = some s') :
    Kept bytes s s' m := by
  unfold readByte at hstep
  cases hr : s.requests[r]? with
  | none =>
    rw [hr] at hstep
    cases hstep
  | some request =>
    simp only [hr] at hstep
    split at hstep
    swap
    · cases hstep
    next hi =>
      cases hstep
      have hlt : i < request.length := (List.getElem?_eq_some_iff.1 hi).1
      refine ⟨m, ?_, fun _ hcontents => ?_⟩
      · exact { h with requests := h.requests.set hr (List.length_set ..) }
      · refine { hcontents with slots := hcontents.slots.set h.requests ?_ hr hlt }
        intro k hk
        exact hcontents.buffer k (by omega)

theorem reduceOption_eq_take {request : UvWrite} {o : Nat}
    (hall : request.all Option.isSome = true)
    (hslots : ∀ i b, request[i]? = some (some b) → bytes[o + i]? = some b) :
    request.reduceOption = (bytes.drop o).take request.length := by
  induction request generalizing o with
  | nil => rfl
  | cons slot request ih =>
    cases slot with
    | none => simp at hall
    | some b =>
      have hhead : bytes[o]? = some b := hslots 0 b rfl
      have hrest : ∀ i b, request[i]? = some (some b) → bytes[o + 1 + i]? = some b := by
        intro i b hi
        have hnext := hslots (i + 1) b hi
        rwa [Nat.add_comm i 1, ← Nat.add_assoc] at hnext
      have hdrop : bytes.drop o = b :: bytes.drop (o + 1) := by
        obtain ⟨hlt, rfl⟩ := List.getElem?_eq_some_iff.1 hhead
        exact List.drop_eq_getElem_cons hlt
      rw [List.reduceOption_cons_of_some, ih (by simpa using hall) hrest, hdrop]
      rfl

theorem length_reduceOption {request : UvWrite} (hall : request.all Option.isSome = true) :
    request.reduceOption.length = request.length := by
  induction request with
  | nil => rfl
  | cons slot request ih =>
    cases slot with
    | none => simp at hall
    | some b =>
      rw [List.reduceOption_cons_of_some, List.length_cons, List.length_cons,
        ih (by simpa using hall)]

theorem kept_complete (h : Layout bytes s m) (hstep : complete s = some s') :
    Kept bytes s s' m := by
  unfold complete at hstep
  cases hrequests : s.requests with
  | nil =>
    rw [hrequests] at hstep
    cases hstep
  | cons request requests =>
    simp only [hrequests] at hstep
    split at hstep
    swap
    · cases hstep
    next hall =>
      cases hstep
      have hspans := h.requests
      rw [hrequests] at hspans
      refine ⟨m, ?_, fun _ hcontents => ?_⟩
      · refine { h with requests := ?_ }
        show Spans (s.sent ++ request.reduceOption).length requests (m - s.position)
        rw [List.length_append, length_reduceOption hall]
        exact hspans.2.2
      · have hslots := hcontents.slots
        rw [hrequests] at hslots
        refine { hcontents with slots := ?_, sent := ?_ }
        · show Slots bytes (s.sent ++ request.reduceOption).length requests
          rw [List.length_append, length_reduceOption hall]
          exact hslots.2
        · obtain ⟨rest, hrest⟩ := hcontents.sent
          have hdrop : bytes.drop s.sent.length = rest := by
            rw [← hrest, List.drop_left]
          show s.sent ++ request.reduceOption <+: bytes
          rw [reduceOption_eq_take hall hslots.1, hdrop]
          refine ⟨rest.drop request.length, ?_⟩
          rw [List.append_assoc, List.take_append_drop, hrest]

theorem kept_act (h : Layout bytes s m) (hstep : act s = some s') : Kept bytes s s' m := by
  unfold act at hstep
  split at hstep
  · cases hstep
  next ch actions hactions =>
    split at hstep
    next hfull =>
      cases hstep
      exact kept_flush h hfull
    next hroom =>
      cases hstep
      exact kept_store h hactions hroom
  next actions hactions =>
    cases hstep
    exact kept_finish h hactions

theorem kept_step (h : Layout bytes s m) {event : Event} (hstep : step s event = some s') :
    Kept bytes s s' m := by
  cases event with
  | act => exact kept_act h hstep
  | readByte r i => exact kept_readByte h hstep
  | complete => exact kept_complete h hstep

theorem kept_run (h : Layout bytes s m) {events : List Event} (hrun : run s events = some s') :
    Kept bytes s s' m := by
  induction events generalizing s m with
  | nil =>
    cases hrun
    exact ⟨m, h, fun _ hcontents => hcontents⟩
  | cons event events ih =>
    obtain ⟨s₁, hstep, hrest⟩ := Option.bind_eq_some_iff.1 hrun
    obtain ⟨m₁, h₁, hcontents₁⟩ := kept_step h hstep
    obtain ⟨m', h', hcontents'⟩ := ih h₁ hrest
    exact ⟨m', h', fun hrepeats hcontents => hcontents' hrepeats (hcontents₁ hrepeats hcontents)⟩

end

/-- If bytes at one place are equal, it does not matter when they are read. -/
theorem transmits_of_repeats {calls : List Call} (h : Repeats (written calls)) :
    Transmits calls := by
  intro memory events s hmemory hrun
  obtain ⟨m, hlayout, hkept⟩ := kept_run (layout_start hmemory calls) hrun
  have hcontents := hkept h (contents_start memory calls)
  refine ⟨hcontents.sent, fun hfinished => ?_⟩
  rcases hlayout.actions with ⟨hactions, -⟩ | ⟨-, hposition, rfl⟩
  · rw [hfinished.1] at hactions
    simp at hactions
  · have hspans := hlayout.requests
    rw [hfinished.2, hposition] at hspans
    exact hcontents.sent.eq_of_length hspans

/-! ## The schedule that reads last

`libuv` may leave every request unread until the writer is done. All requests then read what the
buffer holds in the end. -/

/-- Nothing was read for any request. -/
def Unread (s : State) : Prop := ∀ request ∈ s.requests, request = List.replicate request.length none

theorem unread_flushBuffer {s : State} (h : Unread s) : Unread (flushBuffer s) := by
  unfold flushBuffer
  split
  next => exact h
  next =>
    intro request hmem
    rcases List.mem_append.1 hmem with hmem | hmem
    · exact h request hmem
    · rw [List.mem_singleton.1 hmem, List.length_replicate]

/-- The turns that the writer has left, and one for a flush. -/
def turnsLeft (s : State) : Nat := 2 * s.actions.length + if s.position = bufferSize then 1 else 0

theorem exists_act {s : State} (h : Unread s) (hactions : s.actions ≠ []) :
    ∃ s', act s = some s' ∧ turnsLeft s' < turnsLeft s ∧ Unread s' ∧ s'.sent = s.sent := by
  unfold act
  split
  next hnil => exact absurd hnil hactions
  next ch actions hactions =>
    split
    next hfull =>
      refine ⟨flushBuffer s, rfl, ?_, unread_flushBuffer h, sent_flushBuffer⟩
      have hzero : (0 : Nat) ≠ bufferSize := by decide
      simp [turnsLeft, hfull, hzero]
    next hroom =>
      refine ⟨_, rfl, ?_, h, rfl⟩
      simp only [turnsLeft, hactions, List.length_cons]
      split <;> omega
  next actions hactions =>
    refine ⟨_, rfl, ?_, unread_flushBuffer h, sent_flushBuffer⟩
    simp only [turnsLeft, hactions, List.length_cons]
    split <;> omega

theorem exists_acts {s : State} (h : Unread s) :
    ∃ events s', run s events = some s' ∧ s'.actions = [] ∧ Unread s' ∧ s'.sent = s.sent := by
  by_cases hactions : s.actions = []
  · exact ⟨[], s, rfl, hactions, h, rfl⟩
  · obtain ⟨s₁, hact, hlt, h₁, hsent₁⟩ := exists_act h hactions
    obtain ⟨events, s', hrun, hdone, h', hsent'⟩ := exists_acts h₁
    refine ⟨.act :: events, s', ?_, hdone, h', hsent'.trans hsent₁⟩
    simp only [run, step, hact, Option.bind_some, hrun]
termination_by turnsLeft s

theorem run_append {s s₁ : State} {events events' : List Event} (h : run s events = some s₁) :
    run s (events ++ events') = run s₁ events' := by
  induction events generalizing s with
  | nil =>
    cases h
    rfl
  | cons event events ih =>
    obtain ⟨s₂, hstep, hrest⟩ := Option.bind_eq_some_iff.1 h
    simp only [List.cons_append, run, hstep, Option.bind_some]
    exact ih hrest

/-- The first request reads the buffer from its start to its end. -/
theorem exists_reads {s : State} {n : Nat} {requests : List UvWrite} (hn : n ≤ s.writeBuffer.length)
    (hrequests : s.requests = List.replicate n none :: requests) (i : Nat) (hi : i ≤ n) :
    ∃ events, run s events = some { s with
      requests := ((s.writeBuffer.take i).map some ++ List.replicate (n - i) none) :: requests } := by
  induction i with
  | zero =>
    refine ⟨[], ?_⟩
    simp [run, ← hrequests]
  | succ i ih =>
    obtain ⟨events, hrun⟩ := ih (by omega)
    refine ⟨events ++ [.readByte 0 i], ?_⟩
    have hlt : i < s.writeBuffer.length := by omega
    have htake : ((s.writeBuffer.take i).map some).length = i := by simp; omega
    obtain ⟨k, hk⟩ : ∃ k, n - i = k + 1 := ⟨n - i - 1, by omega⟩
    have hk' : n - (i + 1) = k := by omega
    rw [run_append hrun, hk, List.replicate_succ, hk']
    have hslot : ((s.writeBuffer.take i).map some ++ none :: List.replicate k none)[i]? =
        some none := by
      rw [List.getElem?_append_right (by omega), htake, Nat.sub_self]
      rfl
    have hset : ((s.writeBuffer.take i).map some ++ none :: List.replicate k none).set i
        s.writeBuffer[i]? = (s.writeBuffer.take (i + 1)).map some ++ List.replicate k none := by
      rw [List.set_append_right i _ (by omega), htake, Nat.sub_self, List.set_cons_zero,
        List.take_add_one, List.getElem?_eq_getElem hlt, Option.toList_some, List.map_append,
        List.append_assoc]
      rfl
    simp only [run, step, readByte, List.getElem?_cons_zero, hslot, if_true, hset,
      Option.bind_some, List.set_cons_zero]

theorem exists_completes {s : State} (hactions : s.actions = [])
    (hlength : ∀ request ∈ s.requests, request.length ≤ s.writeBuffer.length) (h : Unread s) :
    ∃ events s', run s events = some s' ∧ s'.Finished ∧
      s'.sent = s.sent ++ s.requests.flatMap fun request => s.writeBuffer.take request.length := by
  cases hrequests : s.requests with
  | nil => exact ⟨[], s, rfl, ⟨hactions, hrequests⟩, by simp⟩
  | cons request requests =>
    have hmem : ∀ r ∈ requests, r ∈ s.requests := by
      intro r hr
      rw [hrequests]
      exact List.mem_cons_of_mem _ hr
    have hfirst : request ∈ s.requests := by simp [hrequests]
    have hunread := h request hfirst
    have hcons : s.requests = List.replicate request.length none :: requests := by
      rw [hrequests, ← hunread]
    obtain ⟨events, hreads⟩ := exists_reads (hlength request hfirst) hcons request.length
      (Nat.le_refl _)
    rw [Nat.sub_self, List.replicate_zero, List.append_nil] at hreads
    let s₁ : State := { s with
      requests, sent := s.sent ++ s.writeBuffer.take request.length }
    obtain ⟨events', s', hrun', hfinished, hsent⟩ := exists_completes (s := s₁) hactions
      (fun r hr => hlength r (hmem r hr)) (fun r hr => h r (hmem r hr))
    refine ⟨events ++ .complete :: events', s', ?_, hfinished, ?_⟩
    · rw [run_append hreads]
      have hall : ((s.writeBuffer.take request.length).map some).all Option.isSome = true := by
        rw [List.all_map]
        exact List.all_eq_true.2 fun _ _ => rfl
      have hbytes : ((s.writeBuffer.take request.length).map some).reduceOption =
          s.writeBuffer.take request.length := by
        rw [List.reduceOption, List.filterMap_map]
        exact List.filterMap_some
      simp only [run, step, complete, hall, if_true, hbytes, Option.bind_some]
      exact hrun'
    · rw [hsent]
      simp [s₁, List.append_assoc]
termination_by s.requests.length
decreasing_by simp [hrequests]

theorem Spans.getElem? {buffer : Bytes} (hbuffer : buffer.length = bufferSize)
    {requests : List UvWrite} {o e : Nat} (h : Spans o requests e) {k : Nat} (hk : o ≤ k)
    (hke : k < e) :
    (requests.flatMap fun request => buffer.take request.length)[k - o]? =
      buffer[k % bufferSize]? := by
  induction requests generalizing o with
  | nil =>
    cases h
    omega
  | cons request requests ih =>
    obtain ⟨hmod, hlength, hrest⟩ := h
    have htake : (buffer.take request.length).length = request.length := by
      rw [List.length_take]
      omega
    rw [List.flatMap_cons]
    by_cases hlt : k - o < request.length
    · have hplace : k % bufferSize = k - o := by
        unfold bufferSize at *
        omega
      rw [List.getElem?_append_left (by omega), List.getElem?_take_of_lt hlt, hplace]
    · rw [List.getElem?_append_right (by omega), htake, Nat.sub_sub]
      exact ih hrest (by omega)

theorem Spans.length_le {requests : List UvWrite} {o e : Nat} (h : Spans o requests e) :
    ∀ request ∈ requests, request.length ≤ bufferSize := by
  induction requests generalizing o with
  | nil => simp
  | cons first requests ih =>
    intro request hmem
    rcases List.mem_cons.1 hmem with rfl | hmem
    · exact h.2.1
    · exact ih h.2.2 request hmem

theorem repeats_of_transmits {calls : List Call} (h : Transmits calls) :
    Repeats (written calls) := by
  let memory : Bytes := List.replicate bufferSize 0
  have hmemory : memory.length = bufferSize := List.length_replicate
  have hstart : Unread (start memory calls) := by
    intro request hmem
    cases hmem
  obtain ⟨acts, s, hacts, hactions, hunread, hsent⟩ := exists_acts hstart
  obtain ⟨m, hlayout, -⟩ := kept_run (layout_start hmemory calls) hacts
  have hspans : Spans 0 s.requests (written calls).length := by
    have hrequests := hlayout.requests
    rcases hlayout.actions with ⟨hnext, -⟩ | ⟨-, hposition, rfl⟩
    · rw [hactions] at hnext
      simp at hnext
    · rw [hsent, hposition] at hrequests
      exact hrequests
  obtain ⟨completes, s', hcompletes, hfinished, hsent'⟩ := exists_completes hactions
    (by rw [hlayout.buffer]; exact hspans.length_le) hunread
  have hall : s'.sent = written calls :=
    (h memory (acts ++ completes) s' hmemory (by rw [run_append hacts, hcompletes])).2 hfinished
  -- Every byte that was sent is the one that the buffer held in the end.
  have hlast : ∀ k < (written calls).length,
      (written calls)[k]? = s.writeBuffer[k % bufferSize]? := by
    intro k hk
    have hget := hspans.getElem? hlayout.buffer (Nat.zero_le k) hk
    rw [← hall, hsent', hsent]
    exact hget
  intro k hk
  rw [hlast k (by omega), hlast (k + bufferSize) hk, Nat.add_mod_right]

/-- **The written texts are sent in every run if and only if bytes that share a place in the buffer
are equal.** In particular they are when there are no more than 4096 of them. -/
theorem transmits_iff (calls : List Call) : Transmits calls ↔ Repeats (written calls) :=
  ⟨repeats_of_transmits, transmits_of_repeats⟩

/-- A text that fills the buffer, and one more byte. -/
def longText : List Call :=
  [.write [⟨List.replicate bufferSize 97, by simp [List.mem_replicate]⟩, ⟨[98], by decide⟩]]

/-- The first byte of a request is overwritten by what follows it. -/
theorem not_transmits_longText : ¬ Transmits longText := by
  intro h
  have hwritten : written longText = List.replicate bufferSize 97 ++ [98] := by
    simp only [written, longText, Call.written, List.flatMap_cons, List.flatMap_nil,
      List.append_nil]
  have hlength : (List.replicate bufferSize (97 : UInt8)).length = bufferSize :=
    List.length_replicate
  have hrepeats := repeats_of_transmits h 0
  rw [hwritten, List.length_append, hlength] at hrepeats
  have heq := hrepeats (by rw [Nat.zero_add]; exact Nat.lt_succ_self _)
  rw [List.getElem?_append_left (by rw [hlength]; decide), Nat.zero_add,
    List.getElem?_append_right (Nat.le_of_eq hlength), hlength, Nat.sub_self,
    List.getElem?_replicate, if_pos (by decide)] at heq
  exact absurd heq (by decide)

end HttpWriter

end Flashpoint
