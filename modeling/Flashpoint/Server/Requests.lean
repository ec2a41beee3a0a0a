import Mathlib.Data.List.Nodup
import Flashpoint.Memory.Tickets
import Flashpoint.Server.Callbacks

/-!
# Requests and the pool

A request takes a ticket as soon as it was parsed, and no path of `on_read` returns it. So the free
blocks are the same after a callback exactly when it does not get that far.
-/

namespace Flashpoint

namespace HttpServer

variable {σ : Type} {services : Services σ}

/-- A read whose bytes are parsed as a request, so that `ParseRequest` goes on to `TakeTicket`. -/
def TakesTicket (services : Services σ) (s : HttpServer σ) : ServerEvent → Prop
  | .onRead c length base _ =>
    ∃ bytes request, readBuffer services s c length base = some bytes ∧
      services.parse bytes = some (some request)
  | _ => False

/-- The free blocks are those before, and no ticket is taken from an exhausted pool. -/
def PoolKept (services : Services σ) (s : HttpServer σ) (event : ServerEvent) : Prop :=
  (TakesTicket services s event → s.memoryPool.freeBlocks ≠ []) ∧
    ∀ s', s.step services event = some s' →
      ∀ b, b ∈ s'.memoryPool.freeBlocks ↔ b ∈ s.memoryPool.freeBlocks

/-- A pool can hold a request: with the pool as it is at first, the callback returns. -/
def CanHold (services : Services σ) (pool : MemoryPool) (s : HttpServer σ) (event : ServerEvent) :
    Prop :=
  TakesTicket services s event → (step services { s with memoryPool := pool } event).isSome

/-! ## The pool through a callback -/

theorem freeBlocks_allocate {pool pool' : MemoryPool} {size alignment address : Nat} {id : TicketId}
    (h : pool.allocate size alignment id = some (address, pool')) :
    ∃ blocks, pool.freeBlocks = blocks ++ pool'.freeBlocks := by
  unfold MemoryPool.allocate at h
  split at h
  · cases h
  · next hfrom =>
    cases h
    obtain ⟨blocks, hblocks, -⟩ := PoolState.allocateFrom_spec hfrom
    exact ⟨blocks, hblocks⟩

theorem freeBlocks_allocateAll {ticket : TicketId} {sizes : List (Nat × Nat)}
    {pool pool' : MemoryPool} (h : allocateAll ticket sizes pool = some pool') :
    ∃ blocks, pool.freeBlocks = blocks ++ pool'.freeBlocks := by
  induction sizes generalizing pool with
  | nil =>
    cases h
    exact ⟨[], rfl⟩
  | cons size sizes ih =>
    simp only [allocateAll, Option.bind_eq_bind, Option.bind_eq_some_iff] at h
    obtain ⟨⟨address, pool₁⟩, hfirst, hrest⟩ := h
    obtain ⟨blocks, hblocks⟩ := freeBlocks_allocate hfirst
    obtain ⟨blocks', hblocks'⟩ := ih hrest
    exact ⟨blocks ++ blocks', by rw [hblocks, hblocks', List.append_assoc]⟩

theorem freeBlocks_takeTicket {pool pool' : MemoryPool} {ticket : TicketId}
    (h : pool.takeTicket = some (ticket, pool')) :
    pool.freeBlocks = ticket :: pool'.freeBlocks := by
  unfold MemoryPool.takeTicket MemoryPool.allocateBlock at h
  cases hfree : pool.freeBlocks with
  | nil =>
    rw [hfree] at h
    cases h
  | cons block free =>
    rw [hfree] at h
    cases h
    rfl

/-- A ticket, and maybe blocks after it, are gone from the free blocks. -/
def Shrinks (s s' : HttpServer σ) : Prop :=
  ∃ ticket blocks, s.memoryPool.freeBlocks = ticket :: (blocks ++ s'.memoryPool.freeBlocks)

theorem shrinks_answerRequest {s s' : HttpServer σ} {request : HttpRequest}
    {document? : Option ExecutableDefinition}
    (h : s.answerRequest services request = some (document?, s')) : Shrinks s s' := by
  simp only [answerRequest, Option.bind_eq_bind, Option.bind_eq_some_iff] at h
  obtain ⟨⟨ticket, pool⟩, htake, h⟩ := h
  have hticket := freeBlocks_takeTicket htake
  cases hbody : request.body with
  | none =>
    simp only [hbody, Option.bind_eq_some_iff] at h
    obtain ⟨pool', hall, h⟩ := h
    cases h
    obtain ⟨blocks, hblocks⟩ := freeBlocks_allocateAll hall
    exact ⟨ticket, blocks, by rw [hticket, hblocks]⟩
  | some body =>
    simp only [hbody, Option.bind_eq_some_iff] at h
    obtain ⟨query, -, pool', hall, document, -, h⟩ := h
    cases h
    obtain ⟨blocks, hblocks⟩ := freeBlocks_allocateAll hall
    exact ⟨ticket, blocks, by rw [hticket, hblocks]⟩

/-- A request takes blocks away, and everything else leaves the pool as it is. -/
theorem memoryPool_onRead {c : TcpHandle} {length : Int} {base : Bytes} {getaddrinfo : Nat → Int}
    {s s' : HttpServer σ} (h : s.onRead services c length base getaddrinfo = some s') :
    (s'.memoryPool = s.memoryPool ∧
      ¬ TakesTicket services s (.onRead c length base getaddrinfo)) ∨
    (TakesTicket services s (.onRead c length base getaddrinfo) ∧ Shrinks s s') := by
  unfold onRead at h
  by_cases hlength : length = 0
  · rw [if_pos hlength] at h
    cases h
    refine .inl ⟨rfl, ?_⟩
    rintro ⟨bytes, request, hbuffer, -⟩
    simp only [readBuffer, if_pos hlength] at hbuffer
    cases hbuffer
  · rw [if_neg hlength] at h
    simp only [Option.bind_eq_bind, Option.bind_eq_some_iff] at h
    obtain ⟨connection, hconnection, client, hclient, ssl, hssl, state, hstate, h⟩ := h
    have hbuffer : readBuffer services s c length base =
        if services.sslIsInitFinished state then
          if (services.sslRead (services.bioWrite state base length)).1 ≤ 0 then none
          else some (services.sslRead (services.bioWrite state base length)).2.1
        else none := by
      simp only [readBuffer, if_neg hlength, hconnection, hclient, hssl, hstate,
        Option.bind_eq_bind, Option.bind_some]
    by_cases hfinished : services.sslIsInitFinished state = true
    · rw [if_pos hfinished] at h hbuffer
      unfold request at h
      rcases hread : services.sslRead (services.bioWrite state base length) with
        ⟨readSize, bytes, state'⟩
      simp only [hread] at h hbuffer
      split at h
      · next hsize =>
        cases h
        refine .inl ⟨rfl, ?_⟩
        rintro ⟨bytes', request, hbytes, -⟩
        rw [hbuffer, if_pos hsize] at hbytes
        cases hbytes
      · next hsize =>
        rw [if_neg hsize] at hbuffer
        simp only [Option.bind_eq_bind, Option.bind_eq_some_iff] at h
        obtain ⟨⟨document?, s₁⟩, hrequest, h⟩ := h
        have hpool : s'.memoryPool = s₁.memoryPool := by
          cases document? with
          | none =>
            cases h
            rfl
          | some document => exact (forwards_forward h).2
        unfold Shrinks
        simp only [parseRequest, Option.bind_eq_bind, Option.bind_eq_some_iff] at hrequest
        obtain ⟨request?, hparse, hrequest⟩ := hrequest
        rw [hpool]
        cases request? with
        | none =>
          simp only [Option.bind_eq_some_iff] at hrequest
          obtain ⟨client', -, i, -, hrequest⟩ := hrequest
          cases hrequest
          refine .inl ⟨rfl, ?_⟩
          rintro ⟨bytes', request, hbytes, htakes⟩
          cases hbuffer.symm.trans hbytes
          cases hparse.symm.trans htakes
        | some request =>
          have hshrinks : Shrinks ((s.setSsl ssl state').record _) s₁ :=
            shrinks_answerRequest hrequest
          exact .inr ⟨⟨bytes, request, hbuffer, hparse⟩, hshrinks⟩
    · rw [if_neg hfinished] at h hbuffer
      obtain ⟨_, _, _, -, -, -, _, _, rfl, -⟩ := flushWriteBio_spec h
      refine .inl ⟨rfl, ?_⟩
      rintro ⟨bytes', request, hbytes, -⟩
      cases hbuffer.symm.trans hbytes

theorem memoryPool_step {s s' : HttpServer σ} {event : ServerEvent}
    (h : s.step services event = some s') :
    (s'.memoryPool = s.memoryPool ∧ ¬ TakesTicket services s event) ∨
    (TakesTicket services s event ∧ Shrinks s s') := by
  cases event with
  | onNewConnection status accept readStart =>
    simp only [step, onNewConnection] at h
    split at h
    · cases h
    · cases h
      exact .inl ⟨rfl, fun htakes => htakes⟩
  | onRead c length base getaddrinfo =>
    simp only [step] at h
    split at h
    · exact memoryPool_onRead h
    · cases h
  | flushWriteBio c =>
    simp only [step] at h
    split at h
    · cases h
    · obtain ⟨_, _, _, -, -, -, _, _, rfl, -⟩ := flushWriteBio_spec h
      exact .inl ⟨rfl, fun htakes => htakes⟩

/-- A callback that returns after it took a ticket has changed the set of free blocks. -/
theorem not_poolKept_of_takesTicket {s s' : HttpServer σ} {event : ServerEvent}
    (hnodup : s.memoryPool.freeBlocks.Nodup) (htakes : TakesTicket services s event)
    (h : s.step services event = some s') : ¬ PoolKept services s event := by
  intro hkept
  rcases memoryPool_step h with ⟨-, hnot⟩ | ⟨-, ticket, blocks, hfree⟩
  · exact hnot htakes
  · have hticket : ticket ∈ s'.memoryPool.freeBlocks := by
      rw [hkept.2 s' h ticket, hfree]
      exact List.mem_cons_self
    rw [hfree, List.nodup_cons] at hnodup
    exact hnodup.1 (List.mem_append_right blocks hticket)

theorem poolKept_of_not_takesTicket {s : HttpServer σ} {event : ServerEvent}
    (hnot : ¬ TakesTicket services s event) : PoolKept services s event := by
  refine ⟨fun htakes => (hnot htakes).elim, fun s' hs' b => ?_⟩
  rcases memoryPool_step hs' with ⟨hsame, -⟩ | ⟨htakes, -⟩
  · rw [hsame]
  · exact (hnot htakes).elim

theorem nodup_freeBlocks_create (totalSize blockSize startAddress : Nat) :
    (MemoryPool.create totalSize blockSize startAddress).freeBlocks.Nodup := by
  simp only [MemoryPool.create, MemoryPool.reset, List.append_nil]
  exact List.nodup_reverse.2 List.nodup_range

/-- Serving requests leaves the free blocks as they are exactly as long as no read gets to
`TakeTicket`. -/
theorem poolKept_iff_no_ticket (services : Services σ) {totalSize blockSize startAddress : Nat}
    {s : HttpServer σ} (hpool : s.memoryPool = MemoryPool.create totalSize blockSize startAddress)
    (events : List ServerEvent)
    (hhold : Along services
      (CanHold services (MemoryPool.create totalSize blockSize startAddress)) s events) :
    Along services (PoolKept services) s events ↔
      Along services (fun s event => ¬ TakesTicket services s event) s events := by
  -- Up to the first ticket the pool is the one the server started with, and it can hold the request.
  induction events generalizing s with
  | nil => exact Iff.rfl
  | cons event events ih =>
    obtain ⟨hfirst, hrest⟩ := hhold
    have hkeep : ¬ TakesTicket services s event → ∀ s', s.step services event = some s' →
        s'.memoryPool = MemoryPool.create totalSize blockSize startAddress := by
      intro hnot s' hs'
      rcases memoryPool_step hs' with ⟨hsame, -⟩ | ⟨htakes, -⟩
      · exact hsame.trans hpool
      · exact (hnot htakes).elim
    constructor
    · intro ⟨hkept, hkepts⟩
      have hnot : ¬ TakesTicket services s event := by
        intro htakes
        have hreturns := hfirst htakes
        rw [← hpool] at hreturns
        obtain ⟨s', hs'⟩ := Option.isSome_iff_exists.1 hreturns
        have hnodup : s.memoryPool.freeBlocks.Nodup := by
          rw [hpool]
          exact nodup_freeBlocks_create totalSize blockSize startAddress
        exact not_poolKept_of_takesTicket hnodup htakes hs' hkept
      exact ⟨hnot, fun s' hs' => (ih (hkeep hnot s' hs') (hrest s' hs')).1 (hkepts s' hs')⟩
    · intro ⟨hnot, hnots⟩
      exact ⟨poolKept_of_not_takesTicket hnot,
        fun s' hs' => (ih (hkeep hnot s' hs') (hrest s' hs')).2 (hnots s' hs')⟩

theorem along_cons {p : HttpServer σ → ServerEvent → Prop} {s s' : HttpServer σ}
    {event : ServerEvent} {events : List ServerEvent} (hs : s.step services event = some s') :
    Along services p s (event :: events) ↔ p s event ∧ Along services p s' events := by
  constructor
  · intro ⟨hp, hrest⟩
    exact ⟨hp, hrest s' hs⟩
  · intro ⟨hp, hrest⟩
    refine ⟨hp, fun s'' hs'' => ?_⟩
    cases hs.symm.trans hs''
    exact hrest

/-- A server with a connection. -/
def accepted : HttpServer (Bool × Bytes) :=
  { (listen 0 : HttpServer (Bool × Bytes)) with
    clients := [{ tcpHandle := some 0, sslHandle := some 0 }]
    connections := [⟨0, true, 0⟩]
    sslHandles := [(false, [])] }

theorem step_listen : step plain (listen 0) (.onNewConnection 0 0 0) = some accepted := rfl

/-- The handshake of the connection is over. -/
def afterHandshake : HttpServer (Bool × Bytes) :=
  { accepted with
    sslHandles := [(true, [])]
    effects := [.received 0 0, .sent 0 0 [22]] }

theorem step_accepted :
    step plain accepted (.onRead 0 1 [22] fun _ => 0) = some afterHandshake := rfl

theorem takesTicket_afterHandshake :
    TakesTicket plain afterHandshake (.onRead 0 18 getRequest fun _ => 0) :=
  ⟨getRequest, ⟨none⟩, by decide, by decide⟩

theorem step_afterHandshake_isSome :
    (step plain afterHandshake (.onRead 0 18 getRequest fun _ => 0)).isSome := by
  decide +kernel

theorem not_takesTicket_accepted :
    ¬ TakesTicket plain accepted (.onRead 0 1 [22] fun _ => 0) := by
  rintro ⟨bytes, request, hbuffer, -⟩
  have hnone : readBuffer plain accepted 0 1 [22] = none := by decide
  cases hnone.symm.trans hbuffer

theorem poolKept_of_handshake : Along plain (PoolKept plain) (listen 0)
    [.onNewConnection 0 0 0, .onRead 0 1 [22] fun _ => 0] := by
  refine (poolKept_iff_no_ticket plain rfl _ ?_).2 ?_
  · rw [along_cons step_listen, along_cons step_accepted]
    exact ⟨fun htakes => htakes.elim,
      fun htakes => (not_takesTicket_accepted htakes).elim, trivial⟩
  · rw [along_cons step_listen, along_cons step_accepted]
    exact ⟨fun htakes => htakes, not_takesTicket_accepted, trivial⟩

/-- A `GET` request takes a block that is never free again. -/
theorem not_poolKept_of_getRequest : ∃ events : List ServerEvent,
    Along plain (CanHold plain (listen 0 : HttpServer (Bool × Bytes)).memoryPool) (listen 0) events ∧
      ¬ Along plain (PoolKept plain) (listen 0) events := by
  refine ⟨[.onNewConnection 0 0 0, .onRead 0 1 [22] fun _ => 0,
    .onRead 0 18 getRequest fun _ => 0], ?_, ?_⟩
  · rw [along_cons step_listen, along_cons step_accepted]
    refine ⟨fun htakes => htakes.elim,
      fun htakes => (not_takesTicket_accepted htakes).elim, ?_, ?_⟩
    · exact fun _ => step_afterHandshake_isSome
    · exact fun _ _ => trivial
  · rw [along_cons step_listen, along_cons step_accepted]
    rintro ⟨-, -, hkept, -⟩
    obtain ⟨s', hs'⟩ := Option.isSome_iff_exists.1 step_afterHandshake_isSome
    exact not_poolKept_of_takesTicket (nodup_freeBlocks_create _ _ _)
      takesTicket_afterHandshake hs' hkept

end HttpServer

end Flashpoint
