import Mathlib.Data.List.Nodup
import Mathlib.Data.List.Perm.Subperm
import Flashpoint.Memory.MemoryPool

/-!
# Tickets in use

Runs of a pool: tickets are taken, used for allocations and returned, in any order. A `PoolState` is
the pool with what its users hold: the tickets that are live, the blocks each of them was given, and
the byte ranges it was given. `Owned` is the invariant about blocks, which every run keeps; `Placed`
is the one about bytes, which an allocation keeps when the sum of its offset, padding and size does
not wrap around.
-/

namespace Flashpoint

/-- A result of `Allocate`. -/
structure ByteRange where
  ticket : TicketId
  address : Nat
  size : Nat
deriving DecidableEq, Repr

/-- No byte lies in both. -/
def ByteRange.Apart (r r' : ByteRange) : Prop :=
  r.address + r.size ≤ r'.address ∨ r'.address + r'.size ≤ r.address

structure PoolState where
  pool : MemoryPool
  live : List TicketId := []
  owned : List (TicketId × Nat) := []
  ranges : List ByteRange := []

inductive PoolEvent where
  | takeTicket
  | allocate (ticket : TicketId) (size alignment : Nat)
  | returnTicket (ticket : TicketId)
deriving DecidableEq, Repr

namespace PoolState

open MemoryPool

/-- The blocks that an allocation took from the stack. -/
def taken (before after : List Nat) : List Nat := before.take (before.length - after.length)

/-- An event, where a ticket that is used or returned is live. -/
def step (s : PoolState) : PoolEvent → Option PoolState
  | .takeTicket =>
    match s.pool.takeTicket with
    | none => none
    | some (id, pool) =>
      some { s with pool, live := id :: s.live, owned := (id, id) :: s.owned }
  | .allocate id size alignment =>
    if id ∈ s.live then
      match s.pool.allocate size alignment id with
      | none => none
      | some (address, pool) =>
        some { s with
          pool
          owned := (taken s.pool.freeBlocks pool.freeBlocks).map (id, ·) ++ s.owned
          ranges := ⟨id, address, size⟩ :: s.ranges }
    else none
  | .returnTicket id =>
    if id ∈ s.live then
      some
        { pool := s.pool.returnTicket id
          live := s.live.erase id
          owned := s.owned.filter (·.1 ≠ id)
          ranges := s.ranges.filter (·.ticket ≠ id) }
    else none

/-- The events one after the other. -/
def run : PoolState → List PoolEvent → Option PoolState
  | s, [] => some s
  | s, event :: events =>
    match s.step event with
    | none => none
    | some s' => run s' events

/-- The states of a run at which an event happens, with the event, all meet a condition. -/
def Along (p : PoolState → PoolEvent → Prop) : PoolState → List PoolEvent → Prop
  | _, [] => True
  | s, event :: events =>
    p s event ∧
      match s.step event with
      | none => True
      | some s' => Along p s' events

instance (p : PoolState → PoolEvent → Prop) [∀ s event, Decidable (p s event)] :
    ∀ (s : PoolState) (events : List PoolEvent), Decidable (Along p s events)
  | _, [] => inferInstanceAs (Decidable True)
  | s, event :: events =>
    have : Decidable (match s.step event with
        | none => True
        | some s' => Along p s' events) :=
      match s.step event with
      | none => inferInstanceAs (Decidable True)
      | some s' => instDecidableAlong p s' events
    inferInstanceAs (Decidable (p s event ∧ _))

/-- A pool that was just made. -/
def fresh (totalSize blockSize startAddressOfPool : Nat) : PoolState :=
  { pool := create totalSize blockSize startAddressOfPool }

/-! ## Allocations -/

/-- What an allocation does: it stays in the block of the ticket, or takes blocks from the stack and
ends at the start of the last of them. -/
inductive Allocates (pool : MemoryPool) (size alignment : Nat) (ticket : MemoryPoolTicket) :
    List Nat → Nat → MemoryPoolTicket → Prop where
  | stays (hfits : pool.nextOffset size alignment ticket ≤ pool.blockSize) :
      Allocates pool size alignment ticket [] (pool.currentAddress ticket)
        { ticket with offset := pool.nextOffset size alignment ticket }
  | moves (blocks : List Nat) {block : Nat}
      (hfull : pool.blockSize < pool.nextOffset size alignment ticket)
      (hfits : pool.nextOffset size alignment ⟨0, block⟩ ≤ pool.blockSize) :
      Allocates pool size alignment ticket (blocks ++ [block]) (pool.currentAddress ⟨0, block⟩)
        ⟨pool.nextOffset size alignment ⟨0, block⟩, block⟩

theorem allocateFrom_spec {pool : MemoryPool} {size alignment address : Nat}
    {ticket ticket' : MemoryPoolTicket} {free free' : List Nat}
    (h : pool.allocateFrom size alignment ticket free = some (address, ticket', free')) :
    ∃ blocks, free = blocks ++ free' ∧ Allocates pool size alignment ticket blocks address ticket' := by
  induction free generalizing ticket with
  | nil =>
    unfold allocateFrom at h
    split at h
    · cases h
    · next hfits =>
      cases h
      exact ⟨[], rfl, .stays (Nat.not_lt.1 hfits)⟩
  | cons block free ih =>
    unfold allocateFrom at h
    by_cases hfull : pool.nextOffset size alignment ticket > pool.blockSize
    · rw [if_pos hfull] at h
      simp only at h
      by_cases hlast : block = 2 ^ 64 - 1
      · rw [if_pos hlast] at h
        cases h
      rw [if_neg hlast] at h
      obtain ⟨blocks, rfl, hmoves⟩ := ih h
      refine ⟨block :: blocks, rfl, ?_⟩
      cases hmoves with
      | stays hfits => exact .moves [] hfull hfits
      | moves blocks _ hfits => exact .moves (block :: blocks) hfull hfits
    · rw [if_neg hfull] at h
      cases h
      exact ⟨[], rfl, .stays (Nat.not_lt.1 hfull)⟩

theorem taken_append (blocks free : List Nat) : taken (blocks ++ free) free = blocks := by
  simp only [taken, List.length_append, Nat.add_sub_cancel, List.take_left]

/-! ## Who owns a block -/

/-- The blocks: what is free is free once, and what a ticket was given is neither free nor given to
another. The block a live ticket lies in and the one it allocates from are its own. -/
structure Owned (s : PoolState) : Prop where
  free : s.pool.freeBlocks.Nodup
  inside : ∀ b ∈ s.pool.freeBlocks, b < s.pool.blocks
  live : s.live.Nodup
  once : (s.owned.map Prod.snd).Nodup
  bound : ∀ entry ∈ s.owned, entry.2 < s.pool.blocks
  notFree : ∀ entry ∈ s.owned, entry.2 ∉ s.pool.freeBlocks
  ofLive : ∀ entry ∈ s.owned, entry.1 ∈ s.live
  header : ∀ id ∈ s.live, (id, id) ∈ s.owned
  block : ∀ id ∈ s.live, (id, (s.pool.tickets id).block) ∈ s.owned

theorem owned_fresh (totalSize blockSize startAddress : Nat) :
    Owned (fresh totalSize blockSize startAddress) where
  free := by
    simp only [fresh, create, reset, List.append_nil]
    exact List.nodup_reverse.2 List.nodup_range
  inside b hb := by
    simp only [fresh, create, reset, List.append_nil, List.mem_reverse, List.mem_range] at hb
    exact hb
  live := List.nodup_nil
  once := List.nodup_nil
  bound _ h := absurd h List.not_mem_nil
  notFree _ h := absurd h List.not_mem_nil
  ofLive _ h := absurd h List.not_mem_nil
  header _ h := absurd h List.not_mem_nil
  block _ h := absurd h List.not_mem_nil

/-- Two entries for one block are one entry. -/
theorem Owned.unique {s : PoolState} (h : Owned s) {t t' : TicketId} {b : Nat}
    (ht : (t, b) ∈ s.owned) (ht' : (t', b) ∈ s.owned) : t = t' := by
  have heq := List.inj_on_of_nodup_map h.once ht ht' rfl
  exact congrArg Prod.fst heq

/-- A ticket that is taken. -/
theorem owned_takeTicket {s s' : PoolState} (h : Owned s) (hs : s.step .takeTicket = some s') :
    ∃ b free, s.pool.freeBlocks = b :: free ∧
      s' = { s with
        pool := { s.pool with freeBlocks := free }.setTicket b ⟨sizeofTicket, b⟩
        live := b :: s.live, owned := (b, b) :: s.owned } ∧ Owned s' := by
  simp only [step, takeTicket, allocateBlock] at hs
  cases hfree : s.pool.freeBlocks with
  | nil => simp only [hfree, reduceCtorEq] at hs
  | cons b free =>
    simp only [hfree, Option.some.injEq] at hs
    subst hs
    have hnodup := h.free
    rw [hfree, List.nodup_cons] at hnodup
    have hb : b ∈ s.pool.freeBlocks := hfree ▸ List.mem_cons_self ..
    have hnew : ∀ t, (t, b) ∉ s.owned := fun t ht => h.notFree _ ht hb
    have hlive : b ∉ s.live := fun ht => hnew b (h.header b ht)
    refine ⟨b, free, rfl, rfl, ?_⟩
    constructor
    case free => exact hnodup.2
    case inside => exact fun c hc => h.inside c (hfree ▸ List.mem_cons_of_mem _ hc)
    case live => exact List.nodup_cons.2 ⟨hlive, h.live⟩
    case once =>
      refine List.nodup_cons.2 ⟨fun hmem => ?_, h.once⟩
      obtain ⟨⟨t, c⟩, hentry, rfl⟩ := List.mem_map.1 hmem
      exact hnew t hentry
    case bound =>
      intro entry hentry
      rcases List.mem_cons.1 hentry with rfl | hentry
      · exact h.inside b hb
      · exact h.bound entry hentry
    case notFree =>
      intro entry hentry
      rcases List.mem_cons.1 hentry with rfl | hentry
      · exact hnodup.1
      · exact fun hmem => h.notFree entry hentry (hfree ▸ List.mem_cons_of_mem _ hmem)
    case ofLive =>
      intro entry hentry
      rcases List.mem_cons.1 hentry with rfl | hentry
      · exact List.mem_cons_self ..
      · exact List.mem_cons_of_mem _ (h.ofLive entry hentry)
    case header =>
      intro id hid
      rcases List.mem_cons.1 hid with rfl | hid
      · exact List.mem_cons_self ..
      · exact List.mem_cons_of_mem _ (h.header id hid)
    case block =>
      intro id hid
      rcases List.mem_cons.1 hid with rfl | hid
      · simp only [setTicket, if_true]
        exact List.mem_cons_self ..
      · have hne : id ≠ b := fun heq => hlive (heq ▸ hid)
        simp only [setTicket, if_neg hne]
        exact List.mem_cons_of_mem _ (h.block id hid)

/-- An allocation that succeeds. -/
theorem step_allocate {s s' : PoolState} {id : TicketId} {size alignment : Nat}
    (hs : s.step (.allocate id size alignment) = some s') :
    id ∈ s.live ∧ ∃ blocks free address ticket, s.pool.freeBlocks = blocks ++ free ∧
      Allocates s.pool size alignment (s.pool.tickets id) blocks address ticket ∧
      s' = { s with
        pool := { s.pool with freeBlocks := free }.setTicket id ticket
        owned := blocks.map (id, ·) ++ s.owned
        ranges := ⟨id, address, size⟩ :: s.ranges } := by
  by_cases hlive : id ∈ s.live
  case neg => simp only [step, hlive, if_false, reduceCtorEq] at hs
  simp only [step, hlive, if_true, allocate] at hs
  cases hfrom : s.pool.allocateFrom size alignment (s.pool.tickets id) s.pool.freeBlocks with
  | none => simp only [hfrom, reduceCtorEq] at hs
  | some result =>
    obtain ⟨address, ticket, free⟩ := result
    obtain ⟨blocks, hfree, hallocates⟩ := allocateFrom_spec hfrom
    simp only [hfrom, Option.some.injEq] at hs
    subst hs
    refine ⟨hlive, blocks, free, address, ticket, hfree, hallocates, ?_⟩
    have htaken : taken s.pool.freeBlocks free = blocks := by
      rw [hfree, taken_append]
    simp only [setTicket, htaken]

/-- The block an allocation ends in is that of the ticket, or the last one it took. -/
theorem Allocates.block_mem {pool : MemoryPool} {size alignment address : Nat}
    {ticket ticket' : MemoryPoolTicket} {blocks : List Nat}
    (h : Allocates pool size alignment ticket blocks address ticket') :
    ticket'.block ∈ ticket.block :: blocks := by
  cases h with
  | stays _ => exact List.mem_cons_self ..
  | moves blocks _ _ =>
    exact List.mem_cons_of_mem _ (List.mem_append_right _ (List.mem_singleton_self _))

theorem owned_allocate {s s' : PoolState} (h : Owned s) {id : TicketId} {size alignment : Nat}
    (hs : s.step (.allocate id size alignment) = some s') : Owned s' := by
  obtain ⟨hlive, blocks, free, address, ticket, hfree, hallocates, rfl⟩ := step_allocate hs
  have hnodup := h.free
  rw [hfree, List.nodup_append] at hnodup
  obtain ⟨hblocks, hrest, hapart⟩ := hnodup
  have htaken : ∀ b ∈ blocks, b ∈ s.pool.freeBlocks := by
    intro b hb
    rw [hfree]
    exact List.mem_append_left _ hb
  have hnew : ∀ b ∈ blocks, ∀ t, (t, b) ∉ s.owned :=
    fun b hb t ht => h.notFree _ ht (htaken b hb)
  have hmap : (blocks.map fun b => (id, b)).map Prod.snd = blocks := by
    rw [List.map_map]
    exact List.map_id blocks
  constructor
  case free => exact hrest
  case inside =>
    intro b hb
    exact h.inside b (hfree ▸ List.mem_append_right _ hb)
  case live => exact h.live
  case once =>
    rw [List.map_append, hmap, List.nodup_append]
    refine ⟨hblocks, h.once, fun b hb c hc heq => ?_⟩
    subst heq
    obtain ⟨⟨t, c⟩, hentry, rfl⟩ := List.mem_map.1 hc
    exact hnew _ hb t hentry
  case bound =>
    intro entry hentry
    rcases List.mem_append.1 hentry with hentry | hentry
    · obtain ⟨b, hb, rfl⟩ := List.mem_map.1 hentry
      exact h.inside b (htaken b hb)
    · exact h.bound entry hentry
  case notFree =>
    intro entry hentry hmem
    rcases List.mem_append.1 hentry with hentry | hentry
    · obtain ⟨b, hb, rfl⟩ := List.mem_map.1 hentry
      exact hapart b hb b hmem rfl
    · exact h.notFree entry hentry (hfree ▸ List.mem_append_right _ hmem)
  case ofLive =>
    intro entry hentry
    rcases List.mem_append.1 hentry with hentry | hentry
    · obtain ⟨b, -, rfl⟩ := List.mem_map.1 hentry
      exact hlive
    · exact h.ofLive entry hentry
  case header => exact fun i hi => List.mem_append_right _ (h.header i hi)
  case block =>
    intro i hi
    by_cases heq : i = id
    · subst heq
      simp only [setTicket, if_true]
      rcases List.mem_cons.1 hallocates.block_mem with hsame | hmoved
      · rw [hsame]
        exact List.mem_append_right _ (h.block i hi)
      · exact List.mem_append_left _ (List.mem_map_of_mem hmoved)
    · simp only [setTicket, if_neg heq]
      exact List.mem_append_right _ (h.block i hi)

/-- A ticket that is returned. -/
theorem step_returnTicket {s s' : PoolState} {id : TicketId}
    (hs : s.step (.returnTicket id) = some s') :
    id ∈ s.live ∧ s' =
      { pool := s.pool.returnTicket id
        live := s.live.erase id
        owned := s.owned.filter (·.1 ≠ id)
        ranges := s.ranges.filter (·.ticket ≠ id) } := by
  by_cases hlive : id ∈ s.live
  · simp only [step, hlive, if_true, Option.some.injEq] at hs
    exact ⟨hlive, hs.symm⟩
  · simp only [step, hlive, if_false, reduceCtorEq] at hs

theorem owned_returnTicket {s s' : PoolState} (h : Owned s) {id : TicketId}
    (hs : s.step (.returnTicket id) = some s') : Owned s' := by
  obtain ⟨hlive, rfl⟩ := step_returnTicket hs
  have hblock := h.block id hlive
  have hlive' : ∀ i, i ∈ s.live.erase id ↔ i ≠ id ∧ i ∈ s.live :=
    fun i => h.live.mem_erase_iff
  have hkept : ∀ entry : TicketId × Nat, entry ∈ s.owned.filter (·.1 ≠ id) ↔
      entry ∈ s.owned ∧ entry.1 ≠ id := by
    intro entry
    rw [List.mem_filter, decide_eq_true_iff]
  constructor
  case free => exact List.nodup_cons.2 ⟨h.notFree _ hblock, h.free⟩
  case inside =>
    intro b hb
    rcases List.mem_cons.1 hb with rfl | hb
    · exact h.bound _ hblock
    · exact h.inside b hb
  case live => exact h.live.erase id
  case once => exact h.once.sublist ((List.filter_sublist (l := s.owned)).map Prod.snd)
  case bound => exact fun entry hentry => h.bound entry ((hkept entry).1 hentry).1
  case notFree =>
    intro entry hentry hmem
    obtain ⟨howned, hne⟩ := (hkept entry).1 hentry
    rcases List.mem_cons.1 hmem with heq | hmem
    · refine hne (h.unique (b := entry.2) howned ?_)
      rw [heq]
      exact hblock
    · exact h.notFree entry howned hmem
  case ofLive =>
    intro entry hentry
    obtain ⟨howned, hne⟩ := (hkept entry).1 hentry
    exact (hlive' _).2 ⟨hne, h.ofLive entry howned⟩
  case header =>
    intro i hi
    obtain ⟨hne, hi⟩ := (hlive' i).1 hi
    exact (hkept _).2 ⟨h.header i hi, hne⟩
  case block =>
    intro i hi
    obtain ⟨hne, hi⟩ := (hlive' i).1 hi
    exact (hkept _).2 ⟨h.block i hi, hne⟩

theorem owned_step {s s' : PoolState} (h : Owned s) {event : PoolEvent}
    (hs : s.step event = some s') : Owned s' := by
  cases event with
  | takeTicket =>
    obtain ⟨-, -, -, -, howned⟩ := owned_takeTicket h hs
    exact howned
  | allocate id size alignment => exact owned_allocate h hs
  | returnTicket id => exact owned_returnTicket h hs

/-- The pool stays where it is, with its blocks. -/
structure SameLayout (pool pool' : MemoryPool) : Prop where
  blockSize : pool'.blockSize = pool.blockSize
  totalSize : pool'.totalSize = pool.totalSize
  start : pool'.startAddressOfPool = pool.startAddressOfPool

theorem SameLayout.trans {pool pool' pool'' : MemoryPool} (h : SameLayout pool pool')
    (h' : SameLayout pool' pool'') : SameLayout pool pool'' :=
  ⟨h'.blockSize.trans h.blockSize, h'.totalSize.trans h.totalSize, h'.start.trans h.start⟩

theorem sameLayout_step {s s' : PoolState} (h : Owned s) {event : PoolEvent}
    (hs : s.step event = some s') : SameLayout s.pool s'.pool := by
  cases event with
  | takeTicket =>
    obtain ⟨b, free, -, rfl, -⟩ := owned_takeTicket h hs
    exact ⟨rfl, rfl, rfl⟩
  | allocate id size alignment =>
    obtain ⟨-, blocks, free, address, ticket, -, -, rfl⟩ := step_allocate hs
    exact ⟨rfl, rfl, rfl⟩
  | returnTicket id =>
    obtain ⟨-, rfl⟩ := step_returnTicket hs
    exact ⟨rfl, rfl, rfl⟩

/-- A run keeps what every event keeps where its condition holds. -/
theorem run_induction {I : PoolState → Prop} {p : PoolState → PoolEvent → Prop}
    (hstep : ∀ s s' event, Owned s → I s → p s event → s.step event = some s' → I s')
    {s s' : PoolState} {events : List PoolEvent} (howned : Owned s) (hI : I s)
    (hp : Along p s events) (hs : s.run events = some s') : Owned s' ∧ I s' := by
  induction events generalizing s with
  | nil =>
    obtain rfl := Option.some.inj hs
    exact ⟨howned, hI⟩
  | cons event events ih =>
    cases h : s.step event with
    | none => simp only [run, h, reduceCtorEq] at hs
    | some s₁ =>
      simp only [run, h] at hs
      simp only [Along, h] at hp
      exact ih (owned_step howned h) (hstep s s₁ event howned hI hp.1 h) hp.2 hs

theorem along_true (s : PoolState) (events : List PoolEvent) : Along (fun _ _ => True) s events := by
  induction events generalizing s with
  | nil => trivial
  | cons event events ih =>
    refine ⟨trivial, ?_⟩
    cases s.step event with
    | none => trivial
    | some s₁ => exact ih s₁

theorem sameLayout_run {s s' : PoolState} (howned : Owned s) {events : List PoolEvent}
    (hs : s.run events = some s') : Owned s' ∧ SameLayout s.pool s'.pool := by
  refine run_induction (I := fun t => SameLayout s.pool t.pool) (p := fun _ _ => True) ?_ howned
    ⟨rfl, rfl, rfl⟩ (along_true s events) hs
  intro t t' event ht hlayout _ hstep
  exact hlayout.trans (sameLayout_step ht hstep)

/-! ## Blocks come back -/

/-- An allocation does not go on to another block. -/
def Fits (s : PoolState) : PoolEvent → Prop
  | .allocate id size alignment =>
    s.pool.nextOffset size alignment (s.pool.tickets id) ≤ s.pool.blockSize
  | _ => True

instance (s : PoolState) (event : PoolEvent) : Decidable (Fits s event) := by
  unfold Fits
  split <;> infer_instance

/-- The blocks that are free or will be when the live tickets are returned. -/
def recoverable (s : PoolState) : Nat := s.pool.freeBlocks.length + s.live.length

/-- An event that leaves the block of its ticket loses blocks, and no other does. -/
theorem recoverable_step {s s' : PoolState} (h : Owned s) {event : PoolEvent}
    (hs : s.step event = some s') :
    s'.recoverable ≤ s.recoverable ∧ (s'.recoverable = s.recoverable ↔ Fits s event) := by
  cases event with
  | takeTicket =>
    obtain ⟨b, free, hfree, rfl, -⟩ := owned_takeTicket h hs
    have heq : free.length + (s.live.length + 1) = s.pool.freeBlocks.length + s.live.length := by
      rw [hfree, List.length_cons]
      omega
    exact ⟨Nat.le_of_eq heq, iff_of_true heq trivial⟩
  | returnTicket id =>
    obtain ⟨hlive, rfl⟩ := step_returnTicket hs
    have hpos := List.length_pos_of_mem hlive
    have heq : (s.pool.freeBlocks.length + 1) + (s.live.erase id).length =
        s.pool.freeBlocks.length + s.live.length := by
      rw [List.length_erase_of_mem hlive]
      omega
    exact ⟨Nat.le_of_eq heq, iff_of_true heq trivial⟩
  | allocate id size alignment =>
    obtain ⟨-, blocks, free, address, ticket, hfree, hallocates, rfl⟩ := step_allocate hs
    have hlength : s.pool.freeBlocks.length = blocks.length + free.length := by
      rw [hfree, List.length_append]
    have hrecoverable : free.length + s.live.length + blocks.length = s.recoverable := by
      rw [recoverable, hlength]
      omega
    show free.length + s.live.length ≤ _ ∧ (free.length + s.live.length = _ ↔ _)
    cases hallocates with
    | stays hfits =>
      rw [List.length_nil] at hrecoverable
      exact ⟨by omega, iff_of_true (by omega) hfits⟩
    | moves blocks hfull _ =>
      rw [List.length_append, List.length_singleton] at hrecoverable
      exact ⟨by omega, iff_of_false (by omega) (Nat.not_le.2 hfull)⟩

theorem recoverable_run {s s' : PoolState} (h : Owned s) {events : List PoolEvent}
    (hs : s.run events = some s') :
    s'.recoverable ≤ s.recoverable ∧ (s'.recoverable = s.recoverable ↔ Along Fits s events) := by
  induction events generalizing s with
  | nil =>
    obtain rfl := Option.some.inj hs
    exact ⟨Nat.le_refl _, iff_of_true rfl trivial⟩
  | cons event events ih =>
    cases hstep : s.step event with
    | none => simp only [run, hstep, reduceCtorEq] at hs
    | some s₁ =>
      simp only [run, hstep] at hs
      obtain ⟨hle, hiff⟩ := recoverable_step h hstep
      obtain ⟨hle', hiff'⟩ := ih (owned_step h hstep) hs
      refine ⟨Nat.le_trans hle' hle, ?_⟩
      simp only [Along, hstep]
      rw [← hiff, ← hiff']
      constructor
      · intro heq
        exact ⟨by omega, by omega⟩
      · rintro ⟨heq, heq'⟩
        exact heq'.trans heq

/-- Once every ticket is returned, every block is free again exactly when no allocation went on to
another block. -/
theorem conserved_iff_fits {totalSize blockSize startAddress : Nat} {events : List PoolEvent}
    {s : PoolState} (hrun : (fresh totalSize blockSize startAddress).run events = some s)
    (hreturned : s.live = []) :
    s.pool.freeBlocks.Perm (List.range (totalSize / blockSize)) ↔
      Along Fits (fresh totalSize blockSize startAddress) events := by
  have hfresh := owned_fresh totalSize blockSize startAddress
  obtain ⟨howned, hlayout⟩ := sameLayout_run hfresh hrun
  obtain ⟨-, hiff⟩ := recoverable_run hfresh hrun
  have hstart : (fresh totalSize blockSize startAddress).recoverable = totalSize / blockSize := by
    simp [recoverable, fresh, create, reset, blocks]
  have hblocks : s.pool.blocks = totalSize / blockSize := by
    rw [blocks, hlayout.blockSize, hlayout.totalSize]
    rfl
  have hend : s.recoverable = s.pool.freeBlocks.length := by
    rw [recoverable, hreturned, List.length_nil, Nat.add_zero]
  rw [← hiff, hstart, hend]
  constructor
  · intro hperm
    rw [hperm.length_eq, List.length_range]
  · intro hlength
    have hsubset : s.pool.freeBlocks ⊆ List.range (totalSize / blockSize) := by
      intro b hb
      rw [List.mem_range, ← hblocks]
      exact howned.inside b hb
    refine (List.Nodup.subperm howned.free hsubset).perm_of_length_le (Nat.le_of_eq ?_)
    rw [hlength, List.length_range]

/-- Two tickets, each used inside its block. -/
theorem conserved_of_small_allocations : ∃ s : PoolState,
    (fresh 128 32 4096).run [.takeTicket, .allocate 3 8 8, .takeTicket, .allocate 2 16 4,
      .returnTicket 3, .returnTicket 2] = some s ∧ s.live = [] ∧
      s.pool.freeBlocks.Perm (List.range (128 / 32)) := by
  have hrun := Option.some_get (x := (fresh 128 32 4096).run [.takeTicket, .allocate 3 8 8,
    .takeTicket, .allocate 2 16 4, .returnTicket 3, .returnTicket 2]) (by decide +kernel)
  exact ⟨_, hrun.symm, by decide +kernel,
    (conserved_iff_fits hrun.symm (by decide +kernel)).2 (by decide +kernel)⟩

/-- A ticket that goes on to a second block returns only that one. -/
theorem not_conserved_of_spill : ∃ s : PoolState,
    (fresh 128 32 4096).run [.takeTicket, .allocate 3 24 8, .returnTicket 3] = some s ∧
      s.live = [] ∧ ¬ s.pool.freeBlocks.Perm (List.range (128 / 32)) := by
  have hrun := Option.some_get (x := (fresh 128 32 4096).run
    [.takeTicket, .allocate 3 24 8, .returnTicket 3]) (by decide +kernel)
  refine ⟨_, hrun.symm, by decide +kernel, fun hperm => ?_⟩
  exact absurd hperm.length_eq (by decide +kernel)

/-! ## Bytes stay apart -/

/-- The address a block starts at. -/
def blockStart (pool : MemoryPool) (block : Nat) : Nat :=
  pool.startAddressOfPool + block * pool.blockSize

/-- The bytes of a ticket. -/
def headerRange (pool : MemoryPool) (id : TicketId) : ByteRange :=
  ⟨id, blockStart pool id, sizeofTicket⟩

/-- What no ticket does to another: blocks that are owned are not free and have one owner, and the
byte ranges lie apart from each other and from the tickets, each inside one block of the pool. -/
structure Isolated (s : PoolState) : Prop where
  notFree : ∀ entry ∈ s.owned, entry.2 ∉ s.pool.freeBlocks
  oneOwner : ∀ t t' b, (t, b) ∈ s.owned → (t', b) ∈ s.owned → t = t'
  apart : s.ranges.Pairwise ByteRange.Apart
  headers : ∀ r ∈ s.ranges, ∀ id ∈ s.live, r.Apart (headerRange s.pool id)
  inBlock : ∀ r ∈ s.ranges, ∃ b < s.pool.blocks, blockStart s.pool b ≤ r.address ∧
    r.address + r.size ≤ blockStart s.pool b + s.pool.blockSize
  inPool : ∀ r ∈ s.ranges, s.pool.startAddressOfPool ≤ r.address ∧
    r.address + r.size ≤ s.pool.startAddressOfPool + s.pool.totalSize

/-- The range lies in a block of its ticket, after the ticket where that is the block it lies in, and
before what the ticket will give out next. -/
def Inside (s : PoolState) (r : ByteRange) (b : Nat) : Prop :=
  (r.ticket, b) ∈ s.owned ∧
    blockStart s.pool b + (if b = r.ticket then sizeofTicket else 0) ≤ r.address ∧
    r.address + r.size ≤ blockStart s.pool b + s.pool.blockSize ∧
    ((s.pool.tickets r.ticket).block = b →
      r.address + r.size ≤ blockStart s.pool b + (s.pool.tickets r.ticket).offset)

/-- The invariant about bytes. -/
structure Placed (s : PoolState) : Prop where
  ticketFits : sizeofTicket ≤ s.pool.blockSize
  addresses : s.pool.startAddressOfPool + s.pool.totalSize < 2 ^ 64
  offset : ∀ id ∈ s.live, (s.pool.tickets id).offset ≤ s.pool.blockSize
  afterTicket : ∀ id ∈ s.live, (s.pool.tickets id).block = id →
    sizeofTicket ≤ (s.pool.tickets id).offset
  inside : ∀ r ∈ s.ranges, ∃ b, Inside s r b
  apart : s.ranges.Pairwise ByteRange.Apart

/-- A block of the pool ends in the pool. -/
theorem blockStart_add_le {pool : MemoryPool} {b : Nat} (h : b < pool.blocks) :
    blockStart pool b + pool.blockSize ≤ pool.startAddressOfPool + pool.totalSize := by
  have hmul : (b + 1) * pool.blockSize ≤ pool.blocks * pool.blockSize :=
    Nat.mul_le_mul_right _ h
  have hdiv : pool.blocks * pool.blockSize ≤ pool.totalSize := Nat.div_mul_le_self _ _
  rw [Nat.add_mul, Nat.one_mul] at hmul
  simp only [blockStart]
  omega

/-- Blocks do not overlap. -/
theorem blockStart_le (pool : MemoryPool) {b b' : Nat} (h : b < b') :
    blockStart pool b + pool.blockSize ≤ blockStart pool b' := by
  have hmul : (b + 1) * pool.blockSize ≤ b' * pool.blockSize := Nat.mul_le_mul_right _ h
  rw [Nat.add_mul, Nat.one_mul] at hmul
  simp only [blockStart]
  omega

/-- Ranges in two blocks lie apart. -/
theorem apart_of_blocks (pool : MemoryPool) {r r' : ByteRange} {b b' : Nat} (hne : b ≠ b')
    (hstart : blockStart pool b ≤ r.address)
    (hstop : r.address + r.size ≤ blockStart pool b + pool.blockSize)
    (hstart' : blockStart pool b' ≤ r'.address)
    (hstop' : r'.address + r'.size ≤ blockStart pool b' + pool.blockSize) : r.Apart r' := by
  rcases Nat.lt_or_gt_of_ne hne with hlt | hgt
  · have hle := blockStart_le pool hlt
    exact .inl (by omega)
  · have hle := blockStart_le pool hgt
    exact .inr (by omega)

theorem isolated_of_placed {s : PoolState} (howned : Owned s) (h : Placed s) : Isolated s where
  notFree := howned.notFree
  oneOwner _ _ _ ht ht' := howned.unique ht ht'
  apart := h.apart
  headers r hr id hid := by
    obtain ⟨b, hmem, hstart, hstop, -⟩ := h.inside r hr
    have hfits := h.ticketFits
    by_cases hb : b = id
    · -- the block of the ticket `id` is owned by the ticket of the range, which is `id`
      subst hb
      obtain rfl : r.ticket = b := howned.unique hmem (howned.header b hid)
      rw [if_pos rfl] at hstart
      exact .inr hstart
    · refine apart_of_blocks s.pool hb (by omega) hstop (Nat.le_refl _) ?_
      exact Nat.add_le_add_left hfits _
  inBlock r hr := by
    obtain ⟨b, hmem, hstart, hstop, -⟩ := h.inside r hr
    exact ⟨b, howned.bound _ hmem, by omega, hstop⟩
  inPool r hr := by
    obtain ⟨b, hmem, hstart, hstop, -⟩ := h.inside r hr
    have hle : blockStart s.pool b + s.pool.blockSize ≤ _ :=
      blockStart_add_le (howned.bound _ hmem)
    have hge : s.pool.startAddressOfPool ≤ blockStart s.pool b := Nat.le_add_right _ _
    exact ⟨by omega, by omega⟩

/-- The size of an allocation and what comes before it are added up without wrapping around. -/
def NoWrap (s : PoolState) : PoolEvent → Prop
  | .allocate id size alignment =>
    (s.pool.tickets id).offset + s.pool.padding alignment (s.pool.tickets id) + size < 2 ^ 64
  | _ => True

instance (s : PoolState) (event : PoolEvent) : Decidable (NoWrap s event) := by
  unfold NoWrap
  split <;> infer_instance

/-- The size of an allocation is one of a `std::size_t`, and added up without wrapping around where it
is taken to fit. -/
def InRange (s : PoolState) : PoolEvent → Prop
  | .allocate id size alignment =>
    size < 2 ^ 64 ∧ (Fits s (.allocate id size alignment) → NoWrap s (.allocate id size alignment))
  | _ => True

theorem inRange_of_noWrap {s : PoolState} {event : PoolEvent} (h : NoWrap s event) :
    InRange s event := by
  cases event with
  | allocate id size alignment => exact ⟨Nat.lt_of_le_of_lt (Nat.le_add_left _ _) h, fun _ => h⟩
  | takeTicket => trivial
  | returnTicket id => trivial

/-- Where a range comes from: the block of the ticket after the allocation, the offset before it and
the one after it. -/
theorem Allocates.range {s : PoolState} (howned : Owned s) (h : Placed s) {id : TicketId}
    (hid : id ∈ s.live) {size alignment address : Nat}
    (hwrap : InRange s (.allocate id size alignment)) {blocks free : List Nat}
    (hfree : s.pool.freeBlocks = blocks ++ free) {ticket : MemoryPoolTicket}
    (hallocates : Allocates s.pool size alignment (s.pool.tickets id) blocks address ticket) :
    ∃ start, address = blockStart s.pool ticket.block + start ∧ start + size ≤ ticket.offset ∧
      ticket.offset ≤ s.pool.blockSize ∧ (ticket.block = id → sizeofTicket ≤ start) ∧
      ((blocks = [] ∧ ticket.block = (s.pool.tickets id).block ∧
          start = (s.pool.tickets id).offset) ∨ ticket.block ∈ blocks) := by
  obtain ⟨hsize, hsum⟩ := hwrap
  have haddress := h.addresses
  cases hallocates with
  | stays hfits =>
    have hsum : (s.pool.tickets id).offset + s.pool.padding alignment (s.pool.tickets id) + size <
        2 ^ 64 := hsum hfits
    have hle : blockStart s.pool (s.pool.tickets id).block + s.pool.blockSize ≤ _ :=
      blockStart_add_le (howned.bound _ (howned.block id hid))
    have hoffset := h.offset id hid
    have hnext : s.pool.nextOffset size alignment (s.pool.tickets id) =
        (s.pool.tickets id).offset + s.pool.padding alignment (s.pool.tickets id) + size :=
      Nat.mod_eq_of_lt hsum
    refine ⟨(s.pool.tickets id).offset, ?_, ?_, hfits, h.afterTicket id hid, .inl ⟨rfl, rfl, rfl⟩⟩
    · refine Nat.mod_eq_of_lt ?_
      simp only [blockStart] at hle
      omega
    · show (s.pool.tickets id).offset + size ≤ s.pool.nextOffset size alignment (s.pool.tickets id)
      omega
  | @moves blocks block hfull hfits =>
    have hmem : block ∈ s.pool.freeBlocks := by
      rw [hfree]
      exact List.mem_append_left _ (List.mem_append_right _ (List.mem_singleton_self _))
    have hle : blockStart s.pool block + s.pool.blockSize ≤ _ :=
      blockStart_add_le (howned.inside block hmem)
    have hpadding : s.pool.padding alignment ⟨0, block⟩ = 0 := by
      simp only [padding, Nat.zero_mod, ne_eq, not_true_eq_false, and_false, if_false]
    have hnext : s.pool.nextOffset size alignment ⟨0, block⟩ = size := by
      simp only [nextOffset, hpadding, Nat.zero_add]
      exact Nat.mod_eq_of_lt hsize
    refine ⟨0, ?_, ?_, hfits, ?_, ?_⟩
    · simp only [currentAddress, Nat.add_zero]
      refine Nat.mod_eq_of_lt ?_
      simp only [blockStart] at hle
      omega
    · show 0 + size ≤ s.pool.nextOffset size alignment ⟨0, block⟩
      omega
    · intro heq
      have heq : block = id := heq
      exact absurd hmem (heq ▸ howned.notFree _ (howned.header id hid))
    · exact .inr (List.mem_append_right _ (List.mem_singleton_self _))

theorem placed_step {s s' : PoolState} (howned : Owned s) (h : Placed s) {event : PoolEvent}
    (hwrap : InRange s event) (hs : s.step event = some s') : Placed s' := by
  cases event with
  | takeTicket =>
    obtain ⟨b, free, hfree, rfl, -⟩ := owned_takeTicket howned hs
    have hb : b ∈ s.pool.freeBlocks := hfree ▸ List.mem_cons_self ..
    have hold : ∀ id ∈ s.live, id ≠ b := by
      rintro id hid rfl
      exact howned.notFree _ (howned.header id hid) hb
    constructor
    case ticketFits => exact h.ticketFits
    case addresses => exact h.addresses
    case offset =>
      intro id hid
      rcases List.mem_cons.1 hid with rfl | hid
      · simp only [setTicket, if_true]
        exact h.ticketFits
      · simp only [setTicket, if_neg (hold id hid)]
        exact h.offset id hid
    case afterTicket =>
      intro id hid
      rcases List.mem_cons.1 hid with rfl | hid
      · simp only [setTicket, if_true]
        exact fun _ => Nat.le_refl _
      · simp only [setTicket, if_neg (hold id hid)]
        exact h.afterTicket id hid
    case inside =>
      intro r hr
      obtain ⟨c, hmem, hstart, hstop, hnext⟩ := h.inside r hr
      have hne : r.ticket ≠ b := hold _ (howned.ofLive _ hmem)
      refine ⟨c, List.mem_cons_of_mem _ hmem, hstart, hstop, ?_⟩
      simp only [setTicket, if_neg hne]
      exact hnext
    case apart => exact h.apart
  | allocate id size alignment =>
    obtain ⟨hid, blocks, free, address, ticket, hfree, hallocates, rfl⟩ := step_allocate hs
    obtain ⟨start, haddress, hend, hoffset, hafter, hplace⟩ :=
      hallocates.range howned h hid hwrap hfree
    -- an old range in the block of the new one was given to the same ticket, and ends before it
    have hbefore : ∀ r ∈ s.ranges, ∀ c, Inside s r c → c = ticket.block →
        r.ticket = id ∧ r.address + r.size ≤ blockStart s.pool c + start := by
      rintro r hr c ⟨hmem, hstart, hstop, hnext⟩ rfl
      rcases hplace with ⟨-, hblock, rfl⟩ | hmoved
      · have howner := howned.block id hid
        rw [← hblock] at howner
        obtain heq : r.ticket = id := howned.unique hmem howner
        rw [heq] at hnext
        exact ⟨heq, hnext hblock.symm⟩
      · refine absurd ?_ (howned.notFree _ hmem)
        rw [hfree]
        exact List.mem_append_left _ hmoved
    constructor
    case ticketFits => exact h.ticketFits
    case addresses => exact h.addresses
    case offset =>
      intro i hi
      by_cases heq : i = id
      · subst heq
        simp only [setTicket, if_true]
        exact hoffset
      · simp only [setTicket, if_neg heq]
        exact h.offset i hi
    case afterTicket =>
      intro i hi
      by_cases heq : i = id
      · subst heq
        simp only [setTicket, if_true]
        intro hblock
        have hle := hafter hblock
        omega
      · simp only [setTicket, if_neg heq]
        exact h.afterTicket i hi
    case inside =>
      intro r hr
      rcases List.mem_cons.1 hr with rfl | hr
      · refine ⟨ticket.block, ?_, ?_, ?_, ?_⟩
        · rcases List.mem_cons.1 hallocates.block_mem with hsame | hmoved
          · rw [hsame]
            exact List.mem_append_right _ (howned.block id hid)
          · exact List.mem_append_left _ (List.mem_map_of_mem hmoved)
        · show blockStart s.pool ticket.block + _ ≤ address
          rw [haddress]
          refine Nat.add_le_add_left ?_ _
          split
          · next hheader => exact hafter hheader
          · exact Nat.zero_le _
        · show address + size ≤ blockStart s.pool ticket.block + s.pool.blockSize
          omega
        · simp only [setTicket, if_true]
          intro _
          show address + size ≤ blockStart s.pool ticket.block + ticket.offset
          omega
      · obtain ⟨c, hinside⟩ := h.inside r hr
        have hparts := hinside
        obtain ⟨hmem, hstart, hstop, hnext⟩ := hparts
        refine ⟨c, List.mem_append_right _ hmem, hstart, hstop, ?_⟩
        by_cases heq : r.ticket = id
        · simp only [setTicket, if_pos heq]
          intro hblock
          have hle := (hbefore r hr c hinside hblock.symm).2
          show r.address + r.size ≤ blockStart s.pool c + ticket.offset
          omega
        · simp only [setTicket, if_neg heq]
          exact hnext
    case apart =>
      refine List.pairwise_cons.2 ⟨fun r hr => ?_, h.apart⟩
      obtain ⟨c, hinside⟩ := h.inside r hr
      by_cases heq : c = ticket.block
      · have hle := (hbefore r hr c hinside heq).2
        refine .inr ?_
        show r.address + r.size ≤ address
        rw [haddress, ← heq]
        exact hle
      · obtain ⟨-, hstart, hstop, -⟩ := hinside
        refine apart_of_blocks s.pool (Ne.symm heq) ?_ ?_ (by omega) hstop
        · show blockStart s.pool ticket.block ≤ address
          omega
        · show address + size ≤ blockStart s.pool ticket.block + s.pool.blockSize
          omega
  | returnTicket id =>
    obtain ⟨hid, rfl⟩ := step_returnTicket hs
    have hlive : ∀ i ∈ s.live.erase id, i ∈ s.live := fun i hi => List.mem_of_mem_erase hi
    constructor
    case ticketFits => exact h.ticketFits
    case addresses => exact h.addresses
    case offset => exact fun i hi => h.offset i (hlive i hi)
    case afterTicket => exact fun i hi => h.afterTicket i (hlive i hi)
    case inside =>
      intro r hr
      obtain ⟨hr, hne⟩ := List.mem_filter.1 hr
      obtain ⟨b, hmem, hrest⟩ := h.inside r hr
      exact ⟨b, List.mem_filter.2 ⟨hmem, hne⟩, hrest⟩
    case apart => exact h.apart.sublist List.filter_sublist

theorem placed_fresh {totalSize blockSize startAddress : Nat} (hblock : sizeofTicket ≤ blockSize)
    (haddress : startAddress + totalSize < 2 ^ 64) :
    Placed (fresh totalSize blockSize startAddress) where
  ticketFits := hblock
  addresses := haddress
  offset _ h := absurd h List.not_mem_nil
  afterTicket _ h := absurd h List.not_mem_nil
  inside _ h := absurd h List.not_mem_nil
  apart := List.Pairwise.nil

/-- In every run of a pool whose allocations do not wrap around, the tickets are isolated. -/
theorem isolated_of_noWrap {totalSize blockSize startAddress : Nat}
    (hblock : sizeofTicket ≤ blockSize) (haddress : startAddress + totalSize < 2 ^ 64)
    {events : List PoolEvent} {s : PoolState}
    (hrun : (fresh totalSize blockSize startAddress).run events = some s)
    (hwrap : Along NoWrap (fresh totalSize blockSize startAddress) events) : Isolated s := by
  obtain ⟨howned, hplaced⟩ := run_induction (I := Placed) (p := NoWrap)
    (fun _ _ _ howned hplaced hwrap hstep =>
      placed_step howned hplaced (inRange_of_noWrap hwrap) hstep)
    (owned_fresh totalSize blockSize startAddress) (placed_fresh hblock haddress) hwrap hrun
  exact isolated_of_placed howned hplaced

/-- Two tickets in turn, the first of which goes on to a second block. -/
theorem isolated_of_two_tickets : ∃ s : PoolState,
    (fresh 128 32 4096).run [.takeTicket, .takeTicket, .allocate 3 8 8, .allocate 2 9 4,
      .allocate 3 24 8, .allocate 2 4 4, .returnTicket 2] = some s ∧ Isolated s := by
  have hrun := Option.some_get (x := (fresh 128 32 4096).run [.takeTicket, .takeTicket,
    .allocate 3 8 8, .allocate 2 9 4, .allocate 3 24 8, .allocate 2 4 4, .returnTicket 2])
    (by decide +kernel)
  exact ⟨_, hrun.symm, isolated_of_noWrap (by decide) (by decide) hrun.symm (by decide +kernel)⟩

/-- A size at which the sum wraps around to a small offset is taken to fit. -/
theorem not_isolated_of_wrap : ∃ s : PoolState,
    (fresh 128 32 4096).run [.takeTicket, .allocate 3 (2 ^ 64 - 10) 0] = some s ∧
      ¬ Isolated s := by
  have hrun := Option.some_get (x := (fresh 128 32 4096).run
    [.takeTicket, .allocate 3 (2 ^ 64 - 10) 0]) (by decide +kernel)
  refine ⟨_, hrun.symm, fun hisolated => ?_⟩
  have hrange : (((fresh 128 32 4096).run [.takeTicket, .allocate 3 (2 ^ 64 - 10) 0]).get
      (by decide +kernel)).ranges = [⟨3, 4208, 2 ^ 64 - 10⟩] := by decide +kernel
  have hmem : (⟨3, 4208, 2 ^ 64 - 10⟩ : ByteRange) ∈ (((fresh 128 32 4096).run
      [.takeTicket, .allocate 3 (2 ^ 64 - 10) 0]).get (by decide +kernel)).ranges := by
    rw [hrange]
    exact List.mem_singleton.2 rfl
  have hpool := (hisolated.inPool _ hmem).2
  revert hpool
  decide +kernel

end PoolState

end Flashpoint
