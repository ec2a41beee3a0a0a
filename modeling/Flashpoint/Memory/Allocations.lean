import Flashpoint.Memory.Tickets

/-!
# Alignment and exhaustion

`Allocate` pads the offset of a ticket up to the alignment that is asked for and gives out the address
before the padding, so that what it returns is aligned exactly where the ticket stood at a multiple
of the alignment, or had to go on to a fresh block (`alignedAlong_iff`). A request that a fresh block
cannot take either goes on from block to block until the stack is empty, and the sentinel it waits for
is never pushed: the calls that end in an orderly way are those that are served (`orderly_iff`).
-/

namespace Flashpoint

namespace PoolState

open MemoryPool

/-! ## Alignment -/

/-- The size is one of a `std::size_t`, and the alignment is at most that of the pool and of its
blocks. -/
def IsAlignable (startAddressOfPool blockSize : Nat) : PoolEvent → Prop
  | .allocate _ size alignment =>
    size < 2 ^ 64 ∧ alignment ∣ startAddressOfPool ∧ alignment ∣ blockSize
  | _ => True

instance (startAddressOfPool blockSize : Nat) : DecidablePred (IsAlignable startAddressOfPool blockSize)
  | .allocate _ size alignment => inferInstanceAs (Decidable (size < 2 ^ 64 ∧
      alignment ∣ startAddressOfPool ∧ alignment ∣ blockSize))
  | .takeTicket => inferInstanceAs (Decidable True)
  | .returnTicket _ => inferInstanceAs (Decidable True)

/-- The address that an allocation returns is aligned, and its bytes lie before the new offset of the
ticket. -/
def AllocatesAligned (s : PoolState) (event : PoolEvent) : Prop :=
  match event, s.step event with
  | .allocate id _ alignment, some s' => ∀ r ∈ s'.ranges.head?, alignment ∣ r.address ∧
      r.address + r.size ≤
        blockStart s'.pool (s'.pool.tickets id).block + (s'.pool.tickets id).offset
  | _, _ => True

instance (s : PoolState) : DecidablePred (AllocatesAligned s)
  | .allocate id size alignment =>
    decidable_of_iff (∀ s' ∈ s.step (.allocate id size alignment), ∀ r ∈ s'.ranges.head?,
      alignment ∣ r.address ∧ r.address + r.size ≤
        blockStart s'.pool (s'.pool.tickets id).block + (s'.pool.tickets id).offset)
      (by unfold AllocatesAligned; cases s.step (.allocate id size alignment) <;> simp)
  | .takeTicket => isTrue (by unfold AllocatesAligned; trivial)
  | .returnTicket _ => isTrue (by unfold AllocatesAligned; trivial)

/-- A request that is served from the block of the ticket finds the offset aligned, and its size does
not wrap around. -/
def OffsetAligned (s : PoolState) : PoolEvent → Prop
  | .allocate id size alignment => id ∈ s.live → Fits s (.allocate id size alignment) →
      alignment ∣ (s.pool.tickets id).offset ∧ (s.pool.tickets id).offset + size < 2 ^ 64
  | _ => True

instance (s : PoolState) : DecidablePred (OffsetAligned s)
  | .allocate id size alignment => inferInstanceAs (Decidable (id ∈ s.live →
      Fits s (.allocate id size alignment) →
        alignment ∣ (s.pool.tickets id).offset ∧ (s.pool.tickets id).offset + size < 2 ^ 64))
  | .takeTicket => inferInstanceAs (Decidable True)
  | .returnTicket _ => inferInstanceAs (Decidable True)

theorem padding_eq_zero {pool : MemoryPool} {alignment : Nat} {ticket : MemoryPoolTicket}
    (h : alignment ∣ ticket.offset) : pool.padding alignment ticket = 0 := by
  have hmod : ticket.offset % alignment = 0 := Nat.mod_eq_zero_of_dvd h
  simp only [padding, hmod, ne_eq, not_true_eq_false, and_false, if_false]

/-- The address of a ticket inside its block. -/
theorem currentAddress_eq {s : PoolState} (h : Placed s) {ticket : MemoryPoolTicket}
    (hblock : ticket.block < s.pool.blocks) (hoffset : ticket.offset ≤ s.pool.blockSize) :
    s.pool.currentAddress ticket = blockStart s.pool ticket.block + ticket.offset := by
  have hle := blockStart_add_le hblock
  have haddress := h.addresses
  refine Nat.mod_eq_of_lt ?_
  unfold blockStart at hle
  omega

section

variable {s : PoolState} (howned : Owned s) (h : Placed s) {id : TicketId} {size alignment : Nat}
  (hrequest : IsAlignable s.pool.startAddressOfPool s.pool.blockSize (.allocate id size alignment))

include hrequest in
theorem dvd_blockStart {block : Nat} : alignment ∣ blockStart s.pool block :=
  Nat.dvd_add hrequest.2.1 (Nat.dvd_mul_left_of_dvd hrequest.2.2 block)

include howned h hrequest

/-- What an allocation gives out is aligned, with its bytes before the offset, exactly if it was moved
to a fresh block, or the offset was aligned and the sum does not wrap around. -/
theorem allocates_iff (hid : id ∈ s.live) {blocks free : List Nat}
    (hfree : s.pool.freeBlocks = blocks ++ free) {address : Nat} {ticket : MemoryPoolTicket}
    (hallocates : Allocates s.pool size alignment (s.pool.tickets id) blocks address ticket) :
    (alignment ∣ address ∧ address + size ≤ blockStart s.pool ticket.block + ticket.offset) ↔
      OffsetAligned s (.allocate id size alignment) := by
  cases hallocates with
  | stays hfits =>
    rw [currentAddress_eq h (howned.bound _ (howned.block id hid)) (h.offset id hid),
      Nat.dvd_add_right (dvd_blockStart hrequest), Nat.add_assoc, Nat.add_le_add_iff_left]
    have hstays : OffsetAligned s (.allocate id size alignment) ↔
        alignment ∣ (s.pool.tickets id).offset ∧ (s.pool.tickets id).offset + size < 2 ^ 64 :=
      ⟨fun hall => hall hid hfits, fun haligned _ _ => haligned⟩
    rw [hstays]
    refine and_congr_right fun hdvd => ?_
    dsimp only [nextOffset]
    rw [padding_eq_zero hdvd, Nat.add_zero]
    constructor
    · intro hle
      exact Nat.lt_of_le_of_lt hle (Nat.mod_lt _ (by decide))
    · intro hlt
      exact Nat.le_of_eq (Nat.mod_eq_of_lt hlt).symm
  | @moves blocks block hfull hfits =>
    have hblock : block ∈ s.pool.freeBlocks := by
      rw [hfree]
      exact List.mem_append_left _ (List.mem_append_right _ (List.mem_singleton_self _))
    refine iff_of_true ?_ fun _ hstays => absurd hstays (Nat.not_le.2 hfull)
    rw [currentAddress_eq h (howned.inside block hblock) (Nat.zero_le _)]
    refine ⟨dvd_blockStart hrequest, Nat.add_le_add_left ?_ _⟩
    dsimp only [nextOffset]
    rw [padding_eq_zero (Nat.dvd_zero _), Nat.zero_add]
    exact Nat.le_of_eq (Nat.mod_eq_of_lt hrequest.1).symm

end

/-- A request that fits into the block of a live ticket is served. -/
theorem step_ne_none_of_fits {s : PoolState} {id : TicketId} {size alignment : Nat}
    (hid : id ∈ s.live) (hfits : Fits s (.allocate id size alignment)) :
    s.step (.allocate id size alignment) ≠ none := by
  unfold step allocate
  dsimp only
  rw [if_pos hid]
  unfold allocateFrom
  rw [if_neg (Nat.not_lt.2 hfits)]
  exact Option.some_ne_none _

theorem allocatesAligned_iff {s : PoolState} (howned : Owned s) (h : Placed s) {event : PoolEvent}
    (hrequest : IsAlignable s.pool.startAddressOfPool s.pool.blockSize event) :
    AllocatesAligned s event ↔ OffsetAligned s event := by
  cases event with
  | takeTicket => exact Iff.rfl
  | returnTicket id => exact Iff.rfl
  | allocate id size alignment =>
    unfold AllocatesAligned
    cases hstep : s.step (.allocate id size alignment) with
    | none =>
      exact iff_of_true trivial fun hid hfits => absurd hstep (step_ne_none_of_fits hid hfits)
    | some s' =>
      obtain ⟨hid, blocks, free, address, ticket, hfree, hallocates, rfl⟩ := step_allocate hstep
      rw [← allocates_iff howned h hrequest hid hfree hallocates]
      simp only [List.head?_cons, Option.mem_def, Option.some.injEq, forall_eq', setTicket, if_true]
      exact Iff.rfl

/-- Where the offset is aligned, the bytes of the pool stay placed. -/
theorem inRange_of_offsetAligned {s : PoolState} {event : PoolEvent} (hlive : s.step event ≠ none)
    {start blockSize : Nat} (hrequest : IsAlignable start blockSize event)
    (h : OffsetAligned s event) : InRange s event := by
  cases event with
  | takeTicket => trivial
  | returnTicket id => trivial
  | allocate id size alignment =>
    refine ⟨hrequest.1, fun hfits => ?_⟩
    by_cases hid : id ∈ s.live
    · obtain ⟨hdvd, hlt⟩ := h hid hfits
      show (s.pool.tickets id).offset + s.pool.padding alignment (s.pool.tickets id) + size < 2 ^ 64
      rwa [padding_eq_zero hdvd, Nat.add_zero]
    · exact absurd (if_neg hid) hlive

/-- The allocations of a run are aligned up to its end exactly if the offsets are. -/
theorem along_allocatesAligned_iff {s : PoolState} (howned : Owned s) (h : Placed s)
    {events : List PoolEvent}
    (hrequests : ∀ event ∈ events, IsAlignable s.pool.startAddressOfPool s.pool.blockSize event) :
    Along AllocatesAligned s events ↔ Along OffsetAligned s events := by
  induction events generalizing s with
  | nil => exact Iff.rfl
  | cons event events ih =>
    rw [List.forall_mem_cons] at hrequests
    obtain ⟨hrequest, hrest⟩ := hrequests
    have hiff := allocatesAligned_iff howned h hrequest
    unfold Along
    cases hstep : s.step event with
    | none => rw [hiff]
    | some s' =>
      rw [hiff]
      refine and_congr_right fun haligned => ?_
      have hrange : InRange s event :=
        inRange_of_offsetAligned (hstep ▸ Option.some_ne_none _) hrequest haligned
      obtain ⟨hblockSize, -, hstart⟩ := sameLayout_step howned hstep
      rw [← hblockSize, ← hstart] at hrest
      exact ih (owned_step howned hstep) (placed_step howned h hrange hstep) hrest

/-- **In a run of a pool whose requests are for no more than its own alignment, every address that is
returned is aligned, with its bytes before the new offset, exactly if every request that is served
from the block of its ticket finds the offset at a multiple of the alignment and a size that does not
wrap around.** -/
theorem alignedAlong_iff {totalSize blockSize startAddress : Nat}
    (hblock : sizeofTicket ≤ blockSize) (haddress : startAddress + totalSize < 2 ^ 64)
    {events : List PoolEvent}
    (hrequests : ∀ event ∈ events, IsAlignable startAddress blockSize event) :
    Along AllocatesAligned (fresh totalSize blockSize startAddress) events ↔
      Along OffsetAligned (fresh totalSize blockSize startAddress) events :=
  along_allocatesAligned_iff (owned_fresh totalSize blockSize startAddress)
    (placed_fresh hblock haddress) hrequests

/-- Requests of two tickets, each at a multiple of its alignment or on to a fresh block. -/
theorem alignedAlong_of_multiples : Along AllocatesAligned (fresh 128 32 4096)
    [.takeTicket, .takeTicket, .allocate 3 8 8, .allocate 2 4 4, .allocate 2 4 2, .allocate 3 6 4,
      .allocate 3 8 16] :=
  (alignedAlong_iff (by decide) (by decide) (by decide)).2 (by decide +kernel)

/-- Four bytes, and eight bytes that are to be aligned: the offset is padded, and the address is
not. -/
theorem not_alignedAlong_of_mixed :
    (∀ event ∈ [.takeTicket, .allocate 3 4 4, .allocate 3 8 8], IsAlignable 4096 32 event) ∧
      ¬ Along AllocatesAligned (fresh 128 32 4096)
        [.takeTicket, .allocate 3 4 4, .allocate 3 8 8] := by
  constructor
  · decide
  · decide +kernel

end PoolState

namespace MemoryPool

/-! ## Exhaustion -/

/-- How a call of `Allocate` ends: with an address, with the out-of-memory error, or at a `pop` of the
empty stack, which is undefined. The ticket and the free blocks are those it leaves. -/
inductive Ending where
  | returned (address : Nat) (ticket : MemoryPoolTicket) (freeBlocks : List Nat)
  | outOfMemory (ticket : MemoryPoolTicket) (freeBlocks : List Nat)
  | emptyStack
deriving DecidableEq, Repr

/-- `Allocate`, with the way it ends. -/
def allocateEnding (pool : MemoryPool) (size alignment : Nat) :
    MemoryPoolTicket → List Nat → Ending
  | ticket, freeBlocks =>
    if pool.nextOffset size alignment ticket > pool.blockSize then
      match freeBlocks with
      | [] => .emptyStack
      | block :: freeBlocks =>
        if block = 2 ^ 64 - 1 then .outOfMemory ⟨0, block⟩ freeBlocks
        else allocateEnding pool size alignment ⟨0, block⟩ freeBlocks
    else
      .returned (pool.currentAddress ticket)
        { ticket with offset := pool.nextOffset size alignment ticket } freeBlocks

/-- What a call that returns gives. -/
def Ending.result? : Ending → Option (Nat × MemoryPoolTicket × List Nat)
  | .returned address ticket freeBlocks => some (address, ticket, freeBlocks)
  | _ => none

theorem allocateFrom_eq (pool : MemoryPool) (size alignment : Nat) (ticket : MemoryPoolTicket)
    (free : List Nat) : pool.allocateFrom size alignment ticket free =
      (pool.allocateEnding size alignment ticket free).result? := by
  induction free generalizing ticket with
  | nil =>
    unfold allocateFrom allocateEnding
    split <;> rfl
  | cons block free ih =>
    unfold allocateFrom allocateEnding
    by_cases hfull : pool.nextOffset size alignment ticket > pool.blockSize
    · rw [if_pos hfull, if_pos hfull]
      by_cases hlast : block = 2 ^ 64 - 1
      · simp only [if_pos hlast, Ending.result?]
      · simp only [if_neg hlast]
        exact ih _
    · rw [if_neg hfull, if_neg hfull]
      rfl

/-- A call that takes memory from the pool. -/
inductive Call where
  | takeTicket
  | allocate (size alignment : Nat) (ticket : MemoryPoolTicket)
deriving DecidableEq, Repr

/-- There is room for the request in the block of the ticket. -/
def HasRoom (pool : MemoryPool) (size alignment : Nat) (ticket : MemoryPoolTicket) : Prop :=
  ticket.offset + pool.padding alignment ticket + size ≤ pool.blockSize

instance (pool : MemoryPool) (size alignment : Nat) (ticket : MemoryPoolTicket) :
    Decidable (pool.HasRoom size alignment ticket) :=
  inferInstanceAs (Decidable (_ ≤ _))

/-- The call can be served, from the block of the ticket or from one that is free. -/
def CanServe (pool : MemoryPool) : Call → Prop
  | .takeTicket => pool.freeBlocks ≠ []
  | .allocate size alignment ticket =>
    pool.HasRoom size alignment ticket ∨ pool.freeBlocks ≠ [] ∧ size ≤ pool.blockSize

/-- The ending of an allocation is orderly: memory from the block of the ticket, or from one free block
when there is no room in it, or the error when the request cannot be served, with everything left as it
was. -/
def EndsOrderly (pool : MemoryPool) (size alignment : Nat) (ticket : MemoryPoolTicket) :
    Ending → Prop
  | .returned _ ticket' freeBlocks =>
    pool.HasRoom size alignment ticket ∧ ticket'.block = ticket.block ∧
        freeBlocks = pool.freeBlocks ∨
      ¬ pool.HasRoom size alignment ticket ∧ size ≤ pool.blockSize ∧
        pool.freeBlocks = ticket'.block :: freeBlocks
  | .outOfMemory ticket' freeBlocks =>
    ¬ pool.CanServe (.allocate size alignment ticket) ∧ ticket' = ticket ∧
      freeBlocks = pool.freeBlocks
  | .emptyStack => False

/-- The call ends in an orderly way. `TakeTicket` has no error to raise, so that it has to return. -/
def Orderly (pool : MemoryPool) : Call → Prop
  | .takeTicket => ∃ id pool', pool.takeTicket = some (id, pool') ∧
      pool.freeBlocks = id :: pool'.freeBlocks
  | .allocate size alignment ticket =>
    pool.EndsOrderly size alignment ticket
      (pool.allocateEnding size alignment ticket pool.freeBlocks)

/-- There is room in the block of the ticket; or the call sees that there is none, and the next free
block, which is not the sentinel, has enough of it. -/
def Served (pool : MemoryPool) : Call → Prop
  | .takeTicket => pool.freeBlocks ≠ []
  | .allocate size alignment ticket =>
    pool.HasRoom size alignment ticket ∨
      pool.blockSize < pool.nextOffset size alignment ticket ∧ size ≤ pool.blockSize ∧
        ∃ block ∈ pool.freeBlocks.head?, block ≠ 2 ^ 64 - 1

instance (pool : MemoryPool) : DecidablePred pool.Served
  | .takeTicket => inferInstanceAs (Decidable (pool.freeBlocks ≠ []))
  | .allocate size alignment ticket => inferInstanceAs (Decidable
      (pool.HasRoom size alignment ticket ∨
        pool.blockSize < pool.nextOffset size alignment ticket ∧ size ≤ pool.blockSize ∧
          ∃ block ∈ pool.freeBlocks.head?, block ≠ 2 ^ 64 - 1))

section

variable {pool : MemoryPool} {size alignment : Nat} {ticket : MemoryPoolTicket}

theorem nextOffset_le (h : pool.HasRoom size alignment ticket) :
    pool.nextOffset size alignment ticket ≤ pool.blockSize :=
  Nat.le_trans (Nat.mod_le _ _) h

theorem allocateEnding_stays {free : List Nat}
    (h : pool.nextOffset size alignment ticket ≤ pool.blockSize) :
    pool.allocateEnding size alignment ticket free = .returned (pool.currentAddress ticket)
      { ticket with offset := pool.nextOffset size alignment ticket } free := by
  unfold allocateEnding
  rw [if_neg (Nat.not_lt.2 h)]

/-- A fresh block serves what is not larger than itself. -/
theorem nextOffset_fresh_le {block : Nat} (h : size ≤ pool.blockSize) :
    pool.nextOffset size alignment ⟨0, block⟩ ≤ pool.blockSize := by
  have hpadding : pool.padding alignment ⟨0, block⟩ = 0 :=
    PoolState.padding_eq_zero (Nat.dvd_zero _)
  unfold nextOffset
  rw [hpadding, Nat.zero_add]
  exact Nat.le_trans (Nat.mod_le _ _) h

section

variable (hfull : pool.blockSize < pool.nextOffset size alignment ticket)
include hfull

theorem allocateEnding_empty :
    pool.allocateEnding size alignment ticket [] = .emptyStack := by
  unfold allocateEnding
  rw [if_pos hfull]

theorem allocateEnding_sentinel {free : List Nat} :
    pool.allocateEnding size alignment ticket ((2 ^ 64 - 1) :: free) =
      .outOfMemory ⟨0, 2 ^ 64 - 1⟩ free := by
  unfold allocateEnding
  rw [if_pos hfull]
  exact if_pos rfl

theorem allocateEnding_next {block : Nat} {free : List Nat} (h : block ≠ 2 ^ 64 - 1) :
    pool.allocateEnding size alignment ticket (block :: free) =
      pool.allocateEnding size alignment ⟨0, block⟩ free := by
  conv_lhs => unfold allocateEnding
  rw [if_pos hfull]
  exact if_neg h

end

/-- The error comes after a block was taken. -/
theorem length_of_outOfMemory {free free' : List Nat} {ticket ticket' : MemoryPoolTicket}
    (h : pool.allocateEnding size alignment ticket free = .outOfMemory ticket' free') :
    free'.length < free.length := by
  induction free generalizing ticket with
  | nil =>
    unfold allocateEnding at h
    split at h <;> cases h
  | cons block free ih =>
    by_cases hfull : pool.blockSize < pool.nextOffset size alignment ticket
    · by_cases hlast : block = 2 ^ 64 - 1
      · subst hlast
        rw [allocateEnding_sentinel hfull] at h
        cases h
        exact Nat.lt_succ_self _
      · rw [allocateEnding_next hfull hlast] at h
        exact Nat.lt_succ_of_lt (ih h)
    · rw [allocateEnding_stays (Nat.not_lt.1 hfull)] at h
      cases h

theorem served_of_orderly (h : pool.Orderly (.allocate size alignment ticket)) :
    pool.Served (.allocate size alignment ticket) := by
  have h : pool.EndsOrderly size alignment ticket
    (pool.allocateEnding size alignment ticket pool.freeBlocks) := h
  by_cases hfull : pool.blockSize < pool.nextOffset size alignment ticket
  · have hroom : ¬ pool.HasRoom size alignment ticket :=
      fun hroom => absurd (nextOffset_le hroom) (Nat.not_le.2 hfull)
    cases hending : pool.allocateEnding size alignment ticket pool.freeBlocks with
    | emptyStack =>
      rw [hending] at h
      exact h.elim
    | outOfMemory ticket' free' =>
      rw [hending] at h
      obtain ⟨-, -, hkept⟩ := h
      have hlt := length_of_outOfMemory hending
      rw [hkept] at hlt
      exact absurd hlt (Nat.lt_irrefl _)
    | returned address ticket' free' =>
      rw [hending] at h
      rcases h with ⟨hhas, -⟩ | ⟨-, hsize, hfree⟩
      · exact absurd hhas hroom
      refine .inr ⟨hfull, hsize, ticket'.block, ?_, ?_⟩
      · rw [hfree]
        rfl
      · intro hlast
        rw [hfree, hlast, allocateEnding_sentinel hfull] at hending
        cases hending
  · rw [allocateEnding_stays (Nat.not_lt.1 hfull)] at h
    rcases h with ⟨hroom, -⟩ | ⟨-, -, hfree⟩
    · exact .inl hroom
    · exact (List.ne_cons_self hfree).elim

theorem orderly_of_served (h : pool.Served (.allocate size alignment ticket)) :
    pool.Orderly (.allocate size alignment ticket) := by
  show pool.EndsOrderly size alignment ticket
    (pool.allocateEnding size alignment ticket pool.freeBlocks)
  rcases h with hroom | ⟨hfull, hsize, block, hblock, hlast⟩
  · rw [allocateEnding_stays (nextOffset_le hroom)]
    exact .inl ⟨hroom, rfl, rfl⟩
  · obtain ⟨free, hfree⟩ := List.head?_eq_some_iff.1 hblock
    rw [hfree, allocateEnding_next hfull hlast, allocateEnding_stays (nextOffset_fresh_le hsize)]
    exact .inr ⟨fun hroom => absurd (nextOffset_le hroom) (Nat.not_le.2 hfull), hsize, hfree⟩

end

/-- **A call ends in an orderly way exactly if it is served: a ticket when a block is free, and memory
when there is room in the block of the ticket, or the call sees that there is none and the request is
not larger than the block it takes.** -/
theorem orderly_iff (pool : MemoryPool) (call : Call) : pool.Orderly call ↔ pool.Served call := by
  cases call with
  | allocate size alignment ticket => exact ⟨served_of_orderly, orderly_of_served⟩
  | takeTicket =>
    unfold Orderly Served takeTicket allocateBlock
    cases hfree : pool.freeBlocks with
    | nil => exact iff_of_false (by rintro ⟨_, _, h, -⟩; cases h) fun h => h rfl
    | cons block free => exact iff_of_true ⟨_, _, rfl, rfl⟩ (List.cons_ne_nil _ _)

/-- A request larger than a block takes every block there is and then one from the empty stack, and a
ticket is taken from the empty stack too. -/
theorem not_orderly_of_oversized :
    (∃ id pool, (create 128 32 4096).takeTicket = some (id, pool) ∧
      ¬ pool.Orderly (.allocate 33 1 (pool.tickets id))) ∧
      ¬ (create 16 32 4096).Orderly .takeTicket := by
  constructor
  · exact ⟨3, _, rfl, fun h => absurd (served_of_orderly h) (by decide +kernel)⟩
  · rintro ⟨_, _, h, -⟩
    cases h

end MemoryPool

end Flashpoint
