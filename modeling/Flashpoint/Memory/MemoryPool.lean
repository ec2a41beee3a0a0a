import Mathlib.Algebra.Group.Nat.Defs
import Mathlib.Data.List.Basic

/-!
# The memory pool

`MemoryPool` hands out memory for the nodes of a request. A ticket is a header at the start of the
first block it is given; a pointer to it is named by the index of that block. Sums and products of
`std::size_t` are taken modulo `2 ^ 64`. Taking a block from an empty stack is undefined in the
source and has no result here.
-/

namespace Flashpoint

/-- A result of `std::size_t` arithmetic. -/
def sizeT (n : Nat) : Nat := n % 2 ^ 64

structure MemoryPoolTicket where
  offset : Nat
  block : Nat
deriving DecidableEq, Repr

/-- A pointer to a ticket: the index of the block it lies in. -/
abbrev TicketId := Nat

/-- `sizeof(MemoryPoolTicket)` -/
def sizeofTicket : Nat := 16

/-- The pool. The top of the stack is the head of the list, and `tickets` is what lies at the start
of each block, read as a ticket. -/
structure MemoryPool where
  blockSize : Nat
  totalSize : Nat
  startAddressOfPool : Nat
  freeBlocks : List Nat := []
  tickets : TicketId → MemoryPoolTicket := fun _ => ⟨0, 0⟩

namespace MemoryPool

/-- The number of blocks. -/
def blocks (pool : MemoryPool) : Nat := pool.totalSize / pool.blockSize

/-- `Reset`: the blocks are pushed one after the other. -/
def reset (pool : MemoryPool) : MemoryPool :=
  { pool with freeBlocks := (List.range pool.blocks).reverse ++ pool.freeBlocks }

/-- The constructor, with the address that `malloc` gave it. -/
def create (totalSize blockSize startAddressOfPool : Nat) : MemoryPool :=
  reset { blockSize, totalSize, startAddressOfPool }

def allocateBlock (pool : MemoryPool) : Option (Nat × MemoryPool) :=
  match pool.freeBlocks with
  | [] => none
  | block :: freeBlocks => some (block, { pool with freeBlocks })

def setTicket (pool : MemoryPool) (id : TicketId) (ticket : MemoryPoolTicket) : MemoryPool :=
  { pool with tickets := fun i => if i = id then ticket else pool.tickets i }

def takeTicket (pool : MemoryPool) : Option (TicketId × MemoryPool) :=
  match pool.allocateBlock with
  | none => none
  | some (block, pool) => some (block, pool.setTicket block ⟨sizeofTicket, block⟩)

def returnTicket (pool : MemoryPool) (id : TicketId) : MemoryPool :=
  { pool with freeBlocks := (pool.tickets id).block :: pool.freeBlocks }

/-- The address the ticket stands at. -/
def currentAddress (pool : MemoryPool) (ticket : MemoryPoolTicket) : Nat :=
  sizeT (pool.startAddressOfPool + ticket.block * pool.blockSize + ticket.offset)

/-- The bytes up to the next aligned address, when the offset is not aligned. -/
def padding (pool : MemoryPool) (alignment : Nat) (ticket : MemoryPoolTicket) : Nat :=
  if alignment ≠ 0 ∧ ticket.offset % alignment ≠ 0 then
    let currentAddress := pool.currentAddress ticket
    let alignedAddress := sizeT ((currentAddress / alignment + 1) * alignment)
    sizeT (alignedAddress + 2 ^ 64 - currentAddress)
  else 0

/-- The offset after an allocation in the block of the ticket. -/
def nextOffset (pool : MemoryPool) (size alignment : Nat) (ticket : MemoryPoolTicket) : Nat :=
  sizeT (ticket.offset + pool.padding alignment ticket + size)

/-- `Allocate`: the address, the ticket and the free blocks after it. A request that does not fit
goes on to a fresh block; `-1` is never a block, and the source throws at it. -/
def allocateFrom (pool : MemoryPool) (size alignment : Nat) :
    MemoryPoolTicket → List Nat → Option (Nat × MemoryPoolTicket × List Nat)
  | ticket, freeBlocks =>
    if pool.nextOffset size alignment ticket > pool.blockSize then
      match freeBlocks with
      | [] => none
      | block :: freeBlocks =>
        if block = 2 ^ 64 - 1 then none
        else allocateFrom pool size alignment ⟨0, block⟩ freeBlocks
    else
      some (pool.currentAddress ticket,
        { ticket with offset := pool.nextOffset size alignment ticket }, freeBlocks)

def allocate (pool : MemoryPool) (size alignment : Nat) (id : TicketId) :
    Option (Nat × MemoryPool) :=
  match pool.allocateFrom size alignment (pool.tickets id) pool.freeBlocks with
  | none => none
  | some (address, ticket, freeBlocks) =>
    some (address, { pool with freeBlocks }.setTicket id ticket)

end MemoryPool

end Flashpoint
