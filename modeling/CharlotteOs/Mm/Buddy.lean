import CharlotteOs.Lib.Chain
import CharlotteOs.Lib.Dyadic
import CharlotteOs.Mm.Address

/-!
# The buddy frame allocator

`src/mm/buddy.rs`: sixteen intrusive lists of free blocks, list `k` holding blocks of `2 ^ k`
pages. The link of a block is the first word of its own memory, reached through `phys_to_virt`,
so the allocator's state is the list heads together with the memory.

## Main definitions

* `BuddySystemFrameAllocator`: the list heads and the memory the lists run through
* `addFreeBlock`, `tryRemoveFromList`: the two list operations
* `addFreeRegion`, `alloc`, `dealloc`: the allocator
* `nextOf`: the successor function of the intrusive lists
-/

namespace CharlotteOs

open LinkedChain DyadicTiling

/-- `MAX_ORDER`. -/
abbrev maxOrder : ℕ := 16

namespace NonNull

/-- The `Option<NonNull<_>>` that a word represents: the null pointer is `None`. -/
def new (p : ℕ) : Option ℕ := if p = 0 then none else some p

/-- The word that represents an `Option<NonNull<_>>`. -/
def word (o : Option ℕ) : ℕ := o.getD 0

theorem new_of_pos {p : ℕ} (h : 0 < p) : new p = some p := if_neg (by omega)

theorem new_word {o : Option ℕ} (h : ∀ p ∈ o, 0 < p) : new (word o) = o := by
  cases o with
  | none => rfl
  | some p => exact new_of_pos (h p rfl)

end NonNull

/-- `BuddySystemFrameAllocator` with the memory its lists are threaded through. The array
`free_lists` is a function of the order, used at orders below `maxOrder` only. -/
structure BuddySystemFrameAllocator where
  freeLists : ℕ → Option ℕ
  mem : Mem

/-- The `next` field of the `ListNode` at a physical address. -/
def nextOf (m : Mem) (pa : ℕ) : Option ℕ := NonNull.new (m.load (physToVirt pa))

/-- `pages_to_order`. -/
def pagesToOrder (pages : ℕ) : ℕ := Usize.trailingZeros (Usize.nextPowerOfTwo pages)

/-- The number of steps after which a walk over distinct 64-bit pointers has come back to one of
them, and so never ends. Irreducible, since a loop must not be unfolded that often. -/
@[irreducible] def walkLimit : ℕ := 2 ^ 64

theorem lt_walkLimit {n : ℕ} (h : n ≤ 2 ^ 22) : n < walkLimit := by
  unfold walkLimit
  exact h.trans_lt (Nat.pow_lt_pow_right (by decide) (by decide))

namespace BuddySystemFrameAllocator

/-- `BuddySystemFrameAllocator::new`, over a given memory. -/
def new (m : Mem) : BuddySystemFrameAllocator := ⟨fun _ => none, m⟩

/-- `add_free_block`. -/
def addFreeBlock (s : BuddySystemFrameAllocator) (physAddr order : ℕ) :
    Except Fault BuddySystemFrameAllocator :=
  if maxOrder ≤ order then .error .orderTooLarge
  else .ok
    { freeLists := Function.update s.freeLists order (NonNull.new physAddr)
      mem := s.mem.store (physToVirt physAddr) (NonNull.word (s.freeLists order)) }

/-- The `while let` loop of `try_remove_from_list`, from the node `current`. -/
def tryRemoveLoop (s : BuddySystemFrameAllocator) (physAddr : ℕ) :
    ℕ → ℕ → Except Fault (Bool × BuddySystemFrameAllocator)
  | 0, _ => .error .endless
  | n + 1, current =>
    match nextOf s.mem current with
    | none => .ok (false, s)
    | some nextNode =>
      if nextNode = physAddr then
        -- the right side runs first: `take` clears the link of the node it reads
        let taken := nextOf s.mem nextNode
        let m := s.mem.store (physToVirt nextNode) 0
        .ok (true, { s with mem := m.store (physToVirt current) (NonNull.word taken) })
      else tryRemoveLoop s physAddr n nextNode

/-- `try_remove_from_list`. -/
def tryRemoveFromList (s : BuddySystemFrameAllocator) (physAddr order : ℕ) :
    Except Fault (Bool × BuddySystemFrameAllocator) :=
  match s.freeLists order with
  | none => .ok (false, s)
  | some listHead =>
    if listHead = physAddr then
      .ok (true,
        { freeLists := Function.update s.freeLists order (nextOf s.mem listHead)
          mem := s.mem.store (physToVirt listHead) 0 })
    else s.tryRemoveLoop physAddr walkLimit listHead

/-- The order `add_free_region` gives to the block at `current`. -/
def regionOrder (current remaining : ℕ) : ℕ :=
  let byAlignment :=
    if current = 0 then maxOrder - 1 else min (Usize.trailingZeros current) (maxOrder - 1)
  min (min (Nat.log2 remaining) byAlignment) (maxOrder - 1)

/-- The `while` loop of `add_free_region`, with a bound on its iterations. -/
def addFreeRegionLoop (endPpn : ℕ) :
    ℕ → ℕ → BuddySystemFrameAllocator → Except Fault BuddySystemFrameAllocator
  | 0, current, s => if current < endPpn then .error .endless else .ok s
  | n + 1, current, s =>
    if current < endPpn then do
      let order := regionOrder current (endPpn - current)
      let s ← s.addFreeBlock (PhysAddr.ofPpn current) order
      addFreeRegionLoop endPpn n (current + 2 ^ order) s
    else .ok s

/-- `add_free_region`. Each iteration of its loop moves on by a page at least. -/
def addFreeRegion (s : BuddySystemFrameAllocator) (startPpn endPpn : ℕ) :
    Except Fault BuddySystemFrameAllocator :=
  if endPpn ≤ startPpn then .ok s
  else addFreeRegionLoop endPpn (endPpn - startPpn) startPpn s

/-- The split loop of `alloc`: halve the block at `blockAddr` down to the required order, putting
each upper half on its list. -/
def splitLoop (blockAddr requiredOrder : ℕ) :
    ℕ → BuddySystemFrameAllocator → Except Fault BuddySystemFrameAllocator
  | 0, s => .ok s
  | order + 1, s =>
    if requiredOrder < order + 1 then do
      let buddyBlockSize := 2 ^ (order + 1 + pageSizeBits) / 2
      let s ← s.addFreeBlock (blockAddr + buddyBlockSize) order
      splitLoop blockAddr requiredOrder order s
    else .ok s

/-- The search loop of `alloc`, upwards from `order` over the orders that are left. -/
def allocLoop (s : BuddySystemFrameAllocator) (requiredOrder : ℕ) :
    ℕ → ℕ → Except Fault (Option ℕ × BuddySystemFrameAllocator)
  | 0, _ => .ok (none, s)
  | n + 1, order =>
    match s.freeLists order with
    | none => allocLoop s requiredOrder n (order + 1)
    | some block => do
      let s' : BuddySystemFrameAllocator :=
        { freeLists := Function.update s.freeLists order (nextOf s.mem block)
          mem := s.mem.store (physToVirt block) 0 }
      let s' ← splitLoop block requiredOrder order s'
      let ppn ← PhysPageNum.ofPhysAddr block
      .ok (some ppn, s')

/-- `alloc`. -/
def alloc (s : BuddySystemFrameAllocator) (pages : ℕ) :
    Except Fault (Option ℕ × BuddySystemFrameAllocator) :=
  let requiredOrder := pagesToOrder pages
  if maxOrder ≤ requiredOrder then .ok (none, s)
  else s.allocLoop requiredOrder (maxOrder - requiredOrder) requiredOrder

/-- The merge loop of `dealloc`, over the orders below the last, and the insertion after it. -/
def mergeLoop :
    ℕ → ℕ → ℕ → ℕ → BuddySystemFrameAllocator → Except Fault BuddySystemFrameAllocator
  | 0, blockAddr, _, order, s => s.addFreeBlock blockAddr order
  | n + 1, blockAddr, blockSize, order, s => do
    let buddyAddr := blockAddr ^^^ blockSize
    let (found, s) ← s.tryRemoveFromList buddyAddr order
    if found then mergeLoop n (min blockAddr buddyAddr) (blockSize * 2) (order + 1) s
    else s.addFreeBlock blockAddr order

/-- `dealloc`. -/
def dealloc (s : BuddySystemFrameAllocator) (ppn pages : ℕ) :
    Except Fault BuddySystemFrameAllocator :=
  let order := pagesToOrder pages
  mergeLoop (maxOrder - 1 - order) (PhysAddr.ofPpn ppn) (2 ^ (order + pageSizeBits)) order s

end BuddySystemFrameAllocator

end CharlotteOs
