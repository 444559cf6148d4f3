import CharlotteOs.Mm.Buddy
import CharlotteOs.Mm.MemMap

/-!
# The slab allocator

`src/mm/slub.rs`: a `KmemCache` hands out objects of one size. It takes slabs from the buddy
allocator, threads a free list through the objects of each, and keeps one slab active and others
on a list of partial slabs that is linked through `MEM_MAP`. `SlubAllocator` is nine caches behind
the global allocator interface.

A function of the source that runs on a cache takes the index of the cache here, and all of them
share the buddy allocator, its memory and `MEM_MAP`.

## Main definitions

* `KmemCache`, `Heap`: one cache; all caches with what they share
* `Heap.allocNewSlab`, `Heap.alloc`: `KmemCache::alloc_new_slab`, `KmemCache::alloc`
* `Heap.removeFromPartial`, `Heap.freeObject`: `remove_from_partial`, `free_object`
* `Heap.globalAlloc`, `Heap.globalDealloc`: `SlubAllocator` as a `GlobalAlloc`
* `MemMap.nextPartial`, `nextFree`: the successor functions of the two kinds of list
-/

namespace CharlotteOs

/-- The free object whose address is in the first word of a free object. -/
def nextFree (m : Mem) (ptr : ℕ) : Option ℕ := NonNull.new (m.load ptr)

/-- The link `(has_next, next_partial)` of a slab head. -/
def Slub.next (s : Slub) : Option ℕ := if s.hasNext then some s.nextPartial else none

/-- The slab head with its link set as `free_object` and `remove_from_partial` set it: without a
successor, `next_partial` keeps its value. -/
def Slub.setNext (s : Slub) : Option ℕ → Slub
  | some next => { s with nextPartial := next, hasNext := true }
  | none => { s with hasNext := false }

/-- The successor of a page on a list of partial slabs. -/
def MemMap.nextPartial (m : MemMap) (ppn : ℕ) : Option ℕ := (m.slubAt ppn).bind Slub.next

/-- `KmemCache`. -/
structure KmemCache where
  objectSize : ℕ
  activeSlabPpn : Option ℕ
  partialSlabsHead : Option ℕ
  deriving DecidableEq, Repr

/-- `KmemCache::new`. -/
def KmemCache.new (requestedSize : ℕ) : KmemCache :=
  let align := 8
  let actualSize := (requestedSize + align - 1) % 2 ^ 64 &&& Usize.notWord (align - 1)
  { objectSize := if actualSize < align then align else actualSize
    activeSlabPpn := none
    partialSlabsHead := none }

/-- The caches with the buddy allocator and `MEM_MAP`, which they share. -/
structure Heap where
  buddy : BuddySystemFrameAllocator
  memMap : MemMap
  caches : ℕ → KmemCache

namespace Heap

/-- The heap after one cache's active slab is set. -/
def setActive (h : Heap) (c : ℕ) (ppn : Option ℕ) : Heap :=
  { h with caches := Function.update h.caches c { h.caches c with activeSlabPpn := ppn } }

/-- The heap after one cache's list of partial slabs is given another head. -/
def setPartial (h : Heap) (c : ℕ) (ppn : Option ℕ) : Heap :=
  { h with caches := Function.update h.caches c { h.caches c with partialSlabsHead := ppn } }

/-- The heap after the slab head at a page number is overwritten. -/
def setSlub (h : Heap) (ppn : ℕ) (s : Slub) : Heap := { h with memMap := h.memMap.setSlub ppn s }

@[simp] theorem caches_setActive_self (h : Heap) (c : ℕ) (ppn : Option ℕ) :
    (h.setActive c ppn).caches c = { h.caches c with activeSlabPpn := ppn } :=
  Function.update_self ..

theorem caches_setActive_of_ne (h : Heap) {c d : ℕ} (hd : d ≠ c) (ppn : Option ℕ) :
    (h.setActive c ppn).caches d = h.caches d :=
  Function.update_of_ne hd _ _

@[simp] theorem caches_setPartial_self (h : Heap) (c : ℕ) (ppn : Option ℕ) :
    (h.setPartial c ppn).caches c = { h.caches c with partialSlabsHead := ppn } :=
  Function.update_self ..

theorem caches_setPartial_of_ne (h : Heap) {c d : ℕ} (hd : d ≠ c) (ppn : Option ℕ) :
    (h.setPartial c ppn).caches d = h.caches d :=
  Function.update_of_ne hd _ _

theorem objectSize_setActive (h : Heap) (c d : ℕ) (ppn : Option ℕ) :
    ((h.setActive c ppn).caches d).objectSize = (h.caches d).objectSize := by
  by_cases hd : d = c
  · rw [hd, caches_setActive_self]
  · rw [caches_setActive_of_ne h hd]

theorem objectSize_setPartial (h : Heap) (c d : ℕ) (ppn : Option ℕ) :
    ((h.setPartial c ppn).caches d).objectSize = (h.caches d).objectSize := by
  by_cases hd : d = c
  · rw [hd, caches_setPartial_self]
  · rw [caches_setPartial_of_ne h hd]

/-! ## Allocation -/

/-- The loop that threads the free list of a new slab through its objects. `more va` is the
condition of the loop: an object starts at `va`. -/
def carveLoop (more : ℕ → Bool) (objectSize : ℕ) : ℕ → ℕ → Mem → Except Fault Mem
  | 0, _, _ => .error .endless
  | n + 1, va, m =>
    if more va then
      let nextVa := (va + objectSize) % 2 ^ 64
      carveLoop more objectSize n nextVa (m.store va (if more nextVa then nextVa else 0))
    else .ok m

/-- The head of a new slab of the cache `c`, linked in front of the partial list. -/
def newSlub (h : Heap) (c startVa : ℕ) : Slub where
  freelist := VirtAddr.ofUsize startVa
  inuse := 0
  cache := c
  hasNext := (h.caches c).partialSlabsHead.isSome
  nextPartial := (h.caches c).partialSlabsHead.getD 0

theorem newSlub_freelist (h : Heap) (c startVa : ℕ) :
    (h.newSlub c startVa).freelist = VirtAddr.ofUsize startVa := rfl

/-- The pages that a slab for objects of a size needs. -/
def requiredPages (objectSize : ℕ) : ℕ := ((objectSize + pageSize - 1) % 2 ^ 64) >>> pageSizeBits

/-- The pages of a slab, as `alloc_new_slab` and `free_object` ask the buddy allocator for them. -/
def nonZeroPages (pages : ℕ) : Except Fault ℕ := if pages = 0 then .error .unwrapZero else .ok pages

/-- `alloc_new_slab`: `none` is `Err(OutOfMemory)`. -/
def allocNewSlab (h : Heap) (c : ℕ) : Except Fault (Option ℕ × Heap) := do
  let objectSize := (h.caches c).objectSize
  if objectSize < pageSize then
    match ← h.buddy.alloc 1 with
    | (none, buddy) => .ok (none, { h with buddy })
    | (some ppn, buddy) =>
      let startVa := physToVirt (PhysAddr.ofPpn ppn)
      let endVa := (startVa + pageSize) % 2 ^ 64
      let mem ← carveLoop (fun va => va < endVa) objectSize walkLimit startVa buddy.mem
      let h := { h with buddy := { buddy with mem } }
      let slab := h.newSlub c startVa
      let h := h.setPartial c (some ppn)
      let _ ← h.memMap.getPageState ppn
      .ok (some ppn, { h with memMap := h.memMap.set ppn ⟨1, .slab (.slub slab)⟩ })
  else
    let allocatePages ← nonZeroPages (Usize.nextPowerOfTwo (requiredPages objectSize))
    match ← h.buddy.alloc allocatePages with
    | (none, buddy) => .ok (none, { h with buddy })
    | (some ppn, buddy) =>
      let startVa := physToVirt (PhysAddr.ofPpn ppn)
      let endVa := (startVa + allocatePages <<< pageSizeBits) % 2 ^ 64
      let more := fun va => decide ((va + objectSize) % 2 ^ 64 ≤ endVa)
      let mem ← carveLoop more objectSize walkLimit startVa buddy.mem
      let h := { h with buddy := { buddy with mem } }
      let slabHead := h.newSlub c startVa
      let h := h.setPartial c (some ppn)
      let _ ← h.memMap.getPageState ppn
      let memMap := h.memMap.set ppn ⟨1, .slab (.slub slabHead)⟩
      let memMap ← memMap.fill ⟨1, .slab (.slubTail ppn)⟩ (allocatePages - 1) (ppn + 1)
      .ok (some ppn, { h with memMap })

/-- The `loop` of `KmemCache::alloc`. The null pointer is `0`. -/
def allocLoop (c : ℕ) : ℕ → Heap → Except Fault (ℕ × Heap)
  | 0, _ => .error .endless
  | n + 1, h =>
    match (h.caches c).activeSlabPpn with
    | some ppn => do
      let s ← h.memMap.getSlub ppn .activeNotSlub
      if s.freelist = 0 then allocLoop c n (h.setActive c none)
      else
        let nextFreeAddr := h.buddy.mem.load s.freelist
        .ok (s.freelist,
          h.setSlub ppn { s with freelist := nextFreeAddr, inuse := (s.inuse + 1) % 2 ^ 16 })
    | none =>
      match (h.caches c).partialSlabsHead with
      | some partialHead => do
        let s ← h.memMap.getSlub partialHead .partialHeadNotSlub
        allocLoop c n ((h.setPartial c s.next).setActive c (some partialHead))
      | none => do
        match ← h.allocNewSlab c with
        | (some newPpn, h) => allocLoop c n (h.setActive c (some newPpn))
        | (none, h) => .ok (0, h)

/-- `KmemCache::alloc`. -/
def alloc (h : Heap) (c : ℕ) : Except Fault (ℕ × Heap) := allocLoop c walkLimit h

/-! ## Release -/

/-- The `while let` loop of `remove_from_partial`. -/
def removeLoop (h : Heap) (c targetPpn : ℕ) : ℕ → Option ℕ → Option ℕ → Except Fault Heap
  | 0, _, _ => .error .endless
  | _ + 1, _, none => .error .notInPartial
  | n + 1, prevOpt, some currentPpn => do
    let s ← h.memMap.getSlub currentPpn .partialNotSlub
    if currentPpn = targetPpn then
      match prevOpt with
      | some prevPpn =>
        let prevPage ← h.memMap.getPageState prevPpn
        match prevPage.slub? with
        | some prev => .ok (h.setSlub prevPpn (prev.setNext s.next))
        | none => .ok h
      | none => .ok (h.setPartial c s.next)
    else removeLoop h c targetPpn n (some currentPpn) s.next

/-- `remove_from_partial`. -/
def removeFromPartial (h : Heap) (c targetPpn : ℕ) : Except Fault Heap :=
  removeLoop h c targetPpn walkLimit none (h.caches c).partialSlabsHead

/-- The end of `free_object` for the last object of a slab: its pages go back to the buddy
allocator. -/
def releaseSlab (h : Heap) (c slabPpn : ℕ) : Except Fault Heap := do
  let required := requiredPages (h.caches c).objectSize
  let allocatePages := Usize.nextPowerOfTwo (max required 1)
  let memMap ← h.memMap.fill ⟨0, .free⟩ allocatePages slabPpn
  let pages ← nonZeroPages allocatePages
  let buddy ← h.buddy.dealloc slabPpn pages
  .ok { h with memMap, buddy }

/-- `free_object`. -/
def freeObject (h : Heap) (c ptr slabPpn : ℕ) : Except Fault Heap := do
  let s ← h.memMap.getSlub slabPpn .freeNotSlub
  let wasFull := s.freelist = 0
  let isActive := (h.caches c).activeSlabPpn = some slabPpn
  let h := { h with buddy := { h.buddy with mem := h.buddy.mem.store ptr s.freelist } }
  let s := { s with freelist := VirtAddr.ofUsize ptr, inuse := (s.inuse + (2 ^ 16 - 1)) % 2 ^ 16 }
  let h := h.setSlub slabPpn s
  if s.inuse = 0 then
    let h ← if isActive then .ok (h.setActive c none) else h.removeFromPartial c slabPpn
    h.releaseSlab c slabPpn
  else if wasFull ∧ ¬ isActive then
    let h := h.setSlub slabPpn (s.setNext (h.caches c).partialSlabsHead)
    .ok (h.setPartial c (some slabPpn))
  else .ok h

/-! ## The global allocator -/

/-- `Layout`: a size and an alignment that is a power of two. -/
structure Layout where
  size : ℕ
  align : ℕ
  deriving DecidableEq, Repr

/-- The size that the global allocator rounds a layout to. -/
def actualSize (layout : Layout) : ℕ :=
  max (Usize.nextPowerOfTwo (max layout.size layout.align)) 8

/-- `SLUB_ALLOCATOR` in a machine: nine caches for the powers of two from 8 to 2048. -/
def slubAllocator (buddy : BuddySystemFrameAllocator) (memMap : MemMap) : Heap where
  buddy := buddy
  memMap := memMap
  caches i := KmemCache.new (2 ^ (i + 3))

/-- `SlubAllocator::alloc`. -/
def globalAlloc (h : Heap) (layout : Layout) : Except Fault (ℕ × Heap) :=
  if actualSize layout ≤ 2048 then
    let index := Usize.trailingZeros (actualSize layout) - 3
    if index < 9 then h.alloc index else .error .indexOutOfBounds
  else .error .unimplemented

/-- The page number that `SlubAllocator::dealloc` looks a pointer up under. -/
def deallocPpn (ptr : ℕ) : ℕ := PhysPageNum.ofUsize (virtToPhys ptr)

/-- The cache and the head page that `SlubAllocator::dealloc` calls `free_object` with. -/
def deallocTarget (h : Heap) (ptr : ℕ) : Except Fault (ℕ × ℕ) := do
  let ppn := deallocPpn ptr
  let page ← h.memMap.getPageState ppn
  match page.state with
  | .slab (.slub s) => .ok (s.cache, ppn)
  | .slab (.slubTail headPagePpn) => do
    let s ← h.memMap.getSlub headPagePpn .tailNotSlub
    .ok (s.cache, headPagePpn)
  | _ => .error .deallocNotSlub

/-- `SlubAllocator::dealloc`. -/
def globalDealloc (h : Heap) (ptr : ℕ) (layout : Layout) : Except Fault Heap := do
  if 2048 < actualSize layout then
    let ppn := deallocPpn ptr
    let pages := actualSize layout >>> pageSizeBits
    let memMap ← h.memMap.fill ⟨0, .free⟩ pages ppn
    let pages ← nonZeroPages pages
    let buddy ← h.buddy.dealloc ppn pages
    .ok { h with memMap, buddy }
  else
    let (cache, headPpn) ← h.deallocTarget ptr
    h.freeObject cache ptr headPpn

end Heap

end CharlotteOs
