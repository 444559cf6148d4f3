import CharlotteOs.Mm.SlubRuns

/-!
# Whole runs of the global allocator

`SlubAllocator` rounds a layout to the size of one of the nine caches. Its `dealloc` is given the
pointer only, and looks the page of the pointer up in `MEM_MAP` to find the cache and the slab.

The page number is made with `From<usize> for PhysPageNum`, which keeps the low bits of the number
it is given and does not shift the page offset out. So the entry that is looked up is not the one
of the page that holds the pointer, whatever the pointer.

## Main definitions

* `GlobalSystem`, `GlobalSystem.step`: the heap with the pointers that are in use
* `GlobalSystem.DeallocCorrect`: what `dealloc` has to do with a pointer

## Main results

* `GlobalSystem.deallocCorrect_along_iff`: a run deallocates correctly only if it never deallocates
-/

namespace CharlotteOs

open FallibleRun BuddySystemFrameAllocator Heap

/-- A pointer in use, its layout and the head page of the slab that it was carved from. -/
structure GlobalObj where
  ptr : ℕ
  layout : Layout
  slab : ℕ
  deriving DecidableEq, Repr

/-- The index of the cache that serves a layout. -/
def cacheIndex (layout : Layout) : ℕ := Usize.trailingZeros (actualSize layout) - 3

/-- An operation of a client of the global allocator. -/
inductive GlobalOp where
  | alloc (layout : Layout)
  | dealloc (a : GlobalObj)
  deriving DecidableEq, Repr

/-- The caches with the pointers that are in use. -/
structure GlobalSystem where
  heap : Heap
  live : List GlobalObj

namespace GlobalSystem

/-- One operation. As for a single cache, an object comes from the slab that is active after the
allocation. -/
def step (t : GlobalSystem) : GlobalOp → Except Fault GlobalSystem
  | .alloc layout => do
    let (ptr, heap) ← t.heap.globalAlloc layout
    if ptr = 0 then .ok { t with heap }
    else .ok ⟨heap, ⟨ptr, layout, (heap.caches (cacheIndex layout)).activeSlabPpn.getD 0⟩ :: t.live⟩
  | .dealloc a => do
    let heap ← t.heap.globalDealloc a.ptr a.layout
    .ok ⟨heap, t.live.erase a⟩

/-- Layouts that a cache serves, and pointers in use. -/
def Allowed (t : GlobalSystem) : GlobalOp → Prop
  | .alloc layout => actualSize layout ≤ 2048
  | .dealloc a => a ∈ t.live

instance (t : GlobalSystem) : ∀ op, Decidable (t.Allowed op)
  | .alloc layout => inferInstanceAs (Decidable (actualSize layout ≤ 2048))
  | .dealloc a => inferInstanceAs (Decidable (a ∈ t.live))

/-- **A correct `dealloc`**: the entry looked up is the one of the page that holds the pointer, it
is in `MEM_MAP` and a slab's, `free_object` is called with the slab's head page, and `dealloc`
returns. -/
def DeallocCorrect (t : GlobalSystem) : GlobalOp → Prop
  | .alloc _ => True
  | .dealloc a =>
    t.heap.memMap.index (deallocPpn a.ptr) =
      t.heap.memMap.index (virtToPhys a.ptr >>> pageSizeBits) ∧
    t.heap.memMap.index (deallocPpn a.ptr) < t.heap.memMap.len ∧
    (∃ s, (t.heap.memMap.page (deallocPpn a.ptr)).state = .slab s) ∧
    (∃ c, t.heap.deallocTarget a.ptr = .ok (c, a.slab)) ∧
    ∃ heap, t.heap.globalDealloc a.ptr a.layout = .ok heap

variable {t t' : GlobalSystem} {M : Set ℕ}

/-- The objects of the caches that the pointers in use are. -/
def objects (t : GlobalSystem) : List LiveObj :=
  t.live.map fun a => ⟨cacheIndex a.layout, a.ptr, a.slab⟩

/-- The invariant of runs that only allocate. -/
def Inv (M : Set ℕ) (t : GlobalSystem) : Prop := SlubSystem.NineInv M ⟨t.heap, t.objects⟩

/-- A layout that a cache serves has one of the nine indices. -/
theorem cacheIndex_lt {layout : Layout} (h : actualSize layout ≤ 2048) : cacheIndex layout < 9 := by
  have hpos : 0 < actualSize layout := (by decide : 0 < 8).trans_le (le_max_right _ _)
  have hpow : 2 ^ Usize.trailingZeros (actualSize layout) ≤ 2 ^ 11 :=
    (Nat.le_of_dvd hpos (Usize.two_pow_trailingZeros_dvd _)).trans h
  have hle := (Nat.pow_le_pow_iff_right (by decide : 1 < 2)).mp hpow
  rw [cacheIndex]
  omega

/-- The cache of the index serves the layout. -/
theorem globalAlloc_eq (heap : Heap) {layout : Layout} (h : actualSize layout ≤ 2048) :
    heap.globalAlloc layout = heap.alloc (cacheIndex layout) := by
  rw [globalAlloc, if_pos h]
  exact if_pos (cacheIndex_lt h)

/-- An allocation is one of the cache that serves the layout. -/
theorem step_alloc (t : GlobalSystem) {layout : Layout} (h : actualSize layout ≤ 2048) :
    SlubSystem.step ⟨t.heap, t.objects⟩ (.alloc (cacheIndex layout)) =
      (t.step (.alloc layout)).map fun t' => ⟨t'.heap, t'.objects⟩ := by
  rw [SlubSystem.step, step, globalAlloc_eq t.heap h]
  cases t.heap.alloc (cacheIndex layout) with
  | error e => rfl
  | ok r =>
    rw [ok_bind, ok_bind]
    dsimp only
    split <;> rfl

/-- Allocations keep the invariant. -/
theorem Inv.alloc (h : Inv M t) {layout : Layout} (hsize : actualSize layout ≤ 2048)
    (hstep : t.step (.alloc layout) = .ok t') : Inv M t' := by
  obtain ⟨u, hu, hinv⟩ := SlubSystem.NineInv.alloc h (cacheIndex_lt hsize)
  rw [step_alloc t hsize, hstep] at hu
  cases hu
  exact hinv

/-- The page that holds a pointer in use is the one of its slab. -/
theorem Inv.page_eq (h : Inv M t) {a : GlobalObj} (ha : a ∈ t.live) :
    virtToPhys a.ptr / pageSize = a.slab := by
  have ho : (⟨cacheIndex a.layout, a.ptr, a.slab⟩ : LiveObj) ∈ t.objects :=
    List.mem_map_of_mem ha
  refine SlubSystem.NineInv.bytes_page h ho (x := a.ptr) ?_
  obtain ⟨⟨slabs, part, hinv⟩, -⟩ := id h
  obtain ⟨free, hs⟩ := hinv.slab
  rw [SlubSystem.bytes, hs.size_eq]
  exact ⟨le_rfl, Nat.lt_add_of_pos_right (hs.size_ok _ (hs.live_slab _ ho)).pos⟩

/-- The page that holds a pointer in use is a managed page. -/
theorem Inv.page_mem (h : Inv M t) {a : GlobalObj} (ha : a ∈ t.live) :
    virtToPhys a.ptr / pageSize ∈ M ∧ Addressable M := by
  rw [h.page_eq ha]
  obtain ⟨⟨slabs, part, hinv⟩, -⟩ := h
  obtain ⟨free, hs⟩ := hinv.slab
  have ho : (⟨cacheIndex a.layout, a.ptr, a.slab⟩ : LiveObj) ∈ t.objects :=
    List.mem_map_of_mem ha
  exact ⟨hs.head_mem (hs.live_slab _ ho), hs.owns.addressable⟩

/-- Below 4 GiB the mask keeps the whole address, which is the page number of page `0` only. -/
theorem index_deallocPpn_ne (m : MemMap) {ptr : ℕ} (hpos : 0 < virtToPhys ptr / pageSize)
    (hlt : virtToPhys ptr / pageSize < 2 ^ 20) :
    m.index (deallocPpn ptr) ≠ m.index (virtToPhys ptr >>> pageSizeBits) := by
  generalize hpa : virtToPhys ptr = pa at hpos hlt
  simp only [pageSize] at hpos hlt
  have hmask : deallocPpn ptr = pa := by
    rw [deallocPpn, hpa, PhysPageNum.ofUsize, Nat.and_two_pow_sub_one_eq_mod]
    omega
  rw [hmask, Nat.shiftRight_eq_div_pow, two_pow_pageSizeBits]
  simp only [pageSize]
  intro heq
  have := MemMap.eq_of_index_eq (by omega) (by omega) heq
  omega

/-- **`dealloc` never finds the page of its pointer**: from the nine new caches over any free
pages, a run of allocations and deallocations has only correct deallocations exactly when it has
none. -/
theorem deallocCorrect_along_iff (buddy : BuddySystemFrameAllocator) (memMap : MemMap) (M : Set ℕ)
    (free : ℕ → List ℕ) (hfree : buddy.Inv free M) (hrange : ∀ p ∈ M, memMap.InRange p)
    (ops : List GlobalOp) (h : Along step Allowed ⟨slubAllocator buddy memMap, []⟩ ops) :
    Along step DeallocCorrect ⟨slubAllocator buddy memMap, []⟩ ops ↔
      Along step (fun _ op => ∀ a, op ≠ .dealloc a) ⟨slubAllocator buddy memMap, []⟩ ops := by
  have hstart : Inv M ⟨slubAllocator buddy memMap, []⟩ :=
    ⟨SlubSystem.Inv.new hfree hrange _, fun _ ho => absurd ho List.not_mem_nil⟩
  refine (Along.iff_of_invariant (I := Inv M) (fun t op hI hA => ?_) (fun t op t' hI hA hC hs => ?_)
    hstart h).symm
  · cases op with
    | alloc layout => exact iff_of_true (fun a => nofun) trivial
    | dealloc a =>
      obtain ⟨hmem, haddr⟩ := hI.page_mem hA
      exact iff_of_false (fun hno => hno a rfl)
        fun hcorrect => index_deallocPpn_ne _ (haddr.pos hmem) (haddr.lt hmem) hcorrect.1
  · cases op with
    | alloc layout => exact hI.alloc hA hs
    | dealloc a => exact absurd rfl (hC a)

/-- An object of 2048 bytes is allocated and deallocated. -/
def sampleOps : List GlobalOp :=
  [.alloc ⟨2048, 8⟩, .dealloc ⟨physToVirt (0x80002 * pageSize), ⟨2048, 8⟩, 0x80002⟩]

theorem allowed_sampleOps : Along step Allowed
    ⟨slubAllocator SlubSystem.sampleBuddy SlubSystem.sampleMap, []⟩ sampleOps := by
  decide +kernel

theorem sampleOps_first : ∃ t,
    step ⟨slubAllocator SlubSystem.sampleBuddy SlubSystem.sampleMap, []⟩ (.alloc ⟨2048, 8⟩) =
      .ok t := by
  obtain ⟨t, ht, -⟩ := exists_of_map_eq_ok (f := fun _ => ())
    (x := step ⟨slubAllocator SlubSystem.sampleBuddy SlubSystem.sampleMap, []⟩ (.alloc ⟨2048, 8⟩))
    (a := ()) (by decide +kernel)
  exact ⟨t, ht⟩

theorem deallocCorrect_along_sample :
    ¬ Along step DeallocCorrect ⟨slubAllocator SlubSystem.sampleBuddy SlubSystem.sampleMap, []⟩
      sampleOps := by
  obtain ⟨free, hfree⟩ := SlubSystem.sampleBuddy_inv
  rw [deallocCorrect_along_iff _ _ _ free hfree SlubSystem.sampleMap_inRange _ allowed_sampleOps]
  intro hno
  obtain ⟨t, ht⟩ := sampleOps_first
  exact (hno.2 t ht).1 _ rfl

/-- **The first `dealloc` after boot panics**: with RAM from `0x80000000` on, the index that it
computes is past the end of `MEM_MAP`. -/
theorem dealloc_out_of_bounds :
    Along step Allowed ⟨slubAllocator SlubSystem.sampleBuddy SlubSystem.sampleMap, []⟩ sampleOps ∧
    exec step ⟨slubAllocator SlubSystem.sampleBuddy SlubSystem.sampleMap, []⟩ sampleOps =
      .error .indexOutOfBounds ∧
    ¬ Along step DeallocCorrect ⟨slubAllocator SlubSystem.sampleBuddy SlubSystem.sampleMap, []⟩
      sampleOps := by
  refine ⟨allowed_sampleOps, eq_error_of_map (f := GlobalSystem.live) ?_, fun hall => ?_⟩
  · decide +kernel
  · obtain ⟨t, ht⟩ := sampleOps_first
    have hcorrect := (hall.2 t ht).1
    exact index_deallocPpn_ne _ (by decide) (by decide) hcorrect.1

end GlobalSystem

end CharlotteOs
