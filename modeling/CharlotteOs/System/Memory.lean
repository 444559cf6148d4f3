import CharlotteOs.Mm.GlobalAlloc
import CharlotteOs.System.Footprints

/-!
# Who owns the memory

`BUDDY_ALLOCATOR` has three clients. The scheduler keeps stacks of tasks on its blocks, the slab
caches of the global allocator keep objects on them, and `find_create_pte` makes page tables of
them, which a `FrameTracker` returns when it is dropped. Between any two operations each word of
managed memory is free or has one owner, and it changes only when its owner writes to it.

A stack, a table and an object are memory of different kinds to Rust, but to the allocator they are
blocks that were taken and not returned. So the clients need not know of each other: for each of
them, what the others hold is not managed.

The collections of the scheduler grow on the heap as well. Their requests are operations of the slab
caches like any other, and an event of the kernel does not make them by itself.

## Main definitions

* `MemorySystem`, `MemorySystem.step`: the kernel, the caches and the frames on one allocator
* `Owner`, `MemorySystem.holds`: the words that belong to a stack, a frame or an object
* `MemorySystem.Separated`: owners are apart, and every managed page is free or owned
* `MemorySystem.Kept`: the words of an owner are as before

## Main results

* `MemorySystem.Inv.step`: each operation returns, keeps the invariant and the words of all owners
* `MemorySystem.separated_along`: so does every run
-/

namespace CharlotteOs

open LinkedChain DyadicTiling FallibleRun BuddySystemFrameAllocator

/-- The kernel with the slab caches and the frames that are held as page tables. The allocator and
the memory are those of the kernel. -/
structure MemorySystem where
  kernel : Kernel
  memMap : MemMap
  caches : ℕ → KmemCache
  live : List LiveObj
  frames : List ℕ

/-- An operation of a client of the allocator. The last is a write of a task to a stack, or of the
page table code to a frame. -/
inductive MemoryOp
  | kernel (e : Event)
  | slub (op : SlubOp)
  | takeFrame
  | dropFrame (ppn : ℕ)
  | write (ptr val : ℕ)

/-- Who memory belongs to. -/
inductive Owner
  | stack (id : ℕ)
  | frame (ppn : ℕ)
  | object (o : LiveObj)
  deriving DecidableEq

/-- The word that a client writes to with an operation of its own. -/
def MemoryOp.WritesTo : MemoryOp → ℕ → Prop
  | .slub (.write ptr _), a | .write ptr _, a => kernelPa ptr = a
  | _, _ => False

namespace MemorySystem

/-- The caches with the objects that are live. -/
def slub (t : MemorySystem) : SlubSystem := ⟨⟨t.kernel.buddy, t.memMap, t.caches⟩, t.live⟩

/-- The system after the caches changed. -/
def withSlub (t : MemorySystem) (u : SlubSystem) : MemorySystem :=
  { t with kernel.buddy := u.heap.buddy, memMap := u.heap.memMap, caches := u.heap.caches,
           live := u.live }

/-- The system with the allocator in another state. -/
def withBuddy (t : MemorySystem) (buddy : BuddySystemFrameAllocator) : MemorySystem :=
  { t with kernel.buddy := buddy }

/-- One operation. `takeFrame` is what `find_create_pte` does for a table, and `dropFrame` is
`Drop for FrameTracker`. -/
def step (t : MemorySystem) : MemoryOp → Except Fault MemorySystem
  | .kernel e => do
    let kernel ← t.kernel.step e
    .ok { t with kernel }
  | .slub op => do
    let u ← t.slub.step op
    .ok (t.withSlub u)
  | .takeFrame => do
    match ← t.kernel.buddy.alloc 1 with
    | (none, _) => .error .unwrapNone
    | (some ppn, buddy) => .ok { t.withBuddy buddy with frames := t.frames ++ [ppn] }
  | .dropFrame ppn => do
    let buddy ← t.kernel.buddy.dealloc ppn 1
    .ok { t.withBuddy buddy with frames := t.frames.erase ppn }
  | .write ptr val =>
    .ok (t.withBuddy { t.kernel.buddy with mem := t.kernel.buddy.mem.store ptr val })

/-- The words that an owner holds, by their physical addresses. -/
def holds (t : MemorySystem) : Owner → Set ℕ
  | .stack id => {a | ∃ tcb, t.kernel.scheduler.task id = some tcb ∧
      a / pageSize ∈ tcb.stackBlock.cells}
  | .frame ppn => {a | ppn ∈ t.frames ∧ a / pageSize = ppn}
  | .object o => {a | o ∈ t.live ∧ ∃ x ∈ t.slub.bytes o, kernelPa x = a}

/-- The operations that clients may take: system calls as the kernel allows them, frees that find
the slab where `free_object` expects it, frames while there are free pages, and writes to memory
that is held. -/
def Allowed (t : MemorySystem) : MemoryOp → Prop
  | .kernel e => t.kernel.Allowed e
  | .slub op => t.slub.ClientOp op ∧ t.slub.FreeExpected op
  | .takeFrame => t.kernel.buddy.freePages.Nonempty
  | .dropFrame ppn => ppn ∈ t.frames
  | .write ptr _ => (∃ id, kernelPa ptr ∈ t.holds (.stack id)) ∨
      ∃ ppn, kernelPa ptr ∈ t.holds (.frame ppn)

/-- **Owners are apart**: no word has two owners or is in a free page, and every managed page is
free, or in a stack, or a frame, or in the slab whose head page `MEM_MAP` marks as one. -/
structure Separated (M : Set ℕ) (t : MemorySystem) : Prop where
  apart : ∀ o o', o ≠ o' → Disjoint (t.holds o) (t.holds o')
  managed : ∀ o, ∀ a ∈ t.holds o, a / pageSize ∈ M \ t.kernel.buddy.freePages
  free : t.kernel.buddy.freePages ⊆ M
  cover : ∀ p ∈ M, p ∈ t.kernel.buddy.freePages ∨ (∃ id, p * pageSize ∈ t.holds (.stack id)) ∨
    p ∈ t.frames ∨ ∃ head s, t.memMap.slubAt head = some s ∧
      p ∈ (slabBlock (t.caches s.cache).objectSize head).cells

/-- The words that an owner holds before and after an operation are as before, but for a word that
the operation is a write to. -/
def Kept (t : MemorySystem) (op : MemoryOp) (t' : MemorySystem) : Prop :=
  ∀ o a, a ∈ t.holds o → a ∈ t'.holds o → ¬ op.WritesTo a →
    t'.kernel.buddy.mem a = t.kernel.buddy.mem a

/-- Nothing has been allocated or taken yet but by the scheduler. -/
def new (kernel : Kernel) (memMap : MemMap) : MemorySystem :=
  ⟨kernel, memMap, (Heap.slubAllocator kernel.buddy memMap).caches, [], []⟩

/-! ## The invariant -/

/-- The block of a frame. -/
def frameBlock (ppn : ℕ) : Block := Block.containing 0 ppn

/-- The sizes of the caches. -/
abbrev cacheSize (c : ℕ) : ℕ := (KmemCache.new (2 ^ (c + 3))).objectSize

/-- **The invariant**, with the slabs: for the scheduler the frames and the slabs are blocks of
others, and for the caches the stacks and the frames are not managed. -/
structure InvOf (M : Set ℕ) (t : MemorySystem) (q : RunQueue) (slabs : List (ℕ × ℕ))
    (part : ℕ → List ℕ) : Prop where
  kernel : KernelInv M (t.frames.map frameBlock ++ slabBlocks cacheSize slabs) t.kernel q
  heap : HeapInv cacheSize
    (M \ used (t.kernel.scheduler.stackBlocks ++ t.frames.map frameBlock))
    t.slub.heap t.live slabs part
  nine : ∀ e ∈ slabs, e.2 < 9
  range : ∀ p ∈ M, t.memMap.InRange p

def Inv (M : Set ℕ) (t : MemorySystem) : Prop := ∃ q slabs part, InvOf M t q slabs part

variable {M : Set ℕ} {t t' : MemorySystem} {q : RunQueue} {slabs slabs' : List (ℕ × ℕ)}
  {part part' : ℕ → List ℕ} {free : ℕ → List ℕ}

theorem mem_frameBlock {ppn p : ℕ} : p ∈ (frameBlock ppn).cells ↔ p = ppn := by
  rw [frameBlock, Block.cells_containing_zero, Set.mem_singleton_iff]

theorem mem_used_frames {frames : List ℕ} {p : ℕ} :
    p ∈ used (frames.map frameBlock) ↔ p ∈ frames := by
  simp only [mem_used, List.mem_map, exists_exists_and_eq_and, mem_frameBlock, exists_eq_right']

/-- The same blocks, with those of the caches first. -/
theorem perm_blocks (A B C : List Block) : (A ++ (B ++ C)).Perm (C ++ (A ++ B)) := by
  rw [← List.append_assoc]
  exact List.perm_append_comm

namespace InvOf

variable (h : InvOf M t q slabs part)

include h

theorem owns : ∃ free, Owns t.kernel.buddy free M (t.kernel.scheduler.stackBlocks ++
    (t.frames.map frameBlock ++ slabBlocks cacheSize slabs)) := h.kernel.sched.owns

theorem freePages_eq : t.kernel.buddy.freePages = M \ used (t.kernel.scheduler.stackBlocks ++
    (t.frames.map frameBlock ++ slabBlocks cacheSize slabs)) := by
  obtain ⟨free, howns⟩ := h.owns
  exact howns.freePages_eq

theorem live_nine {o : LiveObj} (ho : o ∈ t.live) : o.cache < 9 := h.nine _ (h.heap.live_slab ho)

theorem nineInv :
    t.slub.NineInv (M \ used (t.kernel.scheduler.stackBlocks ++ t.frames.map frameBlock)) :=
  ⟨⟨slabs, part, h.heap⟩, fun _ ho => h.live_nine ho⟩

/-- The bytes of an object are in the linear window, in the page of its slab. -/
theorem object_page {o : LiveObj} (ho : o ∈ t.live) {x : ℕ} (hx : x ∈ t.slub.bytes o) :
    physVirtOffset ≤ x ∧ kernelPa x / pageSize = o.slab := by
  obtain ⟨free, hs⟩ := h.heap.slab
  have he := hs.live_slab o ho
  obtain ⟨hlt, hdvd⟩ := SlubSystem.size_lt_dvd (h.live_nine ho)
  rw [SlubSystem.bytes, hs.size_eq] at hx
  obtain ⟨hlow, hhigh⟩ := object_bytes (hs.size_ok _ he).pos hlt hdvd (hs.head_lt he)
    (hs.ptr_mem_objects ho) hx
  have hle : physVirtOffset ≤ x := (Nat.le_add_left _ _).trans hlow
  refine ⟨hle, ?_⟩
  rw [kernelPa_of_le hle]
  simp only [pageSize] at hlow hhigh ⊢
  omega

theorem ptr_mem_bytes {o : LiveObj} (ho : o ∈ t.live) : o.ptr ∈ t.slub.bytes o := by
  obtain ⟨free, hs⟩ := h.heap.slab
  rw [SlubSystem.bytes, hs.size_eq]
  exact ⟨le_rfl, Nat.lt_add_of_pos_right (hs.size_ok _ (hs.live_slab o ho)).pos⟩

/-- Objects that are disjoint are different. -/
theorem nodup_live : t.live.Nodup := by
  refine h.nineInv.liveOk.disjoint.imp_of_mem ?_
  rintro o _ ho - hdis rfl
  exact Set.disjoint_left.mp hdis (h.ptr_mem_bytes ho) (h.ptr_mem_bytes ho)

/-- The blocks that an owner's words are in. -/
theorem page_mem {o : Owner} {a : ℕ} (ha : a ∈ t.holds o) :
    match o with
    | .stack _ => a / pageSize ∈ used t.kernel.scheduler.stackBlocks
    | .frame _ => a / pageSize ∈ used (t.frames.map frameBlock)
    | .object _ => a / pageSize ∈ used (slabBlocks cacheSize slabs) := by
  cases o with
  | stack id =>
    obtain ⟨tcb, ht, ha⟩ := ha
    exact ⟨tcb.stackBlock, List.mem_filterMap.mpr
      ⟨some tcb, List.mem_of_getElem? (Scheduler.task_eq_some.mp ht), rfl⟩, ha⟩
  | frame ppn =>
    obtain ⟨hppn, ha⟩ := ha
    exact mem_used_frames.mpr (ha ▸ hppn)
  | object o =>
    obtain ⟨ho, x, hx, rfl⟩ := ha
    obtain ⟨free, hs⟩ := h.heap.slab
    have he := hs.live_slab o ho
    dsimp only
    rw [(h.object_page ho hx).2]
    exact SlabInv.block_subset_used he (hs.head_mem_block he)

/-- An owner's words are in blocks in use. -/
theorem page_used {o : Owner} {a : ℕ} (ha : a ∈ t.holds o) :
    a / pageSize ∈ used (t.kernel.scheduler.stackBlocks ++
      (t.frames.map frameBlock ++ slabBlocks cacheSize slabs)) := by
  have hmem := h.page_mem ha
  rw [used_append, used_append]
  cases o with
  | stack id => exact Or.inl hmem
  | frame ppn => exact Or.inr (Or.inl hmem)
  | object o => exact Or.inr (Or.inr hmem)

theorem managed {o : Owner} {a : ℕ} (ha : a ∈ t.holds o) :
    a / pageSize ∈ M \ t.kernel.buddy.freePages := by
  obtain ⟨free, howns⟩ := h.owns
  have hused := h.page_used ha
  refine ⟨howns.used_subset hused, fun hfree => ?_⟩
  rw [h.freePages_eq] at hfree
  exact hfree.2 hused

/-- The stacks of different tasks. -/
theorem disjoint_stackBlock {id id' : ℕ} {tcb tcb' : TaskControlBlock} (hne : id ≠ id')
    (ht : t.kernel.scheduler.task id = some tcb) (ht' : t.kernel.scheduler.task id' = some tcb') :
    Disjoint tcb.stackBlock.cells tcb'.stackBlock.cells := by
  obtain ⟨free, howns⟩ := h.owns
  have hpair := (List.pairwise_append.mp howns.disjoint).1
  rw [Scheduler.stackBlocks, List.pairwise_filterMap, List.pairwise_iff_getElem] at hpair
  obtain ⟨hid, heq⟩ := List.getElem?_eq_some_iff.mp (Scheduler.task_eq_some.mp ht)
  obtain ⟨hid', heq'⟩ := List.getElem?_eq_some_iff.mp (Scheduler.task_eq_some.mp ht')
  rcases Nat.lt_or_gt_of_ne hne with hlt | hlt
  · exact hpair id id' hid hid' hlt _ (by rw [heq]; rfl) _ (by rw [heq']; rfl)
  · exact (hpair id' id hid' hid hlt _ (by rw [heq']; rfl) _ (by rw [heq]; rfl)).symm

/-- **No word has two owners.** -/
theorem apart {o o' : Owner} (hne : o ≠ o') : Disjoint (t.holds o) (t.holds o') := by
  obtain ⟨free, howns⟩ := h.owns
  have hstack := howns.disjoint_append
  have hframe := ((howns.perm (perm_blocks _ _ _)).perm (perm_blocks _ _ _)).disjoint_append
  rw [used_append, Set.disjoint_union_right] at hstack hframe
  rw [Set.disjoint_left]
  intro a ha ha'
  have hmem := h.page_mem ha
  have hmem' := h.page_mem ha'
  cases o with
  | stack id =>
    cases o' with
    | stack id' =>
      obtain ⟨tcb, ht, ha⟩ := ha
      obtain ⟨tcb', ht', ha'⟩ := ha'
      have hid : id ≠ id' := fun heq => hne (by rw [heq])
      exact Set.disjoint_left.mp (h.disjoint_stackBlock hid ht ht') ha ha'
    | frame ppn => exact Set.disjoint_left.mp hstack.1 hmem hmem'
    | object o => exact Set.disjoint_left.mp hstack.2 hmem hmem'
  | frame ppn =>
    cases o' with
    | stack id => exact Set.disjoint_left.mp hstack.1 hmem' hmem
    | frame ppn' => exact hne (by rw [← ha.2, ← ha'.2])
    | object o => exact Set.disjoint_left.mp hframe.1 hmem hmem'
  | object o =>
    cases o' with
    | stack id => exact Set.disjoint_left.mp hstack.2 hmem' hmem
    | frame ppn => exact Set.disjoint_left.mp hframe.1 hmem' hmem
    | object o' =>
      obtain ⟨ho, x, hx, rfl⟩ := ha
      obtain ⟨ho', x', hx', heq⟩ := ha'
      obtain rfl : x' = x := by
        by_contra hxx
        exact kernelPa_ne (h.object_page ho' hx').1 (h.object_page ho hx).1 hxx heq
      have hsymm : Std.Symm fun o o' => Disjoint (t.slub.bytes o) (t.slub.bytes o') :=
        ⟨fun _ _ hd => hd.symm⟩
      have hdis := h.nineInv.liveOk.disjoint.forall ho ho' fun heq => hne (by rw [heq])
      exact Set.disjoint_left.mp hdis hx hx'

/-- Every managed page is free or owned. -/
theorem cover {p : ℕ} (hp : p ∈ M) :
    p ∈ t.kernel.buddy.freePages ∨ (∃ id, p * pageSize ∈ t.holds (.stack id)) ∨ p ∈ t.frames ∨
      ∃ head s, t.memMap.slubAt head = some s ∧
        p ∈ (slabBlock (t.caches s.cache).objectSize head).cells := by
  by_cases hfree : p ∈ t.kernel.buddy.freePages
  · exact Or.inl hfree
  right
  have hused : p ∈ used (t.kernel.scheduler.stackBlocks ++
      (t.frames.map frameBlock ++ slabBlocks cacheSize slabs)) := by
    by_contra hno
    exact hfree (h.freePages_eq ▸ ⟨hp, hno⟩)
  rw [used_append, used_append] at hused
  rcases hused with ⟨b, hb, hpb⟩ | hframe | ⟨b, hb, hpb⟩
  · left
    obtain ⟨slot, hslot, hmap⟩ := List.mem_filterMap.mp hb
    obtain ⟨tcb, rfl, rfl⟩ := Option.map_eq_some_iff.mp hmap
    obtain ⟨id, hid⟩ := List.getElem?_of_mem hslot
    refine ⟨id, tcb, Scheduler.task_eq_some.mpr hid, ?_⟩
    rwa [Nat.mul_div_cancel p (by decide)]
  · exact Or.inr (Or.inl (mem_used_frames.mp hframe))
  · right; right
    obtain ⟨e, he, rfl⟩ := List.mem_map.mp hb
    obtain ⟨free, hs⟩ := h.heap.slab
    obtain ⟨s, l, hok⟩ := hs.ok e he
    refine ⟨e.1, s, hok.slub, ?_⟩
    have hsize : (t.caches s.cache).objectSize = cacheSize s.cache := hs.size_eq s.cache
    rw [hsize, hok.cache]
    exact hpb

/-- **The invariant says what it should.** -/
theorem separated : Separated M t where
  apart _ _ hne := h.apart hne
  managed _ _ ha := h.managed ha
  free := h.freePages_eq ▸ Set.sdiff_subset
  cover _ hp := h.cover hp

/-- Another client than the caches has taken or returned blocks, and left the words of the slabs
alone. -/
theorem of_kernel {k : Kernel} {q' : RunQueue} {frames : List ℕ}
    (hk : KernelInv M (frames.map frameBlock ++ slabBlocks cacheSize slabs) k q')
    (hmem : ∀ a, a / pageSize ∈ used (slabBlocks cacheSize slabs) →
      k.buddy.mem a = t.kernel.buddy.mem a) :
    InvOf M { t with kernel := k, frames := frames } q' slabs part := by
  obtain ⟨free, howns⟩ := hk.sched.owns
  exact ⟨hk, h.heap.congr_buddy (howns.perm (perm_blocks _ _ _)).split
    (fun p hp => h.range p hp.1) (fun e he => SlubSystem.sizeOk_nine (h.nine e he)) hmem,
    h.nine, h.range⟩

/-- The caches have changed. -/
theorem of_slub {u : SlubSystem}
    (hu : HeapInv cacheSize (M \ used (t.kernel.scheduler.stackBlocks ++ t.frames.map frameBlock))
      u.heap u.live slabs' part')
    (hnine : ∀ e ∈ slabs', e.2 < 9) (hrange : ∀ p, t.memMap.InRange p → u.heap.memMap.InRange p) :
    InvOf M (t.withSlub u) q slabs' part' := by
  obtain ⟨free, howns⟩ := h.owns
  obtain ⟨free', hs⟩ := hu.slab
  have howns' : Owns u.heap.buddy free' M (t.kernel.scheduler.stackBlocks ++
      (t.frames.map frameBlock ++ slabBlocks cacheSize slabs')) :=
    (hs.owns.join (howns.perm (perm_blocks _ _ _))).perm (perm_blocks _ _ _).symm
  exact ⟨h.kernel.withBuddy howns', hu, hnine, fun p hp => hrange p (h.range p hp)⟩

end InvOf

/-! ## Operations -/

/-- What every operation does: it keeps the invariant and the words of all owners, and it writes to
managed pages only. -/
structure StepOk (M : Set ℕ) (t : MemorySystem) (op : MemoryOp) (t' : MemorySystem) : Prop where
  inv : Inv M t'
  kept : Kept t op t'
  same : SameOutside M t.kernel.buddy.mem t'.kernel.buddy.mem

namespace InvOf

variable {q' : RunQueue} {op : MemoryOp}

/-- The allocator writes to pages that are free before or after, so to no words of an owner. -/
theorem stepOk_of_writes (h : InvOf M t q slabs part) (h' : InvOf M t' q' slabs' part')
    (hwrites : Released t.kernel.buddy t'.kernel.buddy ∨ Taken t.kernel.buddy t'.kernel.buddy) :
    StepOk M t op t' := by
  refine ⟨⟨q', slabs', part', h'⟩, fun o a ha ha' _ => ?_, ?_⟩
  · rcases hwrites with hreleased | htaken
    · exact hreleased.same a (h'.managed ha').2
    · exact htaken.same a (h.managed ha).2
  · rcases hwrites with hreleased | htaken
    · exact hreleased.same.mono h'.separated.free
    · exact htaken.same.mono h.separated.free

variable (h : InvOf M t q slabs part)

include h

/-- A word of a slab is not written to by the allocator when another client calls it. -/
theorem slab_word {k : Kernel} {frames : List ℕ} {a : ℕ}
    (hk : KernelInv M (frames.map frameBlock ++ slabBlocks cacheSize slabs) k q')
    (hwrites : Released t.kernel.buddy k.buddy ∨ Taken t.kernel.buddy k.buddy)
    (ha : a / pageSize ∈ used (slabBlocks cacheSize slabs)) :
    k.buddy.mem a = t.kernel.buddy.mem a := by
  rcases hwrites with hreleased | htaken
  · refine hreleased.same a fun hfree => ?_
    obtain ⟨free, howns⟩ := hk.sched.owns
    rw [howns.freePages_eq, used_append, used_append] at hfree
    exact hfree.2 (Or.inr (Or.inr ha))
  · refine htaken.same a fun hfree => ?_
    rw [h.freePages_eq, used_append, used_append] at hfree
    exact hfree.2 (Or.inr (Or.inr ha))

/-- An event of the kernel. -/
theorem step_kernel {e : Event} (hallowed : t.kernel.Allowed e) :
    ∃ t', t.step (.kernel e) = .ok t' ∧ StepOk M t (.kernel e) t' := by
  obtain ⟨k', q', hk', hinv, -⟩ := h.kernel.step hallowed
  have hwrites := h.kernel.step_writes hallowed hk'
  refine ⟨{ t with kernel := k' }, ?_, h.stepOk_of_writes
    (h.of_kernel hinv fun a ha => h.slab_word hinv hwrites ha) hwrites⟩
  rw [step, hk', ok_bind]

/-- A table is made. The allocator has a block as long as a page is free. -/
theorem step_takeFrame (hfree : t.kernel.buddy.freePages.Nonempty) :
    ∃ t', t.step .takeFrame = .ok t' ∧ StepOk M t .takeFrame t' := by
  obtain ⟨free, howns⟩ := h.owns
  rcases howns.alloc Nat.one_pos (by decide) with ⟨b, free', r, hb, hr, howns', -⟩ | hnone
  · have hwrites := howns.alloc_taken Nat.one_pos (by decide) hb
    have hblock : frameBlock r.base = r := by
      rw [Nat.clog_one_right] at hr
      exact Block.ext (Block.containing_base (by rw [pow_zero]; exact one_dvd _)) hr.symm
    have hperm : (r :: (t.kernel.scheduler.stackBlocks ++
        (t.frames.map frameBlock ++ slabBlocks cacheSize slabs))).Perm
          (t.kernel.scheduler.stackBlocks ++
            ((t.frames ++ [r.base]).map frameBlock ++ slabBlocks cacheSize slabs)) := by
      rw [List.map_append, List.map_singleton, hblock, List.append_assoc, List.singleton_append]
      exact List.perm_middle.symm.trans (List.perm_middle.symm.append_left _)
    have hk := h.kernel.withBuddy (howns'.perm hperm)
    refine ⟨{ t.withBuddy b with frames := t.frames ++ [r.base] }, ?_, h.stepOk_of_writes
      (h.of_kernel hk fun a ha => h.slab_word hk (Or.inr hwrites) ha) (Or.inr hwrites)⟩
    rw [step, hb, ok_bind]
  · obtain ⟨p, k, hk, a, ⟨l, hl, ha⟩, -⟩ := hfree
    have hempty := howns.inv.alloc_one_iff.mp hnone k hk
    rw [hempty] at hl
    cases hl.unique (chain_nil.mpr rfl)
    cases ha

/-- A table is dropped. -/
theorem step_dropFrame {ppn : ℕ} (hppn : ppn ∈ t.frames) :
    ∃ t', t.step (.dropFrame ppn) = .ok t' ∧ StepOk M t (.dropFrame ppn) t' := by
  obtain ⟨free, howns⟩ := h.owns
  have hperm : (t.kernel.scheduler.stackBlocks ++
      (t.frames.map frameBlock ++ slabBlocks cacheSize slabs)).Perm (frameBlock ppn ::
        (t.kernel.scheduler.stackBlocks ++
          ((t.frames.erase ppn).map frameBlock ++ slabBlocks cacheSize slabs))) :=
    ((((List.perm_cons_erase hppn).map frameBlock).append_right _).append_left _).trans
      List.perm_middle
  have horder : (frameBlock ppn).order = Nat.clog 2 1 := by
    rw [Nat.clog_one_right]
    rfl
  have hbase : (frameBlock ppn).base = ppn :=
    Block.containing_base (by rw [pow_zero]; exact one_dvd _)
  obtain ⟨b, free', hb, howns', -⟩ := howns.dealloc hperm Nat.one_pos (by decide) horder
  have hwrites := howns.dealloc_released hperm Nat.one_pos (by decide) horder hb
  have hk := h.kernel.withBuddy howns'
  refine ⟨{ t.withBuddy b with frames := t.frames.erase ppn }, ?_, h.stepOk_of_writes
    (h.of_kernel hk fun a ha => h.slab_word hk (Or.inl hwrites) ha) (Or.inl hwrites)⟩
  rw [hbase] at hb
  rw [step, hb, ok_bind]

/-- A client writes to a word that it holds. -/
theorem stepOk_of_store {ptr val : ℕ} {o : Owner} (ho : kernelPa ptr ∈ t.holds o)
    (hop : op.WritesTo (kernelPa ptr)) (h' : Inv M t')
    (hmem : t'.kernel.buddy.mem = t.kernel.buddy.mem.store ptr val) : StepOk M t op t' := by
  refine ⟨h', fun o' a _ _ hno => ?_, fun a ha => ?_⟩
  · rw [hmem]
    refine Function.update_of_ne (fun heq => hno ?_) _ _
    rwa [heq]
  · rw [hmem]
    refine Function.update_of_ne (fun heq => ha ?_) _ _
    rw [heq]
    exact (h.managed ho).1

/-- A task writes to its stack, or the page table code to a frame. -/
theorem step_write {ptr val : ℕ} (hallowed : t.Allowed (.write ptr val)) :
    ∃ t', t.step (.write ptr val) = .ok t' ∧ StepOk M t (.write ptr val) t' := by
  obtain ⟨o, ho, hobj⟩ : ∃ o, kernelPa ptr ∈ t.holds o ∧ ∀ x, o ≠ .object x := by
    rcases hallowed with ⟨id, hid⟩ | ⟨ppn, hppn⟩
    · exact ⟨.stack id, hid, by simp⟩
    · exact ⟨.frame ppn, hppn, by simp⟩
  obtain ⟨free, howns⟩ := h.owns
  have hsame : SameOutside (M \ used (t.kernel.scheduler.stackBlocks ++
      (t.frames.map frameBlock ++ slabBlocks cacheSize slabs)))ᶜ t.kernel.buddy.mem
        (t.kernel.buddy.mem.store ptr val) := by
    intro a ha
    refine Function.update_of_ne (fun heq => ha fun hfree => hfree.2 ?_) _ _
    rw [heq]
    exact h.page_used ho
  have hk := h.kernel.withBuddy (howns.congr_mem hsame)
  refine ⟨_, rfl, h.stepOk_of_store ho rfl ⟨q, slabs, part, h.of_kernel hk fun a ha => ?_⟩ rfl⟩
  refine Function.update_of_ne (fun heq => ?_) _ _
  have hmem := h.page_mem ho
  have hstack := howns.disjoint_append
  have hframe := ((howns.perm (perm_blocks _ _ _)).perm (perm_blocks _ _ _)).disjoint_append
  rw [used_append, Set.disjoint_union_right] at hstack hframe
  rw [heq] at ha
  cases o with
  | stack id => exact Set.disjoint_left.mp hstack.2 hmem ha
  | frame ppn => exact Set.disjoint_left.mp hframe.1 hmem ha
  | object x => exact hobj x rfl

/-- An object is allocated. -/
theorem step_alloc {c : ℕ} (hc : c < 9) :
    ∃ t', t.step (.slub (.alloc c)) = .ok t' ∧ StepOk M t (.slub (.alloc c)) t' := by
  have hsz := SlubSystem.sizeOk_nine
    (M := M \ used (t.kernel.scheduler.stackBlocks ++ t.frames.map frameBlock)) hc
  obtain ⟨ptr, hp', hrun, -⟩ := h.heap.alloc hsz
  have halloc := HeapInv.allocLoop_allocated hsz (SlubSystem.size_lt_dvd hc).1 _ h.heap hrun
  obtain ⟨slabs', part', live', hinv, hnew, hres⟩ := halloc.inv
  have hnine : ∀ e ∈ slabs', e.2 < 9 := by
    intro e he
    rcases hnew e he with he | rfl
    · exact h.nine e he
    · exact hc
  have hstep : t.slub.step (.alloc c) = .ok ⟨hp', live'⟩ := by
    have hrun : t.slub.heap.alloc c = .ok (ptr, hp') := hrun
    rw [SlubSystem.step, hrun, ok_bind]
    dsimp only
    rcases hres with ⟨hzero, rfl⟩ | ⟨hne, p, hactive, rfl⟩
    · rw [if_pos hzero]
      rfl
    · rw [if_neg hne, hactive]
      rfl
  have h' : InvOf M (t.withSlub ⟨hp', live'⟩) q slabs' part' := h.of_slub hinv hnine halloc.range
  refine ⟨_, ?_, h.stepOk_of_writes h' (Or.inr halloc.taken)⟩
  rw [step, hstep, ok_bind]

/-- A client writes to an object. -/
theorem step_writeObject {ptr val : ℕ} (hclient : t.slub.ClientOp (.write ptr val)) :
    ∃ t', t.step (.slub (.write ptr val)) = .ok t' ∧ StepOk M t (.slub (.write ptr val)) t' := by
  obtain ⟨o, ho, -, hx⟩ := hclient
  obtain ⟨hlt, hdvd⟩ := SlubSystem.size_lt_dvd (h.live_nine ho)
  have hholds : kernelPa ptr ∈ t.holds (.object o) := ⟨ho, ptr, hx, rfl⟩
  obtain ⟨free, hs⟩ := h.heap.slab
  rw [SlubSystem.bytes, hs.size_eq] at hx
  have h' := h.of_slub (u := ⟨_, t.live⟩) (h.heap.write ho hlt hdvd hx val) h.nine fun _ hp => hp
  exact ⟨_, rfl, h.stepOk_of_store hholds rfl ⟨q, slabs, part, h'⟩ rfl⟩

/-- An object is freed. It is not held any more, and its word is no word of another owner. -/
theorem step_freeObject {o : LiveObj} (ho : o ∈ t.live)
    (hexp : t.slub.FreeExpected (.freeObject o)) :
    ∃ t', t.step (.slub (.freeObject o)) = .ok t' ∧ StepOk M t (.slub (.freeObject o)) t' := by
  obtain ⟨s, l, hok⟩ := h.heap.slubAt (h.heap.live_slab ho)
  have hfree := hexp s hok.slub
  rw [h.heap.listed_iff] at hfree
  obtain ⟨hp', -, -, hrun, -⟩ := h.heap.freeObject_ok ho hok hfree
  obtain ⟨hreleased, hrange, slabs', part', hinv, hsub⟩ :=
    h.heap.freeObject_writes ho hok hfree hrun
  have hstep : t.slub.step (.freeObject o) = .ok ⟨hp', t.live.erase o⟩ := by
    have hrun : t.slub.heap.freeObject o.cache o.ptr o.slab = .ok hp' := hrun
    rw [SlubSystem.step, hrun, ok_bind]
    rfl
  have h' : InvOf M (t.withSlub ⟨hp', t.live.erase o⟩) q slabs' part' :=
    h.of_slub hinv (fun e he => h.nine e (hsub he)) hrange
  have hptr : kernelPa o.ptr ∈ t.holds (.object o) := ⟨ho, o.ptr, h.ptr_mem_bytes ho, rfl⟩
  have hne : ∀ o' a, a ∈ t.holds o' → a ∈ (t.withSlub ⟨hp', t.live.erase o⟩).holds o' →
      a ≠ kernelPa o.ptr := by
    rintro o' a ha ha' rfl
    by_cases hoo : o' = .object o
    · rw [hoo] at ha'
      exact h.nodup_live.not_mem_erase ha'.1
    · exact Set.disjoint_left.mp (h.apart hoo) ha hptr
  refine ⟨_, ?_, ⟨q, slabs', part', h'⟩, fun o' a ha ha' _ => ?_, fun a ha => ?_⟩
  · rw [step, hstep, ok_bind]
  · exact (hreleased.same a (h'.managed ha').2).trans (Function.update_of_ne (hne o' a ha ha') _ _)
  · refine (hreleased.same a fun hfree' => ha (h'.separated.free hfree')).trans
      (Function.update_of_ne (fun heq => ha ?_) _ _)
    rw [heq]
    exact (h.managed hptr).1

/-- **Every operation** that a client may take. -/
theorem step (hallowed : t.Allowed op) : ∃ t', t.step op = .ok t' ∧ StepOk M t op t' := by
  cases op with
  | kernel e => exact h.step_kernel hallowed
  | slub op =>
    cases op with
    | alloc c => exact h.step_alloc hallowed.1
    | freeObject o => exact h.step_freeObject hallowed.1 hallowed.2
    | write ptr val => exact h.step_writeObject hallowed.1
  | takeFrame => exact h.step_takeFrame hallowed
  | dropFrame ppn => exact h.step_dropFrame hallowed
  | write ptr val => exact h.step_write hallowed

end InvOf

/-- Before the first object and the first table. -/
theorem Inv.new {kernel : Kernel} {memMap : MemMap} (hk : KernelInv M [] kernel q)
    (hrange : ∀ p ∈ M, memMap.InRange p) : Inv M (MemorySystem.new kernel memMap) := by
  obtain ⟨free, howns⟩ := hk.sched.owns
  have hinv := howns.inv
  rw [List.append_nil] at hinv
  have hnil : SlabInv (fun c => ((MemorySystem.new kernel memMap).slub.heap.caches c).objectSize)
      (M \ used kernel.scheduler.stackBlocks)
      (MemorySystem.new kernel memMap).slub.heap [] free [] :=
    SlabInv.nil hinv fun p hp => hrange p hp.1
  refine ⟨q, [], fun _ => [], hk, ⟨⟨free, ?_⟩, fun c => ⟨rfl, by simp, ?_⟩⟩, by simp, hrange⟩
  · show SlabInv cacheSize (M \ used (kernel.scheduler.stackBlocks ++ [])) _ _ _ _
    rw [List.append_nil]
    exact hnil
  · simp [MemorySystem.slub, MemorySystem.new, Heap.slubAllocator, KmemCache.new]

/-- What can be evaluated of `Allowed`: a list of one block shows a free page, and a write is to a
frame or to the stack of task `1`. -/
def SampleStep (t : MemorySystem) : MemoryOp → Prop
  | .kernel e => t.kernel.Allowed e
  | .slub op => t.slub.ClientOp op ∧ t.slub.SampleExpected op
  | .takeFrame => ∃ p ∈ List.range' 0x80000 8, ∃ k ∈ List.range 4,
      Chain (nextOf t.kernel.buddy.mem) (t.kernel.buddy.freeLists k) [p * pageSize]
  | .dropFrame ppn => ppn ∈ t.frames
  | .write ptr _ => kernelPa ptr / pageSize ∈ t.frames ∨
      ∃ tcb ∈ t.kernel.scheduler.task 1, tcb.stackBlock.base ≤ kernelPa ptr / pageSize ∧
        kernelPa ptr / pageSize < tcb.stackBlock.base + 2 ^ tcb.stackBlock.order

instance (t : MemorySystem) : ∀ op, Decidable (t.SampleStep op)
  | .kernel _ | .slub _ | .takeFrame | .dropFrame _ | .write .. => by
    unfold SampleStep
    infer_instance

end MemorySystem

end CharlotteOs
