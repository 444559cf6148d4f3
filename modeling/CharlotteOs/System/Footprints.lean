import CharlotteOs.Mm.SlubRuns
import CharlotteOs.Task.StackRuns
import CharlotteOs.Trap.KernelSpec

/-!
# Where the clients of the buddy allocator write

The scheduler takes stacks from the buddy allocator, and the slab caches take slabs. Neither looks
at the other. What keeps them apart is where the allocator writes: to the links of the free blocks,
so to pages that are free before the operation or after it.

## Main definitions

* `Released`, `Taken`: what a client that returns blocks, or takes one, does to the memory

## Main results

* `Owns.split`, `Owns.join`: the blocks of other clients are pages that are not managed
* `HeapInv.allocLoop_allocated`, `HeapInv.freeObject_writes`: where the slab caches write
* `KernelInv.step_writes`: where the kernel writes
-/

namespace CharlotteOs

open LinkedChain DyadicTiling FallibleRun BuddySystemFrameAllocator

namespace BuddySystemFrameAllocator

variable {s s' s'' : BuddySystemFrameAllocator} {free : ℕ → List ℕ} {M : Set ℕ} {L L' : List Block}

/-! ## Several clients -/

theorem used_append (L L' : List Block) : used (L ++ L') = used L ∪ used L' := by
  ext p
  simp [mem_used, or_and_right, exists_or]

/-- **One of two clients**: for it, the blocks of the other one are not managed. -/
theorem Owns.split (h : Owns s free M (L ++ L')) : Owns s free (M \ used L') L := by
  obtain ⟨hL, -, hdis⟩ := List.pairwise_append.mp h.disjoint
  refine ⟨?_, hL, fun b hb p hp => ⟨h.subset b (List.mem_append_left _ hb) hp, ?_⟩,
    fun b hb => h.order_lt b (List.mem_append_left _ hb), h.addressable.mono Set.sdiff_subset⟩
  · rw [Set.sdiff_sdiff, Set.union_comm, ← used_append]
    exact h.inv
  · rintro ⟨c, hc, hpc⟩
    exact Set.disjoint_left.mp (hdis b hb c hc) hp hpc

/-- **Both clients** again, after an operation of one of them. -/
theorem Owns.join (h : Owns s free (M \ used L') L) {s₀ : BuddySystemFrameAllocator}
    {free₀ : ℕ → List ℕ} {L₀ : List Block} (h₀ : Owns s₀ free₀ M (L₀ ++ L')) :
    Owns s free M (L ++ L') := by
  obtain ⟨-, hL', -⟩ := List.pairwise_append.mp h₀.disjoint
  refine ⟨?_, List.pairwise_append.mpr ⟨h.disjoint, hL', fun b hb c hc => ?_⟩, ?_, ?_,
    h₀.addressable⟩
  · rw [used_append, Set.union_comm, ← Set.sdiff_sdiff]
    exact h.inv
  · rw [Set.disjoint_left]
    exact fun p hp hpc => (h.subset b hb hp).2 ⟨c, hc, hpc⟩
  · intro b hb
    rcases List.mem_append.mp hb with hb | hb
    · exact (h.subset b hb).trans Set.sdiff_subset
    · exact h₀.subset b (List.mem_append_right _ hb)
  · intro b hb
    rcases List.mem_append.mp hb with hb | hb
    · exact h.order_lt b hb
    · exact h₀.order_lt b (List.mem_append_right _ hb)

theorem Owns.disjoint_append (h : Owns s free M (L ++ L')) : Disjoint (used L) (used L') := by
  rw [Set.disjoint_left]
  rintro p ⟨b, hb, hp⟩ ⟨c, hc, hpc⟩
  exact Set.disjoint_left.mp ((List.pairwise_append.mp h.disjoint).2.2 b hb c hc) hp hpc

theorem Owns.freePages_eq (h : Owns s free M L) : s.freePages = M \ used L := h.inv.freePages_eq

/-! ## Writes of the allocator -/

/-- Blocks went back to the allocator: it wrote to pages that are free now. -/
structure Released (s s' : BuddySystemFrameAllocator) : Prop where
  mono : s.freePages ⊆ s'.freePages
  same : SameOutside s'.freePages s.mem s'.mem

/-- Blocks were taken from the allocator, and written to: both are pages that were free before. -/
structure Taken (s s' : BuddySystemFrameAllocator) : Prop where
  mono : s'.freePages ⊆ s.freePages
  same : SameOutside s.freePages s.mem s'.mem

theorem Released.refl (s : BuddySystemFrameAllocator) : Released s s := ⟨subset_rfl, .refl _ _⟩

theorem Taken.refl (s : BuddySystemFrameAllocator) : Taken s s := ⟨subset_rfl, .refl _ _⟩

theorem Released.trans (h : Released s s') (h' : Released s' s'') : Released s s'' :=
  ⟨h.mono.trans h'.mono, (h.same.mono h'.mono).trans h'.same⟩

theorem Taken.trans (h : Taken s s') (h' : Taken s' s'') : Taken s s'' :=
  ⟨h'.mono.trans h.mono, h.same.trans (h'.same.mono h.mono)⟩

theorem Owns.alloc_taken (h : Owns s free M L) {n : ℕ} (hn : 0 < n) (hlt : n < 2 ^ 64)
    {o : Option ℕ} (hrun : s.alloc n = .ok (o, s')) : Taken s s' := by
  rcases h.alloc hn hlt with ⟨s₁, free', r, hs₁, -, howns, -, hsame⟩ | hnone
  · cases hs₁.symm.trans hrun
    refine ⟨?_, h.freePages_eq ▸ hsame⟩
    rw [howns.freePages_eq, h.freePages_eq, used_cons]
    exact Set.sdiff_subset_sdiff_right Set.subset_union_right
  · cases hnone.symm.trans hrun
    exact .refl s

theorem Owns.dealloc_released (h : Owns s free M L) {b : Block} (hL : L.Perm (b :: L')) {n : ℕ}
    (hn : 0 < n) (hlt : n < 2 ^ 64) (hb : b.order = Nat.clog 2 n)
    (hrun : s.dealloc b.base n = .ok s') : Released s s' := by
  obtain ⟨s₁, free', hs₁, howns, -, hsame⟩ := h.dealloc hL hn hlt hb
  cases hs₁.symm.trans hrun
  refine ⟨?_, howns.freePages_eq ▸ hsame⟩
  rw [howns.freePages_eq, h.freePages_eq, used_perm hL, used_cons]
  exact Set.sdiff_subset_sdiff_right Set.subset_union_right

end BuddySystemFrameAllocator

/-! ## The slab caches -/

section Slabs

variable {sz : ℕ → ℕ} {M : Set ℕ} {hp hp' : Heap} {live : List LiveObj} {free : ℕ → List ℕ}
  {slabs : List (ℕ × ℕ)} {part : ℕ → List ℕ} {c p ptr : ℕ} {o : LiveObj} {s : Slub} {l : List ℕ}

/-- The blocks of slabs. -/
def slabBlocks (sz : ℕ → ℕ) (slabs : List (ℕ × ℕ)) : List Block :=
  slabs.map fun e => slabBlock (sz e.2) e.1

/-- The entries of `MEM_MAP` are overwritten, and none is added or taken away. -/
theorem MemMap.InRange.fill {page : Page} {q : ℕ} : ∀ n {m m' : MemMap} {ppn : ℕ}, m.InRange q →
    MemMap.fill page n ppn m = .ok m' → m'.InRange q := by
  intro n
  induction n with
  | zero =>
    intro m m' ppn hq hrun
    cases hrun
    exact hq
  | succ n ih =>
    intro m m' ppn hq hrun
    obtain ⟨-, -, hrun⟩ := exists_of_bind_eq_ok hrun
    have hrest := ih (m := m.set ppn page) hq hrun
    exact hrest

/-- Carving writes to the block that has been taken. -/
theorem SlabInv.carve_taken (h : SlabInv sz M hp live free slabs) {n : ℕ} (hn : 0 < n)
    (hlt : n < 2 ^ 64) {b : BuddySystemFrameAllocator} (hb : hp.buddy.alloc n = .ok (some p, b))
    {m : Mem} (hm : ∀ r : Block, r.base = p → r.order = Nat.clog 2 n → r.order < maxOrder →
      r.cells ⊆ M → SameOutside r.cells b.mem m) :
    Taken hp.buddy { b with mem := m } := by
  have htaken := h.owns.alloc_taken hn hlt hb
  rcases h.owns.alloc hn hlt with ⟨b₁, free', r, hb₁, hr, howns, -, -⟩ | hnone
  · obtain ⟨hp₁, rfl⟩ : some r.base = some p ∧ b₁ = b := by
      rw [hb] at hb₁
      exact Prod.mk.inj (Except.ok.inj hb₁.symm)
    have hout := hm r (Option.some.inj hp₁) hr (howns.order_lt r List.mem_cons_self)
      (howns.subset r List.mem_cons_self)
    have hcells : r.cells ⊆ hp.buddy.freePages := by
      intro q hq
      rw [h.owns.freePages_eq]
      exact ⟨howns.subset r List.mem_cons_self hq, Set.disjoint_left.mp howns.disjoint_used hq⟩
    have howns' := howns.congr_mem (m := m) (hout.mono fun q hq hF => hF.2 ?_)
    · exact ⟨howns'.freePages_eq ▸ howns.freePages_eq ▸ htaken.mono,
        htaken.same.trans (hout.mono hcells)⟩
    · rw [used_cons]
      exact Or.inl hq
  · rw [hb] at hnone
    cases hnone

theorem SlabInv.allocNewSlab_taken (h : SlabInv sz M hp live free slabs) (hsz : SizeOk M (sz c))
    (hlt : sz c < pageSize) {r : Option ℕ} (hrun : hp.allocNewSlab c = .ok (r, hp')) :
    Taken hp.buddy hp'.buddy ∧ ∀ q, hp.memMap.InRange q → hp'.memMap.InRange q := by
  rw [Heap.allocNewSlab, h.size_eq, if_pos hlt] at hrun
  obtain ⟨⟨q, b⟩, hb, hrun⟩ := exists_of_bind_eq_ok hrun
  cases q with
  | none =>
    cases hrun
    exact ⟨h.owns.alloc_taken Nat.one_pos (by decide) hb, fun _ hq => hq⟩
  | some p =>
    dsimp only at hrun
    obtain ⟨m, hm, hrun⟩ := exists_of_bind_eq_ok hrun
    obtain ⟨-, -, hrun⟩ := exists_of_bind_eq_ok hrun
    cases hrun
    refine ⟨h.carve_taken Nat.one_pos (by decide) hb fun r hbase hr hk hsub => ?_, fun _ hq => hq⟩
    subst hbase
    have hlow := h.owns.addressable.lt (hsub r.base_mem_cells)
    have horder : r.order = slabOrder (sz c) := by
      rw [hr, slabOrder_of_lt hsz.pos hlt, Nat.clog_one_right]
    obtain ⟨m', hm', -, hout⟩ := carve_small hsz hlt horder hk hsub h.owns.addressable
      (h.owns.inv.alloc_first_word hb)
    rw [PhysAddr.ofPpn_eq (hlow.trans (by decide))] at hm
    cases hm'.symm.trans hm
    exact hout

/-- What `KmemCache::alloc` leaves behind: it has written to a new slab or to nothing, its result is
an object of the active slab or null, and a slab that is new is one of its own cache. -/
structure HeapInv.Allocated (sz : ℕ → ℕ) (M : Set ℕ) (hp : Heap) (live : List LiveObj)
    (slabs : List (ℕ × ℕ)) (c ptr : ℕ) (hp' : Heap) : Prop where
  taken : Taken hp.buddy hp'.buddy
  range : ∀ q, hp.memMap.InRange q → hp'.memMap.InRange q
  inv : ∃ slabs' part' live', HeapInv sz M hp' live' slabs' part' ∧
    (∀ e ∈ slabs', e ∈ slabs ∨ e.2 = c) ∧
    ((ptr = 0 ∧ live' = live) ∨ (ptr ≠ 0 ∧ ∃ p, (hp'.caches c).activeSlabPpn = some p ∧
      live' = ⟨c, ptr, p⟩ :: live))

theorem HeapInv.Allocated.of_taken {hp₁ : Heap} {slabs₁ : List (ℕ × ℕ)}
    (h : HeapInv.Allocated sz M hp₁ live slabs₁ c ptr hp') (htaken : Taken hp.buddy hp₁.buddy)
    (hrange : ∀ q, hp.memMap.InRange q → hp₁.memMap.InRange q)
    (hslabs : ∀ e ∈ slabs₁, e ∈ slabs ∨ e.2 = c) :
    HeapInv.Allocated sz M hp live slabs c ptr hp' := by
  obtain ⟨slabs', part', live', hinv, hnew, hres⟩ := h.inv
  refine ⟨htaken.trans h.taken, fun q hq => h.range q (hrange q hq), slabs', part', live', hinv,
    fun e he => ?_, hres⟩
  rcases hnew e he with he | hc
  · exact hslabs e he
  · exact Or.inr hc

/-- **The loop of `KmemCache::alloc`.** -/
theorem HeapInv.allocLoop_allocated (hsz : SizeOk M (sz c)) (hlt : sz c < pageSize) :
    ∀ n {hp : Heap} {slabs : List (ℕ × ℕ)} {part : ℕ → List ℕ}, HeapInv sz M hp live slabs part →
      Heap.allocLoop c n hp = .ok (ptr, hp') → HeapInv.Allocated sz M hp live slabs c ptr hp' := by
  intro n
  induction n with
  | zero =>
    intro hp slabs part _ hrun
    cases hrun
  | succ n ih =>
    intro hp slabs part h hrun
    rw [Heap.allocLoop] at hrun
    cases ha : (hp.caches c).activeSlabPpn with
    | some p =>
      have hpc := (h.lists c).active p ha
      obtain ⟨s, l, hok⟩ := h.slubAt hpc
      rw [ha] at hrun
      dsimp only at hrun
      rw [MemMap.getSlub_of_slubAt (h.in_range hpc) hok.slub, ok_bind] at hrun
      split at hrun
      · exact (ih (h.setActive (c := c) (o := none) (by simp)) hrun).of_taken (.refl _)
          (fun _ hq => hq) fun e he => Or.inl he
      · rename_i hne
        cases hrun
        obtain ⟨free, hs⟩ := h.slab
        have hnext : Slub.next { s with freelist := hp.buddy.mem.load s.freelist,
                                        inuse := (s.inuse + 1) % 2 ^ 16 } = s.next := rfl
        exact ⟨.refl _, fun _ hq => hq, slabs, part, _,
          h.of_setSlub hpc hok.slub hnext ⟨free, hs.take hpc hok hne⟩, fun e he => Or.inl he,
          Or.inr ⟨hne, p, ha, rfl⟩⟩
    | none =>
      rw [ha] at hrun
      dsimp only at hrun
      cases hl : part c with
      | cons p l =>
        have hlist := h.lists c
        rw [hl] at hlist
        have hpc := hlist.listed p List.mem_cons_self
        obtain ⟨s, k, hok⟩ := h.slubAt hpc
        rw [hlist.chain.1] at hrun
        dsimp only at hrun
        rw [MemMap.getSlub_of_slubAt (h.in_range hpc) hok.slub, ok_bind] at hrun
        exact (ih (h.pop hl hok.slub) hrun).of_taken (.refl _) (fun _ hq => hq)
          fun e he => Or.inl he
      | nil =>
        have hhead : (hp.caches c).partialSlabsHead = none := by
          have := (h.lists c).chain
          rwa [hl] at this
        rw [hhead] at hrun
        dsimp only at hrun
        obtain ⟨free, hs⟩ := h.slab
        obtain ⟨⟨r, hp₁⟩, hnew, hrun⟩ := exists_of_bind_eq_ok hrun
        obtain ⟨htaken, hrange⟩ := hs.allocNewSlab_taken hsz hlt hnew
        rcases hs.allocNewSlab hsz with ⟨p, hp₂, hrun₂, hinv₂, -⟩ | ⟨hrun₂, -⟩
        · cases hrun₂.symm.trans hnew
          have hactive : ∀ q, some p = some q → (q, c) ∈ (p, c) :: slabs := by
            intro q hq
            cases hq
            exact List.mem_cons_self
          refine (ih ((h.newSlab hinv₂).setActive (c := c) (o := some p) hactive) hrun).of_taken
            htaken hrange fun e he => ?_
          rcases List.mem_cons.mp he with rfl | he
          · exact Or.inr rfl
          · exact Or.inl he
        · cases hrun₂.symm.trans hnew
          cases hrun
          exact ⟨htaken, hrange, slabs, part, live, h, fun e he => Or.inl he, Or.inl ⟨rfl, rfl⟩⟩

/-- Releasing a slab. -/
theorem SlabInv.releaseSlab_released (h : SlabInv sz M hp live free slabs) (he : (p, c) ∈ slabs)
    (hrun : hp.releaseSlab c p = .ok hp') :
    Released hp.buddy hp'.buddy ∧ ∀ q, hp.memMap.InRange q → hp'.memMap.InRange q := by
  have hsz := h.size_ok _ he
  rw [Heap.releaseSlab, h.size_eq, max_eq_left hsz.requiredPages_pos,
    hsz.nextPowerOfTwo_requiredPages] at hrun
  obtain ⟨memMap, hfill, hrun⟩ := exists_of_bind_eq_ok hrun
  rw [Heap.nonZeroPages, if_neg (Nat.two_pow_pos _).ne', ok_bind] at hrun
  obtain ⟨b, hb, hrun⟩ := exists_of_bind_eq_ok hrun
  cases hrun
  have hperm := (List.perm_cons_erase he).map fun e : ℕ × ℕ => slabBlock (sz e.2) e.1
  refine ⟨h.owns.dealloc_released hperm (Nat.two_pow_pos _) hsz.two_pow_slabOrder_lt
    (Nat.clog_pow 2 _ (by decide)).symm ?_, fun q hq => hq.fill _ hfill⟩
  rw [h.block_base he]
  exact hb

theorem removeLoop_buddy {target : ℕ} : ∀ n {prev cur : Option ℕ},
    Heap.removeLoop hp c target n prev cur = .ok hp' →
      hp'.buddy = hp.buddy ∧ ∀ q, hp.memMap.InRange q → hp'.memMap.InRange q := by
  intro n
  induction n with
  | zero =>
    intro prev cur hrun
    cases hrun
  | succ n ih =>
    intro prev cur hrun
    cases cur with
    | none => cases hrun
    | some cur =>
      rw [Heap.removeLoop] at hrun
      obtain ⟨s, -, hrun⟩ := exists_of_bind_eq_ok hrun
      split at hrun
      · cases prev with
        | none =>
          cases hrun
          exact ⟨rfl, fun _ hq => hq⟩
        | some prev =>
          obtain ⟨page, -, hrun⟩ := exists_of_bind_eq_ok hrun
          split at hrun <;> cases hrun <;> exact ⟨rfl, fun _ hq => hq⟩
      · exact ih hrun

/-- **`free_object`** writes to the object that it frees, and if that was the last one of its slab,
to pages that are free afterwards. -/
theorem HeapInv.freeObject_writes (h : HeapInv sz M hp live slabs part) (ho : o ∈ live)
    (hok : SlabOk sz hp live (o.slab, o.cache) s l) (hfree : HeapInv.FreeOk hp part o s)
    (hrun : hp.freeObject o.cache o.ptr o.slab = .ok hp') :
    Released { hp.buddy with mem := hp.buddy.mem.store o.ptr s.freelist } hp'.buddy ∧
      (∀ q, hp.memMap.InRange q → hp'.memMap.InRange q) ∧
      ∃ slabs' part', HeapInv sz M hp' (live.erase o) slabs' part' ∧ slabs' ⊆ slabs := by
  have hg := h.giveBack ho hok
  have hpc := h.live_slab ho
  rw [h.freeObject_eq ho hok] at hrun
  split at hrun
  · rename_i hone
    have hempty := liveOf_erase_eq_nil ho hok hone
    split at hrun
    · rename_i hact
      have hset := hg.setActive (c := o.cache) (o := none) (by simp)
      obtain ⟨free, hs⟩ := hset.slab
      obtain ⟨hp₁, hrun₁, hinv⟩ := hset.releaseSlab hpc hempty ((hfree.1 hone).mp hact)
        (by simp)
      cases hrun₁.symm.trans hrun
      obtain ⟨hreleased, hrange⟩ := hs.releaseSlab_released hpc hrun
      exact ⟨hreleased, hrange, _, _, hinv, List.erase_subset⟩
    · rename_i hact
      have hmem : o.slab ∈ part o.cache := by
        by_contra hmem
        exact hact ((hfree.1 hone).mpr hmem)
      obtain ⟨hp₁, hrun₁, hinv₁, hactive⟩ := hg.removeFromPartial_hit hmem
      obtain ⟨hp₂, hrun₂, hinv⟩ := hinv₁.releaseSlab hpc hempty
        (by
          rw [Function.update_self]
          exact fun hin => ((hg.lists o.cache).chain.nodup.mem_erase_iff.mp hin).1 rfl)
        (by
          rw [hactive]
          exact hact)
      rw [hrun₁] at hrun
      have hrun : hp₁.releaseSlab o.cache o.slab = .ok hp' := hrun
      cases hrun₂.symm.trans hrun
      obtain ⟨free, hs⟩ := hinv₁.slab
      obtain ⟨hreleased, hrange⟩ := hs.releaseSlab_released hpc hrun
      obtain ⟨hbuddy, hrange₁⟩ := removeLoop_buddy _ hrun₁
      rw [hbuddy] at hreleased
      exact ⟨hreleased, fun q hq => hrange q (hrange₁ q hq), _, _, hinv, List.erase_subset⟩
  · rename_i hone
    split at hrun
    · rename_i hfull
      cases hrun
      exact ⟨.refl _, fun _ hq => hq, _, _, hg.relist hpc (MemMap.slubAt_setSlub_self _)
        (hfree.2 hone hfull.1 hfull.2), List.Subset.refl _⟩
    · cases hrun
      exact ⟨.refl _, fun _ hq => hq, slabs, part, hg, List.Subset.refl _⟩

/-- The heap does not notice what other clients do to the allocator, as long as they leave the words
of the slabs alone. -/
theorem HeapInv.congr_buddy {N : Set ℕ} (h : HeapInv sz N hp live slabs part)
    {b : BuddySystemFrameAllocator} (howns : Owns b free M (slabBlocks sz slabs))
    (hrange : ∀ p ∈ M, hp.memMap.InRange p) (hsize : ∀ e ∈ slabs, SizeOk M (sz e.2))
    (hmem : ∀ a, a / pageSize ∈ used (slabBlocks sz slabs) → b.mem a = hp.buddy.mem a) :
    HeapInv sz M { hp with buddy := b } live slabs part := by
  obtain ⟨free₀, hs⟩ := h.slab
  refine ⟨⟨free, howns, hrange, hs.size_eq, hsize, hs.aligned, fun e he => ?_, hs.live_slab⟩,
    fun d => (h.lists d).congr rfl (fun _ _ => rfl) fun _ hp _ => hp⟩
  obtain ⟨s, l, hok⟩ := hs.ok e he
  refine ⟨s, l, hok.congr hok.slub rfl rfl rfl (List.Perm.refl _) fun a ha => ?_⟩
  have hobj := hok.subset_objects (hs.size_ok e he).pos (List.mem_append_left _ ha)
  rw [nextFree, nextFree, Mem.load, Mem.load]
  exact congrArg NonNull.new (hmem _ (SlabInv.block_subset_used he (hs.object_mem he hobj).2))

end Slabs

/-! ## The scheduler -/

namespace Scheduler

variable {M : Set ℕ} {L₀ : List Block} {s s' : Scheduler} {buddy buddy' : BuddySystemFrameAllocator}

/-- The stacks of all tasks are blocks in use, next to the blocks `L₀` of others. -/
structure StacksOwned (M : Set ℕ) (L₀ : List Block) (s : Scheduler)
    (buddy : BuddySystemFrameAllocator) : Prop where
  owns : ∃ free, Owns buddy free M (s.stackBlocks ++ L₀)
  stackOk : ∀ id tcb, s.task id = some tcb → tcb.StackOk

/-- A zombie is reaped: what is written to is free afterwards. -/
theorem StacksOwned.reap (h : StacksOwned M L₀ s buddy) {z : ℕ}
    (hrun : s.reap buddy z = .ok (s', buddy')) :
    StacksOwned M L₀ s' buddy' ∧ Released buddy buddy' := by
  unfold Scheduler.reap at hrun
  dsimp only at hrun
  split at hrun
  · rename_i tcb hslot
    have ht : s.task z = some tcb := task_eq_some.mpr hslot
    have hstack := h.stackOk z tcb ht
    rw [hstack.ppn, ok_bind, if_neg hstack.pos.ne'] at hrun
    obtain ⟨buddy₁, hdealloc, hrun⟩ := exists_of_bind_eq_ok hrun
    cases hrun
    obtain ⟨free, howns⟩ := h.owns
    have hperm : (s.stackBlocks ++ L₀).Perm (tcb.stackBlock ::
        ((s.taskList.set z none).filterMap (Option.map TaskControlBlock.stackBlock) ++ L₀)) :=
      (filterMap_set_none (f := TaskControlBlock.stackBlock) hslot).append_right L₀
    obtain ⟨buddy₂, free', hdealloc', howns', -⟩ := howns.dealloc hperm hstack.pos hstack.lt rfl
    cases hdealloc'.symm.trans hdealloc
    have htask : Scheduler.task { s with
        readyQueue := s.readyQueue.filter (· ≠ z), taskList := s.taskList.set z none } =
          Function.update s.task z none := funext (getElem?_set_join (lt_of_task ht) none)
    refine ⟨⟨⟨free', howns'⟩, fun id t ht' => ?_⟩,
      howns.dealloc_released hperm hstack.pos hstack.lt rfl hdealloc⟩
    rw [htask] at ht'
    by_cases hid : id = z
    · rw [hid, Function.update_self] at ht'
      cases ht'
    · rw [Function.update_of_ne hid] at ht'
      exact h.stackOk id t ht'
  · cases hrun
    exact ⟨⟨h.owns, h.stackOk⟩, .refl _⟩

theorem StacksOwned.reapLoop {current : Option ℕ} {zs : List ℕ} (h : StacksOwned M L₀ s buddy)
    (hrun : reapLoop current zs s buddy = .ok (s', buddy')) : Released buddy buddy' := by
  induction zs generalizing s buddy with
  | nil =>
    cases hrun
    exact .refl _
  | cons z zs ih =>
    rw [Scheduler.reapLoop] at hrun
    split at hrun
    · cases hrun
      exact .refl _
    · obtain ⟨⟨s₁, buddy₁⟩, hreap, hrun⟩ := exists_of_bind_eq_ok hrun
      obtain ⟨h₁, hreleased⟩ := h.reap hreap
      exact hreleased.trans (ih h₁ hrun)

theorem StacksOwned.prepareNextTask (h : StacksOwned M L₀ s buddy)
    (hrun : s.prepareNextTask buddy = .ok (s', buddy')) : Released buddy buddy' := by
  obtain ⟨⟨s₁, buddy₁⟩, hreap, hrun⟩ := exists_of_bind_eq_ok hrun
  obtain ⟨s₂, -, hrun⟩ := exists_of_bind_eq_ok hrun
  obtain ⟨s₃, -, hrun⟩ := exists_of_bind_eq_ok hrun
  cases hrun
  exact h.reapLoop hreap

theorem spawn_taken {free : ℕ → List ℕ} {L : List Block} (howns : Owns buddy free M L)
    {trampoline stackSize priority : ℕ} {entry : ℕ × ℕ} {r : Except SchedulerError Unit}
    (hrun : s.spawn buddy trampoline entry stackSize priority = .ok (r, s', buddy')) :
    Taken buddy buddy' := by
  rw [Scheduler.spawn] at hrun
  dsimp only at hrun
  split at hrun
  · cases hrun
    exact .refl _
  · rename_i hzero
    obtain ⟨⟨o, buddy₁⟩, halloc, hrun⟩ := exists_of_bind_eq_ok hrun
    have htaken := howns.alloc_taken (Nat.pos_of_ne_zero hzero)
      ((Nat.div_le_self _ _).trans_lt (Nat.mod_lt _ (by decide))) halloc
    cases o with
    | none =>
      cases hrun
      exact htaken
    | some ppn =>
      dsimp only at hrun
      split at hrun
      · cases hrun
      · cases hrun
        exact htaken

end Scheduler

theorem SchedInv.stacksOwned {M : Set ℕ} {L₀ : List Block} {s : Scheduler}
    {buddy : BuddySystemFrameAllocator} {q : RunQueue} (h : SchedInv M L₀ s buddy q) :
    Scheduler.StacksOwned M L₀ s buddy :=
  ⟨h.owns, fun id tcb ht => (h.tasks id tcb ht).2⟩

/-! ## The kernel -/

namespace Kernel

variable {k k' : Kernel} {tcb : Option ℕ} {ctx : TaskContext} {pc : ℕ}

theorem buddy_of_storeContext {p : Option ℕ} (h : k.storeContext ctx p = .ok k') :
    k'.buddy = k.buddy := by
  cases p with
  | none =>
    cases h
    rfl
  | some id =>
    rw [storeContext] at h
    split at h
    · cases h
      rfl
    · cases h

theorem buddy_of_switchTo (h : k.switchTo = .ok (pc, k')) : k'.buddy = k.buddy := by
  obtain ⟨ctx, -, h⟩ := exists_of_bind_eq_ok h
  cases h
  rfl

theorem buddy_of_blockUntil {wakeTime : Option ℕ} (h : k.blockUntil wakeTime = .ok (pc, k')) :
    k'.buddy = k.buddy := by
  cases wakeTime with
  | none =>
    obtain ⟨s, -, h⟩ := exists_of_bind_eq_ok h
    have hk := buddy_of_switchTo h
    exact hk
  | some t =>
    obtain ⟨s, -, h⟩ := exists_of_bind_eq_ok h
    have hk := buddy_of_switchTo h
    exact hk

theorem buddy_of_returnWith {result : ℕ} (h : k.returnWith tcb ctx result = .ok (pc, k')) :
    k'.buddy = k.buddy := by
  obtain ⟨k₁, hk₁, h⟩ := exists_of_bind_eq_ok h
  cases h
  exact buddy_of_storeContext hk₁

theorem buddy_of_returnTo (h : k.returnTo tcb = .ok (pc, k')) : k'.buddy = k.buddy := by
  obtain ⟨ctx, -, h⟩ := exists_of_bind_eq_ok h
  cases h
  rfl

theorem buddy_of_sleep {now : ℕ} (h : k.sleep tcb now = .ok (pc, k')) : k'.buddy = k.buddy := by
  obtain ⟨ctx, -, h⟩ := exists_of_bind_eq_ok h
  obtain ⟨k₁, hk₁, h⟩ := exists_of_bind_eq_ok h
  exact (buddy_of_blockUntil h).trans (buddy_of_storeContext hk₁)

theorem buddy_of_uartRead {now : ℕ} (h : k.uartRead tcb now = .ok (pc, k')) :
    k'.buddy = k.buddy := by
  obtain ⟨ctx, -, h⟩ := exists_of_bind_eq_ok h
  obtain ⟨⟨c, rb⟩, -, h⟩ := exists_of_bind_eq_ok h
  cases c with
  | some c =>
    have hk := buddy_of_returnWith h
    exact hk
  | none =>
    dsimp only at h
    split at h
    · exact buddy_of_returnWith h
    obtain ⟨id, -, h⟩ := exists_of_bind_eq_ok h
    split at h
    · obtain ⟨⟨c, rb'⟩, -, h⟩ := exists_of_bind_eq_ok h
      cases c with
      | none => cases h
      | some c =>
        have hk := buddy_of_returnWith h
        exact hk
    · obtain ⟨k₁, hk₁, h⟩ := exists_of_bind_eq_ok h
      have hk := buddy_of_storeContext hk₁
      split at h <;> exact (buddy_of_blockUntil h).trans hk

theorem buddy_of_sendDataLoop : ∀ n {k : Kernel}, sendDataLoop n k = .ok k' →
    k'.buddy = k.buddy := by
  intro n
  induction n with
  | zero =>
    intro k h
    cases h
    rfl
  | succ n ih =>
    intro k h
    obtain ⟨⟨c, rb⟩, -, h⟩ := exists_of_bind_eq_ok h
    cases c with
    | none =>
      cases h
      rfl
    | some c =>
      have hk := ih h
      exact hk

theorem buddy_of_plicHandler {io : Inputs} (h : k.plicHandler io = .ok k') :
    k'.buddy = k.buddy := by
  rw [plicHandler, uartInterruptHandler] at h
  split at h
  · split at h
    · cases h
      rfl
    · split at h
      · obtain ⟨k₁, hk₁, h⟩ := exists_of_bind_eq_ok h
        have hk₁ := buddy_of_sendDataLoop _ hk₁
        split at h <;> cases h <;> exact hk₁
      · rw [receive] at h
        split at h
        · cases h
          rfl
        · split at h
          · obtain ⟨s, -, h⟩ := exists_of_bind_eq_ok h
            cases h
            rfl
          · obtain ⟨r, -, h⟩ := exists_of_bind_eq_ok h
            cases h
            rfl
      · cases h
        rfl
  · cases h
    rfl

/-- Only a switch by `prepare_next_task` reaches the allocator. -/
theorem released_of_scheduleOnInterrupt {M : Set ℕ} {L₀ : List Block}
    (hk : Scheduler.StacksOwned M L₀ k.scheduler k.buddy)
    (h : k.scheduleOnInterrupt = .ok (pc, k')) : Released k.buddy k'.buddy := by
  obtain ⟨⟨s, buddy⟩, hs, h⟩ := exists_of_bind_eq_ok h
  rw [buddy_of_switchTo h]
  exact hk.prepareNextTask hs

end Kernel

namespace KernelInv

open Kernel

variable {M : Set ℕ} {L₀ : List Block} {k k' : Kernel} {q : RunQueue} {pc : ℕ}

/-- The kernel on another allocator that has its stacks in use. -/
theorem withBuddy (h : KernelInv M L₀ k q) {L₁ : List Block} {free : ℕ → List ℕ}
    {b : BuddySystemFrameAllocator} (howns : Owns b free M (k.scheduler.stackBlocks ++ L₁)) :
    KernelInv M L₁ { k with buddy := b } q where
  sched := ⟨h.sched.status, h.sched.ready, h.sched.zombies, h.sched.tasks, h.sched.heap, free,
    howns⟩
  current := h.current
  sscratch := h.sscratch
  uart := ⟨h.uart.received, h.uart.transmitted, h.uart.waiting⟩

theorem schedule_released (h : KernelInv M L₀ k q) (hrun : k.schedule k.sscratch = .ok (pc, k')) :
    Released k.buddy k'.buddy := by
  obtain ⟨ctx, -, hrun⟩ := exists_of_bind_eq_ok hrun
  obtain ⟨k₁, hk₁, hrun⟩ := exists_of_bind_eq_ok hrun
  obtain ⟨k₂, hk₂, hinv, -⟩ := h.store ctx.skipEcall
  cases hk₂.symm.trans hk₁
  rw [← buddy_of_storeContext hk₁]
  exact released_of_scheduleOnInterrupt hinv.sched.stacksOwned hrun

/-- The zombie is still in its slot when the next task is chosen. -/
theorem exit_released (h : KernelInv M L₀ k q) {c : ℕ} (hc : k.scheduler.currentTaskId = some c)
    (hzero : c ≠ 0)
    (hrun : (k.exitCurrentTask >>= fun k₁ => k₁.schedule k.sscratch) = .ok (pc, k')) :
    Released k.buddy k'.buddy := by
  obtain ⟨k₁, hk₁, hrun⟩ := exists_of_bind_eq_ok hrun
  obtain ⟨s₁, hs₁, hk₁⟩ := exists_of_bind_eq_ok hk₁
  cases hk₁
  obtain ⟨s₂, hs₂, hinv, -⟩ := h.sched.exitCurrentTask h.current (h.current.symm.trans hc) hzero
  cases hs₂.symm.trans hs₁
  obtain ⟨ctx, -, hrun⟩ := exists_of_bind_eq_ok hrun
  obtain ⟨k₂, hk₂, hrun⟩ := exists_of_bind_eq_ok hrun
  have hstatus : s₁.status c = some .terminated := by
    rw [hinv.status]
    exact Function.update_self ..
  obtain ⟨tcb, ht, hst⟩ := Scheduler.exists_of_status hstatus
  have hscratch : k.sscratch = some c := h.sscratch.trans hc
  have hstore := storeContext_some (k := { k with scheduler := s₁ }) ht ctx.skipEcall
  rw [← hscratch] at hstore
  cases hstore.symm.trans hk₂
  have hreleased := released_of_scheduleOnInterrupt
    (hinv.setContext ht (by simp [hst]) ctx.skipEcall).1.stacksOwned hrun
  exact hreleased

theorem ecall_released (h : KernelInv M L₀ k q) {c : ℕ} (hc : k.scheduler.currentTaskId = some c)
    (hzero : c ≠ 0) {now : ℕ} (hrun : k.ecall k.sscratch now = .ok (pc, k')) :
    Released k.buddy k'.buddy := by
  obtain ⟨ctx, -, hrun⟩ := exists_of_bind_eq_ok hrun
  split at hrun
  · obtain ⟨ctx', -, hrun⟩ := exists_of_bind_eq_ok hrun
    rw [buddy_of_returnWith hrun]
    exact .refl _
  · exact h.schedule_released hrun
  · exact h.exit_released hc hzero hrun
  · cases hrun
  · rw [buddy_of_sleep hrun]
    exact .refl _
  · rw [buddy_of_uartRead hrun]
    exact .refl _
  · rw [buddy_of_returnTo hrun]
    exact .refl _

/-- **Where the kernel writes**: an event returns stacks to the allocator or takes one from it. -/
theorem step_writes (h : KernelInv M L₀ k q) {e : Event} (hallowed : k.Allowed e)
    (hrun : k.step e = .ok k') : Released k.buddy k'.buddy ∨ Taken k.buddy k'.buddy := by
  cases e with
  | runScheduler =>
    left
    obtain ⟨⟨ctx, k₁⟩, hk₁, hrun⟩ := exists_of_bind_eq_ok hrun
    cases hrun
    obtain ⟨⟨pc, k₂⟩, hk₂, hrun⟩ := exists_of_bind_eq_ok hk₁
    obtain ⟨ctx', -, hrun⟩ := exists_of_bind_eq_ok hrun
    cases hrun
    exact released_of_scheduleOnInterrupt h.sched.stacksOwned hk₂
  | spawn trampoline entry stackSize priority =>
    right
    obtain ⟨⟨r, s, buddy⟩, hs, hrun⟩ := exists_of_bind_eq_ok hrun
    cases hrun
    obtain ⟨free, howns⟩ := h.sched.owns
    exact Scheduler.spawn_taken howns hs
  | trap regs scause io =>
    left
    obtain ⟨⟨ctx, k₁⟩, hk₁, hrun⟩ := exists_of_bind_eq_ok hrun
    cases hrun
    obtain ⟨k₂, hk₂, hrun⟩ := exists_of_bind_eq_ok hk₁
    obtain ⟨⟨pc, k₃⟩, hk₃, hrun⟩ := exists_of_bind_eq_ok hrun
    obtain ⟨ctx', -, hrun⟩ := exists_of_bind_eq_ok hrun
    cases hrun
    obtain ⟨k₄, hk₄, hinv, -, -, -, hcur, -⟩ := h.store regs
    cases hk₄.symm.trans hk₂
    rw [← buddy_of_storeContext hk₂]
    rw [trapHandler] at hk₃
    cases hcause : parseTrapCause scause with
    | supervisorTimerInterrupt =>
      rw [hcause] at hk₃
      obtain ⟨s₁, hs₁, hk₃⟩ := exists_of_bind_eq_ok hk₃
      obtain ⟨s₂, q₂, hs₂, hinv₂, -⟩ := hinv.sched.finishSleep io.time
      cases hs₂.symm.trans hs₁
      have hreleased := released_of_scheduleOnInterrupt hinv₂.stacksOwned hk₃
      exact hreleased
    | supervisorExternalInterrupt =>
      rw [hcause] at hk₃
      obtain ⟨k₅, hk₅, hk₃⟩ := exists_of_bind_eq_ok hk₃
      rw [buddy_of_returnTo hk₃, buddy_of_plicHandler hk₅]
      exact .refl _
    | userEcall =>
      rw [hcause] at hk₃
      obtain ⟨hsome, hzero, -⟩ := hallowed hcause
      obtain ⟨c, hc⟩ := Option.ne_none_iff_exists'.mp hsome
      exact hinv.ecall_released (hcur.trans hc) (fun h0 => hzero (by rw [hc, h0])) hk₃
    | unknownInterrupt | unknownException =>
      rw [hcause] at hk₃
      rw [buddy_of_returnTo hk₃]
      exact .refl _

end KernelInv

end CharlotteOs
