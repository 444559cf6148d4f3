import CharlotteOs.Mm.GlobalRuns

/-!
# The layouts that the global allocator serves

`SlubAllocator::alloc` rounds a layout up to a power of two and takes an object from the cache of
that power. The object is large enough and aligned, and there is none exactly when the cache's own
slabs and the buddy allocator are used up.

A slab on the last page below 4 GiB is no exception. The address of its end wraps to `0`, so
`alloc_new_slab` links no objects there. But the buddy allocator has cleared the first word of the
page, and the free list is the page's first object.

## Main definitions

* `HeapOp`, `GlobalSystem.allocStep`: clients that allocate and write to what they got
* `GlobalSystem.NoFreeObject`, `BuddySystemFrameAllocator.NoFreeBlock`: memory that is used up
* `GlobalSystem.LayoutRespected`: what an allocation has to do

## Main results

* `GlobalSystem.layoutRespected_along`: every allocation of a run respects its layout
-/

namespace CharlotteOs

open FallibleRun BuddySystemFrameAllocator Heap

/-! ## Routing -/

section Routing

variable {layout : Layout}

/-- A layout up to 2048 bytes is rounded to the power of two above it, and to 8 at least. -/
theorem actualSize_eq (hpos : 0 < max layout.size layout.align)
    (hle : max layout.size layout.align ≤ 2048) :
    actualSize layout = 2 ^ max (Nat.clog 2 (max layout.size layout.align)) 3 := by
  have hmono : Monotone fun k => 2 ^ k := fun _ _ hk => Nat.pow_le_pow_right (by decide) hk
  rw [actualSize, Usize.nextPowerOfTwo_eq hpos (by omega)]
  exact (hmono.map_max (a := Nat.clog 2 (max layout.size layout.align)) (b := 3)).symm

theorem actualSize_le (hpos : 0 < max layout.size layout.align)
    (hle : max layout.size layout.align ≤ 2048) : actualSize layout ≤ 2048 := by
  have hclog : Nat.clog 2 (max layout.size layout.align) ≤ 11 := Nat.clog_le_of_le_pow hle
  have hpow : 2 ^ max (Nat.clog 2 (max layout.size layout.align)) 3 ≤ 2 ^ 11 :=
    Nat.pow_le_pow_right (by decide) (by omega)
  rwa [actualSize_eq hpos hle]

/-- The cache of a layout has objects of its rounded size. -/
theorem two_pow_cacheIndex (hpos : 0 < max layout.size layout.align)
    (hle : max layout.size layout.align ≤ 2048) :
    cacheIndex layout + 3 = max (Nat.clog 2 (max layout.size layout.align)) 3 := by
  have hclog : Nat.clog 2 (max layout.size layout.align) ≤ 11 := Nat.clog_le_of_le_pow hle
  generalize hk : max (Nat.clog 2 (max layout.size layout.align)) 3 = k
  have hlt : 2 ^ k < 2 ^ 64 := Nat.pow_lt_pow_right (by decide) (by omega)
  rw [cacheIndex, actualSize_eq hpos hle, hk, ← Nat.mod_eq_of_lt hlt,
    Usize.trailingZeros_two_pow (by omega)]
  omega

end Routing

/-! ## Memory that is used up -/

/-- **No free block** of any order. -/
def BuddySystemFrameAllocator.NoFreeBlock (s : BuddySystemFrameAllocator) : Prop :=
  ∀ k < maxOrder, s.freeLists k = none

/-- The buddy allocator has a page to give as long as one of its lists has a block. -/
theorem BuddySystemFrameAllocator.Inv.alloc_one_iff {s : BuddySystemFrameAllocator}
    {free : ℕ → List ℕ} {F : Set ℕ} (h : s.Inv free F) :
    s.alloc 1 = .ok (none, s) ↔ s.NoFreeBlock := by
  rcases alloc_spec h (n := 1) (by decide) (by decide) with
    ⟨s', r, -, -, ⟨hsub, -⟩, hrun⟩ | ⟨hempty, hrun⟩
  · refine iff_of_false (fun hnone => ?_) fun hnone => ?_
    · cases hrun.symm.trans hnone
    · obtain ⟨b, ⟨hk, hb⟩, -⟩ := h.tiles.cover r.base |>.mp (hsub r.base_mem_cells)
      have hchain := h.chain b.order hk
      rw [hnone b.order hk] at hchain
      have hnil := hchain.unique (LinkedChain.chain_nil.mpr rfl)
      rw [List.map_eq_nil_iff.mp hnil] at hb
      exact List.not_mem_nil hb
  · refine iff_of_true hrun fun k hk => ?_
    have hchain := h.chain k hk
    rw [hempty k (Nat.zero_le k) hk] at hchain
    exact hchain

/-- The free list of a slab is empty exactly when all objects that it began with are live. -/
theorem SlabOk.freelist_eq_zero_iff {sz : ℕ → ℕ} {hp : Heap} {live : List LiveObj} {e : ℕ × ℕ}
    {s : Slub} {l : List ℕ} (h : SlabOk sz hp live e s l) (hpos : 0 < sz e.2) :
    s.freelist = 0 ↔ ∀ a ∈ freshObjects (sz e.2) e.1, a ∈ liveOf live e.1 := by
  constructor
  · intro hzero a ha
    have hchain := h.chain
    rw [hzero] at hchain
    have hnil : l = [] := hchain.unique (LinkedChain.chain_nil.mpr rfl)
    have hmem := h.perm.symm.subset ha
    rwa [hnil, List.nil_append] at hmem
  · intro hall
    by_contra hne
    obtain ⟨l', rfl, -⟩ := h.cons_of_ne hne
    have hobj := h.perm.subset (List.mem_append_left _ List.mem_cons_self)
    exact (List.nodup_append.mp (h.nodup hpos)).2.2 _ List.mem_cons_self _ (hall _ hobj) rfl

/-- What clients do with the global allocator as long as they give nothing back: allocate, and write
a word to what they got. -/
inductive HeapOp where
  | alloc (layout : Layout)
  | write (ptr val : ℕ)
  deriving DecidableEq, Repr

namespace GlobalSystem

variable {t t' : GlobalSystem} {op : HeapOp} {M : Set ℕ}

/-- One operation. -/
def allocStep (t : GlobalSystem) : HeapOp → Except Fault GlobalSystem
  | .alloc layout => t.step (.alloc layout)
  | .write ptr val => .ok { t with heap.buddy.mem := t.heap.buddy.mem.store ptr val }

/-- The size of the objects of the cache that serves a layout. -/
def objectSize (t : GlobalSystem) (layout : Layout) : ℕ :=
  (t.heap.caches (cacheIndex layout)).objectSize

/-- Layouts up to 2048 bytes, their alignment being a power of two as in every `Layout`, and writes
to objects in use. -/
def AllocOp (t : GlobalSystem) : HeapOp → Prop
  | .alloc layout => layout.align.isPowerOfTwo ∧ max layout.size layout.align ≤ 2048
  | .write ptr _ => ∃ a ∈ t.live, 8 ∣ ptr ∧ ptr ∈ Set.Ico a.ptr (a.ptr + t.objectSize a.layout)

instance (t : GlobalSystem) : ∀ op, Decidable (t.AllocOp op)
  | .alloc layout => inferInstanceAs
      (Decidable (layout.align.isPowerOfTwo ∧ max layout.size layout.align ≤ 2048))
  | .write ptr _ => inferInstanceAs (Decidable (∃ a ∈ t.live, 8 ∣ ptr ∧
      (a.ptr ≤ ptr ∧ ptr < a.ptr + t.objectSize a.layout)))

/-- An alignment is not zero. -/
theorem AllocOp.pos {layout : Layout} (h : t.AllocOp (.alloc layout)) :
    0 < max layout.size layout.align := by
  obtain ⟨⟨k, hk⟩, -⟩ := h
  rw [hk]
  exact lt_max_of_lt_right (Nat.two_pow_pos k)

/-- The slabs in which a cache looks for an object: the active one and those on its list. -/
def Searched (t : GlobalSystem) (c p : ℕ) : Prop :=
  (t.heap.caches c).activeSlabPpn = some p ∨ t.heap.Listed c p

/-- A slab has a free object: its free list is not empty. -/
def HasFreeObject (t : GlobalSystem) (p : ℕ) : Prop :=
  ∃ s, t.heap.memMap.slubAt p = some s ∧ s.freelist ≠ 0

/-- **No free object** in the slabs of a cache. -/
def NoFreeObject (t : GlobalSystem) (c : ℕ) : Prop := ∀ p, t.Searched c p → ¬ t.HasFreeObject p

/-- The page `p` is the head of a slab of the cache `c`. -/
def IsSlabOf (heap : Heap) (c p : ℕ) : Prop :=
  heap.memMap.InRange p ∧ ∃ s, heap.memMap.slubAt p = some s ∧ s.cache = c

/-- **An allocation respects its layout**: one of the nine caches serves it, with objects that are
large enough and whose size is a multiple of the alignment. The free objects of its slabs are those
that are not in use. A pointer that is returned is aligned and its bytes are in one object of a slab
of that cache. Null is returned exactly when the cache has no free object and the buddy allocator no
free block. -/
structure LayoutRespected (t : GlobalSystem) (layout : Layout) : Prop where
  index_lt : cacheIndex layout < 9
  served : t.heap.globalAlloc layout = t.heap.alloc (cacheIndex layout)
  size_le : layout.size ≤ t.objectSize layout
  align_dvd : layout.align ∣ t.objectSize layout
  free_iff : ∀ p, t.Searched (cacheIndex layout) p →
    (t.HasFreeObject p ↔ ∃ a ∈ freshObjects (t.objectSize layout) p, ∀ o ∈ t.live, o.ptr ≠ a)
  result : ∃ ptr heap, t.heap.globalAlloc layout = .ok (ptr, heap) ∧
    (ptr ≠ 0 → layout.align ∣ ptr ∧ ∃ p, IsSlabOf heap (cacheIndex layout) p ∧
      ∃ a ∈ freshObjects (t.objectSize layout) p,
        a ≤ ptr ∧ ptr + layout.size ≤ a + t.objectSize layout) ∧
    (ptr = 0 ↔ t.NoFreeObject (cacheIndex layout) ∧ t.heap.buddy.NoFreeBlock)

/-- The property of one operation. -/
def OpRespected (t : GlobalSystem) : HeapOp → Prop
  | .alloc layout => t.LayoutRespected layout
  | .write .. => True

/-! ## Runs -/

theorem Inv.objectSize_eq (h : Inv M t) {c : ℕ} (hc : c < 9) :
    (t.heap.caches c).objectSize = 2 ^ (c + 3) := by
  obtain ⟨⟨slabs, part, hinv⟩, -⟩ := h
  obtain ⟨free, hs⟩ := hinv.slab
  rw [hs.size_eq, SlubSystem.objectSize_new_two_pow c hc]

/-- A write to an object in use keeps the invariant. -/
theorem Inv.write (h : Inv M t) {ptr val : ℕ} (hop : t.AllocOp (.write ptr val))
    (hstep : t.allocStep (.write ptr val) = .ok t') : Inv M t' := by
  obtain ⟨a, ha, hdvd, hmem⟩ := hop
  have hclient : SlubSystem.ClientOp ⟨t.heap, t.objects⟩ (.write ptr val) :=
    ⟨⟨cacheIndex a.layout, a.ptr, a.slab⟩, List.mem_map_of_mem ha, hdvd, hmem⟩
  obtain ⟨u, hu, hinv⟩ := SlubSystem.NineInv.write h hclient
  cases hu
  cases hstep
  exact hinv

/-- An object of a slab is in use exactly when it is the address of a live object of the slab. -/
theorem Inv.live_iff (h : Inv M t) {c p a : ℕ} (hc : c < 9) (hp : p < 2 ^ 20)
    (ha : a ∈ CharlotteOs.objects (KmemCache.new (2 ^ (c + 3))).objectSize p) :
    (∃ o ∈ t.live, o.ptr = a) ↔ a ∈ liveOf t.objects p := by
  obtain ⟨hlt, hdvd⟩ := SlubSystem.size_lt_dvd hc
  have hpos := (objectSize_new (2 ^ (c + 3))).1
  have hpage : virtToPhys a / pageSize = p :=
    object_page hpos hlt hdvd hp ha ⟨le_rfl, Nat.lt_add_of_pos_right hpos⟩
  constructor
  · rintro ⟨o, ho, rfl⟩
    rw [← hpage, h.page_eq ho]
    exact mem_liveOf (o := ⟨cacheIndex o.layout, o.ptr, o.slab⟩) (List.mem_map_of_mem ho)
  · intro hmem
    obtain ⟨o', ho', rfl⟩ := List.mem_map.mp hmem
    obtain ⟨o, ho, rfl⟩ := List.mem_map.mp (List.mem_filter.mp ho').1
    exact ⟨o, ho, rfl⟩

section Slabs

variable {slabs : List (ℕ × ℕ)} {part : ℕ → List ℕ} {c p : ℕ}

/-- The slabs of one of the nine caches have a free object exactly when one of those that they began
with is not in use. -/
theorem Inv.hasFreeObject_iff (hinv : Inv M t) (hc : c < 9)
    (h : HeapInv (fun i => (KmemCache.new (2 ^ (i + 3))).objectSize) M t.heap t.objects slabs part)
    (hpc : (p, c) ∈ slabs) :
    t.HasFreeObject p ↔ ∃ a ∈ freshObjects (t.heap.caches c).objectSize p,
      ∀ o ∈ t.live, o.ptr ≠ a := by
  obtain ⟨free, hs⟩ := h.slab
  obtain ⟨s, l, hok⟩ := h.slubAt hpc
  have hpos := (hs.size_ok _ hpc).pos
  have hfree : t.HasFreeObject p ↔ s.freelist ≠ 0 := by
    refine ⟨fun ⟨s', hs', hne⟩ => ?_, fun hne => ⟨s, hok.slub, hne⟩⟩
    rwa [Option.some.inj (hok.slub.symm.trans hs')]
  rw [hfree, ne_eq, hok.freelist_eq_zero_iff hpos, hs.size_eq]
  push Not
  refine exists_congr fun a => and_congr_right fun ha => ?_
  have hobj := (freshObjects_sublist hpos p).subset ha
  rw [← (hinv.live_iff hc (hs.head_lt hpc) hobj).not]
  push Not
  rfl

/-- The loop of `alloc` looks for free objects where `NoFreeObject` does. -/
theorem noFreeObject_iff
    (h : HeapInv (fun i => (KmemCache.new (2 ^ (i + 3))).objectSize) M t.heap t.objects slabs
      part) :
    t.NoFreeObject c ↔ ∀ p s, (t.heap.caches c).activeSlabPpn = some p ∨ p ∈ part c →
      t.heap.memMap.slubAt p = some s → s.freelist = 0 := by
  refine forall_congr' fun p => ?_
  rw [Searched, h.listed_iff]
  constructor
  · intro hno s hor hs
    by_contra hne
    exact hno hor ⟨s, hs, hne⟩
  · rintro hall hor ⟨s, hs, hne⟩
    exact hne (hall s hor hs)

end Slabs

/-- The addresses of a slab's objects are multiples of whatever divides their size. -/
theorem dvd_of_mem_objects {size p a n : ℕ} (hdvd : size ∣ pageSize) (hp : p < 2 ^ 20)
    (ha : a ∈ CharlotteOs.objects size p) (hn : n ∣ size) : n ∣ a := by
  obtain ⟨i, -, rfl⟩ := (mem_objects hp).mp ha
  have hoffset : pageSize ∣ physVirtOffset := by decide
  have hpage : n ∣ pageSize := hn.trans hdvd
  exact Nat.dvd_add (Nat.dvd_add (hpage.mul_left p) (hpage.trans hoffset)) (hn.mul_left i)

/-- In the invariant an allocation respects its layout. -/
theorem Inv.layoutRespected (h : Inv M t) {layout : Layout} (hop : t.AllocOp (.alloc layout)) :
    t.LayoutRespected layout := by
  have hpos := hop.pos
  obtain ⟨⟨k, hk⟩, hle⟩ := hop
  have hactual := actualSize_le hpos hle
  have hc := cacheIndex_lt hactual
  have hserved := globalAlloc_eq t.heap hactual
  have hsize : t.objectSize layout = 2 ^ max (Nat.clog 2 (max layout.size layout.align)) 3 := by
    rw [objectSize, h.objectSize_eq hc, two_pow_cacheIndex hpos hle]
  have hround : max layout.size layout.align ≤ t.objectSize layout := by
    rw [hsize]
    exact (Nat.le_pow_clog (by decide) _).trans
      (Nat.pow_le_pow_right (by decide) (le_max_left _ _))
  have halign : layout.align ∣ t.objectSize layout := by
    rw [hk, hsize]
    refine Nat.pow_dvd_pow 2 ((Nat.pow_le_pow_iff_right (a := 2) (by decide)).mp ?_)
    rw [← hk, ← hsize]
    exact (le_max_right _ _).trans hround
  obtain ⟨⟨slabs, part, hinv⟩, -⟩ := id h
  obtain ⟨free, hs⟩ := hinv.slab
  have hsz : SizeOk M (KmemCache.new (2 ^ (cacheIndex layout + 3))).objectSize :=
    SlubSystem.sizeOk_nine hc
  obtain ⟨hlt, hdvd⟩ := SlubSystem.size_lt_dvd hc
  refine ⟨hc, hserved, (le_max_left _ _).trans hround, halign, fun p hor => ?_, ?_⟩
  · rw [Searched, hinv.listed_iff] at hor
    exact h.hasFreeObject_iff hc hinv
      (hor.elim ((hinv.lists _).active p) ((hinv.lists _).listed p))
  obtain ⟨ptr, heap, hrun, hres, hnull⟩ := hinv.alloc hsz
  refine ⟨ptr, heap, hserved.trans hrun, fun hne => ?_, hnull.trans ?_⟩
  · rcases hres with ⟨hzero, -⟩ | ⟨-, p, slabs', part', -, hinv'⟩
    · exact absurd hzero hne
    · obtain ⟨free', hs'⟩ := hinv'.slab
      have he := hs'.live_slab _ List.mem_cons_self
      obtain ⟨s, l, hok⟩ := hs'.ok _ he
      have hfresh := hok.perm.subset (List.mem_append_right _ (mem_liveOf List.mem_cons_self))
      have hobj := hs'.ptr_mem_objects List.mem_cons_self
      rw [objectSize, hs.size_eq] at halign hround ⊢
      refine ⟨dvd_of_mem_objects hdvd (hs'.head_lt he) hobj halign, p,
        ⟨hs'.head_in_range he, s, hok.slub, hok.cache⟩, ptr, hfresh, le_rfl, ?_⟩
      exact Nat.add_le_add_left ((le_max_left _ _).trans hround) ptr
  · refine and_congr (noFreeObject_iff hinv).symm ?_
    rw [slabOrder_of_lt hsz.pos hlt, pow_zero]
    exact hs.owns.inv.alloc_one_iff

/-- **Global allocation respects the layout**: from the nine new caches over any free pages, along
every run of allocations with layouts up to 2048 bytes and writes to objects in use, each allocation
returns, and respects its layout. -/
theorem layoutRespected_along (buddy : BuddySystemFrameAllocator) (memMap : MemMap) (M : Set ℕ)
    (free : ℕ → List ℕ) (hfree : buddy.Inv free M) (hrange : ∀ p ∈ M, memMap.InRange p)
    (ops : List HeapOp) (h : Along allocStep AllocOp ⟨slubAllocator buddy memMap, []⟩ ops) :
    Along allocStep OpRespected ⟨slubAllocator buddy memMap, []⟩ ops := by
  have hstart : Inv M ⟨slubAllocator buddy memMap, []⟩ :=
    ⟨SlubSystem.Inv.new hfree hrange _, fun _ ho => absurd ho List.not_mem_nil⟩
  refine Along.of_invariant (I := Inv M) (fun t op hI hA => ?_) hstart h
  cases op with
  | alloc layout =>
    have hresp := hI.layoutRespected hA
    exact ⟨hresp, fun t' hstep => hI.alloc (actualSize_le hA.pos hA.2) hstep⟩
  | write ptr val => exact ⟨trivial, fun t' hstep => hI.write hA hstep⟩

/-- Two caches use up two pages: the last allocation returns null. -/
theorem layoutRespected_along_sample :
    Along allocStep OpRespected ⟨slubAllocator SlubSystem.sampleBuddy SlubSystem.sampleMap, []⟩
      [.alloc ⟨1500, 16⟩, .alloc ⟨24, 1024⟩, .write (physToVirt (0x80002 * pageSize) + 8) 5,
        .alloc ⟨2048, 1⟩, .alloc ⟨2048, 8⟩] := by
  obtain ⟨free, hfree⟩ := SlubSystem.sampleBuddy_inv
  exact layoutRespected_along _ _ _ free hfree SlubSystem.sampleMap_inRange _ (by decide +kernel)

end GlobalSystem

end CharlotteOs
