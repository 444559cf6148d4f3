import CharlotteOs.Mm.SlubRuns

/-!
# How many objects a slab has

`alloc_new_slab` threads the free list of a new slab with two loops. The one for sizes from a page
on stops before an object that does not fit. The one for smaller sizes stops when no object starts
in the page any more, so a size that does not divide the page gives one object too many, and this
one reaches into the next page. On the last page below 4 GiB, where the end of the page wraps to
`0`, the second loop makes no step, and the free list has one object whatever the size.

## Main definitions

* `Heap.slabPages`: the pages of a slab
* `Heap.Carved`: the free list of a slab is made of the objects that fit into it

## Main results

* `Heap.carved_iff`: the sizes for which a new slab is carved as it should be
* `Heap.carve_overrun`: the last object of size 24 reaches into the next page
-/

namespace CharlotteOs

open LinkedChain DyadicTiling FallibleRun BuddySystemFrameAllocator

/-- The objects that are carved are as many as fit exactly for sizes from a page on and for
divisors of the page. -/
theorem slabCapacity_eq_iff {size : ℕ} (hpos : 0 < size) :
    slabCapacity size = 2 ^ slabOrder size * pageSize / size ↔
      size ∣ pageSize ∨ pageSize ≤ size := by
  by_cases hlt : size < pageSize
  · have hfit := Nat.div_mul_le_self pageSize size
    have hge : pageSize / size ≤ slabCapacity size := by
      by_contra hcap
      have hlast := (lt_slabCapacity_small (i := slabCapacity size) hpos hlt).not.mp (lt_irrefl _)
      have := Nat.mul_le_mul_right size (Nat.succ_le_of_lt (not_le.mp hcap))
      rw [Nat.succ_eq_add_one, add_mul, one_mul] at this
      omega
    have hone := lt_slabCapacity_small (i := pageSize / size) hpos hlt
    rw [slabOrder_of_lt hpos hlt, pow_zero, one_mul, or_iff_left (Nat.not_le.mpr hlt),
      Nat.dvd_iff_div_mul_eq]
    omega
  · rw [slabCapacity, if_neg hlt]
    exact iff_of_true rfl (.inr (Nat.not_lt.mp hlt))

/-- The objects on the free list of a new slab are as many as fit: on the last page below 4 GiB for
the sizes of which one fits, and elsewhere for the divisors of the page and from a page on. -/
theorem length_freshObjects_eq_iff {size : ℕ} (hpos : 0 < size) (ppn : ℕ) :
    (freshObjects size ppn).length = 2 ^ slabOrder size * pageSize / size ↔
      if size < pageSize ∧ ppn = topPage then pageSize < 2 * size
      else size ∣ pageSize ∨ pageSize ≤ size := by
  rw [freshObjects]
  split
  case isTrue htop =>
    have hone : pageSize / size = 1 ↔ size ≤ pageSize ∧ pageSize < 2 * size := by
      rw [Nat.div_eq_iff hpos]
      omega
    rw [List.length_singleton, slabOrder_of_lt hpos htop.1, pow_zero, one_mul, eq_comm, hone,
      and_iff_right htop.1.le]
  case isFalse => rw [objects, length_strided, slabCapacity_eq_iff hpos]

/-- The objects of a new slab follow each other from its start on. -/
theorem freshObjects_eq_strided (size ppn : ℕ) : freshObjects size ppn =
    strided size (physToVirt (ppn * pageSize)) (freshObjects size ppn).length := by
  rw [freshObjects]
  split
  · rfl
  · rw [objects, length_strided]

theorem objectSize_new_lt (requestedSize : ℕ) :
    (KmemCache.new requestedSize).objectSize < 2 ^ 64 := by
  simp only [KmemCache.new]
  split
  · decide
  · exact Nat.and_le_left.trans_lt (Nat.mod_lt _ (by decide))

namespace Heap

variable {hp hp' : Heap} {c p : ℕ} {M N : Set ℕ} {free : ℕ → List ℕ}

/-- The pages that `alloc_new_slab` asks for. -/
def slabPages (objectSize : ℕ) : ℕ :=
  if objectSize < pageSize then 1 else Usize.nextPowerOfTwo (requiredPages objectSize)

/-- **A slab is carved as it should be**: its free list ends, its members are disjoint and lie in
the pages of the slab, and there are as many of them as fit. -/
def Carved (hp : Heap) (c p : ℕ) : Prop :=
  let size := (hp.caches c).objectSize
  ∃ s l, hp.memMap.slubAt p = some s ∧
    Chain (nextFree hp.buddy.mem) (NonNull.new s.freelist) l ∧
    l.length = slabPages size * pageSize / size ∧
    (∀ a ∈ l, physToVirt (p * pageSize) ≤ a ∧
      a + size ≤ physToVirt (p * pageSize) + slabPages size * pageSize) ∧
    l.Pairwise fun a b => Disjoint (Set.Ico a (a + size)) (Set.Ico b (b + size))

theorem slabPages_eq {size : ℕ} (hsz : SizeOk N size) : slabPages size = 2 ^ slabOrder size := by
  rw [slabPages]
  split
  case isTrue hlt => rw [slabOrder_of_lt hsz.pos hlt, pow_zero]
  case isFalse => exact hsz.nextPowerOfTwo_requiredPages

/-- The head page of a new slab for sizes from a page on is the page that was handed out. -/
theorem page_of_allocNewSlab (hsz : SizeOk N (hp.caches c).objectSize)
    (hge : ¬ (hp.caches c).objectSize < pageSize) {ppn : ℕ} {b : BuddySystemFrameAllocator}
    (halloc : hp.buddy.alloc (2 ^ slabOrder (hp.caches c).objectSize) = .ok (some ppn, b))
    (hrun : hp.allocNewSlab c = .ok (some p, hp')) : p = ppn := by
  have hnz : nonZeroPages (2 ^ slabOrder (hp.caches c).objectSize) =
      .ok (2 ^ slabOrder (hp.caches c).objectSize) := if_neg (Nat.two_pow_pos _).ne'
  rw [allocNewSlab, if_neg hge, hsz.nextPowerOfTwo_requiredPages, hnz, ok_bind, halloc,
    ok_bind] at hrun
  obtain ⟨mem, -, hrun⟩ := exists_of_bind_eq_ok hrun
  obtain ⟨page, -, hrun⟩ := exists_of_bind_eq_ok hrun
  obtain ⟨memMap, -, hrun⟩ := exists_of_bind_eq_ok hrun
  cases hrun
  rfl

/-- **A new slab**: its free list runs through the objects that a slab begins with. For sizes from a
page on, one object behind the slab has an address. -/
theorem allocNewSlab_objects (hfree : hp.buddy.Inv free M) (hrange : ∀ p ∈ M, hp.memMap.InRange p)
    (hsz : SizeOk N (hp.caches c).objectSize)
    (hroom : pageSize ≤ (hp.caches c).objectSize →
      (p + slabPages (hp.caches c).objectSize) * pageSize + (hp.caches c).objectSize +
        physVirtOffset < 2 ^ 64)
    (hrun : hp.allocNewSlab c = .ok (some p, hp')) :
    p < 2 ^ 20 ∧ (hp'.caches c).objectSize = (hp.caches c).objectSize ∧
      ∃ s l, hp'.memMap.slubAt p = some s ∧
        Chain (nextFree hp'.buddy.mem) (NonNull.new s.freelist) l ∧
        l.Perm (freshObjects (hp.caches c).objectSize p) := by
  have hnil := SlabInv.nil hfree hrange
  by_cases hlt : (hp.caches c).objectSize < pageSize
  · rcases hnil.allocNewSlab_small (.of_lt hsz.pos hsz.dvd hlt) hlt with
      ⟨p', hp'', hrun', hnew, -⟩ | ⟨hnone, -⟩
    · cases hrun'.symm.trans hrun
      obtain ⟨free', hinv⟩ := hnew.inv
      obtain ⟨s, l, hok⟩ := hinv.ok (p, c) List.mem_cons_self
      refine ⟨hinv.head_lt (e := (p, c)) List.mem_cons_self, hinv.size_eq c, s, l, hok.slub,
        hok.chain, ?_⟩
      have hperm := hok.perm
      rwa [show liveOf [] p = [] from rfl, List.append_nil] at hperm
    · cases hnone.symm.trans hrun
  · rcases hnil.owns.alloc (Nat.two_pow_pos _) hsz.two_pow_slabOrder_lt with
      ⟨b, free', r, halloc, hr, howns, -, -⟩ | hnone
    · rw [Nat.clog_pow 2 _ (by decide)] at hr
      have hlarge := Nat.le_of_not_lt hlt
      have hsub : r.cells ⊆ M := howns.subset r List.mem_cons_self
      have hbase := howns.addressable.lt (hsub r.base_mem_cells)
      obtain rfl := page_of_allocNewSlab hsz hlt halloc hrun
      have hend := hroom hlarge
      rw [slabPages_eq hsz, add_mul] at hend
      obtain ⟨m, t, hrun', hchain, -, -, hslub, -⟩ := hnil.allocNewSlab_large_run hsz hlt halloc hr
        hsub hbase (by omega)
      cases hrun'.symm.trans hrun
      refine ⟨hbase, hp.objectSize_setPartial c c _, _, _, hslub, hchain, ?_⟩
      rw [freshObjects_of_ne (Or.inl hlarge)]
    · cases (hnil.allocNewSlab_large_none hsz hlt hnone).symm.trans hrun

/-- A new slab is carved as it should be exactly if its free list has as many objects as fit. -/
theorem carved_iff_of_sizeOk (hfree : hp.buddy.Inv free M)
    (hrange : ∀ p ∈ M, hp.memMap.InRange p) (hsz : SizeOk N (hp.caches c).objectSize)
    (hroom : pageSize ≤ (hp.caches c).objectSize →
      (p + slabPages (hp.caches c).objectSize) * pageSize + (hp.caches c).objectSize +
        physVirtOffset < 2 ^ 64)
    (hrun : hp.allocNewSlab c = .ok (some p, hp')) :
    hp'.Carved c p ↔
      if (hp.caches c).objectSize < pageSize ∧ p = topPage then
        pageSize < 2 * (hp.caches c).objectSize
      else (hp.caches c).objectSize ∣ pageSize ∨ pageSize ≤ (hp.caches c).objectSize := by
  obtain ⟨hppn, hsize, s, l, hslub, hchain, hperm⟩ :=
    allocNewSlab_objects hfree hrange hsz hroom hrun
  rw [← length_freshObjects_eq_iff hsz.pos, Carved, hsize, slabPages_eq hsz]
  constructor
  · rintro ⟨s', l', hslub', hchain', hlength', -⟩
    obtain rfl : s' = s := Option.some.inj (hslub'.symm.trans hslub)
    rw [← hperm.length_eq, ← hlength', hchain'.unique hchain]
  · intro hlength
    refine ⟨s, l, hslub, hchain, hperm.length_eq.trans hlength, fun a ha => ?_, ?_⟩
    · have hmem := hperm.subset ha
      rw [freshObjects_eq_strided, hlength] at hmem
      obtain ⟨i, hi, rfl⟩ := mem_strided.mp hmem
      rw [Nat.lt_iff_add_one_le, Nat.le_div_iff_mul_le hsz.pos, add_mul, one_mul] at hi
      omega
    · have hsub := freshObjects_sublist hsz.pos p
      refine (hperm.nodup_iff.mpr (hsub.nodup (nodup_strided hsz.pos _ _))).imp_of_mem ?_
      intro a b ha hb hne
      exact object_disjoint hppn (hsub.subset (hperm.subset ha)) (hsub.subset (hperm.subset hb)) hne

/-- Rounding a size within a page of the end of the address space up to pages wraps to none. -/
theorem nextPowerOfTwo_requiredPages_of_wrap {size : ℕ} (hlt : size < 2 ^ 64)
    (hwrap : 2 ^ 64 < size + pageSize) : Usize.nextPowerOfTwo (requiredPages size) = 1 := by
  have hrequired : requiredPages size = 0 := by
    rw [requiredPages, Nat.shiftRight_eq_div_pow, two_pow_pageSizeBits]
    simp only [pageSize] at hwrap ⊢
    omega
  rw [hrequired]
  rfl

/-- The free list of a new slab begins at its first byte, which is not null. -/
theorem freelist_newSlub (hp : Heap) (c : ℕ) {base : ℕ} (hbase : base < 2 ^ 20) :
    NonNull.new (hp.newSlub c (physToVirt (PhysAddr.ofPpn base))).freelist =
      some (base * pageSize + physVirtOffset) := by
  have hva : physToVirt (PhysAddr.ofPpn base) = base * pageSize + physVirtOffset := by
    rw [PhysAddr.ofPpn_eq (by omega), physToVirt_eq (mul_pageSize_lt hbase)]
  rw [newSlub_freelist, hva, VirtAddr.ofUsize_of_le (Nat.le_add_left _ _)
    (by simp only [physVirtOffset, pageSize]; omega),
    NonNull.new_of_pos (by simp only [physVirtOffset]; omega)]

/-- **A size within a page of the end of the address space**: a slab of one page is taken for
objects that do not fit into it. -/
theorem not_carved_of_wrap (hfree : hp.buddy.Inv free M) (hrange : ∀ p ∈ M, hp.memMap.InRange p)
    (hlt : (hp.caches c).objectSize < 2 ^ 64) (hwrap : 2 ^ 64 < (hp.caches c).objectSize + pageSize)
    (hrun : hp.allocNewSlab c = .ok (some p, hp')) : ¬ hp'.Carved c p := by
  have hpages := nextPowerOfTwo_requiredPages_of_wrap hlt hwrap
  simp only [pageSize] at hwrap
  have hbig : ¬ (hp.caches c).objectSize < pageSize := by
    simp only [pageSize]
    omega
  unfold allocNewSlab at hrun
  dsimp only at hrun
  rw [if_neg hbig, hpages, show nonZeroPages 1 = .ok 1 from rfl, ok_bind] at hrun
  rcases (SlabInv.nil hfree hrange).owns.alloc Nat.one_pos (by decide) with
    ⟨b, free', r, hs', hr, howns, -, hmem⟩ | hnone
  · rw [hs', ok_bind] at hrun
    dsimp only at hrun
    obtain ⟨mem, -, hrun⟩ := exists_of_bind_eq_ok hrun
    obtain ⟨page, -, hrun⟩ := exists_of_bind_eq_ok hrun
    obtain ⟨memMap, hfill, hrun⟩ := exists_of_bind_eq_ok hrun
    cases hfill
    cases hrun
    rintro ⟨s, l, hslub, hchain, hlength, -⟩
    rw [MemMap.slubAt, MemMap.page_set_self] at hslub
    obtain rfl := Option.some.inj hslub
    have hnil : l = [] := by
      refine List.length_eq_zero_iff.mp (hlength.trans ?_)
      dsimp only
      rw [caches_setPartial_self]
      dsimp only
      rw [slabPages, if_neg hbig, hpages, one_mul]
      exact Nat.div_eq_of_lt (by simp only [pageSize]; omega)
    have hbase := howns.addressable.lt (howns.subset r List.mem_cons_self r.base_mem_cells)
    rw [hnil, chain_nil, freelist_newSlub _ _ hbase] at hchain
    cases hchain
  · rw [hnone, ok_bind] at hrun
    cases hrun

/-- **The sizes for which a new slab is carved as it should be**: the divisors of the page, and the
sizes from a page on that can be rounded up to pages; on the last page below 4 GiB, of the sizes
below a page, those of which one object fits. For sizes from a page on, one object behind the slab
that was handed out has an address. -/
theorem carved_iff (hp hp' : Heap) (c p requestedSize : ℕ) (M : Set ℕ) (free : ℕ → List ℕ)
    (hfree : hp.buddy.Inv free M) (hrange : ∀ p ∈ M, hp.memMap.InRange p)
    (hsize : (hp.caches c).objectSize = (KmemCache.new requestedSize).objectSize)
    (hroom : pageSize ≤ (hp.caches c).objectSize → (hp.caches c).objectSize + pageSize ≤ 2 ^ 64 →
      (p + slabPages (hp.caches c).objectSize) * pageSize + (hp.caches c).objectSize +
        physVirtOffset < 2 ^ 64)
    (hrun : hp.allocNewSlab c = .ok (some p, hp')) :
    hp'.Carved c p ↔
      if (hp.caches c).objectSize < pageSize ∧ p = topPage then
        pageSize < 2 * (hp.caches c).objectSize
      else (hp.caches c).objectSize ∣ pageSize ∨
        pageSize ≤ (hp.caches c).objectSize ∧ (hp.caches c).objectSize + pageSize ≤ 2 ^ 64 := by
  obtain ⟨hpos, hdvd⟩ := objectSize_new requestedSize
  rw [← hsize] at hpos hdvd
  have hlt : (hp.caches c).objectSize < 2 ^ 64 := by
    rw [hsize]
    exact objectSize_new_lt requestedSize
  by_cases hwrap : (hp.caches c).objectSize + pageSize ≤ 2 ^ 64
  · have hsz : SizeOk ∅ (hp.caches c).objectSize :=
      ⟨hpos, hdvd, hwrap, fun _ _ p hp => absurd hp (Set.notMem_empty p)⟩
    rw [carved_iff_of_sizeOk hfree hrange hsz (fun hge => hroom hge hwrap) hrun,
      and_iff_left hwrap]
  · have hlarge : ¬ (hp.caches c).objectSize < pageSize := by
      simp only [pageSize] at hwrap ⊢
      omega
    rw [if_neg fun h => hlarge h.1]
    refine iff_of_false (not_carved_of_wrap hfree hrange hlt (Nat.not_le.mp hwrap) hrun) ?_
    rintro (hdiv | ⟨-, hle⟩)
    · have := Nat.le_of_dvd (by decide) hdiv
      simp only [pageSize] at hwrap this
      omega
    · exact hwrap hle

/-- One new cache over two free pages. -/
def sampleHeap (requestedSize : ℕ) : Heap :=
  (SlubSystem.new SlubSystem.sampleBuddy SlubSystem.sampleMap fun _ => requestedSize).heap

/-- Two objects of half a page. -/
theorem carved_iff_half_page : ∃ p hp', (sampleHeap 2048).allocNewSlab 0 = .ok (some p, hp') ∧
    hp'.Carved 0 p := by
  obtain ⟨⟨r, hp'⟩, hrun, hr⟩ := exists_of_map_eq_ok (show
    ((sampleHeap 2048).allocNewSlab 0).map Prod.fst = .ok (some 0x80002) by decide +kernel)
  cases (hr : r = _)
  obtain ⟨free, hfree⟩ := SlubSystem.sampleBuddy_inv
  have hcarved := carved_iff (sampleHeap 2048) hp' 0 _ 2048 (Set.Ico 0x80002 0x80004) free hfree
    SlubSystem.sampleMap_inRange rfl (fun hge => absurd hge (by decide)) hrun
  exact ⟨0x80002, hp', hrun, hcarved.mpr (by decide)⟩

/-- **The last object of size 24** starts in the page and reaches into the next one. -/
theorem carve_overrun : ∃ p hp' s l, (sampleHeap 24).allocNewSlab 0 = .ok (some p, hp') ∧
    hp'.memMap.slubAt p = some s ∧ Chain (nextFree hp'.buddy.mem) (NonNull.new s.freelist) l ∧
    l.length = 171 ∧ slabPages 24 * pageSize / 24 = 170 ∧
    (∃ a ∈ l, physToVirt (p * pageSize) + pageSize < a + 24) ∧ ¬ hp'.Carved 0 p := by
  obtain ⟨⟨r, hp'⟩, hrun, hr⟩ := exists_of_map_eq_ok (show
    ((sampleHeap 24).allocNewSlab 0).map Prod.fst = .ok (some 0x80002) by decide +kernel)
  cases (hr : r = _)
  obtain ⟨free, hfree⟩ := SlubSystem.sampleBuddy_inv
  have hsz : SizeOk ∅ ((sampleHeap 24).caches 0).objectSize :=
    .of_lt (by decide) (by decide) (by decide)
  have hrange : ∀ p ∈ Set.Ico 0x80002 0x80004, (sampleHeap 24).memMap.InRange p :=
    SlubSystem.sampleMap_inRange
  have hroom : pageSize ≤ ((sampleHeap 24).caches 0).objectSize →
      (0x80002 + slabPages ((sampleHeap 24).caches 0).objectSize) * pageSize +
        ((sampleHeap 24).caches 0).objectSize + physVirtOffset < 2 ^ 64 :=
    fun hge => absurd hge (by decide)
  obtain ⟨hppn, -, s, l, hslub, hchain, hperm⟩ :=
    allocNewSlab_objects hfree hrange hsz hroom hrun
  rw [freshObjects_of_ne (Or.inr (by decide))] at hperm
  refine ⟨0x80002, hp', s, l, hrun, hslub, hchain, ?_, by decide, ?_, fun hcarved => ?_⟩
  · rw [hperm.length_eq, objects, length_strided]
    decide
  · exact ⟨_, hperm.symm.subset ((mem_objects hppn).mpr ⟨170, by decide, rfl⟩), by decide⟩
  · have := (carved_iff_of_sizeOk hfree hrange hsz hroom hrun).mp hcarved
    revert this
    decide

end Heap

end CharlotteOs
