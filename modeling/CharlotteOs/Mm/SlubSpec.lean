import Mathlib.Data.List.Pairwise
import Mathlib.Data.List.Perm.Basic
import CharlotteOs.Mm.BuddyUse
import CharlotteOs.Mm.Slub

/-!
# What the slab allocator's operations do to slabs

A slab is a block of pages in use, the objects that fit in it, and the division of these into a
free list and the live objects. `SlabInv` says that of every slab, whatever the caches' lists of
slabs look like. The operations are then four moves: a new slab is carved, an object is taken from
a slab, an object is put back, and a slab without live objects is released.

## Main definitions

* `slabOrder`, `slabCapacity`, `objects`: the block and the objects of a slab
* `SizeOk`: sizes for which no address computation wraps
* `SlabOk`, `SlabInv`: one slab, and all of them with the buddy allocator

## Main results

* `carveLoop_spec`: the free list of a new slab runs through its objects
* `SlabInv.take`, `SlabInv.give`, `SlabInv.allocNewSlab`, `SlabInv.releaseSlab`: the four moves
-/

namespace CharlotteOs

open LinkedChain DyadicTiling BuddySystemFrameAllocator

/-! ## Objects of a slab -/

/-- `k` objects of a size, from an address on. -/
def strided (size : ℕ) : ℕ → ℕ → List ℕ
  | _, 0 => []
  | va, k + 1 => va :: strided size (va + size) k

/-- The order of the block of a slab. -/
def slabOrder (size : ℕ) : ℕ := Nat.clog 2 ((size + pageSize - 1) / pageSize)

/-- The block of a slab. -/
def slabBlock (size ppn : ℕ) : Block := Block.containing (slabOrder size) ppn

/-- The number of objects that `alloc_new_slab` carves out of a slab: those that start in a page
for small sizes, and those that fit for sizes of a page on. -/
def slabCapacity (size : ℕ) : ℕ :=
  if size < pageSize then (pageSize + size - 1) / size
  else 2 ^ slabOrder size * pageSize / size

/-- The addresses of the objects of a slab. -/
def objects (size ppn : ℕ) : List ℕ :=
  strided size (physToVirt (ppn * pageSize)) (slabCapacity size)

theorem mem_strided {size va k a : ℕ} :
    a ∈ strided size va k ↔ ∃ i < k, a = va + i * size := by
  induction k generalizing va with
  | zero => simp [strided]
  | succ k ih =>
    rw [strided, List.mem_cons, ih]
    constructor
    · rintro (rfl | ⟨i, hi, rfl⟩)
      · exact ⟨0, by omega, by simp⟩
      · exact ⟨i + 1, by omega, by ring⟩
    · rintro ⟨i, hi, rfl⟩
      cases i with
      | zero => exact Or.inl (by simp)
      | succ i => exact Or.inr ⟨i, by omega, by ring⟩

theorem length_strided (size va k : ℕ) : (strided size va k).length = k := by
  induction k generalizing va with
  | zero => rfl
  | succ k ih => rw [strided, List.length_cons, ih]

theorem nodup_strided {size : ℕ} (hsize : 0 < size) (va k : ℕ) : (strided size va k).Nodup := by
  induction k generalizing va with
  | zero => exact List.nodup_nil
  | succ k ih =>
    refine List.nodup_cons.mpr ⟨fun hmem => ?_, ih _⟩
    obtain ⟨i, -, hi⟩ := mem_strided.mp hmem
    omega

theorem slabOrder_of_lt {size : ℕ} (hpos : 0 < size) (hlt : size < pageSize) :
    slabOrder size = 0 := by
  have hone : (size + pageSize - 1) / pageSize = 1 := by
    change size < 4096 at hlt
    show (size + 4096 - 1) / 4096 = 1
    omega
  rw [slabOrder, hone, Nat.clog_one_right]

theorem lt_slabCapacity_small {size i : ℕ} (hpos : 0 < size) (hlt : size < pageSize) :
    i < slabCapacity size ↔ i * size < pageSize := by
  rw [slabCapacity, if_pos hlt, Nat.lt_iff_add_one_le, Nat.le_div_iff_mul_le hpos, add_mul, one_mul]
  omega

theorem lt_slabCapacity_large {size i : ℕ} (hpos : 0 < size) (hge : ¬ size < pageSize) :
    i < slabCapacity size ↔ i * size + size ≤ 2 ^ slabOrder size * pageSize := by
  rw [slabCapacity, if_neg hge, Nat.lt_iff_add_one_le, Nat.le_div_iff_mul_le hpos, add_mul, one_mul]

/-- Every object starts inside its slab. -/
theorem mul_lt_of_lt_capacity {size i : ℕ} (hpos : 0 < size) (hi : i < slabCapacity size) :
    i * size < 2 ^ slabOrder size * pageSize := by
  by_cases hlt : size < pageSize
  · rw [slabOrder_of_lt hpos hlt, pow_zero, one_mul]
    exact (lt_slabCapacity_small hpos hlt).mp hi
  · have := (lt_slabCapacity_large hpos hlt).mp hi
    omega

theorem slabCapacity_pos {size : ℕ} (hpos : 0 < size) : 0 < slabCapacity size := by
  rw [slabCapacity]
  split
  · exact Nat.div_pos (by simp only [pageSize]; omega) hpos
  · refine Nat.div_pos ?_ hpos
    have hle := Nat.le_pow_clog (b := 2) (by decide) ((size + pageSize - 1) / pageSize)
    rw [slabOrder]
    simp only [pageSize] at hle ⊢
    omega

/-- The last page below 4 GiB. The address of its end wraps to `0`. -/
abbrev topPage : ℕ := 0xFFFFF

/-- The objects that the free list of a new slab runs through. The loop that links objects smaller
than a page makes no step on the last page below 4 GiB, so there is the first one only. -/
def freshObjects (size ppn : ℕ) : List ℕ :=
  if size < pageSize ∧ ppn = topPage then [physToVirt (ppn * pageSize)] else objects size ppn

theorem freshObjects_of_ne {size ppn : ℕ} (h : pageSize ≤ size ∨ ppn ≠ topPage) :
    freshObjects size ppn = objects size ppn :=
  if_neg fun hand => h.elim hand.1.not_ge (absurd hand.2)

theorem exists_objects_eq_cons {size : ℕ} (hpos : 0 < size) (ppn : ℕ) :
    ∃ l, objects size ppn = physToVirt (ppn * pageSize) :: l := by
  obtain ⟨k, hk⟩ := Nat.exists_eq_succ_of_ne_zero (slabCapacity_pos hpos).ne'
  rw [objects, hk]
  exact ⟨_, rfl⟩

theorem freshObjects_sublist {size : ℕ} (hpos : 0 < size) (ppn : ℕ) :
    (freshObjects size ppn).Sublist (objects size ppn) := by
  obtain ⟨l, hl⟩ := exists_objects_eq_cons hpos ppn
  rw [freshObjects]
  split
  · rw [hl]
    exact (List.nil_sublist l).cons_cons _
  · exact List.Sublist.refl _

theorem head_freshObjects {size : ℕ} (hpos : 0 < size) (ppn : ℕ) :
    (freshObjects size ppn).head? = some (physToVirt (ppn * pageSize)) := by
  obtain ⟨l, hl⟩ := exists_objects_eq_cons hpos ppn
  rw [freshObjects]
  split
  · rfl
  · rw [hl]
    rfl

theorem length_freshObjects_pos {size : ℕ} (hpos : 0 < size) (ppn : ℕ) :
    0 < (freshObjects size ppn).length := by
  refine List.length_pos_of_ne_nil fun hnil => ?_
  have hhead := head_freshObjects hpos ppn
  rw [hnil] at hhead
  cases hhead

theorem length_freshObjects_le {size : ℕ} (hpos : 0 < size) (ppn : ℕ) :
    (freshObjects size ppn).length ≤ slabCapacity size :=
  (freshObjects_sublist hpos ppn).length_le.trans_eq (length_strided _ _ _)

/-- **Sizes for which no slab wraps but the one on the last page below 4 GiB**: the size is a
positive multiple of the word, rounding it up to pages does not wrap, and an object past the end of
a managed page has an address. The last clause is about sizes only that take whole pages and for
which the buddy allocator has blocks. -/
structure SizeOk (M : Set ℕ) (size : ℕ) : Prop where
  pos : 0 < size
  dvd : 8 ∣ size
  lt : size + pageSize ≤ 2 ^ 64
  room : pageSize ≤ size → size ≤ 2 ^ (maxOrder - 1) * pageSize → ∀ p ∈ M,
    (p + 1) * pageSize + size + physVirtOffset < 2 ^ 64

namespace SizeOk

variable {M : Set ℕ} {size : ℕ}

/-- Nothing but the last page below 4 GiB is in the way of sizes below a page. -/
theorem of_lt (hpos : 0 < size) (hdvd : 8 ∣ size) (hlt : size < pageSize) : SizeOk M size where
  pos := hpos
  dvd := hdvd
  lt := by
    simp only [pageSize] at hlt ⊢
    omega
  room hge := absurd hlt hge.not_gt

theorem requiredPages_eq (h : SizeOk M size) :
    Heap.requiredPages size = (size + pageSize - 1) / pageSize := by
  have := h.lt
  rw [Heap.requiredPages, Nat.mod_eq_of_lt (by omega), Nat.shiftRight_eq_div_pow,
    two_pow_pageSizeBits]

theorem requiredPages_pos (h : SizeOk M size) : 0 < Heap.requiredPages size := by
  have := h.pos
  rw [h.requiredPages_eq]
  simp only [pageSize]
  omega

theorem requiredPages_le (h : SizeOk M size) : Heap.requiredPages size ≤ 2 ^ 52 := by
  have := h.lt
  rw [h.requiredPages_eq]
  simp only [pageSize] at this ⊢
  omega

theorem slabOrder_eq (h : SizeOk M size) :
    slabOrder size = Nat.clog 2 (Heap.requiredPages size) := by
  rw [slabOrder, h.requiredPages_eq]

/-- Slabs are allocated and released with the same number of pages. -/
theorem nextPowerOfTwo_requiredPages (h : SizeOk M size) :
    Usize.nextPowerOfTwo (Heap.requiredPages size) = 2 ^ slabOrder size := by
  have hle := h.requiredPages_le
  rw [Usize.nextPowerOfTwo_eq h.requiredPages_pos (by omega), h.slabOrder_eq]

theorem slabOrder_lt (h : SizeOk M size) : slabOrder size < 64 := by
  rw [h.slabOrder_eq]
  exact (Nat.clog_le_of_le_pow h.requiredPages_le).trans_lt (by decide)

theorem two_pow_slabOrder_lt (h : SizeOk M size) : 2 ^ slabOrder size < 2 ^ 64 :=
  Nat.pow_lt_pow_right (by decide) h.slabOrder_lt

/-- A size for which the buddy allocator has a block is at most the largest block. -/
theorem le_of_slabOrder_lt (h : SizeOk M size) (hk : slabOrder size < maxOrder) :
    size ≤ 2 ^ (maxOrder - 1) * pageSize := by
  have hle : Heap.requiredPages size ≤ 2 ^ (maxOrder - 1) := by
    rw [h.slabOrder_eq] at hk
    exact (Nat.clog_le_iff_le_pow (by decide)).mp (Nat.le_sub_one_of_lt hk)
  rw [h.requiredPages_eq] at hle
  simp only [pageSize] at hle ⊢
  change _ ≤ 32768 at hle
  show size ≤ 32768 * 4096
  omega

end SizeOk

/-! ## Carving -/

/-- **The carving loop** over `k` objects links them in order and writes nothing else. -/
theorem carveLoop_spec {g : ℕ → Bool} {size : ℕ} (hsize : 0 < size) :
    ∀ k {n va : ℕ} {m : Mem}, k < n → physVirtOffset ≤ va → va + k * size < 2 ^ 64 →
      (∀ i ≤ k, g (va + i * size) = decide (i < k)) →
      ∃ m', Heap.carveLoop g size n va m = .ok m' ∧
        Chain (nextFree m') (strided size va k).head? (strided size va k) ∧
        ∀ a, (∀ o ∈ strided size va k, kernelPa o ≠ a) → m' a = m a := by
  intro k
  induction k with
  | zero =>
    intro n va m hn _ _ hmore
    obtain ⟨n, rfl⟩ := Nat.exists_eq_add_of_lt hn
    have hstop : g va = false := by simpa using hmore 0 le_rfl
    refine ⟨m, ?_, rfl, fun _ _ => rfl⟩
    rw [Heap.carveLoop, hstop]
    rfl
  | succ k ih =>
    intro n va m hn hva hlt hmore
    obtain ⟨n, rfl⟩ : ∃ n', n = n' + 1 := ⟨n - 1, by omega⟩
    have hgo : g va = true := by simpa using hmore 0 (by omega)
    have hnext : (va + size) % 2 ^ 64 = va + size := by
      rw [add_mul, one_mul] at hlt
      exact Nat.mod_eq_of_lt (by omega)
    have hmore' : ∀ i ≤ k, g (va + size + i * size) = decide (i < k) := by
      intro i hi
      have := hmore (i + 1) (by omega)
      rw [add_mul, one_mul, add_comm (i * size), ← add_assoc] at this
      rw [this]
      simp
    let word := if g (va + size) then va + size else 0
    obtain ⟨m', hm', hchain, hframe⟩ := ih (n := n) (m := m.store va word) (by omega)
      (by omega) (by rw [add_mul, one_mul] at hlt; omega) hmore'
    have hrest : ∀ o ∈ strided size (va + size) k, physVirtOffset ≤ o ∧ o ≠ va := by
      intro o ho
      obtain ⟨i, -, rfl⟩ := mem_strided.mp ho
      omega
    refine ⟨m', ?_, ⟨rfl, ?_⟩, fun a ha => ?_⟩
    · rw [Heap.carveLoop, if_pos hgo]
      dsimp only
      rw [hnext]
      exact hm'
    · have hword : m'.load va = word := by
        rw [Mem.load, hframe _ fun o ho => kernelPa_ne (hrest o ho).1 hva (hrest o ho).2]
        exact Function.update_self ..
      have hstart : nextFree m' va = (strided size (va + size) k).head? := by
        have hfirst := hmore' 0 (by omega)
        rw [zero_mul, add_zero] at hfirst
        rw [nextFree, hword]
        dsimp only [word]
        rw [hfirst]
        cases k with
        | zero => rfl
        | succ k => exact NonNull.new_of_pos (show 0 < va + size by omega)
      rw [hstart]
      exact hchain
    · rw [hframe a fun o ho => ha o (List.mem_cons_of_mem _ ho)]
      exact Function.update_of_ne (ha va List.mem_cons_self).symm _ _

/-! ## Slabs -/

/-- A live object: its cache, its address and the head page of its slab. -/
structure LiveObj where
  cache : ℕ
  ptr : ℕ
  slab : ℕ
  deriving DecidableEq, Repr

/-- The live objects of a slab. -/
def liveOf (live : List LiveObj) (ppn : ℕ) : List ℕ :=
  (live.filter fun o => o.slab = ppn).map LiveObj.ptr

theorem liveOf_cons_self (o : LiveObj) (live : List LiveObj) :
    liveOf (o :: live) o.slab = o.ptr :: liveOf live o.slab := by
  simp [liveOf]

theorem liveOf_cons_of_ne {o : LiveObj} {ppn : ℕ} (hne : o.slab ≠ ppn) (live : List LiveObj) :
    liveOf (o :: live) ppn = liveOf live ppn := by
  simp [liveOf, hne]

theorem liveOf_perm {live live' : List LiveObj} (h : live.Perm live') (ppn : ℕ) :
    (liveOf live ppn).Perm (liveOf live' ppn) :=
  (h.filter _).map _

theorem mem_liveOf {live : List LiveObj} {o : LiveObj} (ho : o ∈ live) :
    o.ptr ∈ liveOf live o.slab :=
  List.mem_map_of_mem (List.mem_filter.mpr ⟨ho, by simp⟩)

theorem mem_objects {size ppn a : ℕ} (hppn : ppn < 2 ^ 20) :
    a ∈ objects size ppn ↔
      ∃ i < slabCapacity size, a = ppn * pageSize + physVirtOffset + i * size := by
  rw [objects, mem_strided, physToVirt_eq (mul_pageSize_lt hppn)]

/-- The first word of an object is in the pages of its slab. -/
theorem object_mem_slabBlock {size ppn a : ℕ} (hpos : 0 < size) (hppn : ppn < 2 ^ 20)
    (hdvd : 2 ^ slabOrder size ∣ ppn) (ha : a ∈ objects size ppn) :
    physVirtOffset ≤ a ∧ kernelPa a / pageSize ∈ (slabBlock size ppn).cells := by
  obtain ⟨i, hi, rfl⟩ := (mem_objects hppn).mp ha
  have hlt := mul_lt_of_lt_capacity hpos hi
  have hle : physVirtOffset ≤ ppn * pageSize + physVirtOffset + i * size := by omega
  have hpa : kernelPa (ppn * pageSize + physVirtOffset + i * size) = i * size + pageSize * ppn := by
    rw [kernelPa_of_le hle, mul_comm pageSize]
    omega
  refine ⟨hle, ?_⟩
  rw [hpa, Nat.add_mul_div_left _ _ (by decide), Block.mem_cells, slabBlock,
    Block.containing_base hdvd, Block.containing_order]
  have hdiv : i * size / pageSize < 2 ^ slabOrder size :=
    (Nat.div_lt_iff_lt_mul (by decide)).mpr hlt
  exact ⟨Nat.le_add_left _ _, by rw [add_comm]; exact Nat.add_lt_add_left hdiv _⟩

variable {sz : ℕ → ℕ} {M : Set ℕ} {hp hp' : Heap} {live live' : List LiveObj}
  {free free' : ℕ → List ℕ} {slabs : List (ℕ × ℕ)} {e : ℕ × ℕ} {s s' : Slub} {l l' : List ℕ}

/-- **One slab**, of head page `e.1` and cache `e.2`: the free list of its head `s` runs through
`l`, `l` and the live objects together are the objects it began with, and `inuse` counts the live
ones. -/
structure SlabOk (sz : ℕ → ℕ) (hp : Heap) (live : List LiveObj) (e : ℕ × ℕ) (s : Slub)
    (l : List ℕ) : Prop where
  slub : hp.memMap.slubAt e.1 = some s
  cache : s.cache = e.2
  inuse : s.inuse = (liveOf live e.1).length
  chain : Chain (nextFree hp.buddy.mem) (NonNull.new s.freelist) l
  perm : (l ++ liveOf live e.1).Perm (freshObjects (sz e.2) e.1)

/-- **All slabs**: their blocks are the blocks in use of the managed pages `M`, and each is in
order. -/
structure SlabInv (sz : ℕ → ℕ) (M : Set ℕ) (hp : Heap) (live : List LiveObj)
    (free : ℕ → List ℕ) (slabs : List (ℕ × ℕ)) : Prop where
  owns : Owns hp.buddy free M (slabs.map fun e => slabBlock (sz e.2) e.1)
  in_range : ∀ p ∈ M, hp.memMap.InRange p
  size_eq : ∀ c, (hp.caches c).objectSize = sz c
  size_ok : ∀ e ∈ slabs, SizeOk M (sz e.2)
  aligned : ∀ e ∈ slabs, 2 ^ slabOrder (sz e.2) ∣ e.1
  ok : ∀ e ∈ slabs, ∃ s l, SlabOk sz hp live e s l
  live_slab : ∀ o ∈ live, (o.slab, o.cache) ∈ slabs

/-- There are no slabs. -/
theorem SlabInv.nil (hfree : hp.buddy.Inv free M) (hrange : ∀ p ∈ M, hp.memMap.InRange p) :
    SlabInv (fun c => (hp.caches c).objectSize) M hp [] free [] := by
  refine ⟨⟨?_, List.Pairwise.nil, by simp, by simp, hfree.addressable⟩, hrange, fun _ => rfl,
    by simp, by simp, by simp, by simp⟩
  rw [List.map_nil, used_nil, Set.sdiff_empty]
  exact hfree

/-- A slab notices changes of its head, of its live objects and of its own words only. -/
theorem SlabOk.congr (h : SlabOk sz hp live e s l) (hslub : hp'.memMap.slubAt e.1 = some s')
    (hfree : s'.freelist = s.freelist) (hinuse : s'.inuse = s.inuse) (hcache : s'.cache = s.cache)
    (hlive : (liveOf live' e.1).Perm (liveOf live e.1))
    (hmem : ∀ a ∈ l, nextFree hp'.buddy.mem a = nextFree hp.buddy.mem a) :
    SlabOk sz hp' live' e s' l where
  slub := hslub
  cache := hcache.trans h.cache
  inuse := by rw [hinuse, h.inuse, hlive.length_eq]
  chain := by
    rw [hfree]
    exact h.chain.congr hmem
  perm := (hlive.append_left l).trans h.perm

theorem SlabOk.subset_objects (h : SlabOk sz hp live e s l) (hpos : 0 < sz e.2) :
    l ++ liveOf live e.1 ⊆ objects (sz e.2) e.1 :=
  fun _ ha => (freshObjects_sublist hpos e.1).subset (h.perm.subset ha)

namespace SlabInv

theorem block_base (h : SlabInv sz M hp live free slabs) (he : e ∈ slabs) :
    (slabBlock (sz e.2) e.1).base = e.1 := Block.containing_base (h.aligned e he)

theorem head_mem_block (h : SlabInv sz M hp live free slabs) (he : e ∈ slabs) :
    e.1 ∈ (slabBlock (sz e.2) e.1).cells := by
  have := (slabBlock (sz e.2) e.1).base_mem_cells
  rwa [h.block_base he] at this

theorem block_subset_used (he : e ∈ slabs) :
    (slabBlock (sz e.2) e.1).cells ⊆ used (slabs.map fun e => slabBlock (sz e.2) e.1) :=
  cells_subset_used (List.mem_map.mpr ⟨e, he, rfl⟩)

theorem block_subset (h : SlabInv sz M hp live free slabs) (he : e ∈ slabs) :
    (slabBlock (sz e.2) e.1).cells ⊆ M := (block_subset_used he).trans h.owns.used_subset

theorem head_mem (h : SlabInv sz M hp live free slabs) (he : e ∈ slabs) : e.1 ∈ M :=
  h.block_subset he (h.head_mem_block he)

theorem head_not_free (h : SlabInv sz M hp live free slabs) (he : e ∈ slabs) :
    e.1 ∉ hp.buddy.freePages := by
  rw [h.owns.inv.freePages_eq]
  rintro ⟨-, hunused⟩
  exact hunused (block_subset_used he (h.head_mem_block he))

theorem head_lt (h : SlabInv sz M hp live free slabs) (he : e ∈ slabs) : e.1 < 2 ^ 20 :=
  h.owns.addressable.lt (h.head_mem he)

theorem head_in_range (h : SlabInv sz M hp live free slabs) (he : e ∈ slabs) :
    hp.memMap.InRange e.1 := h.in_range _ (h.head_mem he)

/-- Two slabs share no page. -/
theorem disjoint (h : SlabInv sz M hp live free slabs) {e' : ℕ × ℕ} (he : e ∈ slabs)
    (he' : e' ∈ slabs) (hne : e ≠ e') :
    Disjoint (slabBlock (sz e.2) e.1).cells (slabBlock (sz e'.2) e'.1).cells := by
  have hsymm : Std.Symm fun a b : ℕ × ℕ =>
      Disjoint (slabBlock (sz a.2) a.1).cells (slabBlock (sz b.2) b.1).cells :=
    ⟨fun _ _ hd => hd.symm⟩
  exact (List.pairwise_map.mp h.owns.disjoint).forall he he' hne

theorem eq_of_head_mem (h : SlabInv sz M hp live free slabs) {e' : ℕ × ℕ} (he : e ∈ slabs)
    (he' : e' ∈ slabs) (hmem : e'.1 ∈ (slabBlock (sz e.2) e.1).cells) : e = e' := by
  by_contra hne
  exact Set.disjoint_left.mp (h.disjoint he he' hne) hmem (h.head_mem_block he')

/-- The head page of a slab determines its cache. -/
theorem eq_of_head_eq (h : SlabInv sz M hp live free slabs) {e' : ℕ × ℕ} (he : e ∈ slabs)
    (he' : e' ∈ slabs) (heq : e'.1 = e.1) : e = e' :=
  h.eq_of_head_mem he he' (heq ▸ h.head_mem_block he)

theorem nodup (h : SlabInv sz M hp live free slabs) : slabs.Nodup := by
  refine (List.pairwise_map.mp h.owns.disjoint).imp_of_mem fun {e e'} he _ hd heq => ?_
  subst heq
  exact Set.disjoint_left.mp hd (h.head_mem_block he) (h.head_mem_block he)

/-- The words of a slab's objects are in its pages. -/
theorem object_mem (h : SlabInv sz M hp live free slabs) (he : e ∈ slabs) {a : ℕ}
    (ha : a ∈ objects (sz e.2) e.1) :
    physVirtOffset ≤ a ∧ kernelPa a / pageSize ∈ (slabBlock (sz e.2) e.1).cells :=
  object_mem_slabBlock (h.size_ok e he).pos (h.head_lt he) (h.aligned e he) ha

theorem object_lt (h : SlabInv sz M hp live free slabs) (he : e ∈ slabs) {a : ℕ}
    (ha : a ∈ objects (sz e.2) e.1) : a < 2 ^ 64 := by
  obtain ⟨hle, hmem⟩ := h.object_mem he ha
  have hlt := h.owns.addressable.lt (h.block_subset he hmem)
  rw [kernelPa_of_le hle] at hlt
  simp only [physVirtOffset, pageSize] at hle hlt
  omega

theorem ptr_mem_objects (h : SlabInv sz M hp live free slabs) {o : LiveObj} (ho : o ∈ live) :
    o.ptr ∈ objects (sz o.cache) o.slab := by
  obtain ⟨s, l, hok⟩ := h.ok _ (h.live_slab o ho)
  exact hok.subset_objects (h.size_ok _ (h.live_slab o ho)).pos
    (List.mem_append_right _ (mem_liveOf ho))

/-- Writes outside a slab's pages do not change its free list. -/
theorem nextFree_congr (h : SlabInv sz M hp live free slabs) (he : e ∈ slabs)
    (hok : SlabOk sz hp live e s l) {P : Set ℕ} {m : Mem} (hm : SameOutside P hp.buddy.mem m)
    (hP : Disjoint (slabBlock (sz e.2) e.1).cells P) :
    ∀ a ∈ l, nextFree m a = nextFree hp.buddy.mem a := by
  intro a ha
  have hobj := hok.subset_objects (h.size_ok e he).pos (List.mem_append_left _ ha)
  rw [nextFree, nextFree, Mem.load, Mem.load,
    hm _ (Set.disjoint_left.mp hP (h.object_mem he hobj).2)]

/-! ## Taking an object and putting it back -/

/-- A change inside one slab leaves the others as they were. -/
theorem update (h : SlabInv sz M hp live free slabs) (he : e ∈ slabs) {m : Mem} (s' : Slub)
    (l' : List ℕ)
    (hm : SameOutside (slabBlock (sz e.2) e.1).cells hp.buddy.mem m)
    (hok : SlabOk sz { hp with buddy := { hp.buddy with mem := m },
                               memMap := hp.memMap.setSlub e.1 s' } live' e s' l')
    (hlive : ∀ p ≠ e.1, (liveOf live' p).Perm (liveOf live p))
    (hslab : ∀ o ∈ live', (o.slab, o.cache) ∈ slabs) :
    SlabInv sz M { hp with buddy := { hp.buddy with mem := m },
                           memMap := hp.memMap.setSlub e.1 s' } live' free slabs where
  owns := by
    refine h.owns.congr_mem (hm.mono fun p hp => ?_)
    exact fun hF => hF.2 (block_subset_used he hp)
  in_range := h.in_range
  size_eq := h.size_eq
  size_ok := h.size_ok
  aligned := h.aligned
  ok e' he' := by
    by_cases hee : e = e'
    · exact hee ▸ ⟨s', l', hok⟩
    · obtain ⟨t, k, hok'⟩ := h.ok e' he'
      have hne : e'.1 ≠ e.1 := fun heq => hee (h.eq_of_head_eq he he' heq)
      refine ⟨t, k, hok'.congr ?_ rfl rfl rfl (hlive _ hne) ?_⟩
      · exact (MemMap.slubAt_setSlub_of_ne (h.head_in_range he) (h.head_in_range he') hne s').trans
          hok'.slub
      · exact h.nextFree_congr he' hok' hm (h.disjoint he' he fun heq => hee heq.symm)
  live_slab := hslab

end SlabInv

/-- A slab has fewer objects than `inuse` can count: its block is less than twice the pages that it
was rounded up from. -/
theorem slabCapacity_lt {size : ℕ} (hpos : 0 < size) : slabCapacity size < 2 ^ 16 := by
  rw [slabCapacity]
  split
  case isTrue hlt =>
    refine (Nat.div_le_self _ _).trans_lt ?_
    simp only [pageSize] at hlt ⊢
    omega
  case isFalse hge =>
    have hpages : 2 ^ slabOrder size ≤ 2 * ((size + pageSize - 1) / pageSize) := by
      rw [slabOrder]
      by_cases hone : 1 < (size + pageSize - 1) / pageSize
      · have hlt := Nat.pow_pred_clog_lt_self (b := 2) (by decide) hone
        have hclog := Nat.clog_pos (b := 2) (by decide) hone
        rw [← Nat.succ_pred_eq_of_pos hclog, pow_succ']
        omega
      · rw [Nat.clog_of_right_le_one (by omega)]
        simp only [pageSize] at hge ⊢
        omega
    have hbytes : 2 ^ slabOrder size * pageSize ≤ 4 * size := by
      simp only [pageSize] at hpages hge ⊢
      omega
    have hcap : 2 ^ slabOrder size * pageSize / size ≤ 4 :=
      Nat.div_le_of_le_mul (hbytes.trans_eq (mul_comm _ _))
    omega

theorem SlabOk.length_eq (h : SlabOk sz hp live e s l) :
    l.length + s.inuse = (freshObjects (sz e.2) e.1).length := by
  have := h.perm.length_eq
  rwa [List.length_append, ← h.inuse] at this

/-- A slab with an object that is not live has a free list. -/
theorem SlabOk.freelist_ne_zero (h : SlabOk sz hp live e s l)
    (hlt : s.inuse < (freshObjects (sz e.2) e.1).length) : s.freelist ≠ 0 := by
  intro hzero
  have hchain := h.chain
  rw [hzero] at hchain
  have hnil : l = [] := hchain.unique (chain_nil.mpr rfl)
  have hlen := h.length_eq
  rw [hnil, List.length_nil] at hlen
  omega

theorem SlabOk.nodup (h : SlabOk sz hp live e s l) (hpos : 0 < sz e.2) :
    (l ++ liveOf live e.1).Nodup :=
  h.perm.nodup_iff.mpr ((freshObjects_sublist hpos e.1).nodup (nodup_strided hpos _ _))

/-- The free list of a slab is empty exactly when its head pointer is null. -/
theorem SlabOk.cons_of_ne (h : SlabOk sz hp live e s l) (hne : s.freelist ≠ 0) :
    ∃ l', l = s.freelist :: l' ∧
      Chain (nextFree hp.buddy.mem) (nextFree hp.buddy.mem s.freelist) l' := by
  have hchain := h.chain
  rw [NonNull.new_of_pos (Nat.pos_of_ne_zero hne)] at hchain
  cases l with
  | nil => cases hchain
  | cons a l =>
    obtain ⟨ha, hrest⟩ := hchain
    cases ha
    exact ⟨l, rfl, hrest⟩

namespace SlabInv

variable {c p : ℕ} {o : LiveObj}

/-- **Taking an object**: the first of a slab's free list becomes live. -/
theorem take (h : SlabInv sz M hp live free slabs) (he : (p, c) ∈ slabs)
    (hok : SlabOk sz hp live (p, c) s l) (hne : s.freelist ≠ 0) :
    SlabInv sz M
      (hp.setSlub p { s with freelist := hp.buddy.mem.load s.freelist,
                             inuse := (s.inuse + 1) % 2 ^ 16 })
      (⟨c, s.freelist, p⟩ :: live) free slabs := by
  obtain ⟨l', rfl, hrest⟩ := hok.cons_of_ne hne
  have hlen := hok.length_eq
  have hle := length_freshObjects_le (h.size_ok _ he).pos p
  have hcap := slabCapacity_lt (h.size_ok _ he).pos
  rw [List.length_cons] at hlen
  dsimp only at hlen hle hcap
  refine h.update (m := hp.buddy.mem) he _ l' (SameOutside.refl _ _) ⟨?_, hok.cache, ?_, hrest,
    ?_⟩ (fun q hq => ?_) ?_
  · exact MemMap.slubAt_setSlub_self _
  · have hmod : (s.inuse + 1) % 2 ^ 16 = s.inuse + 1 := Nat.mod_eq_of_lt (by omega)
    show (s.inuse + 1) % 2 ^ 16 = _
    rw [hmod, liveOf_cons_self ⟨c, s.freelist, p⟩, List.length_cons, hok.inuse]
  · rw [liveOf_cons_self ⟨c, s.freelist, p⟩]
    exact List.perm_middle.trans hok.perm
  · rw [liveOf_cons_of_ne (o := ⟨c, s.freelist, p⟩) (Ne.symm hq)]
  · exact List.forall_mem_cons.mpr ⟨he, h.live_slab⟩

theorem inuse_pos (ho : o ∈ live) (hok : SlabOk sz hp live (o.slab, o.cache) s l) :
    0 < s.inuse := by
  rw [hok.inuse]
  exact List.length_pos_of_mem (mem_liveOf ho)

theorem inuse_lt (h : SlabInv sz M hp live free slabs) (he : e ∈ slabs)
    (hok : SlabOk sz hp live e s l) : s.inuse < 2 ^ 16 := by
  have := slabCapacity_lt (h.size_ok e he).pos
  have := length_freshObjects_le (h.size_ok e he).pos e.1
  have := hok.length_eq
  omega

/-- The decrement of `inuse` does not wrap while an object of the slab is live. -/
theorem inuse_pred (h : SlabInv sz M hp live free slabs) (ho : o ∈ live)
    (hok : SlabOk sz hp live (o.slab, o.cache) s l) :
    (s.inuse + (2 ^ 16 - 1)) % 2 ^ 16 = s.inuse - 1 := by
  have := inuse_pos ho hok
  have := h.inuse_lt (h.live_slab o ho) hok
  omega

/-- **Putting an object back**: a live object becomes the first of its slab's free list. -/
theorem give (h : SlabInv sz M hp live free slabs) (ho : o ∈ live)
    (hok : SlabOk sz hp live (o.slab, o.cache) s l) :
    SlabInv sz M
      { hp with buddy := { hp.buddy with mem := hp.buddy.mem.store o.ptr s.freelist },
                memMap := hp.memMap.setSlub o.slab
                  { s with freelist := VirtAddr.ofUsize o.ptr,
                           inuse := (s.inuse + (2 ^ 16 - 1)) % 2 ^ 16 } }
      (live.erase o) free slabs := by
  have he := h.live_slab o ho
  have hobj := h.ptr_mem_objects ho
  obtain ⟨hle, hmem⟩ := h.object_mem he hobj
  have hperm : (liveOf live o.slab).Perm (o.ptr :: liveOf (live.erase o) o.slab) := by
    rw [← liveOf_cons_self]
    exact liveOf_perm (List.perm_cons_erase ho) _
  have hcanon : VirtAddr.ofUsize o.ptr = o.ptr := VirtAddr.ofUsize_of_le hle (h.object_lt he hobj)
  have hfree : ∀ a ∈ l, physVirtOffset ≤ a ∧ a ≠ o.ptr := by
    intro a ha
    have hobj := hok.subset_objects (h.size_ok _ he).pos (List.mem_append_left _ ha)
    refine ⟨(h.object_mem he hobj).1, ?_⟩
    rintro rfl
    exact (List.nodup_append.mp (hok.nodup (h.size_ok _ he).pos)).2.2 _ ha _ (mem_liveOf ho) rfl
  have hchain : Chain (nextFree (hp.buddy.mem.store o.ptr s.freelist))
      (NonNull.new (VirtAddr.ofUsize o.ptr)) (o.ptr :: l) := by
    have hpos : 0 < o.ptr := lt_of_lt_of_le (by decide) hle
    rw [hcanon, NonNull.new_of_pos hpos]
    refine hok.chain.push ?_ fun a ha => ?_
    · rw [nextFree, Mem.load_store_self]
    · obtain ⟨hale, hane⟩ := hfree a ha
      rw [nextFree, Mem.load_store_of_ne _ _ (kernelPa_ne hale hle hane), nextFree]
  refine h.update he _ (o.ptr :: l) (fun a ha => ?_) ⟨?_, hok.cache, ?_, ?_, ?_⟩
    (fun q hq => ?_) ?_
  · refine Function.update_of_ne ?_ _ _
    rintro rfl
    exact ha hmem
  · exact MemMap.slubAt_setSlub_self _
  · show (s.inuse + (2 ^ 16 - 1)) % 2 ^ 16 = _
    rw [h.inuse_pred ho hok, hok.inuse, hperm.length_eq, List.length_cons, Nat.add_sub_cancel]
  · dsimp only
    exact hchain
  · refine List.Perm.trans ?_ hok.perm
    exact List.perm_middle.symm.trans (hperm.symm.append_left l)
  · have := liveOf_perm (List.perm_cons_erase ho) q
    rw [liveOf_cons_of_ne (Ne.symm hq)] at this
    exact this.symm
  · exact fun o' ho' => h.live_slab o' (List.mem_of_mem_erase ho')

/-! ## Releasing a slab -/

/-- A table entry outside the slabs' heads is of no account, and so are the caches' pointers. -/
theorem congr_caches (h : SlabInv sz M hp live free slabs) {caches : ℕ → KmemCache}
    (hsize : ∀ c, (caches c).objectSize = (hp.caches c).objectSize) :
    SlabInv sz M { hp with caches } live free slabs where
  owns := h.owns
  in_range := h.in_range
  size_eq c := (hsize c).trans (h.size_eq c)
  size_ok := h.size_ok
  aligned := h.aligned
  ok e he := by
    obtain ⟨s, l, hok⟩ := h.ok e he
    exact ⟨s, l, hok.slub, hok.cache, hok.inuse, hok.chain, hok.perm⟩
  live_slab := h.live_slab

theorem mem_block_iff (h : SlabInv sz M hp live free slabs) (he : e ∈ slabs) {q : ℕ} :
    q ∈ (slabBlock (sz e.2) e.1).cells ↔ e.1 ≤ q ∧ q < e.1 + 2 ^ slabOrder (sz e.2) := by
  rw [Block.mem_cells, h.block_base he]
  rfl

/-- **Releasing a slab** without live objects: its entries become free and its block goes back to
the buddy allocator. -/
theorem releaseSlab (h : SlabInv sz M hp live free slabs) (he : (p, c) ∈ slabs)
    (hempty : liveOf live p = []) :
    ∃ hp' free', hp.releaseSlab c p = .ok hp' ∧
      SlabInv sz M hp' live free' (slabs.erase (p, c)) ∧ hp'.caches = hp.caches ∧
      hp'.memMap.slubAt p = none ∧
      ∀ q ∈ M, q ∉ (slabBlock (sz c) p).cells → hp'.memMap.slubAt q = hp.memMap.slubAt q := by
  have hsz := h.size_ok _ he
  have hblock := fun q => h.mem_block_iff he (q := q)
  have hin : ∀ q, p ≤ q → q < p + 2 ^ slabOrder (sz c) → hp.memMap.InRange q :=
    fun q h₁ h₂ => h.in_range q (h.block_subset he ((hblock q).mpr ⟨h₁, h₂⟩))
  obtain ⟨m', hm', hlen, hstart, hset, hkeep⟩ := MemMap.fill_spec ⟨0, .free⟩ _ hin
  have hperm := (List.perm_cons_erase he).map fun e : ℕ × ℕ => slabBlock (sz e.2) e.1
  have hclog : (slabBlock (sz c) p).order = Nat.clog 2 (2 ^ slabOrder (sz c)) :=
    (Nat.clog_pow 2 _ (by decide)).symm
  obtain ⟨b', free', hb', howns, -, hmem⟩ := h.owns.dealloc hperm (Nat.two_pow_pos _)
    hsz.two_pow_slabOrder_lt hclog
  have hsame : ∀ q ∈ M, q ∉ (slabBlock (sz c) p).cells → m'.page q = hp.memMap.page q := by
    intro q hq hout
    refine hkeep q (h.in_range q hq) ?_
    rw [hblock] at hout
    dsimp only at hout
    omega
  refine ⟨{ hp with memMap := m', buddy := b' }, free', ?_, ⟨howns, ?_, h.size_eq, ?_, ?_, ?_, ?_⟩,
    rfl, ?_, ?_⟩
  · have hbase : (slabBlock (sz c) p).base = p := h.block_base he
    dsimp only at hb'
    rw [hbase] at hb'
    rw [Heap.releaseSlab, h.size_eq, max_eq_left hsz.requiredPages_pos,
      hsz.nextPowerOfTwo_requiredPages, hm', Heap.nonZeroPages,
      if_neg (Nat.two_pow_pos _).ne']
    show (hp.buddy.dealloc p _ >>= fun buddy => _) = _
    rw [hb']
    rfl
  · intro q hq
    have := h.in_range q hq
    rw [MemMap.InRange] at this ⊢
    rwa [hlen, hstart]
  · exact fun e' he' => h.size_ok e' (List.mem_of_mem_erase he')
  · exact fun e' he' => h.aligned e' (List.mem_of_mem_erase he')
  · intro e' he'
    obtain ⟨hne, he''⟩ := (h.nodup.mem_erase_iff).mp he'
    obtain ⟨s, l, hok⟩ := h.ok e' he''
    refine ⟨s, l, hok.congr ?_ rfl rfl rfl (List.Perm.refl _) ?_⟩
    · rw [MemMap.slubAt, hsame _ (h.head_mem he'') fun hq => hne ?_]
      · exact hok.slub
      · exact (h.eq_of_head_mem he he'' hq).symm
    · refine h.nextFree_congr he'' hok hmem ?_
      rw [Set.disjoint_left]
      intro q hq hF
      exact hF.2 (block_subset_used he' hq)
  · intro o ho
    refine (List.mem_erase_of_ne fun heq => ?_).mpr (h.live_slab o ho)
    obtain ⟨hslab, -⟩ := Prod.mk.inj heq
    have := mem_liveOf ho
    rw [hslab, hempty] at this
    cases this
  · rw [MemMap.slubAt, hset p le_rfl (Nat.lt_add_of_pos_right (Nat.two_pow_pos _))]
    rfl
  · intro q hq hout
    rw [MemMap.slubAt, MemMap.slubAt, hsame q hq hout]

end SlabInv

/-! ## A new slab -/

theorem slabCapacity_mul_le {size : ℕ} (hpos : 0 < size) :
    slabCapacity size * size ≤ 2 ^ slabOrder size * pageSize + size := by
  rw [slabCapacity]
  split
  case isTrue hlt =>
    rw [slabOrder_of_lt hpos hlt, pow_zero, one_mul]
    exact (Nat.div_mul_le_self _ _).trans (Nat.sub_le _ _)
  case isFalse =>
    exact (Nat.div_mul_le_self _ _).trans (Nat.le_add_right _ _)

section NewSlab

variable {size c : ℕ} {r : Block}

/-- The end of a new slab and one more object are below the end of the address space. -/
theorem slab_end_lt (hsz : SizeOk M size) (hr : r.order = slabOrder size) (hk : r.order < maxOrder)
    (hsub : r.cells ⊆ M) (haddr : Addressable M) (hwrap : pageSize ≤ size ∨ r.base ≠ topPage) :
    r.base * pageSize + physVirtOffset + 2 ^ slabOrder size * pageSize + size < 2 ^ 64 := by
  by_cases hlt : size < pageSize
  · have hne := hwrap.resolve_left hlt.not_ge
    have hbase := haddr.lt (hsub r.base_mem_cells)
    rw [slabOrder_of_lt hsz.pos hlt]
    simp only [pageSize, physVirtOffset, topPage] at hlt hne ⊢
    omega
  have hpow := Nat.two_pow_pos (slabOrder size)
  have hlast : r.base + 2 ^ slabOrder size - 1 ∈ r.cells := by
    rw [Block.mem_cells, hr]
    omega
  have hroom := hsz.room (Nat.le_of_not_lt hlt) (hsz.le_of_slabOrder_lt (hr ▸ hk)) _ (hsub hlast)
  have hend : r.base + 2 ^ slabOrder size - 1 + 1 = r.base + 2 ^ slabOrder size := by omega
  rw [hend, add_mul] at hroom
  omega

/-- **Carving a slab** threads its free list through its objects, in its own pages. -/
theorem carve_slab (hpos : 0 < size) (hr : r.order = slabOrder size) (hbase : r.base < 2 ^ 20)
    (hend : r.base * pageSize + physVirtOffset + 2 ^ slabOrder size * pageSize + size < 2 ^ 64)
    {g : ℕ → Bool}
    (hmore : ∀ i ≤ slabCapacity size,
      g (physToVirt (r.base * pageSize) + i * size) = decide (i < slabCapacity size))
    (m : Mem) :
    ∃ m', Heap.carveLoop g size walkLimit (physToVirt (r.base * pageSize)) m = .ok m' ∧
      Chain (nextFree m') (NonNull.new (VirtAddr.ofUsize (physToVirt (r.base * pageSize))))
        (objects size r.base) ∧
      SameOutside r.cells m m' := by
  have hcap := slabCapacity_mul_le hpos
  have hva : physToVirt (r.base * pageSize) = r.base * pageSize + physVirtOffset :=
    physToVirt_eq (mul_pageSize_lt hbase)
  have hle : physVirtOffset ≤ physToVirt (r.base * pageSize) := hva ▸ Nat.le_add_left _ _
  have hlt : physToVirt (r.base * pageSize) + slabCapacity size * size < 2 ^ 64 := by
    rw [hva]
    refine (Nat.add_le_add_left hcap _).trans_lt ?_
    rwa [← add_assoc]
  have hdvd : 2 ^ slabOrder size ∣ r.base := hr ▸ r.aligned
  have hblock : slabBlock size r.base = r := Block.ext (Block.containing_base hdvd) hr.symm
  obtain ⟨m', hm', hchain, hframe⟩ := carveLoop_spec hpos (slabCapacity size) (m := m)
    (lt_walkLimit ((slabCapacity_lt hpos).le.trans (by decide))) hle hlt hmore
  refine ⟨m', hm', ?_, fun a ha => hframe a fun o ho hoa => ha ?_⟩
  · obtain ⟨l, hl⟩ := exists_objects_eq_cons hpos r.base
    have hhead : (objects size r.base).head? = some (physToVirt (r.base * pageSize)) := by
      rw [hl]
      rfl
    rw [VirtAddr.ofUsize_of_le hle ((Nat.le_add_right _ _).trans_lt hlt),
      NonNull.new_of_pos (lt_of_lt_of_le (by decide) hle), ← hhead]
    exact hchain
  · rw [← hblock, ← hoa]
    exact (object_mem_slabBlock hpos hbase hdvd ho).2

/-- The loop for objects smaller than a page. Where the end of the page wraps it does nothing, and
the free list is the one object whose word the buddy allocator cleared. -/
theorem carve_small (hsz : SizeOk M size) (hsmall : size < pageSize) (hr : r.order = slabOrder size)
    (hk : r.order < maxOrder) (hsub : r.cells ⊆ M) (haddr : Addressable M) {m : Mem}
    (hfirst : m (r.base * pageSize) = 0) :
    ∃ m', Heap.carveLoop
        (fun va => decide (va < (physToVirt (r.base * pageSize) + pageSize) % 2 ^ 64))
        size walkLimit
        (physToVirt (r.base * pageSize)) m = .ok m' ∧
      Chain (nextFree m') (NonNull.new (VirtAddr.ofUsize (physToVirt (r.base * pageSize))))
        (freshObjects size r.base) ∧
      SameOutside r.cells m m' := by
  have hbase := haddr.lt (hsub r.base_mem_cells)
  have hva : physToVirt (r.base * pageSize) = r.base * pageSize + physVirtOffset :=
    physToVirt_eq (mul_pageSize_lt hbase)
  by_cases htop : r.base = topPage
  · have hle : physVirtOffset ≤ physToVirt (r.base * pageSize) := hva ▸ Nat.le_add_left _ _
    have hlt : physToVirt (r.base * pageSize) < 2 ^ 64 := Nat.mod_lt _ (by decide)
    have hend : (physToVirt (r.base * pageSize) + pageSize) % 2 ^ 64 = 0 := by
      rw [hva, htop]
      decide
    obtain ⟨m', hm', -, hframe⟩ := carveLoop_spec (g := fun va =>
        decide (va < (physToVirt (r.base * pageSize) + pageSize) % 2 ^ 64)) hsz.pos 0 (m := m)
      (lt_walkLimit (Nat.zero_le _)) hle (by rwa [Nat.zero_mul, Nat.add_zero]) fun i _ => by
        rw [hend, decide_eq_decide]
        exact iff_of_false (Nat.not_lt_zero _) (Nat.not_lt_zero _)
    have hsame : ∀ a, m' a = m a := fun a => hframe a fun o ho => absurd ho List.not_mem_nil
    refine ⟨m', hm', ?_, fun a _ => hsame a⟩
    have hword : nextFree m' (physToVirt (r.base * pageSize)) = none := by
      rw [nextFree, Mem.load_physToVirt _ (mul_pageSize_lt hbase), hsame, hfirst]
      rfl
    rw [VirtAddr.ofUsize_of_le hle hlt, NonNull.new_of_pos (lt_of_lt_of_le (by decide) hle),
      freshObjects, if_pos ⟨hsmall, htop⟩]
    exact ⟨rfl, hword⟩
  · have hend := slab_end_lt hsz hr hk hsub haddr (Or.inr htop)
    rw [slabOrder_of_lt hsz.pos hsmall, pow_zero, one_mul] at hend
    have hwrap : (physToVirt (r.base * pageSize) + pageSize) % 2 ^ 64 =
        physToVirt (r.base * pageSize) + pageSize := by
      rw [hva]
      exact Nat.mod_eq_of_lt ((Nat.le_add_right _ _).trans_lt hend)
    rw [hwrap, freshObjects_of_ne (Or.inr htop)]
    refine carve_slab hsz.pos hr hbase ?_ (fun i _ => ?_) m
    · rwa [slabOrder_of_lt hsz.pos hsmall, pow_zero, one_mul]
    · rw [decide_eq_decide, lt_slabCapacity_small hsz.pos hsmall]
      omega

end NewSlab

namespace SlabInv

variable {c p : ℕ} {r : Block}

/-- What a successful `alloc_new_slab` leaves behind: the slab is in order, it is at the head of
the cache's list, and no other entry of the table changed. -/
structure NewSlab (sz : ℕ → ℕ) (M : Set ℕ) (hp : Heap) (live : List LiveObj)
    (slabs : List (ℕ × ℕ)) (c p : ℕ) (hp' : Heap) : Prop where
  inv : ∃ free', SlabInv sz M hp' live free' ((p, c) :: slabs)
  caches : hp'.caches = (hp.setPartial c (some p)).caches
  slub : hp'.memMap.slubAt p = some (hp.newSlub c (physToVirt (p * pageSize)))
  keep : ∀ q ∈ M, q ∉ (slabBlock (sz c) p).cells → hp'.memMap.slubAt q = hp.memMap.slubAt q

/-- A freshly carved block becomes a slab with no live object. Neither the buddy allocator nor the
carving writes to another slab. -/
theorem addSlab (h : SlabInv sz M hp live free slabs) (hsz : SizeOk M (sz c))
    {b : BuddySystemFrameAllocator}
    (howns : Owns b free' M (r :: slabs.map fun e => slabBlock (sz e.2) e.1))
    (hr : r.order = slabOrder (sz c))
    (hb : SameOutside (M \ used (slabs.map fun e => slabBlock (sz e.2) e.1)) hp.buddy.mem b.mem)
    {m : Mem} (hm : SameOutside r.cells b.mem m)
    (hchain : Chain (nextFree m)
      (NonNull.new (hp.newSlub c (physToVirt (r.base * pageSize))).freelist)
      (freshObjects (sz c) r.base))
    {t : MemMap} (hrange : ∀ q ∈ M, t.InRange q)
    (hslub : t.slubAt r.base = some (hp.newSlub c (physToVirt (r.base * pageSize))))
    (hkeep : ∀ q ∈ M, q ∉ r.cells → t.slubAt q = hp.memMap.slubAt q) :
    NewSlab sz M hp live slabs c r.base
      ⟨{ b with mem := m }, t, (hp.setPartial c (some r.base)).caches⟩ := by
  have hdvd : 2 ^ slabOrder (sz c) ∣ r.base := hr ▸ r.aligned
  have hblock : slabBlock (sz c) r.base = r := Block.ext (Block.containing_base hdvd) hr.symm
  have hdis : ∀ e ∈ slabs, Disjoint (slabBlock (sz e.2) e.1).cells r.cells := fun e he =>
    ((List.pairwise_cons.mp howns.disjoint).1 _ (List.mem_map.mpr ⟨e, he, rfl⟩)).symm
  have hnone : liveOf live r.base = [] := by
    refine List.map_eq_nil_iff.mpr (List.filter_eq_nil_iff.mpr fun o ho hslab => ?_)
    have he := h.live_slab o ho
    have hbase : o.slab = r.base := by simpa using hslab
    refine Set.disjoint_left.mp (hdis _ he) (h.head_mem_block he) ?_
    rw [hbase]
    exact r.base_mem_cells
  refine ⟨⟨free', ?_, hrange, ?_, ?_, ?_, ?_, ?_⟩, rfl, hslub, by rwa [hblock]⟩
  · rw [List.map_cons, hblock]
    refine howns.congr_mem (hm.mono fun q hq hF => hF.2 ?_)
    rw [used_cons]
    exact Or.inl hq
  · exact fun d => (hp.objectSize_setPartial c d _).trans (h.size_eq d)
  · exact List.forall_mem_cons.mpr ⟨hsz, h.size_ok⟩
  · exact List.forall_mem_cons.mpr ⟨hdvd, h.aligned⟩
  · refine List.forall_mem_cons.mpr ⟨⟨_, _, hslub, rfl, ?_, hchain, ?_⟩, fun e he => ?_⟩
    · rw [hnone]
      rfl
    · rw [hnone, List.append_nil]
    · obtain ⟨s, l, hok⟩ := h.ok e he
      refine ⟨s, l, hok.congr ?_ rfl rfl rfl (List.Perm.refl _) fun a ha => ?_⟩
      · have hout := Set.disjoint_left.mp (hdis e he) (h.head_mem_block he)
        exact (hkeep _ (h.head_mem he) hout).trans hok.slub
      · have hfree : Disjoint (slabBlock (sz e.2) e.1).cells
            (M \ used (slabs.map fun e => slabBlock (sz e.2) e.1)) := by
          rw [Set.disjoint_left]
          exact fun q hq hF => hF.2 (block_subset_used he hq)
        have hobj := hok.subset_objects (h.size_ok e he).pos (List.mem_append_left _ ha)
        have hout := Set.disjoint_left.mp (hdis e he) (h.object_mem he hobj).2
        rw [← h.nextFree_congr he hok hb hfree a ha, nextFree, nextFree, Mem.load, Mem.load]
        exact congrArg NonNull.new (hm _ hout)
  · exact fun o ho => List.mem_cons_of_mem _ (h.live_slab o ho)

/-- The entry of a new slab's head is in the table, and the entries of other slabs stay. -/
theorem slubAt_set (h : SlabInv sz M hp live free slabs) (hsub : r.cells ⊆ M) (s : Slub) :
    let t := hp.memMap.set r.base ⟨1, .slab (.slub s)⟩
    t.slubAt r.base = some s ∧ ∀ q ∈ M, q ∉ r.cells → t.slubAt q = hp.memMap.slubAt q := by
  refine ⟨?_, fun q hq hout => ?_⟩
  · rw [MemMap.slubAt, MemMap.page_set_self]
    rfl
  · have hne : q ≠ r.base := by
      rintro rfl
      exact hout r.base_mem_cells
    rw [MemMap.slubAt, MemMap.page_set_of_ne (h.in_range _ (hsub r.base_mem_cells))
      (h.in_range q hq) hne, MemMap.slubAt]

/-- `alloc_new_slab` for sizes below a page. -/
theorem allocNewSlab_small (h : SlabInv sz M hp live free slabs) (hsz : SizeOk M (sz c))
    (hlt : sz c < pageSize) :
    (∃ p hp', hp.allocNewSlab c = .ok (some p, hp') ∧ NewSlab sz M hp live slabs c p hp' ∧
      ∃ b, hp.buddy.alloc (2 ^ slabOrder (sz c)) = .ok (some p, b)) ∨
    (hp.allocNewSlab c = .ok (none, hp) ∧
      hp.buddy.alloc (2 ^ slabOrder (sz c)) = .ok (none, hp.buddy)) := by
  have hzero := slabOrder_of_lt hsz.pos hlt
  have hone : 2 ^ slabOrder (sz c) = 1 := by rw [hzero, pow_zero]
  rw [hone]
  rcases h.owns.alloc Nat.one_pos (by decide) with ⟨b, free', r, hs', hr, howns, -, hmem⟩ | hnone
  · left
    rw [Nat.clog_one_right, ← hzero] at hr
    have hk : r.order < maxOrder := howns.order_lt r List.mem_cons_self
    have hsub : r.cells ⊆ M := howns.subset r List.mem_cons_self
    have hbase := howns.addressable.lt (hsub r.base_mem_cells)
    obtain ⟨m, hm, hchain, hout⟩ := carve_small (r := r) hsz hlt hr hk hsub howns.addressable
      (h.owns.inv.alloc_first_word hs')
    rw [← hp.newSlub_freelist c] at hchain
    obtain ⟨hslub, hkeep⟩ := h.slubAt_set hsub (hp.newSlub c (physToVirt (r.base * pageSize)))
    refine ⟨r.base, _, ?_, h.addSlab hsz howns hr hmem hout hchain
      (t := hp.memMap.set r.base ⟨1, .slab (.slub _)⟩) h.in_range hslub hkeep, b, hs'⟩
    have hofppn : PhysAddr.ofPpn r.base = r.base * pageSize := PhysAddr.ofPpn_eq (by omega)
    rw [Heap.allocNewSlab, h.size_eq, if_pos hlt, hs', ok_bind]
    dsimp only
    rw [hofppn, hm, ok_bind]
    dsimp only [Heap.setPartial]
    rw [(h.in_range _ (hsub r.base_mem_cells)).getPageState_eq, ok_bind]
    rfl
  · refine Or.inr ⟨?_, hnone⟩
    rw [Heap.allocNewSlab, h.size_eq, if_pos hlt, hnone, ok_bind]

/-- `alloc_new_slab` for sizes from a page on, given a block whose end and one more object behind it
are below the end of the address space. -/
theorem allocNewSlab_large_run {N : Set ℕ} (h : SlabInv sz M hp live free slabs)
    (hsz : SizeOk N (sz c)) (hge : ¬ sz c < pageSize) {b : BuddySystemFrameAllocator}
    (halloc : hp.buddy.alloc (2 ^ slabOrder (sz c)) = .ok (some r.base, b))
    (hr : r.order = slabOrder (sz c)) (hsub : r.cells ⊆ M) (hbase : r.base < 2 ^ 20)
    (hend : r.base * pageSize + physVirtOffset + 2 ^ slabOrder (sz c) * pageSize + sz c < 2 ^ 64) :
    ∃ m t, hp.allocNewSlab c =
        .ok (some r.base, ⟨{ b with mem := m }, t, (hp.setPartial c (some r.base)).caches⟩) ∧
      Chain (nextFree m) (NonNull.new (hp.newSlub c (physToVirt (r.base * pageSize))).freelist)
        (objects (sz c) r.base) ∧
      SameOutside r.cells b.mem m ∧ (∀ q ∈ M, t.InRange q) ∧
      t.slubAt r.base = some (hp.newSlub c (physToVirt (r.base * pageSize))) ∧
      ∀ q ∈ M, q ∉ r.cells → t.slubAt q = hp.memMap.slubAt q := by
  have hnz : Heap.nonZeroPages (2 ^ slabOrder (sz c)) = .ok (2 ^ slabOrder (sz c)) :=
    if_neg (Nat.two_pow_pos _).ne'
  have hva : physToVirt (r.base * pageSize) = r.base * pageSize + physVirtOffset :=
    physToVirt_eq (mul_pageSize_lt hbase)
  have hend' := hend
  rw [← hva] at hend'
  have hwrap : (physToVirt (r.base * pageSize) + 2 ^ slabOrder (sz c) <<< pageSizeBits) % 2 ^ 64 =
      physToVirt (r.base * pageSize) + 2 ^ slabOrder (sz c) * pageSize := by
    rw [Nat.shiftLeft_eq, two_pow_pageSizeBits]
    exact Nat.mod_eq_of_lt ((Nat.le_add_right _ _).trans_lt hend')
  have hmore : ∀ i ≤ slabCapacity (sz c),
      decide ((physToVirt (r.base * pageSize) + i * sz c + sz c) % 2 ^ 64 ≤
        physToVirt (r.base * pageSize) + 2 ^ slabOrder (sz c) * pageSize) =
      decide (i < slabCapacity (sz c)) := by
    intro i hi
    have hbytes : i * sz c ≤ 2 ^ slabOrder (sz c) * pageSize := by
      rw [slabCapacity, if_neg hge] at hi
      exact (Nat.le_div_iff_mul_le hsz.pos).mp hi
    have hlt : physToVirt (r.base * pageSize) + i * sz c + sz c < 2 ^ 64 :=
      (Nat.add_le_add_right (Nat.add_le_add_left hbytes _) _).trans_lt hend'
    rw [decide_eq_decide, lt_slabCapacity_large hsz.pos hge, Nat.mod_eq_of_lt hlt, add_assoc,
      Nat.add_le_add_iff_left]
  obtain ⟨m, hm, hchain, hout⟩ := carve_slab (r := r) hsz.pos hr hbase hend
    (g := fun va => decide ((va + sz c) % 2 ^ 64 ≤
      physToVirt (r.base * pageSize) + 2 ^ slabOrder (sz c) * pageSize)) hmore b.mem
  rw [← hp.newSlub_freelist c] at hchain
  obtain ⟨hslub, hkeep⟩ := h.slubAt_set hsub (hp.newSlub c (physToVirt (r.base * pageSize)))
  have hpow := Nat.two_pow_pos (slabOrder (sz c))
  have hcells : ∀ q, q ∈ r.cells ↔ r.base ≤ q ∧ q < r.base + 2 ^ slabOrder (sz c) := by
    intro q
    rw [Block.mem_cells, hr]
  have hin : ∀ q, r.base + 1 ≤ q → q < r.base + 1 + (2 ^ slabOrder (sz c) - 1) →
      (hp.memMap.set r.base
        ⟨1, .slab (.slub (hp.newSlub c (physToVirt (r.base * pageSize))))⟩).InRange q := by
    intro q h₁ h₂
    exact h.in_range q (hsub ((hcells q).mpr (by omega)))
  obtain ⟨t, ht, hlen, hstart, -, htail⟩ := MemMap.fill_spec ⟨1, .slab (.slubTail r.base)⟩ _ hin
  have hbase_range := h.in_range _ (hsub r.base_mem_cells)
  refine ⟨m, t, ?_, hchain, hout, fun q hq => ?_, ?_, fun q hq hqr => ?_⟩
  · have hofppn : PhysAddr.ofPpn r.base = r.base * pageSize := PhysAddr.ofPpn_eq (by omega)
    rw [Heap.allocNewSlab, h.size_eq, if_neg hge, hsz.nextPowerOfTwo_requiredPages, hnz, ok_bind,
      halloc, ok_bind]
    dsimp only
    rw [hofppn, hwrap, hm, ok_bind]
    dsimp only [Heap.setPartial]
    rw [hbase_range.getPageState_eq, ok_bind]
    exact congrArg (· >>= _) ht
  · have := h.in_range q hq
    rw [MemMap.InRange] at this ⊢
    rwa [hlen, hstart]
  · rw [MemMap.slubAt, htail r.base hbase_range (Or.inl (by omega))]
    exact hslub
  · rw [MemMap.slubAt, htail q (h.in_range q hq) ?_]
    · exact hkeep q hq hqr
    · rw [hcells] at hqr
      omega

/-- `alloc_new_slab` for sizes from a page on without a free block. -/
theorem allocNewSlab_large_none {N : Set ℕ} (h : SlabInv sz M hp live free slabs)
    (hsz : SizeOk N (sz c)) (hge : ¬ sz c < pageSize)
    (hnone : hp.buddy.alloc (2 ^ slabOrder (sz c)) = .ok (none, hp.buddy)) :
    hp.allocNewSlab c = .ok (none, hp) := by
  have hnz : Heap.nonZeroPages (2 ^ slabOrder (sz c)) = .ok (2 ^ slabOrder (sz c)) :=
    if_neg (Nat.two_pow_pos _).ne'
  rw [Heap.allocNewSlab, h.size_eq, if_neg hge, hsz.nextPowerOfTwo_requiredPages, hnz, ok_bind,
    hnone, ok_bind]

/-- `alloc_new_slab` for sizes from a page on. -/
theorem allocNewSlab_large (h : SlabInv sz M hp live free slabs) (hsz : SizeOk M (sz c))
    (hge : ¬ sz c < pageSize) :
    (∃ p hp', hp.allocNewSlab c = .ok (some p, hp') ∧ NewSlab sz M hp live slabs c p hp' ∧
      ∃ b, hp.buddy.alloc (2 ^ slabOrder (sz c)) = .ok (some p, b)) ∨
    (hp.allocNewSlab c = .ok (none, hp) ∧
      hp.buddy.alloc (2 ^ slabOrder (sz c)) = .ok (none, hp.buddy)) := by
  rcases h.owns.alloc (Nat.two_pow_pos (slabOrder (sz c))) hsz.two_pow_slabOrder_lt with
    ⟨b, free', r, hs', hr, howns, -, hmem⟩ | hnone
  · rw [Nat.clog_pow 2 _ (by decide)] at hr
    have hk : r.order < maxOrder := howns.order_lt r List.mem_cons_self
    have hsub : r.cells ⊆ M := howns.subset r List.mem_cons_self
    have hlarge : pageSize ≤ sz c := Nat.le_of_not_lt hge
    have hend := slab_end_lt hsz hr hk hsub howns.addressable (Or.inl hlarge)
    obtain ⟨m, t, hrun, hchain, hout, hrange, hslub, hkeep⟩ :=
      h.allocNewSlab_large_run hsz hge hs' hr
      hsub (howns.addressable.lt (hsub r.base_mem_cells)) hend
    rw [← freshObjects_of_ne (Or.inl hlarge)] at hchain
    exact Or.inl ⟨r.base, _, hrun, h.addSlab hsz howns hr hmem hout hchain hrange hslub hkeep, b,
      hs'⟩
  · exact Or.inr ⟨h.allocNewSlab_large_none hsz hge hnone, hnone⟩

/-- **`alloc_new_slab`** adds a slab, or finds no free block and changes nothing. -/
theorem allocNewSlab (h : SlabInv sz M hp live free slabs) (hsz : SizeOk M (sz c)) :
    (∃ p hp', hp.allocNewSlab c = .ok (some p, hp') ∧ NewSlab sz M hp live slabs c p hp' ∧
      ∃ b, hp.buddy.alloc (2 ^ slabOrder (sz c)) = .ok (some p, b)) ∨
    (hp.allocNewSlab c = .ok (none, hp) ∧
      hp.buddy.alloc (2 ^ slabOrder (sz c)) = .ok (none, hp.buddy)) := by
  by_cases hlt : sz c < pageSize
  · exact h.allocNewSlab_small hsz hlt
  · exact h.allocNewSlab_large hsz hlt

end SlabInv

end CharlotteOs
