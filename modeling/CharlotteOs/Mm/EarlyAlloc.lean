import CharlotteOs.Mm.MemblockRuns
import CharlotteOs.Mm.RegionExact

/-!
# The early allocator is best fit from above

`early_alloc` tries the available regions from the last to the first and takes the highest aligned
block of the first one that has room. So it returns the highest aligned block of the available
bytes, if there is one. The room is tested with a subtraction that wraps: a region that ends below
the size that is asked for seems to have room up to the end of the address space. Regions above one
that really has room end above the size, so this does harm only if nothing fits.

## Main definitions

* `Memblock.fits`: the aligned bases of blocks that fit into a set of bytes
* `SlotBlock`, `SlotBlock.earlyAlloc`: `Memblock` with all slots of its arrays
* `SlotBlock.Exact`: the highest fitting block is returned, and nothing if there is none

## Main results

* `Memblock.isGreatest_of_find`: the block of a region with room is the highest that fits
* `SlotBlock.earlyAlloc_matches`: the allocator on slots is the one on lists
* `SlotBlock.earlyAlloc_exact_iff`: exactness fails only if nothing fits and a block that wraps
  around the end of the address space ends in an available region
-/

namespace CharlotteOs

open IntervalList FallibleRun

namespace Memblock

variable {reg : MemRegion} {regs : List MemRegion} {size k x : ℕ}

/-- The aligned bases of blocks that fit into a set of bytes. -/
def fits (B : Set ℕ) (size align : ℕ) : Set ℕ := {x | align ∣ x ∧ Set.Ico x (x + size) ⊆ B}

/-- Where a block has to end for `early_alloc` to find it in a region: by the end of the region, or
by that of its next copy if the subtraction wraps. -/
def bound (reg : MemRegion) (size : ℕ) : ℕ :=
  if reg.base + reg.size < size then 2 ^ 64 + (reg.base + reg.size) else reg.base + reg.size

theorem bound_of_le (h : size ≤ reg.base + reg.size) : bound reg size = reg.base + reg.size :=
  if_neg (Nat.not_lt.mpr h)

/-- **The base that is tried** is the highest aligned one that the bound allows. -/
theorem isGreatest_allocBase (hlt : reg.base + reg.size < 2 ^ 64) (hsize : size < 2 ^ 64)
    (hk : k < 64) :
    IsGreatest {x | 2 ^ k ∣ x ∧ x + size ≤ bound reg size} (allocBase reg size (2 ^ k)) := by
  have hpow : 2 ^ k < 2 ^ 64 := Nat.pow_lt_pow_right (by decide) hk
  have hpos := Nat.two_pow_pos k
  have hmask : (2 ^ k + (2 ^ 64 - 1)) % 2 ^ 64 = 2 ^ k - 1 := by omega
  have hword : (reg.base + reg.size + (2 ^ 64 - size)) % 2 ^ 64 + size = bound reg size := by
    rw [bound]
    split <;> omega
  rw [allocBase, hmask, Usize.and_notWord_two_pow (Nat.mod_lt _ (by decide)) hk.le,
    MemRegion.end_eq hlt]
  constructor
  · refine ⟨dvd_mul_left _ _, ?_⟩
    have := Nat.div_mul_le_self ((reg.base + reg.size + (2 ^ 64 - size)) % 2 ^ 64) (2 ^ k)
    omega
  · rintro x ⟨⟨q, rfl⟩, hx⟩
    rw [Nat.mul_comm]
    refine Nat.mul_le_mul_right _ ((Nat.le_div_iff_mul_le hpos).mpr ?_)
    rw [Nat.mul_comm]
    omega

/-- What the test of a region says. -/
theorem le_allocBase_iff (hlt : reg.base + reg.size < 2 ^ 64) (hsize : size < 2 ^ 64)
    (hk : k < 64) :
    reg.base ≤ allocBase reg size (2 ^ k) ↔
      ∃ x, 2 ^ k ∣ x ∧ reg.base ≤ x ∧ x + size ≤ bound reg size := by
  obtain ⟨⟨hdvd, hend⟩, hgreatest⟩ := isGreatest_allocBase hlt hsize hk
  constructor
  · exact fun hle => ⟨_, hdvd, hle, hend⟩
  · rintro ⟨x, hx, hle, hxend⟩
    exact hle.trans (hgreatest ⟨hx, hxend⟩)

/-- The region that is found is the last one that passes the test. -/
theorem eq_or_lt_of_find {p : MemRegion → Bool} (hsep : Separated (regs.map MemRegion.interval))
    (hfind : regs.reverse.find? p = some reg) {r : MemRegion} (hr : r ∈ regs) (hp : p r) :
    r = reg ∨ r.base + r.size < reg.base := by
  obtain ⟨-, above, below, hsplit, habove⟩ := List.find?_eq_some_iff_append.mp hfind
  have hgap : regs.reverse.Pairwise fun r r' => r'.base + r'.size < r.base :=
    List.pairwise_reverse.mpr (List.pairwise_map.mp hsep.gap)
  rw [hsplit] at hgap
  have hmem := List.mem_reverse.mpr hr
  rw [hsplit, List.mem_append, List.mem_cons] at hmem
  rcases hmem with hmem | rfl | hmem
  · exact absurd hp (by simpa using habove r hmem)
  · exact .inl rfl
  · exact .inr ((List.pairwise_cons.mp (List.pairwise_append.mp hgap).2.1).1 r hmem)

section Regions

variable (hsep : Separated (regs.map MemRegion.interval))
  (hlt : ∀ reg ∈ regs, reg.base + reg.size < 2 ^ 64) (hpos : 0 < size) (hsize : size < 2 ^ 64)
  (hk : k < 64)
include hsep hpos

/-- A block that fits lies in one region. -/
theorem mem_fits_iff {align : ℕ} : x ∈ fits (cover (regs.map MemRegion.interval)) size align ↔
    align ∣ x ∧ ∃ reg ∈ regs, reg.base ≤ x ∧ x + size ≤ reg.base + reg.size := by
  refine and_congr_right fun _ => ⟨fun hsub => ?_, ?_⟩
  · obtain ⟨p, hp, hle, hend⟩ := hsep.exists_of_subset (Nat.lt_add_of_pos_right hpos) hsub
    obtain ⟨reg, hreg, rfl⟩ := List.mem_map.mp hp
    exact ⟨reg, hreg, hle, hend⟩
  · rintro ⟨reg, hreg, hle, hend⟩ y hy
    exact ⟨_, List.mem_map_of_mem hreg, hle.trans hy.1, hy.2.trans_le hend⟩

include hlt hsize hk

/-- The region of a block that fits passes the test. -/
theorem exists_of_mem_fits (hx : x ∈ fits (cover (regs.map MemRegion.interval)) size (2 ^ k)) :
    ∃ reg ∈ regs, reg.base ≤ allocBase reg size (2 ^ k) ∧ x ≤ allocBase reg size (2 ^ k) ∧
      x + size ≤ reg.base + reg.size := by
  obtain ⟨hdvd, reg, hreg, hle, hend⟩ := (mem_fits_iff hsep hpos).mp hx
  have hbound : x + size ≤ bound reg size := by rwa [bound_of_le (by omega)]
  have hx := (isGreatest_allocBase (hlt reg hreg) hsize hk).2 ⟨hdvd, hbound⟩
  exact ⟨reg, hreg, hle.trans hx, hx, hend⟩

/-- **The block of a region with room** is the highest that fits. -/
theorem isGreatest_of_find
    (hfind : regs.reverse.find? (fun reg => reg.base ≤ allocBase reg size (2 ^ k)) = some reg)
    (hroom : size ≤ reg.base + reg.size) :
    IsGreatest (fits (cover (regs.map MemRegion.interval)) size (2 ^ k))
      (allocBase reg size (2 ^ k)) := by
  have hreg := List.mem_reverse.mp (List.mem_of_find?_eq_some hfind)
  have hbase : reg.base ≤ allocBase reg size (2 ^ k) := by simpa using List.find?_some hfind
  constructor
  · obtain ⟨⟨hdvd, hend⟩, -⟩ := isGreatest_allocBase (hlt reg hreg) hsize hk
    rw [bound_of_le hroom] at hend
    exact (mem_fits_iff hsep hpos).mpr ⟨hdvd, reg, hreg, hbase, hend⟩
  · intro x hx
    obtain ⟨r, hr, htest, hle, hend⟩ := exists_of_mem_fits hsep hlt hpos hsize hk hx
    rcases eq_or_lt_of_find hsep hfind hr (decide_eq_true htest) with rfl | hbelow
    · exact hle
    · omega

/-- **If a block fits**, the region that is found has room: a region above one with room ends above
the size. -/
theorem find_of_fits (hx : x ∈ fits (cover (regs.map MemRegion.interval)) size (2 ^ k)) :
    ∃ reg, regs.reverse.find? (fun reg => reg.base ≤ allocBase reg size (2 ^ k)) = some reg ∧
      size ≤ reg.base + reg.size := by
  obtain ⟨r, hr, htest, -, hend⟩ := exists_of_mem_fits hsep hlt hpos hsize hk hx
  cases hfind : regs.reverse.find? (fun reg => reg.base ≤ allocBase reg size (2 ^ k)) with
  | none =>
    have := List.find?_eq_none.mp hfind r (List.mem_reverse.mpr hr)
    exact absurd (decide_eq_true htest) this
  | some reg =>
    refine ⟨reg, rfl, ?_⟩
    rcases eq_or_lt_of_find hsep hfind hr (decide_eq_true htest) with rfl | hbelow
    · omega
    · omega

/-- **If nothing fits**, a region is found exactly if a block that wraps around the end of the
address space ends in it. -/
theorem find_eq_none_iff (hempty : fits (cover (regs.map MemRegion.interval)) size (2 ^ k) = ∅) :
    regs.reverse.find? (fun reg => reg.base ≤ allocBase reg size (2 ^ k)) = none ↔
      ¬ ∃ reg ∈ regs, reg.base + reg.size < size ∧
        ∃ x, 2 ^ k ∣ x ∧ reg.base ≤ x ∧ x + size ≤ 2 ^ 64 + (reg.base + reg.size) := by
  rw [List.find?_eq_none, ← not_iff_not, not_not]
  push Not
  refine exists_congr fun reg => ?_
  rw [List.mem_reverse, decide_eq_true_iff]
  refine and_congr_right fun hreg => ?_
  rw [le_allocBase_iff (hlt reg hreg) hsize hk, bound]
  split
  case isTrue hlow => exact (and_iff_right hlow).symm
  case isFalse hroom =>
    refine iff_of_false ?_ fun h => hroom h.1
    rintro ⟨x, hdvd, hle, hend⟩
    have hx := (mem_fits_iff hsep hpos).mpr ⟨hdvd, reg, hreg, hle, hend⟩
    rw [hempty] at hx
    exact hx

end Regions

end Memblock

/-! ## The allocator on slots -/

/-- `Memblock` with all slots of its arrays. -/
structure SlotBlock where
  available : SlotArray
  reserved : SlotArray
  allocated : SlotArray
  deriving DecidableEq, Repr

namespace SlotBlock

/-- The loop of `early_alloc` over the regions below an index, from the last to the first. -/
def earlyAllocLoop (mb : SlotBlock) (size align : ℕ) : ℕ → Except Fault (Option ℕ × SlotBlock)
  | 0 => .ok (none, mb)
  | i + 1 => do
    let reg ← mb.available.get i
    let allocBase := Memblock.allocBase reg size align
    if reg.base ≤ allocBase then do
      let available ← mb.available.removeRegion allocBase size
      let allocated ← mb.allocated.addRegion allocBase size
      .ok (some allocBase, { mb with available, allocated })
    else mb.earlyAllocLoop size align i

/-- `early_alloc`. -/
def earlyAlloc (mb : SlotBlock) (size align : ℕ) : Except Fault (Option ℕ × SlotBlock) :=
  mb.earlyAllocLoop size align mb.available.count

variable {mb : SlotBlock} {size align k : ℕ}

/-- A block is taken. -/
def take (mb : SlotBlock) (base size : ℕ) : Except Fault (Option ℕ × SlotBlock) := do
  let available ← mb.available.removeRegion base size
  let allocated ← mb.allocated.addRegion base size
  .ok (some base, { mb with available, allocated })

/-- The loop takes a block from the last region below the index that passes the test. -/
theorem earlyAllocLoop_eq {front rest : List MemRegion}
    (h : mb.available.Used (front ++ rest)) :
    mb.earlyAllocLoop size align front.length =
      match front.reverse.find? fun reg => reg.base ≤ Memblock.allocBase reg size align with
      | none => .ok (none, mb)
      | some reg => mb.take (Memblock.allocBase reg size align) size := by
  induction front using List.reverseRecOn generalizing rest with
  | nil => rfl
  | append_singleton front reg ih =>
    rw [List.append_assoc, List.singleton_append] at h
    rw [List.length_append, List.length_singleton, earlyAllocLoop, h.get, ok_bind,
      List.reverse_append, List.reverse_singleton, List.singleton_append, List.find?_cons]
    by_cases hbase : reg.base ≤ Memblock.allocBase reg size align
    · rw [if_pos hbase, decide_eq_true hbase]
      rfl
    · rw [if_neg hbase, decide_eq_false hbase, ih h]

theorem earlyAlloc_eq (h : mb.available.count ≤ maxRegions) : mb.earlyAlloc size align =
    match mb.available.live.reverse.find?
        fun reg => reg.base ≤ Memblock.allocBase reg size align with
    | none => .ok (none, mb)
    | some reg => mb.take (Memblock.allocBase reg size align) size := by
  have hused := SlotArray.used_live h
  rw [earlyAlloc, hused.count_eq]
  exact earlyAllocLoop_eq
    (show mb.available.Used (mb.available.live ++ []) by rwa [List.append_nil])

/-- The available and the allocated regions are those of lists. -/
def Used (mb : SlotBlock) (lists : Memblock) : Prop :=
  mb.available.Used lists.available.regions ∧ mb.allocated.Used lists.allocated.regions

/-- **`early_alloc` on slots** does what it does on lists. -/
theorem earlyAlloc_matches {lists : Memblock} (h : mb.Used lists) (hpos : size ≠ 0) :
    match lists.earlyAlloc size align with
    | .error e => mb.earlyAlloc size align = .error e
    | .ok (r, lists') => ∃ mb', mb.earlyAlloc size align = .ok (r, mb') ∧ mb'.Used lists' := by
  rw [earlyAlloc_eq (h.1.count_eq ▸ h.1.length_le), h.1.live_eq, Memblock.earlyAlloc]
  cases hfind : lists.available.regions.reverse.find?
    fun reg => reg.base ≤ Memblock.allocBase reg size align with
  | none => exact ⟨mb, rfl, h⟩
  | some reg =>
    have hremove : SlotArray.MatchesArray _
        (lists.available.removeRegion (Memblock.allocBase reg size align) size) :=
      SlotArray.removeRegion_matches h.1 hpos
    have hadd : SlotArray.MatchesArray _
        (lists.allocated.addRegion (Memblock.allocBase reg size align) size) :=
      SlotArray.addRegion_matches h.2 hpos
    dsimp only
    rw [take]
    cases havail : lists.available.removeRegion (Memblock.allocBase reg size align) size with
    | error e =>
      rw [havail] at hremove
      rw [(hremove : _ = Except.error e)]
      rfl
    | ok available =>
      rw [havail] at hremove
      obtain ⟨a, ha, hused, -⟩ := hremove
      rw [ha, ok_bind, ok_bind]
      cases halloc : lists.allocated.addRegion (Memblock.allocBase reg size align) size with
      | error e =>
        rw [halloc] at hadd
        rw [(hadd : _ = Except.error e)]
        rfl
      | ok allocated =>
        rw [halloc] at hadd
        obtain ⟨a', ha', hused', -⟩ := hadd
        rw [ha', ok_bind]
        exact ⟨_, rfl, hused, hused'⟩

/-- **Exactness**: the highest fitting block is returned, and nothing if there is none. -/
def Exact (mb : SlotBlock) (size align : ℕ) : Prop :=
  ∃ r mb', mb.earlyAlloc size align = .ok (r, mb') ∧
    (∀ x, r = some x → IsGreatest (Memblock.fits mb.available.bytes size align) x) ∧
    (r = none ↔ Memblock.fits mb.available.bytes size align = ∅)

/-- With a slot to spare `add_region` returns, whatever the regions are. -/
theorem addRegion_of_room {a : SlotArray} (hroom : a.count < maxRegions) (base size : ℕ) :
    ∃ a', a.addRegion base size = .ok a' := by
  rcases Nat.eq_zero_or_pos size with rfl | hpos
  · exact ⟨a, if_pos rfl⟩
  have hused := SlotArray.used_live hroom.le
  have hmatch : SlotArray.MatchesArray _ (RegionArray.addRegion ⟨a.live, 0⟩ base size) :=
    SlotArray.addRegion_matches hused hpos.ne'
  rw [RegionArray.addRegion, if_neg hpos.ne'] at hmatch
  dsimp only at hmatch
  rw [if_neg (fun hfull => by rw [← hused.count_eq] at hfull; omega)] at hmatch
  obtain ⟨a', hrun, -⟩ := hmatch
  exact ⟨a', hrun⟩

/-- **A block is taken** without a panic if there is a slot to spare in both arrays. -/
theorem take_of_room (h : mb.available.Canonical) (havail : mb.available.count < maxRegions)
    (halloc : mb.allocated.count < maxRegions) {base : ℕ} (hlt : base + size < 2 ^ 64) :
    ∃ mb', mb.take base size = .ok (some base, mb') := by
  rw [take]
  cases hremove : mb.available.removeRegion base size with
  | error e =>
    obtain ⟨-, hfull, -⟩ := (SlotArray.step_exact h (.remove base size) hlt).1.mp ⟨e, hremove⟩
    exact absurd hfull havail.ne
  | ok available =>
    obtain ⟨allocated, hadd⟩ := addRegion_of_room halloc base size
    rw [ok_bind, hadd, ok_bind]
    exact ⟨_, rfl⟩

/-- **`early_alloc` is exact** but for one case: nothing fits, and a block that wraps around the end
of the address space ends in an available region. -/
theorem earlyAlloc_exact_iff (mb : SlotBlock) (h : mb.available.Canonical)
    (havail : mb.available.count < maxRegions) (halloc : mb.allocated.count < maxRegions)
    (size k : ℕ) (hpos : 1 ≤ size) (hsize : size < 2 ^ 64) (hk : k < 64) :
    mb.Exact size (2 ^ k) ↔ (Memblock.fits mb.available.bytes size (2 ^ k)).Nonempty ∨
      ¬ ∃ reg ∈ mb.available.live, reg.base + reg.size < size ∧
        ∃ x, 2 ^ k ∣ x ∧ reg.base ≤ x ∧ x + size ≤ 2 ^ 64 + (reg.base + reg.size) := by
  rw [Exact, earlyAlloc_eq havail.le]
  rcases Set.eq_empty_or_nonempty (Memblock.fits mb.available.bytes size (2 ^ k)) with hempty | hne
  · rw [← Memblock.find_eq_none_iff h.separated h.lt hpos hsize hk hempty, hempty,
      or_iff_right Set.not_nonempty_empty]
    cases hfind : mb.available.live.reverse.find?
      fun reg => reg.base ≤ Memblock.allocBase reg size (2 ^ k) with
    | none =>
      refine iff_of_true ⟨none, mb, rfl, ?_, iff_of_true rfl rfl⟩ rfl
      rintro x ⟨⟩
    | some reg =>
      refine iff_of_false ?_ (fun hnone => nomatch hnone)
      rintro ⟨r, mb', htake, -, hnone⟩
      rw [hnone.mpr rfl] at htake
      obtain ⟨available, -, htake⟩ := exists_of_bind_eq_ok htake
      obtain ⟨allocated, -, htake⟩ := exists_of_bind_eq_ok htake
      cases htake
  · refine iff_of_true ?_ (.inl hne)
    obtain ⟨x, hx⟩ := hne
    obtain ⟨reg, hfind, hroom⟩ := Memblock.find_of_fits h.separated h.lt hpos hsize hk hx
    have hgreatest := Memblock.isGreatest_of_find h.separated h.lt hpos hsize hk hfind hroom
    have hend : Memblock.allocBase reg size (2 ^ k) + size < 2 ^ 64 := by
      obtain ⟨-, r, hr, -, hend⟩ := (Memblock.mem_fits_iff h.separated hpos).mp hgreatest.1
      exact hend.trans_lt (h.lt r hr)
    obtain ⟨mb', htake⟩ := take_of_room h havail halloc hend
    rw [hfind]
    refine ⟨_, mb', htake, ?_, iff_of_false (fun hnone => nomatch hnone) ?_⟩
    · rintro y hy
      cases hy
      exact hgreatest
    · exact Set.Nonempty.ne_empty ⟨x, hx⟩

/-- A memory of which everything is available. -/
def ofMemory (base size : ℕ) : Except Fault SlotBlock := do
  let available ← SlotArray.new.addRegion base size
  .ok ⟨available, .new, .new⟩

theorem ofMemory_spec {base size : ℕ} (hlt : base + size < 2 ^ 64)
    (hmb : ofMemory base size = .ok mb) :
    mb.available.Canonical ∧ mb.available.bytes = Set.Ico base (base + size) ∧
      mb.allocated = .new := by
  obtain ⟨available, hadd, hmb⟩ := exists_of_bind_eq_ok hmb
  cases hmb
  obtain ⟨hcanon, hbytes, -⟩ := SlotArray.Represents.new.step (show (RegionOp.add base size).InRange
    from hlt) hadd
  exact ⟨hcanon, by rw [hbytes, RegionOp.denote, Set.empty_union], rfl⟩

/-- A page out of 64 KiB. -/
theorem earlyAlloc_exact_iff_page : ∃ mb, ofMemory 0x80000000 0x10000 = .ok mb ∧
    mb.Exact 0x1000 (2 ^ 12) := by
  obtain ⟨mb, hmb, hcount⟩ := exists_of_map_eq_ok (show (ofMemory 0x80000000 0x10000).map
    (fun mb => mb.available.count) = .ok 1 by decide +kernel)
  obtain ⟨hcanon, hbytes, halloc⟩ := ofMemory_spec (by decide) hmb
  refine ⟨mb, hmb, (earlyAlloc_exact_iff mb hcanon (hcount ▸ by decide) (halloc ▸ by decide)
    0x1000 12 (by decide) (by decide) (by decide)).mpr (.inl ⟨0x80000000, by decide, ?_⟩)⟩
  rw [hbytes]
  exact Set.Ico_subset_Ico_right (by decide)

/-- **A memory that ends below the size**: nothing fits, and the last page of the address space is
returned. -/
theorem earlyAlloc_wraps : ∃ mb mb', ofMemory 0 0x100 = .ok mb ∧
    mb.earlyAlloc 0x1000 (2 ^ 12) = .ok (some 0xFFFFFFFFFFFFF000, mb') ∧
    Memblock.fits mb.available.bytes 0x1000 (2 ^ 12) = ∅ ∧ ¬ mb.Exact 0x1000 (2 ^ 12) := by
  obtain ⟨⟨r, mb'⟩, hrun, hr⟩ := exists_of_map_eq_ok (show
    (ofMemory 0 0x100 >>= fun mb => mb.earlyAlloc 0x1000 (2 ^ 12)).map Prod.fst =
      .ok (some 0xFFFFFFFFFFFFF000) by decide +kernel)
  obtain ⟨mb, hmb, hrun⟩ := exists_of_bind_eq_ok hrun
  cases (hr : r = _)
  obtain ⟨-, hbytes, -⟩ := ofMemory_spec (by decide) hmb
  have hempty : Memblock.fits mb.available.bytes 0x1000 (2 ^ 12) = ∅ := by
    rw [hbytes]
    refine Set.eq_empty_of_forall_notMem fun x hx => ?_
    have hlast := (hx.2 ⟨Nat.le_add_right x 0xfff, by omega⟩).2
    omega
  refine ⟨mb, mb', hmb, hrun, hempty, ?_⟩
  rintro ⟨r, mb'', hrun', -, hnone⟩
  rw [hrun] at hrun'
  cases hrun'
  cases hnone.mpr hempty

end SlotBlock

end CharlotteOs
