import CharlotteOs.Mm.BuddyUse
import CharlotteOs.Mm.MemMap
import CharlotteOs.Mm.MemblockRuns

/-!
# The handover from the boot map to the page allocator

`init_buddy_system` in `src/mm/mod.rs`: after the boot code reserved and allocated what it needs,
`MEM_MAP` is filled in and the whole pages of each available region go to the buddy allocator.

The available regions are apart from each other, since they come from one region by removing
nonempty ranges. So a page that is available as a whole lies in one region, and no page is lost
between two of them.

## Main definitions

* `initBuddySystem`: `init_buddy_system`
* `BootSystem`, `BootSystem.step`: the boot map, with the ranges reserved and allocated so far
* `BootSystem.freeSet`: the pages that nobody has a byte of

## Main results

* `BootSystem.handover`: exactly these pages go to the buddy allocator and are marked free
-/

namespace CharlotteOs

open IntervalList FallibleRun DyadicTiling BuddySystemFrameAllocator

/-- The first whole page of a region: its base is rounded up. -/
def MemRegion.startPpn (r : MemRegion) : ℕ := PhysAddr.ceil (PhysAddr.ofUsize r.base)

/-- The page after the last whole page of a region: its end is rounded down. -/
def MemRegion.endPpn (r : MemRegion) : ℕ :=
  PhysAddr.floor (PhysAddr.ofUsize ((r.base + r.size) % 2 ^ 64))

/-- The body of the loop over the available regions: its whole pages are marked free and added to
the buddy allocator. The last component counts the pages. -/
def handRegion (memMap : MemMap) (buddy : BuddySystemFrameAllocator) (count : ℕ) (r : MemRegion) :
    Except Fault (MemMap × BuddySystemFrameAllocator × ℕ) := do
  let memMap ← memMap.fill ⟨0, .free⟩ (r.endPpn - r.startPpn) r.startPpn
  let buddy ← buddy.addFreeRegion r.startPpn r.endPpn
  .ok (memMap, buddy, count + (r.endPpn - r.startPpn))

/-- The loop over the available regions. -/
def handLoop (memMap : MemMap) (buddy : BuddySystemFrameAllocator) (count : ℕ) :
    List MemRegion → Except Fault (MemMap × BuddySystemFrameAllocator × ℕ)
  | [] => .ok (memMap, buddy, count)
  | r :: rest => do
    let (memMap, buddy, count) ← handRegion memMap buddy count r
    handLoop memMap buddy count rest

/-- `init_buddy_system`: `MEM_MAP`, the buddy allocator and the number of pages handed over. -/
def initBuddySystem (mb : Memblock) (ramStart ramEnd : ℕ) (buddy : BuddySystemFrameAllocator) :
    Except Fault (MemMap × BuddySystemFrameAllocator × ℕ) :=
  handLoop ⟨fun _ => ⟨1, .reserved⟩, ramEnd - ramStart, ramStart⟩ buddy 0 mb.available.regions

/-! ## Whole pages -/

/-- The pages all of whose bytes are in a set. -/
def wholePages (B : Set ℕ) : Set ℕ := {p | ∀ x ∈ Set.Ico (p * pageSize) ((p + 1) * pageSize), x ∈ B}

/-- The whole pages of a region. -/
def MemRegion.pages (r : MemRegion) : Set ℕ := Set.Ico r.startPpn r.endPpn

/-- Rounding the ends of a region inwards keeps its whole pages. -/
theorem MemRegion.mem_pages {r : MemRegion} (hlt : r.base + r.size < 2 ^ 56) {p : ℕ} :
    p ∈ r.pages ↔ r.base ≤ p * pageSize ∧ (p + 1) * pageSize ≤ r.base + r.size := by
  rw [MemRegion.pages, MemRegion.startPpn, MemRegion.endPpn, PhysAddr.ofUsize, PhysAddr.ofUsize,
    Nat.and_two_pow_sub_one_eq_mod, Nat.and_two_pow_sub_one_eq_mod, PhysAddr.floor_eq,
    PhysAddr.ceil, Nat.shiftRight_eq_div_pow, two_pow_pageSizeBits, Set.mem_Ico]
  simp only [pageSize]
  omega

/-- A page that is available as a whole is a whole page of one region. -/
theorem RegionArray.Canonical.wholePages_eq {a : RegionArray} (h : a.Canonical)
    (hlt : ∀ r ∈ a.regions, r.base + r.size < 2 ^ 56) :
    wholePages a.bytes = {p | ∃ r ∈ a.regions, p ∈ r.pages} := by
  ext p
  constructor
  · intro hp
    have hpage : p * pageSize < (p + 1) * pageSize :=
      Nat.mul_lt_mul_of_pos_right (Nat.lt_succ_self p) (by decide)
    obtain ⟨i, hi, hlow, hhigh⟩ := h.separated.exists_of_subset hpage hp
    obtain ⟨r, hr, rfl⟩ := List.mem_map.mp hi
    exact ⟨r, hr, (MemRegion.mem_pages (hlt r hr)).mpr ⟨hlow, hhigh⟩⟩
  · rintro ⟨r, hr, hp⟩ x hx
    obtain ⟨hlow, hhigh⟩ := (MemRegion.mem_pages (hlt r hr)).mp hp
    exact ⟨r.interval, List.mem_map_of_mem hr, hlow.trans hx.1, hx.2.trans_le hhigh⟩

/-! ## The loop over the regions -/

/-- `MEM_MAP` says of each page whether it is in `F`. -/
def MemMap.Marks (m : MemMap) (F : Set ℕ) : Prop :=
  ∀ p, m.InRange p → (p ∈ F → m.page p = ⟨0, .free⟩) ∧ (p ∉ F → m.page p = ⟨1, .reserved⟩)

variable {m : MemMap} {buddy : BuddySystemFrameAllocator} {free : ℕ → List ℕ} {F : Set ℕ}

/-- One region: its pages join the free ones. -/
theorem handRegion_spec (hmarks : m.Marks F) (howns : Owns buddy free F []) {r : MemRegion}
    (hrange : ∀ p ∈ r.pages, m.InRange p) (haddr : Addressable r.pages)
    (hdis : Disjoint r.pages F) (n : ℕ) :
    ∃ m' buddy' free' n', handRegion m buddy n r = .ok (m', buddy', n') ∧
      m'.len = m.len ∧ m'.ramStartPpn = m.ramStartPpn ∧
      m'.Marks (F ∪ r.pages) ∧ Owns buddy' free' (F ∪ r.pages) [] := by
  obtain ⟨buddy', free', hbuddy, howns', -⟩ := howns.addFreeRegion haddr hdis
  have hin : ∀ q, q ∈ r.pages ↔ r.startPpn ≤ q ∧ q < r.startPpn + (r.endPpn - r.startPpn) := by
    intro q
    rw [MemRegion.pages, Set.mem_Ico]
    omega
  obtain ⟨m', hfill, hlen, hstart, hset, hkeep⟩ := MemMap.fill_spec ⟨0, .free⟩
    (r.endPpn - r.startPpn) (fun q h₁ h₂ => hrange q ((hin q).mpr ⟨h₁, h₂⟩))
  refine ⟨m', buddy', free', n + (r.endPpn - r.startPpn), ?_, hlen, hstart, fun p hp => ?_, howns'⟩
  · rw [handRegion, hfill, ok_bind, hbuddy, ok_bind]
  · have hp' : m.InRange p := by rwa [MemMap.InRange, hlen, hstart] at hp
    by_cases hpr : p ∈ r.pages
    · obtain ⟨h₁, h₂⟩ := (hin p).mp hpr
      exact ⟨fun _ => hset p h₁ h₂, fun hno => absurd (Or.inr hpr) hno⟩
    · rw [hkeep p hp' (by have := (hin p).not.mp hpr; omega)]
      exact ⟨fun h => (hmarks p hp').1 (h.resolve_right hpr),
        fun h => (hmarks p hp').2 fun hF => h (Or.inl hF)⟩

/-- All regions, where their pages have entries and are disjoint. -/
theorem handLoop_spec {l : List MemRegion} (hmarks : m.Marks F) (howns : Owns buddy free F [])
    (hrange : ∀ r ∈ l, ∀ p ∈ r.pages, m.InRange p) (haddr : ∀ r ∈ l, Addressable r.pages)
    (hdis : ∀ r ∈ l, Disjoint r.pages F) (hpair : l.Pairwise fun r r' => Disjoint r.pages r'.pages)
    (n : ℕ) :
    ∃ m' buddy' free' n', handLoop m buddy n l = .ok (m', buddy', n') ∧
      m'.len = m.len ∧ m'.ramStartPpn = m.ramStartPpn ∧
      m'.Marks (F ∪ {p | ∃ r ∈ l, p ∈ r.pages}) ∧
      Owns buddy' free' (F ∪ {p | ∃ r ∈ l, p ∈ r.pages}) [] := by
  induction l generalizing m buddy free F n with
  | nil =>
    have hnone : F ∪ {p | ∃ r ∈ ([] : List MemRegion), p ∈ r.pages} = F := by simp
    rw [hnone]
    exact ⟨m, buddy, free, n, rfl, rfl, rfl, hmarks, howns⟩
  | cons r l ih =>
    obtain ⟨hpair_r, hpair⟩ := List.pairwise_cons.mp hpair
    obtain ⟨m₁, buddy₁, free₁, n₁, hrun₁, hlen₁, hstart₁, hmarks₁, howns₁⟩ := handRegion_spec hmarks
      howns (hrange r List.mem_cons_self) (haddr r List.mem_cons_self) (hdis r List.mem_cons_self) n
    obtain ⟨m₂, buddy₂, free₂, n₂, hrun₂, hlen₂, hstart₂, hmarks₂, howns₂⟩ := ih hmarks₁ howns₁
      (fun r' hr' p hp => by
        rw [MemMap.InRange, hlen₁, hstart₁]
        exact hrange r' (List.mem_cons_of_mem _ hr') p hp)
      (fun r' hr' => haddr r' (List.mem_cons_of_mem _ hr'))
      (fun r' hr' => (hdis r' (List.mem_cons_of_mem _ hr')).union_right (hpair_r r' hr').symm)
      hpair n₁
    have hset : F ∪ r.pages ∪ {p | ∃ r' ∈ l, p ∈ r'.pages} =
        F ∪ {p | ∃ r' ∈ r :: l, p ∈ r'.pages} := by
      ext p
      simp [or_assoc]
    rw [hset] at hmarks₂ howns₂
    refine ⟨m₂, buddy₂, free₂, n₂, ?_, hlen₂.trans hlen₁, hstart₂.trans hstart₁, hmarks₂, howns₂⟩
    rw [handLoop, hrun₁, ok_bind]
    exact hrun₂

/-! ## Runs of the boot map -/

/-- The boot map with the ranges that were reserved or allocated, as bases and sizes. -/
structure BootSystem where
  memblock : Memblock
  taken : List (ℕ × ℕ)
  deriving DecidableEq, Repr

namespace BootSystem

/-- One call. -/
def step (t : BootSystem) : BootOp → Except Fault BootSystem
  | .reserveMemory base size => do
    let memblock ← t.memblock.reserveMemory base size
    .ok ⟨memblock, (base, size) :: t.taken⟩
  | .earlyAlloc size align => do
    match ← t.memblock.earlyAlloc size align with
    | (some pa, memblock) => .ok ⟨memblock, (pa, size) :: t.taken⟩
    | (none, memblock) => .ok ⟨memblock, t.taken⟩

/-- Reserved ranges end in the address space, and allocations are no larger than the base of RAM. -/
def Allowed (ramBase : ℕ) (_ : BootSystem) : BootOp → Prop
  | .reserveMemory base size => base + size < 2 ^ 64
  | .earlyAlloc size _ => size ≤ ramBase

instance (ramBase : ℕ) (t : BootSystem) : ∀ op, Decidable (t.Allowed ramBase op)
  | .reserveMemory base size => inferInstanceAs (Decidable (base + size < 2 ^ 64))
  | .earlyAlloc size _ => inferInstanceAs (Decidable (size ≤ ramBase))

/-- The bytes that were reserved or allocated. -/
def takenBytes (t : BootSystem) : Set ℕ := {x | ∃ r ∈ t.taken, x ∈ Set.Ico r.1 (r.1 + r.2)}

/-- The pages wholly inside RAM that have no reserved or allocated byte. -/
def freeSet (t : BootSystem) (ramBase ramSize : ℕ) : Set ℕ :=
  {p | ∀ x ∈ Set.Ico (p * pageSize) ((p + 1) * pageSize),
    x ∈ Set.Ico ramBase (ramBase + ramSize) ∧ x ∉ t.takenBytes}

/-- The available bytes are those of RAM that were not taken. -/
structure Inv (ramBase ramSize : ℕ) (t : BootSystem) : Prop where
  canonical : t.memblock.available.Canonical
  bytes : t.memblock.available.bytes = Set.Ico ramBase (ramBase + ramSize) \ t.takenBytes

variable {t t' : BootSystem} {ramBase ramSize : ℕ}

theorem takenBytes_cons (mb : Memblock) (r : ℕ × ℕ) (taken : List (ℕ × ℕ)) :
    takenBytes ⟨mb, r :: taken⟩ = takenBytes ⟨mb, taken⟩ ∪ Set.Ico r.1 (r.1 + r.2) := by
  ext x
  simp [takenBytes, or_comm]

theorem Inv.initAddMemory {mb : Memblock} (hlt : ramBase + ramSize < 2 ^ 64)
    (hinit : Memblock.new.initAddMemory ramBase ramSize = .ok mb) :
    Inv ramBase ramSize ⟨mb, []⟩ := by
  obtain ⟨available, havail, hmb⟩ := exists_of_bind_eq_ok hinit
  cases hmb
  obtain ⟨hcanon, hbytes⟩ := RegionArray.addRegion_spec RegionArray.Canonical.new hlt havail
  refine ⟨hcanon, ?_⟩
  have hnone : takenBytes ⟨{ Memblock.new with available }, []⟩ = ∅ := by simp [takenBytes]
  rw [hnone, Set.sdiff_empty, hbytes, RegionArray.bytes_new, Set.empty_union]

/-- Every region that is available begins in RAM. -/
theorem Inv.le_base (h : Inv ramBase ramSize t) {r : MemRegion}
    (hr : r ∈ t.memblock.available.regions) :
    ramBase ≤ r.base ∧ r.base + r.size ≤ ramBase + ramSize := by
  have hmem := List.mem_map_of_mem (f := MemRegion.interval) hr
  have hne : r.base < r.base + r.size := h.canonical.separated.nonempty _ hmem
  have hsub : ∀ x, r.base ≤ x → x < r.base + r.size → x ∈ Set.Ico ramBase (ramBase + ramSize) := by
    intro x hlow hhigh
    have hx : x ∈ t.memblock.available.bytes := ⟨_, hmem, hlow, hhigh⟩
    rw [h.bytes] at hx
    exact hx.1
  have hfirst := hsub r.base le_rfl hne
  have hlast := hsub (r.base + r.size - 1) (by omega) (by omega)
  rw [Set.mem_Ico] at hfirst hlast
  omega

/-- A call keeps the invariant. -/
theorem Inv.of_step (h : Inv ramBase ramSize t) {op : BootOp} (ha : t.Allowed ramBase op)
    (hstep : t.step op = .ok t') : Inv ramBase ramSize t' := by
  cases op with
  | reserveMemory base size =>
    obtain ⟨memblock, hmb, hstep⟩ := exists_of_bind_eq_ok hstep
    cases hstep
    obtain ⟨hcanon, hbytes⟩ := Memblock.reserveMemory_spec h.canonical ha hmb
    refine ⟨hcanon, ?_⟩
    rw [hbytes, h.bytes, takenBytes_cons, Set.sdiff_sdiff]
    rfl
  | earlyAlloc size align =>
    obtain ⟨⟨r, memblock⟩, hmb, hstep⟩ := exists_of_bind_eq_ok hstep
    have hroom : t.memblock.Room size align := by
      intro reg hfind
      have hreg := List.mem_reverse.mp (List.mem_of_find?_eq_some hfind)
      exact ha.trans ((h.le_base hreg).1.trans (Nat.le_add_right _ _))
    rcases Memblock.earlyAlloc_spec h.canonical hroom hmb
      with ⟨rfl, rfl⟩ | ⟨pa, rfl, hcanon, -, hbytes⟩
    · cases hstep
      exact h
    · cases hstep
      refine ⟨hcanon, ?_⟩
      rw [hbytes, h.bytes, takenBytes_cons, Set.sdiff_sdiff]
      rfl

theorem Inv.freeSet_eq (h : Inv ramBase ramSize t) :
    t.freeSet ramBase ramSize = wholePages t.memblock.available.bytes := by
  rw [h.bytes]
  rfl

/-- A page without taken bytes is in RAM. -/
theorem mem_freeSet_bounds {p : ℕ} (hp : p ∈ t.freeSet ramBase ramSize) :
    ramBase ≤ p * pageSize ∧ (p + 1) * pageSize ≤ ramBase + ramSize := by
  have hpos : p * pageSize < (p + 1) * pageSize :=
    Nat.mul_lt_mul_of_pos_right (Nat.lt_succ_self p) (by decide)
  have hfirst := (hp (p * pageSize) ⟨le_rfl, hpos⟩).1
  have hlast := (hp ((p + 1) * pageSize - 1) ⟨by omega, by omega⟩).1
  rw [Set.mem_Ico] at hfirst hlast
  omega

/-- **The handover**: after any reservations and allocations, the pages wholly inside RAM without a
taken byte go to the buddy allocator, each in one free block, and `MEM_MAP` marks them free and all
other pages of RAM reserved. -/
theorem handover (ramBase ramSize : ℕ) (hram : ramBase + ramSize ≤ 2 ^ 32)
    (hpage : 0 < ramSize → pageSize ≤ ramBase) (mb : Memblock)
    (hinit : Memblock.new.initAddMemory ramBase ramSize = .ok mb) (ops : List BootOp)
    (t : BootSystem) (hops : Along step (Allowed ramBase) ⟨mb, []⟩ ops)
    (hrun : exec step ⟨mb, []⟩ ops = .ok t) (mem : Mem) :
    ∃ memMap buddy n,
      initBuddySystem t.memblock (ramBase >>> pageSizeBits) ((ramBase + ramSize) >>> pageSizeBits)
        (BuddySystemFrameAllocator.new mem) = .ok (memMap, buddy, n) ∧
      (∃ free, buddy.Inv free (t.freeSet ramBase ramSize)) ∧
      buddy.freePages = t.freeSet ramBase ramSize ∧
      (∀ p ∈ t.freeSet ramBase ramSize, ∃! b : Block,
        b.order < maxOrder ∧ b.base * pageSize ∈ buddy.onList b.order ∧ p ∈ b.cells) ∧
      memMap.ramStartPpn = ramBase >>> pageSizeBits ∧
      memMap.len = ((ramBase + ramSize) >>> pageSizeBits) - (ramBase >>> pageSizeBits) ∧
      (∀ p ∈ t.freeSet ramBase ramSize, memMap.InRange p) ∧
      ∀ p, memMap.InRange p →
        (p ∈ t.freeSet ramBase ramSize → memMap.page p = ⟨0, .free⟩) ∧
        (p ∉ t.freeSet ramBase ramSize → memMap.page p = ⟨1, .reserved⟩) := by
  have hinv : Inv ramBase ramSize t := Along.invariant_exec (fun _ _ _ hI hA hs => hI.of_step hA hs)
    (Inv.initAddMemory (hram.trans_lt (by decide)) hinit) hops hrun
  have hlt : ∀ r ∈ t.memblock.available.regions, r.base + r.size < 2 ^ 56 := fun r hr =>
    ((hinv.le_base hr).2.trans hram).trans_lt (by decide)
  have hset : t.freeSet ramBase ramSize =
      {p | ∃ r ∈ t.memblock.available.regions, p ∈ r.pages} :=
    hinv.freeSet_eq.trans (hinv.canonical.wholePages_eq hlt)
  have hsub : ∀ r ∈ t.memblock.available.regions, r.pages ⊆ t.freeSet ramBase ramSize := by
    intro r hr p hp
    rw [hset]
    exact ⟨r, hr, hp⟩
  have haddr : Addressable (t.freeSet ramBase ramSize) := by
    refine .of_lt fun p hp => ?_
    obtain ⟨hlow, hhigh⟩ := mem_freeSet_bounds hp
    simp only [pageSize] at hlow hhigh hpage
    omega
  have hin : ∀ p ∈ t.freeSet ramBase ramSize, MemMap.InRange ⟨fun _ => ⟨1, .reserved⟩,
      (ramBase + ramSize) >>> pageSizeBits - ramBase >>> pageSizeBits,
      ramBase >>> pageSizeBits⟩ p := by
    intro p hp
    obtain ⟨hlow, hhigh⟩ := mem_freeSet_bounds hp
    rw [MemMap.InRange]
    simp only [Nat.shiftRight_eq_div_pow, two_pow_pageSizeBits, pageSize] at hlow hhigh ⊢
    omega
  have hpair : t.memblock.available.regions.Pairwise fun r r' => Disjoint r.pages r'.pages := by
    refine (List.pairwise_map.mp hinv.canonical.separated.gap).imp_of_mem
      fun {r r'} hr hr' hgap => ?_
    rw [Set.disjoint_left]
    intro p hp hp'
    obtain ⟨-, hhigh⟩ := (MemRegion.mem_pages (hlt r hr)).mp hp
    obtain ⟨hlow, -⟩ := (MemRegion.mem_pages (hlt r' hr')).mp hp'
    have hgap : r.base + r.size < r'.base := hgap
    simp only [pageSize] at hlow hhigh
    omega
  obtain ⟨memMap, buddy, free, n, hloop, hlen, hstart, hmarks, howns⟩ := handLoop_spec (F := ∅)
    (m := ⟨fun _ => ⟨1, .reserved⟩,
      (ramBase + ramSize) >>> pageSizeBits - ramBase >>> pageSizeBits, ramBase >>> pageSizeBits⟩)
    (fun p _ => ⟨fun h => absurd h (Set.notMem_empty p), fun _ => rfl⟩) (Owns.new mem)
    (fun r hr p hp => hin p (hsub r hr hp)) (fun r hr => haddr.mono (hsub r hr))
    (fun r _ => Set.disjoint_empty _) hpair 0
  rw [Set.empty_union, ← hset] at hmarks howns
  have hfree := howns.inv
  rw [used_nil, Set.sdiff_empty] at hfree
  refine ⟨memMap, buddy, n, hloop, ⟨free, hfree⟩, hfree.freePages_eq,
    fun p hp => hfree.existsUnique_block hp, hstart, hlen, fun p hp => ?_, hmarks⟩
  rw [MemMap.InRange, hlen, hstart]
  exact hin p hp

/-- Sixteen and a half pages of RAM, with an unaligned reservation at the start and one page
allocated. -/
theorem handover_sample : ∃ mb t memMap buddy n,
    Memblock.new.initAddMemory 0x80000000 0x10800 = .ok mb ∧
    exec step ⟨mb, []⟩ [.reserveMemory 0x80000000 0x2345, .earlyAlloc 4096 4096] = .ok t ∧
    initBuddySystem t.memblock (0x80000000 >>> pageSizeBits)
      ((0x80000000 + 0x10800) >>> pageSizeBits) (BuddySystemFrameAllocator.new fun _ => 0) =
        .ok (memMap, buddy, n) ∧
    buddy.freePages = t.freeSet 0x80000000 0x10800 := by
  have hinit : Memblock.new.initAddMemory 0x80000000 0x10800 =
      .ok ⟨⟨[⟨0x80000000, 0x10800⟩], 0x10800⟩, .new, .new⟩ := by decide
  have hrun : exec step ⟨⟨⟨[⟨0x80000000, 0x10800⟩], 0x10800⟩, .new, .new⟩, []⟩
      [.reserveMemory 0x80000000 0x2345, .earlyAlloc 4096 4096] =
      .ok ⟨⟨⟨[⟨0x80002345, 0xccbb⟩, ⟨0x80010000, 0x800⟩], 0xd4bb⟩, ⟨[⟨0x80000000, 0x2345⟩], 0x2345⟩,
        ⟨[⟨0x8000f000, 0x1000⟩], 0x1000⟩⟩, [(0x8000f000, 0x1000), (0x80000000, 0x2345)]⟩ := by
    decide
  obtain ⟨memMap, buddy, n, hhand, -, hfree, -⟩ := handover 0x80000000 0x10800 (by decide)
    (fun _ => by decide) _ hinit _ _ (by decide) hrun fun _ => 0
  exact ⟨_, _, memMap, buddy, n, hinit, hrun, hhand, hfree⟩

end BootSystem

end CharlotteOs
