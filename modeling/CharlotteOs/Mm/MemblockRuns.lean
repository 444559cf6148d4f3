import CharlotteOs.Lib.Run
import CharlotteOs.Mm.Memblock

/-!
# Runs of the boot-time memory map

What `MEMBLOCK` means over whole runs. Abstractly it is RAM and two sets of bytes: a reservation
adds its range to the one, an allocation adds a range that is in neither to the other, and what is
available is RAM without both. The three sorted arrays denote this at every moment, in whatever
order and with whatever overlaps the calls come.

A reservation may cover bytes that are allocated already, or that are not in RAM: nothing in
`reserve_memory` looks at the allocated ranges. So the two sets are in general not disjoint; what
holds is that an allocation avoids the ranges reserved before it.

## Main definitions

* `Memblock.Denotes mb ram R A`: `mb` says that of RAM the bytes `R` are reserved and `A` allocated
* `MemblockSystem`, `MemblockSystem.step`: the map with the ranges passed and returned so far
* `MemblockSystem.Conserved`, `MemblockSystem.Served`: what holds in a state and what a call does

## Main results

* `Memblock.Denotes.reserveMemory`, `Memblock.Denotes.earlyAlloc`: the two calls on the sets
* `MemblockSystem.conserved_along`: the law of the map along every run
-/

namespace CharlotteOs

open IntervalList FallibleRun

/-! ## The map as sets -/

namespace Memblock

/-- The map says that of the bytes `ram` those in `R` are reserved and those in `A` allocated. -/
structure Denotes (mb : Memblock) (ram R A : Set ℕ) : Prop where
  canonical : mb.available.Canonical ∧ mb.reserved.Canonical ∧ mb.allocated.Canonical
  available : mb.available.bytes = ram \ (R ∪ A)
  reserved : mb.reserved.bytes = R
  allocated : mb.allocated.bytes = A

variable {mb mb' : Memblock} {ram R A : Set ℕ} {base size align : ℕ} {r : Option ℕ}

theorem Denotes.initAddMemory (hlt : base + size < 2 ^ 64)
    (hinit : Memblock.new.initAddMemory base size = .ok mb) :
    mb.Denotes (Set.Ico base (base + size)) ∅ ∅ := by
  obtain ⟨available, havail, hmb⟩ := exists_of_bind_eq_ok hinit
  cases hmb
  obtain ⟨hcanon, hbytes⟩ := RegionArray.addRegion_spec RegionArray.Canonical.new hlt havail
  rw [RegionArray.bytes_new, Set.empty_union] at hbytes
  refine ⟨⟨hcanon, .new, .new⟩, ?_, RegionArray.bytes_new, RegionArray.bytes_new⟩
  rw [Set.union_empty, Set.sdiff_empty]
  exact hbytes

/-- Every available region lies in RAM. -/
theorem Denotes.subset_ram (h : mb.Denotes ram R A) {reg : MemRegion}
    (hreg : reg ∈ mb.available.regions) :
    reg.base < reg.base + reg.size ∧ Set.Ico reg.base (reg.base + reg.size) ⊆ ram \ (R ∪ A) := by
  have hmem := List.mem_map_of_mem (f := MemRegion.interval) hreg
  refine ⟨h.canonical.1.separated.nonempty _ hmem, fun x hx => ?_⟩
  rw [← h.available]
  exact ⟨_, hmem, hx.1, hx.2⟩

/-- An allocation no larger than the base of RAM does not wrap. -/
theorem Denotes.room {ramBase ramSize : ℕ}
    (h : mb.Denotes (Set.Ico ramBase (ramBase + ramSize)) R A) (hsize : size ≤ ramBase) :
    mb.Room size align := by
  intro reg hfind
  have hreg := List.mem_reverse.mp (List.mem_of_find?_eq_some hfind)
  obtain ⟨hne, hsub⟩ := h.subset_ram hreg
  have hbase : ramBase ≤ reg.base := (hsub (Set.left_mem_Ico.mpr hne)).1.1
  omega

/-- **`reserve_memory` on the sets.** -/
theorem Denotes.reserveMemory (h : mb.Denotes ram R A) (hlt : base + size < 2 ^ 64)
    (hrun : mb.reserveMemory base size = .ok mb') :
    mb'.Denotes ram (R ∪ Set.Ico base (base + size)) A := by
  obtain ⟨available, havail, hrun⟩ := exists_of_bind_eq_ok hrun
  obtain ⟨reserved, hres, hrun⟩ := exists_of_bind_eq_ok hrun
  cases hrun
  obtain ⟨hcanon, hbytes⟩ := RegionArray.removeRegion_spec h.canonical.1 hlt havail
  obtain ⟨hcanon', hbytes'⟩ := RegionArray.addRegion_spec h.canonical.2.1 hlt hres
  refine ⟨⟨hcanon, hcanon', h.canonical.2.2⟩, ?_, ?_, h.allocated⟩
  · rw [hbytes, h.available, Set.sdiff_sdiff, Set.union_right_comm]
  · rw [hbytes', h.reserved]

/-- **`early_alloc` on the sets**: the block was in neither of them. Without a result nothing
changes. -/
theorem Denotes.earlyAlloc (h : mb.Denotes ram R A) (hroom : mb.Room size align)
    (hrun : mb.earlyAlloc size align = .ok (r, mb')) :
    (r = none ∧ mb' = mb) ∨ ∃ pa, r = some pa ∧ Set.Ico pa (pa + size) ⊆ ram \ (R ∪ A) ∧
      mb'.Denotes ram R (A ∪ Set.Ico pa (pa + size)) := by
  rcases earlyAlloc_cases hrun with hnone | ⟨reg, available, allocated, hfind, hreg, hbase, rfl,
    havail, halloc, rfl⟩
  · exact Or.inl hnone
  have hlt := h.canonical.1.lt reg hreg
  have hend : allocBase reg size align + size ≤ reg.base + reg.size :=
    allocBase_le hlt (hroom reg hfind)
  obtain ⟨hcanon, hbytes⟩ :=
    RegionArray.removeRegion_spec h.canonical.1 (hend.trans_lt hlt) havail
  obtain ⟨hcanon', hbytes'⟩ :=
    RegionArray.addRegion_spec h.canonical.2.2 (hend.trans_lt hlt) halloc
  refine Or.inr ⟨_, rfl, ?_, ⟨hcanon, h.canonical.2.1, hcanon'⟩, ?_, h.reserved, ?_⟩
  · exact (Set.Ico_subset_Ico hbase hend).trans (h.subset_ram hreg).2
  · rw [hbytes, h.available, Set.sdiff_sdiff, Set.union_assoc]
  · rw [hbytes', h.allocated]

end Memblock

/-! ## Runs -/

/-- A call of the boot code. -/
inductive BootOp where
  | reserveMemory (base size : ℕ)
  | earlyAlloc (size align : ℕ)
  deriving DecidableEq, Repr

/-- The map with the ranges passed to `reserve_memory` and returned by `early_alloc`, as bases and
sizes. -/
structure MemblockSystem where
  memblock : Memblock
  reservations : List (ℕ × ℕ)
  blocks : List (ℕ × ℕ)
  deriving DecidableEq, Repr

namespace MemblockSystem

/-- The bytes of some ranges. -/
def bytesOf (ranges : List (ℕ × ℕ)) : Set ℕ := {x | ∃ r ∈ ranges, x ∈ Set.Ico r.1 (r.1 + r.2)}

@[simp] theorem bytesOf_nil : bytesOf [] = ∅ := by simp [bytesOf]

theorem bytesOf_cons (r : ℕ × ℕ) (ranges : List (ℕ × ℕ)) :
    bytesOf (r :: ranges) = bytesOf ranges ∪ Set.Ico r.1 (r.1 + r.2) := by
  ext x
  simp [bytesOf, or_comm]

/-- One call. -/
def step (t : MemblockSystem) : BootOp → Except Fault MemblockSystem
  | .reserveMemory base size => do
    let memblock ← t.memblock.reserveMemory base size
    .ok { t with memblock, reservations := (base, size) :: t.reservations }
  | .earlyAlloc size align => do
    match ← t.memblock.earlyAlloc size align with
    | (some pa, memblock) => .ok { t with memblock, blocks := (pa, size) :: t.blocks }
    | (none, memblock) => .ok { t with memblock }

/-- Reserved ranges end in the address space. Allocations have a power of two as alignment and are
no larger than the base of RAM. -/
def Allowed (ramBase : ℕ) (_ : MemblockSystem) : BootOp → Prop
  | .reserveMemory base size => base + size < 2 ^ 64
  | .earlyAlloc size align => size ≤ ramBase ∧ ∃ k < 64, align = 2 ^ k

instance (ramBase : ℕ) (t : MemblockSystem) : ∀ op, Decidable (t.Allowed ramBase op)
  | .reserveMemory base size => inferInstanceAs (Decidable (base + size < 2 ^ 64))
  | .earlyAlloc size align =>
    inferInstanceAs (Decidable (size ≤ ramBase ∧ ∃ k < 64, align = 2 ^ k))

/-- The arrays denote what was passed and returned, and what is left of RAM. -/
structure Conserved (ramBase ramSize : ℕ) (t : MemblockSystem) : Prop where
  available : t.memblock.available.bytes =
    (Set.Ico ramBase (ramBase + ramSize) \ bytesOf t.reservations) \ bytesOf t.blocks
  reserved : t.memblock.reserved.bytes = bytesOf t.reservations
  allocated : t.memblock.allocated.bytes = bytesOf t.blocks

/-- What a call does, from one state to the next: a reservation is recorded; an allocation without
a result changes no array, and a block that is returned is aligned, lies in RAM and is disjoint from
every range reserved and every block returned before. -/
def Served (ramBase ramSize : ℕ) (t t' : MemblockSystem) : BootOp → Prop
  | .reserveMemory base size =>
    t'.reservations = (base, size) :: t.reservations ∧ t'.blocks = t.blocks
  | .earlyAlloc size align =>
    t' = t ∨ ∃ pa, t'.reservations = t.reservations ∧ t'.blocks = (pa, size) :: t.blocks ∧
      align ∣ pa ∧ Set.Ico pa (pa + size) ⊆ Set.Ico ramBase (ramBase + ramSize) ∧
      (∀ r ∈ t.reservations, Disjoint (Set.Ico pa (pa + size)) (Set.Ico r.1 (r.1 + r.2))) ∧
      ∀ b ∈ t.blocks, Disjoint (Set.Ico pa (pa + size)) (Set.Ico b.1 (b.1 + b.2))

/-- The map denotes the ranges of the run. -/
def Inv (ramBase ramSize : ℕ) (t : MemblockSystem) : Prop :=
  t.memblock.Denotes (Set.Ico ramBase (ramBase + ramSize)) (bytesOf t.reservations)
    (bytesOf t.blocks)

variable {t t' : MemblockSystem} {ramBase ramSize : ℕ}

theorem Inv.conserved (h : Inv ramBase ramSize t) : Conserved ramBase ramSize t := by
  refine ⟨?_, h.reserved, h.allocated⟩
  rw [h.available, Set.sdiff_sdiff]

/-- A set without the bytes of some ranges is disjoint from each of them. -/
theorem disjoint_of_mem {B : Set ℕ} {ranges : List (ℕ × ℕ)} (h : ∀ x ∈ B, x ∉ bytesOf ranges) :
    ∀ r ∈ ranges, Disjoint B (Set.Ico r.1 (r.1 + r.2)) := by
  intro r hr
  rw [Set.disjoint_left]
  exact fun x hx hxr => h x hx ⟨r, hr, hxr⟩

/-- A call keeps the invariant and serves its caller. -/
theorem Inv.of_step (h : Inv ramBase ramSize t) {op : BootOp} (ha : t.Allowed ramBase op)
    (hstep : t.step op = .ok t') : Inv ramBase ramSize t' ∧ Served ramBase ramSize t t' op := by
  cases op with
  | reserveMemory base size =>
    obtain ⟨memblock, hmb, hstep⟩ := exists_of_bind_eq_ok hstep
    cases hstep
    refine ⟨?_, rfl, rfl⟩
    have hnext := Memblock.Denotes.reserveMemory h ha hmb
    rwa [← bytesOf_cons (base, size)] at hnext
  | earlyAlloc size align =>
    obtain ⟨⟨r, memblock⟩, hmb, hstep⟩ := exists_of_bind_eq_ok hstep
    obtain ⟨hsize, k, hk, rfl⟩ := ha
    have hroom : t.memblock.Room size (2 ^ k) := Memblock.Denotes.room h hsize
    rcases Memblock.Denotes.earlyAlloc h hroom hmb with ⟨rfl, rfl⟩ | ⟨pa, rfl, hsub, hnext⟩
    · cases hstep
      exact ⟨h, Or.inl rfl⟩
    · cases hstep
      rw [← bytesOf_cons (pa, size)] at hnext
      refine ⟨hnext, Or.inr ⟨pa, rfl, rfl, Memblock.earlyAlloc_dvd hk hmb, fun x hx => (hsub hx).1,
        disjoint_of_mem fun x hx hR => (hsub hx).2 (Or.inl hR),
        disjoint_of_mem fun x hx hA => (hsub hx).2 (Or.inr hA)⟩⟩

/-- **The law of the map along every run**: from empty arrays and one range of RAM, whatever is
reserved and allocated, the arrays denote exactly the ranges passed and returned and what is left of
RAM, before and after every call, and every call serves its caller. -/
theorem conserved_along (ramBase ramSize : ℕ) (hram : ramBase + ramSize < 2 ^ 64) (mb : Memblock)
    (hinit : Memblock.new.initAddMemory ramBase ramSize = .ok mb) (ops : List BootOp)
    (hops : Along step (Allowed ramBase) ⟨mb, [], []⟩ ops) :
    Conserved ramBase ramSize ⟨mb, [], []⟩ ∧
    Along step (fun t op => ∀ t', t.step op = .ok t' →
      Conserved ramBase ramSize t' ∧ Served ramBase ramSize t t' op) ⟨mb, [], []⟩ ops := by
  have hinv : Inv ramBase ramSize ⟨mb, [], []⟩ := by
    have h := Memblock.Denotes.initAddMemory hram hinit
    rwa [← bytesOf_nil] at h
  refine ⟨hinv.conserved,
    Along.of_invariant (fun t op hI hA => ⟨fun t' ht' => ?_, fun t' ht' => ?_⟩) hinv hops⟩
  · obtain ⟨hI', hserved⟩ := hI.of_step hA ht'
    exact ⟨hI'.conserved, hserved⟩
  · exact (hI.of_step hA ht').1

/-- Two overlapping reservations, one of them over the edge of RAM, between three allocations of
which the last finds no room. -/
theorem conserved_along_sample : ∃ mb t,
    Memblock.new.initAddMemory 0x80000000 0x4000 = .ok mb ∧
    exec step ⟨mb, [], []⟩ [.reserveMemory 0x7ffff800 0x1000, .earlyAlloc 4096 4096,
      .reserveMemory 0x80000400 0x800, .earlyAlloc 64 8, .earlyAlloc 0x4000 4096] = .ok t ∧
    t.blocks = [(0x80002fc0, 64), (0x80003000, 4096)] ∧
    Conserved 0x80000000 0x4000 ⟨mb, [], []⟩ ∧
    Along step (fun t op => ∀ t', t.step op = .ok t' →
      Conserved 0x80000000 0x4000 t' ∧ Served 0x80000000 0x4000 t t' op) ⟨mb, [], []⟩
      [.reserveMemory 0x7ffff800 0x1000, .earlyAlloc 4096 4096, .reserveMemory 0x80000400 0x800,
        .earlyAlloc 64 8, .earlyAlloc 0x4000 4096] := by
  have hinit : Memblock.new.initAddMemory 0x80000000 0x4000 =
      .ok ⟨⟨[⟨0x80000000, 0x4000⟩], 0x4000⟩, .new, .new⟩ := by decide
  obtain ⟨t, hrun, hblocks⟩ := exists_of_map_eq_ok (f := MemblockSystem.blocks) (show
    (exec step ⟨⟨⟨[⟨0x80000000, 0x4000⟩], 0x4000⟩, .new, .new⟩, [], []⟩
      [.reserveMemory 0x7ffff800 0x1000, .earlyAlloc 4096 4096, .reserveMemory 0x80000400 0x800,
        .earlyAlloc 64 8, .earlyAlloc 0x4000 4096]).map MemblockSystem.blocks =
      .ok [(0x80002fc0, 64), (0x80003000, 4096)] by decide +kernel)
  exact ⟨_, t, hinit, hrun, hblocks,
    conserved_along 0x80000000 0x4000 (by decide) _ hinit _ (by decide +kernel)⟩

end MemblockSystem

end CharlotteOs
