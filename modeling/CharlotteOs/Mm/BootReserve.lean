import CharlotteOs.Mm.BootMap
import CharlotteOs.Mm.MemblockRuns

/-!
# Reservations during the boot mapping

`setup_memory_and_mapping` reserves the kernel, the ranges in the header of the device tree and the
blob before it allocates anything. The ranges of the nodes come later: the root table has been
allocated by then, and tables for the device ranges that stand before a reserved range in the tree.
`early_alloc` avoids what is reserved at its time, but `reserve_memory` takes any range.

So the reserved bytes stay apart from the allocated ones exactly when each range of a node that lies
in RAM is free of tables at the time it is reserved.

## Main definitions

* `DeviceTree.InRange`: the ranges of a device tree end in the address space
* `Memblock.CleanIf`: reserved and allocated bytes are apart exactly when a condition holds
* `Boot.Clean`: what is reserved in a step is not allocated

## Main results

* `PageTable.bumpMap_memblock`: mapping a page only allocates
* `Boot.cleanIf_exec`: reserved and allocated bytes along the steps
* `disjoint_reserved_allocated_iff`: the same for all of `setup_memory_and_mapping`
-/

namespace CharlotteOs

open FallibleRun

/-! ## What mapping does to the memory map -/

namespace PageTable

variable {kernel : ℕ} {s s' : Boot} {P : Memblock → Prop}

/-- What holds of the memory map when a page is taken from it for a table holds at the end of the
loop. -/
theorem bumpFindCreateLoop_memblock
    (hP : ∀ mb mb' r, P mb → mb.earlyAlloc pageSize pageSize = .ok (r, mb') → P mb')
    {entries : ℕ} {path : List (Fin 512)} {r : Option ℕ} (hs : P s.memblock)
    (hrun : bumpFindCreateLoop kernel s entries path = .ok (r, s')) : P s'.memblock := by
  induction path generalizing s entries with
  | nil =>
    cases hrun
    exact hs
  | cons i path ih =>
    cases path with
    | nil =>
      cases hrun
      exact hs
    | cons j path =>
      rw [bumpFindCreateLoop] at hrun
      · obtain ⟨pte, -, hrun⟩ := exists_of_bind_eq_ok hrun
        split at hrun
        · obtain ⟨⟨r', mb⟩, halloc, hrun⟩ := exists_of_bind_eq_ok hrun
          have hmb : P mb := hP _ _ _ hs halloc
          cases r' with
          | none => cases hrun
          | some pa =>
            obtain ⟨s₁, hclear, hrun⟩ := exists_of_bind_eq_ok hrun
            obtain ⟨ppn, -, hrun⟩ := exists_of_bind_eq_ok hrun
            obtain ⟨s₂, hstore, hrun⟩ := exists_of_bind_eq_ok hrun
            obtain ⟨_, -, hclear⟩ := exists_of_bind_eq_ok hclear
            obtain ⟨_, -, hstore⟩ := exists_of_bind_eq_ok hstore
            cases hclear
            cases hstore
            exact ih hmb hrun
        · split at hrun
          · cases hrun
          · exact ih hs hrun
      · intro hnil
        cases hnil

/-- **Mapping a page only allocates.** -/
theorem bumpMap_memblock
    (hP : ∀ mb mb' r, P mb → mb.earlyAlloc pageSize pageSize = .ok (r, mb') → P mb')
    {self vpn ppn flags : ℕ} {size : PageSize} (hs : P s.memblock)
    (hrun : bumpMap kernel s self vpn ppn flags size = .ok s') : P s'.memblock := by
  obtain ⟨⟨r, t⟩, hfind, hrun⟩ := exists_of_bind_eq_ok hrun
  have ht : P t.memblock := bumpFindCreateLoop_memblock hP hs hfind
  cases r with
  | none => cases hrun
  | some pte =>
    obtain ⟨bits, -, hrun⟩ := exists_of_bind_eq_ok hrun
    split at hrun
    · cases hrun
    · obtain ⟨_, -, hrun⟩ := exists_of_bind_eq_ok hrun
      cases hrun
      exact ht

end PageTable

/-! ## Reserved and allocated bytes -/

/-- The map denotes RAM with the reserved bytes `R`, and none of them is allocated exactly when
`clean` holds. -/
def Memblock.CleanIf (ram R : Set ℕ) (clean : Prop) (mb : Memblock) : Prop :=
  ∃ A, mb.Denotes ram R A ∧ (Disjoint R A ↔ clean)

namespace Boot

/-- A range that is reserved has no byte that is allocated. -/
def Clean (s : Boot) : BootStep → Prop
  | .reserve base size => Disjoint (Set.Ico base (base + size)) s.memblock.allocated.bytes
  | .map .. => True

/-- A range that is reserved ends in the address space. -/
def InRange : BootStep → Prop
  | .reserve base size => base + size < 2 ^ 64
  | .map .. => True

end Boot

section Runs

variable {ramBase ramSize : ℕ} {R : Set ℕ} {clean : Prop} {mb mb' : Memblock}

/-- An allocation changes nothing about being clean: its block is not reserved. -/
theorem Memblock.CleanIf.earlyAlloc {size align : ℕ} {r : Option ℕ}
    (h : mb.CleanIf (Set.Ico ramBase (ramBase + ramSize)) R clean) (hsize : size ≤ ramBase)
    (hrun : mb.earlyAlloc size align = .ok (r, mb')) :
    mb'.CleanIf (Set.Ico ramBase (ramBase + ramSize)) R clean := by
  obtain ⟨A, hA, hclean⟩ := h
  rcases hA.earlyAlloc (hA.room hsize) hrun with ⟨-, rfl⟩ | ⟨pa, -, hsub, hnext⟩
  · exact ⟨A, hA, hclean⟩
  · have hblock : Disjoint R (Set.Ico pa (pa + size)) := by
      rw [Set.disjoint_right]
      exact fun x hx hR => (hsub hx).2 (.inl hR)
    refine ⟨_, hnext, ?_⟩
    rw [Set.disjoint_union_right, and_iff_left hblock, hclean]

/-- A reservation stays clean if its range is not allocated. -/
theorem Memblock.CleanIf.reserveMemory {ram : Set ℕ} {base size : ℕ} (h : mb.CleanIf ram R clean)
    (hlt : base + size < 2 ^ 64) (hrun : mb.reserveMemory base size = .ok mb') :
    mb'.CleanIf ram (R ∪ Set.Ico base (base + size))
      (clean ∧ Disjoint (Set.Ico base (base + size)) mb.allocated.bytes) := by
  obtain ⟨A, hA, hclean⟩ := h
  refine ⟨A, hA.reserveMemory hlt hrun, ?_⟩
  rw [Set.disjoint_union_left, hclean, hA.allocated]

/-- **Reserved and allocated bytes along the steps**: at the end they are apart exactly when they
were at the start and every step that reserves is clean. -/
theorem Boot.cleanIf_exec {kernel root : ℕ} {s t : Boot} {steps : List BootStep}
    (hpage : pageSize ≤ ramBase) (hsteps : ∀ op ∈ steps, Boot.InRange op)
    (h : s.memblock.CleanIf (Set.Ico ramBase (ramBase + ramSize)) R clean)
    (hexec : exec (Boot.step kernel root) s steps = .ok t) :
    ∃ R', t.memblock.CleanIf (Set.Ico ramBase (ramBase + ramSize)) R'
      (clean ∧ Along (Boot.step kernel root) Boot.Clean s steps) := by
  induction steps generalizing s R clean with
  | nil =>
    cases hexec
    exact ⟨R, by simpa only [along_nil, and_true] using h⟩
  | cons op steps ih =>
    obtain ⟨s', hs', hrun⟩ := exec_cons_eq_ok hexec
    have hrest : ∀ op ∈ steps, Boot.InRange op :=
      fun op hop => hsteps op (List.mem_cons_of_mem _ hop)
    have halong : Along (Boot.step kernel root) Boot.Clean s (op :: steps) ↔
        s.Clean op ∧ Along (Boot.step kernel root) Boot.Clean s' steps := by
      simp only [along_cons, hs', Except.ok.injEq, forall_eq']
    rw [halong, ← and_assoc]
    cases op with
    | reserve base size =>
      obtain ⟨mb', hmb', hs'⟩ := exists_of_bind_eq_ok hs'
      cases hs'
      have hlt : base + size < 2 ^ 64 := hsteps _ List.mem_cons_self
      exact ih hrest (h.reserveMemory hlt hmb') hrun
    | map mapType flags pa size =>
      obtain ⟨vpn, -, hs'⟩ := exists_of_bind_eq_ok hs'
      obtain ⟨ppn, -, hs'⟩ := exists_of_bind_eq_ok hs'
      have hmap := PageTable.bumpMap_memblock
        (P := Memblock.CleanIf (Set.Ico ramBase (ramBase + ramSize)) R clean)
        (fun _ _ _ hmb halloc => hmb.earlyAlloc hpage halloc) h hs'
      obtain ⟨R', hR'⟩ := ih hrest hmap hrun
      exact ⟨R', by simpa only [Boot.Clean, and_true] using hR'⟩

/-- Reservations before any allocation. -/
theorem Memblock.Denotes.reservations {ram : Set ℕ} {ranges : List (ℕ × ℕ)}
    (hranges : ∀ r ∈ ranges, r.1 + r.2 < 2 ^ 64) (h : mb.Denotes ram R ∅)
    (hexec : exec (fun mb r => Memblock.reserveMemory mb r.1 r.2) mb ranges = .ok mb') :
    ∃ R', mb'.Denotes ram R' ∅ := by
  induction ranges generalizing mb R with
  | nil =>
    cases hexec
    exact ⟨R, h⟩
  | cons r ranges ih =>
    obtain ⟨mb₁, hmb₁, hrun⟩ := exec_cons_eq_ok hexec
    exact ih (fun r hr => hranges r (List.mem_cons_of_mem _ hr))
      (h.reserveMemory (hranges r List.mem_cons_self) hmb₁) hrun

end Runs

/-! ## Device trees -/

/-- All ranges end in the address space. RAM begins at an address that is no smaller than a page and
than `mem_map`, so that the subtraction in `early_alloc` does not wrap. -/
structure DeviceTree.InRange (dt : DeviceTree) (sizeOfPage : ℕ) : Prop where
  ram : dt.ramBase + dt.ramSize < 2 ^ 64
  reservations : ∀ r ∈ dt.reservations, r.1 + r.2 < 2 ^ 64
  dtb : dt.dtbAddr + dt.totalSize < 2 ^ 64
  nodes : ∀ r ∈ dt.nodes, r.1 + r.2 < 2 ^ 64
  page : pageSize ≤ dt.ramBase
  memMap : dt.memMapSize sizeOfPage ≤ dt.ramBase

/-- The ranges of a device tree end in the address space. -/
structure DeviceTree.Bounded (dt : DeviceTree) : Prop where
  ram : dt.ramBase + dt.ramSize < 2 ^ 64
  reservations : ∀ r ∈ dt.reservations, r.1 + r.2 < 2 ^ 64
  dtb : dt.dtbAddr + dt.totalSize < 2 ^ 64
  nodes : ∀ r ∈ dt.nodes, r.1 + r.2 < 2 ^ 64

variable {image : KernelImage} {dt : DeviceTree} {sizeOfPage : ℕ} {m : Mem}

theorem DeviceTree.InRange.bounded (h : dt.InRange sizeOfPage) : dt.Bounded :=
  ⟨h.ram, h.reservations, h.dtb, h.nodes⟩

/-- Only ranges of nodes are reserved in the steps. -/
theorem mem_nodes_of_reserve {base size : ℕ} (h : .reserve base size ∈ bootSteps image dt) :
    (base, size) ∈ dt.nodes := by
  rcases mem_bootRanges.mp (mem_bootSteps_reserve.mp h) with ⟨r, hr, heq⟩ | hram
  · rcases nodeRange_eq_some.mp heq with ⟨-, ⟨-, heq⟩ | ⟨-, heq⟩⟩ <;> cases heq
    exact hr
  · rcases mem_ramRanges.mp hram with ⟨seg, -, heq | heq⟩ | heq | heq <;> cases heq

/-- What `MEMBLOCK` says before the root table is allocated. -/
theorem setupMemblock_denotes (h : dt.Bounded) {mb : Memblock}
    (hrun : setupMemblock image dt = .ok mb) :
    ∃ R, mb.Denotes (Set.Ico dt.ramBase (dt.ramBase + dt.ramSize)) R ∅ := by
  obtain ⟨mb₀, hmb₀, hrun⟩ := exists_of_bind_eq_ok hrun
  obtain ⟨mb₁, hmb₁, hrun⟩ := exists_of_bind_eq_ok hrun
  obtain ⟨mb₂, hmb₂, hrun⟩ := exists_of_bind_eq_ok hrun
  have hkernel : image.skernel + (image.ekernel - image.skernel) < 2 ^ 64 := by
    have := image.skernel_le
    have := image.ekernel_lt
    omega
  have hinit := Memblock.Denotes.initAddMemory h.ram hmb₀
  obtain ⟨R, hR⟩ := (hinit.reserveMemory hkernel hmb₁).reservations h.reservations hmb₂
  exact ⟨_, hR.reserveMemory h.dtb hrun⟩

/-- **Reserved and allocated bytes after `setup_memory_and_mapping`** are apart exactly when every
range of a node that is reserved is free of allocated bytes at that time. Nothing is allocated
before the root table, which is not reserved. -/
theorem disjoint_reserved_allocated_iff (image : KernelImage) (dt : DeviceTree) (sizeOfPage : ℕ)
    (m : Mem) (hdt : dt.InRange sizeOfPage) (rootPa : ℕ) (s : Boot)
    (hroot : setupRoot image dt m = .ok (rootPa, s)) (t : BootTables)
    (ht : setupMemoryAndMapping image dt sizeOfPage m = .ok t) :
    Disjoint t.boot.memblock.reserved.bytes t.boot.memblock.allocated.bytes ↔
      Along (Boot.step image.skernel rootPa) Boot.Clean s (bootSteps image dt) := by
  obtain ⟨rootPa', s', s₁, mb₁, hroot', hexec, -, halloc₁, hboot⟩ := setupMemoryAndMapping_cases ht
  cases hroot.symm.trans hroot'
  obtain ⟨mb, mb', hmb, halloc, hclear⟩ := setupRoot_cases hroot
  obtain ⟨_, -, hclear⟩ := exists_of_bind_eq_ok hclear
  cases hclear
  obtain ⟨R, hR⟩ := setupMemblock_denotes hdt.bounded hmb
  have hstart : mb.CleanIf (Set.Ico dt.ramBase (dt.ramBase + dt.ramSize)) R True :=
    ⟨∅, hR, iff_true_intro (Set.disjoint_empty R)⟩
  have hsteps : ∀ op ∈ bootSteps image dt, Boot.InRange op := by
    intro op hop
    cases op with
    | reserve base size => exact hdt.nodes _ (mem_nodes_of_reserve hop)
    | map mapType flags pa size => trivial
  obtain ⟨R', hR'⟩ := Boot.cleanIf_exec hdt.page hsteps (hstart.earlyAlloc hdt.page halloc) hexec
  obtain ⟨A, hA, hclean⟩ := hR'.earlyAlloc hdt.memMap halloc₁
  rw [hboot, hA.reserved, hA.allocated, hclean, true_and]

/-- A device, and a node for a page of RAM that is not in use when it is reserved. -/
theorem disjoint_reserved_allocated_iff_sample : ∃ rootPa s t,
    setupRoot sampleImage (sampleTree [(0x10000000, 0x100), (0x80ff0000, 0x1000)]) (fun _ => 0) =
      .ok (rootPa, s) ∧
    setupMemoryAndMapping sampleImage (sampleTree [(0x10000000, 0x100), (0x80ff0000, 0x1000)]) 40
      (fun _ => 0) = .ok t ∧
    Disjoint t.boot.memblock.reserved.bytes t.boot.memblock.allocated.bytes ∧
    Along (Boot.step sampleImage.skernel rootPa) Boot.Clean s
      (bootSteps sampleImage (sampleTree [(0x10000000, 0x100), (0x80ff0000, 0x1000)])) := by
  obtain ⟨t, ht, hmb⟩ := exists_of_map_eq_ok
    (f := fun t : BootTables =>
      (t.boot.memblock.reserved.regions, t.boot.memblock.allocated.regions))
    (show (setupMemoryAndMapping sampleImage
      (sampleTree [(0x10000000, 0x100), (0x80ff0000, 0x1000)]) 40 (fun _ => 0)).map _ =
      .ok ([⟨0x80000000, 0x1000⟩, ⟨0x80200000, 0x800000⟩,
          ⟨0x80e00000, 0x1000⟩, ⟨0x80ff0000, 0x1000⟩],
        [⟨0x80fc8000, 0x28000⟩, ⟨0x80ffb000, 0x5000⟩]) by decide +kernel)
  obtain ⟨hreserved, hallocated⟩ := Prod.mk.inj hmb
  obtain ⟨rootPa, s, -, -, hroot, -⟩ := setupMemoryAndMapping_cases ht
  have hdisjoint : Disjoint t.boot.memblock.reserved.bytes t.boot.memblock.allocated.bytes := by
    rw [Set.disjoint_left]
    intro x hx hx'
    rw [RegionArray.mem_bytes, hreserved] at hx
    rw [RegionArray.mem_bytes, hallocated] at hx'
    simp only [List.mem_cons, List.not_mem_nil, or_false, exists_eq_or_imp, exists_eq_left]
      at hx hx'
    omega
  exact ⟨rootPa, s, t, hroot, ht, hdisjoint, (disjoint_reserved_allocated_iff _ _ 40 _
    ⟨by decide, by decide, by decide, by decide, by decide, by decide⟩ _ _ hroot t ht).mp hdisjoint⟩

/-- A device needs tables, and then a node for the page of RAM that one of them is in is
reserved. -/
theorem reserved_allocated_overlap : ∃ t,
    setupMemoryAndMapping sampleImage (sampleTree [(0x10000000, 0x100), (0x80ffe000, 0x1000)]) 40
      (fun _ => 0) = .ok t ∧
    ¬ Disjoint t.boot.memblock.reserved.bytes t.boot.memblock.allocated.bytes := by
  obtain ⟨t, ht, hmb⟩ := exists_of_map_eq_ok
    (f := fun t : BootTables =>
      (t.boot.memblock.reserved.regions, t.boot.memblock.allocated.regions))
    (show (setupMemoryAndMapping sampleImage
      (sampleTree [(0x10000000, 0x100), (0x80ffe000, 0x1000)]) 40 (fun _ => 0)).map _ =
      .ok ([⟨0x80000000, 0x1000⟩, ⟨0x80200000, 0x800000⟩,
          ⟨0x80e00000, 0x1000⟩, ⟨0x80ffe000, 0x1000⟩],
        [⟨0x80fd3000, 0x2d000⟩]) by decide +kernel)
  obtain ⟨hreserved, hallocated⟩ := Prod.mk.inj hmb
  refine ⟨t, ht, Set.not_disjoint_iff.mpr ⟨0x80ffe000, ?_, ?_⟩⟩
  · rw [RegionArray.mem_bytes, hreserved]
    exact ⟨⟨0x80ffe000, 0x1000⟩, by simp, by decide⟩
  · rw [RegionArray.mem_bytes, hallocated]
    exact ⟨⟨0x80fd3000, 0x2d000⟩, by simp, by decide⟩

end CharlotteOs
