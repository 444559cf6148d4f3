import CharlotteOs.Mm.AddressSpace
import CharlotteOs.Mm.Handover
import CharlotteOs.Mm.MapPage
import CharlotteOs.System.Memory

/-!
# From reset to the first task

`virt_rust_main` builds the final page table, gives what is left of RAM to the buddy allocator and
makes the idle task. From then on the tables are memory that nobody owns: `MEMBLOCK` has marked
their pages as allocated, so they are not among the pages that the buddy allocator manages, and no
client of it ever gets to write to them. The same goes for the kernel itself, for what the firmware
and the device tree occupy, and for the array behind `MEM_MAP`.

So what `boot` ends with is not only true at that moment. However tasks, objects and tables come and
go, the address space stays as it should be, and every word that a client holds can be written
through the linear window and not be executed.

## Main definitions

* `virtRustMain`: `virt_rust_main` up to the first `spawn`
* `reservedRanges`: what `setup_memory_and_mapping` reserves
* `Booted.Intact`: the address space is as it should be, and clients keep to their memory

## Main results

* `setup_denotes`: what is reserved and allocated when the tables are built
* `initBuddySystem_spec`: the buddy allocator gets the rest and writes to nothing else
* `Booted.intact_along`: the boot returns, and the address space stays intact along every run
-/

namespace CharlotteOs

open FallibleRun TableTree PageTableEntry PageTable BuddySystemFrameAllocator DyadicTiling
open MemblockSystem (bytesOf bytesOf_nil bytesOf_cons)

/-- The kernel at the first `spawn`: the root table, `MEM_MAP_PA`, the result of `Scheduler::init`,
which is dropped, and the rest. -/
structure Booted where
  rootPpn : ℕ
  memMapPa : ℕ
  init : Except SchedulerError Unit
  system : MemorySystem

/-- `virt_rust_main` up to the first `spawn`. -/
def virtRustMain (image : KernelImage) (dt : DeviceTree) (sizeOfPage : ℕ) (m : Mem)
    (trampoline : ℕ) (idleTask : ℕ × ℕ) (ier : ℕ) (initContext : TaskContext) :
    Except Fault Booted := do
  let t ← setupMemoryAndMapping image dt sizeOfPage m
  let root ← switchToFinalPageTable t.rootPpn
  let mem ← unmapTempIdentityArea image root t.boot.mem
  let (memMap, buddy, _) ← initBuddySystem t.boot.memblock (dt.ramBase >>> pageSizeBits)
    (dt.ramEnd >>> pageSizeBits) (BuddySystemFrameAllocator.new mem)
  let (init, scheduler, buddy) ← Scheduler.new.init buddy trampoline idleTask
  .ok ⟨root, t.memMapPa, init, .new (Kernel.boot scheduler buddy ier initContext) memMap⟩

/-! ## What is reserved -/

/-- The ranges of nodes that are reserved. -/
def DeviceTree.reservedNodes (dt : DeviceTree) : List (ℕ × ℕ) :=
  dt.nodes.filter fun r => 0 < r.2 ∧ dt.ramBase ≤ r.1 ∧ (r.1 + r.2) % 2 ^ 64 ≤ dt.ramEnd

/-- What `setup_memory_and_mapping` reserves: the kernel, the ranges in the header of the device
tree, the blob, and the ranges of nodes in RAM. -/
def reservedRanges (image : KernelImage) (dt : DeviceTree) : List (ℕ × ℕ) :=
  (image.skernel, image.ekernel - image.skernel) ::
    (dt.reservations ++ (dt.dtbAddr, dt.totalSize) :: dt.reservedNodes)

theorem bytesOf_append (ranges ranges' : List (ℕ × ℕ)) :
    bytesOf (ranges ++ ranges') = bytesOf ranges ∪ bytesOf ranges' := by
  ext x
  simp [bytesOf, or_and_right, exists_or]

/-- The range that a step reserves. -/
def BootStep.reserves : BootStep → List (ℕ × ℕ)
  | .reserve base size => [(base, size)]
  | .map .. => []

variable {image : KernelImage} {dt : DeviceTree} {sizeOfPage : ℕ} {m m' : Mem} {root : ℕ}

section Reserved

variable {ramBase ramSize : ℕ} {R : Set ℕ} {mb mb' : Memblock} {kernel rootPa : ℕ} {s s' : Boot}

/-- An allocation that returns a block, which was neither reserved nor allocated. -/
theorem Memblock.Denotes.earlyAlloc_some {ram A K : Set ℕ} {size align pa : ℕ}
    (h : mb.Denotes ram R A) (hroom : mb.Room size align) (hK : K ⊆ R) (hA : A ⊆ ram \ K)
    (hrun : mb.earlyAlloc size align = .ok (some pa, mb')) :
    mb'.Denotes ram R (A ∪ Set.Ico pa (pa + size)) ∧ A ∪ Set.Ico pa (pa + size) ⊆ ram \ K := by
  rcases h.earlyAlloc hroom hrun with ⟨hnone, -⟩ | ⟨pa', hpa, hsub, hnext⟩
  · cases hnone
  · cases hpa
    refine ⟨hnext, Set.union_subset hA fun x hx => ⟨(hsub hx).1, fun hxK => ?_⟩⟩
    exact (hsub hx).2 (Or.inl (hK hxK))

/-- Reservations in a row. -/
theorem Memblock.Denotes.exec_reserve {ram : Set ℕ} {ranges : List (ℕ × ℕ)}
    (hranges : ∀ r ∈ ranges, r.1 + r.2 < 2 ^ 64) (h : mb.Denotes ram R ∅)
    (hexec : exec (fun mb r => Memblock.reserveMemory mb r.1 r.2) mb ranges = .ok mb') :
    mb'.Denotes ram (R ∪ bytesOf ranges) ∅ := by
  induction ranges generalizing mb R with
  | nil =>
    cases hexec
    rwa [bytesOf_nil, Set.union_empty]
  | cons r ranges ih =>
    obtain ⟨mb₁, hmb₁, hrun⟩ := exec_cons_eq_ok hexec
    have hrest := ih (fun r hr => hranges r (List.mem_cons_of_mem _ hr))
      (h.reserveMemory (hranges r List.mem_cons_self) hmb₁) hrun
    rwa [bytesOf_cons, Set.union_comm (bytesOf ranges), ← Set.union_assoc]

/-- A step adds its range to what is reserved, and allocates nothing in `K` if that is reserved. -/
theorem Boot.step_denotes (hpage : pageSize ≤ ramBase) {op : BootStep} (hop : Boot.InRange op)
    {K : Set ℕ} (hK : K ⊆ R)
    (h : ∃ A ⊆ Set.Ico ramBase (ramBase + ramSize) \ K,
      s.memblock.Denotes (Set.Ico ramBase (ramBase + ramSize)) R A)
    (hstep : s.step kernel rootPa op = .ok s') :
    ∃ A ⊆ Set.Ico ramBase (ramBase + ramSize) \ K,
      s'.memblock.Denotes (Set.Ico ramBase (ramBase + ramSize)) (R ∪ bytesOf op.reserves) A := by
  cases op with
  | reserve base size =>
    obtain ⟨A, hsub, hA⟩ := h
    obtain ⟨mb, hmb, hstep⟩ := exists_of_bind_eq_ok hstep
    cases hstep
    rw [BootStep.reserves, bytesOf_cons, bytesOf_nil, Set.empty_union]
    exact ⟨A, hsub, hA.reserveMemory hop hmb⟩
  | map mapType flags pa size =>
    obtain ⟨vpn, -, hstep⟩ := exists_of_bind_eq_ok hstep
    obtain ⟨ppn, -, hstep⟩ := exists_of_bind_eq_ok hstep
    rw [BootStep.reserves, bytesOf_nil, Set.union_empty]
    refine bumpMap_memblock (P := fun mb => ∃ A ⊆ Set.Ico ramBase (ramBase + ramSize) \ K,
      mb.Denotes (Set.Ico ramBase (ramBase + ramSize)) R A) (fun mb mb' r hmb halloc => ?_) h hstep
    obtain ⟨A, hsub, hA⟩ := hmb
    cases r with
    | none =>
      rcases hA.earlyAlloc (hA.room hpage) halloc with ⟨-, rfl⟩ | ⟨pa, hpa, -⟩
      · exact ⟨A, hsub, hA⟩
      · cases hpa
    | some pa =>
      obtain ⟨hnext, hsub'⟩ := hA.earlyAlloc_some (hA.room hpage) hK hsub halloc
      exact ⟨_, hsub', hnext⟩

theorem Boot.exec_denotes (hpage : pageSize ≤ ramBase) {steps : List BootStep}
    (hsteps : ∀ op ∈ steps, Boot.InRange op) {K : Set ℕ} (hK : K ⊆ R)
    (h : ∃ A ⊆ Set.Ico ramBase (ramBase + ramSize) \ K,
      s.memblock.Denotes (Set.Ico ramBase (ramBase + ramSize)) R A)
    (hexec : exec (Boot.step kernel rootPa) s steps = .ok s') :
    ∃ A ⊆ Set.Ico ramBase (ramBase + ramSize) \ K,
      s'.memblock.Denotes (Set.Ico ramBase (ramBase + ramSize))
        (R ∪ bytesOf (steps.flatMap BootStep.reserves)) A := by
  induction steps generalizing s R with
  | nil =>
    cases hexec
    rwa [List.flatMap_nil, bytesOf_nil, Set.union_empty]
  | cons op steps ih =>
    obtain ⟨s₁, hs₁, hrun⟩ := exec_cons_eq_ok hexec
    have hrest := ih (fun op hop => hsteps op (List.mem_cons_of_mem _ hop))
      (hK.trans Set.subset_union_left)
      (Boot.step_denotes hpage (hsteps op List.mem_cons_self) hK h hs₁) hrun
    rwa [List.flatMap_cons, bytesOf_append, ← Set.union_assoc]

end Reserved

/-- What the steps reserve are the ranges of nodes in RAM. -/
theorem bytesOf_bootSteps (image : KernelImage) (dt : DeviceTree) :
    bytesOf ((bootSteps image dt).flatMap BootStep.reserves) = bytesOf dt.reservedNodes := by
  have hmem : ∀ r, r ∈ (bootSteps image dt).flatMap BootStep.reserves ↔ r ∈ dt.reservedNodes := by
    rintro ⟨base, size⟩
    have hreserve : (base, size) ∈ (bootSteps image dt).flatMap BootStep.reserves ↔
        .reserve base size ∈ bootSteps image dt := by
      rw [List.mem_flatMap]
      constructor
      · rintro ⟨op, hop, hmem⟩
        cases op with
        | reserve base' size' =>
          cases List.mem_singleton.mp hmem
          exact hop
        | map mapType flags pa size => cases hmem
      · exact fun hop => ⟨_, hop, List.mem_singleton_self _⟩
    rw [hreserve, mem_bootSteps_reserve, mem_bootRanges, DeviceTree.reservedNodes, List.mem_filter,
      decide_eq_true_iff]
    constructor
    · rintro (⟨r, hr, heq⟩ | hram)
      · rcases nodeRange_eq_some.mp heq with ⟨hpos, ⟨hin, heq⟩ | ⟨-, heq⟩⟩ <;> cases heq
        exact ⟨hr, hpos, hin⟩
      · rcases mem_ramRanges.mp hram with ⟨seg, -, heq | heq⟩ | heq | heq <;> cases heq
    · rintro ⟨hr, hpos, hin⟩
      exact .inl ⟨_, hr, nodeRange_eq_some.mpr ⟨hpos, .inl ⟨hin, rfl⟩⟩⟩
  ext x
  simp [bytesOf, hmem]

/-- The kernel, the ranges in the header and the blob are reserved first. -/
theorem setupMemblock_reserves (h : dt.Bounded) {mb : Memblock}
    (hrun : setupMemblock image dt = .ok mb) :
    mb.Denotes (Set.Ico dt.ramBase (dt.ramBase + dt.ramSize))
      (bytesOf ((image.skernel, image.ekernel - image.skernel) ::
        (dt.reservations ++ [(dt.dtbAddr, dt.totalSize)]))) ∅ := by
  obtain ⟨mb₀, hmb₀, hrun⟩ := exists_of_bind_eq_ok hrun
  obtain ⟨mb₁, hmb₁, hrun⟩ := exists_of_bind_eq_ok hrun
  obtain ⟨mb₂, hmb₂, hrun⟩ := exists_of_bind_eq_ok hrun
  have hkernel : image.skernel + (image.ekernel - image.skernel) < 2 ^ 64 := by
    have := image.skernel_le
    have := image.ekernel_lt
    omega
  have hinit := (Memblock.Denotes.initAddMemory h.ram hmb₀).reserveMemory hkernel hmb₁
  have hall := (hinit.exec_reserve h.reservations hmb₂).reserveMemory h.dtb hrun
  rwa [bytesOf_cons, bytesOf_append, bytesOf_cons, bytesOf_nil, Set.empty_union,
    Set.union_comm _ (Set.Ico image.skernel _), ← Set.union_assoc,
    ← Set.empty_union (Set.Ico image.skernel _)]

/-- **What `setup_memory_and_mapping` leaves in `MEMBLOCK`**: the reserved ranges are known, and the
array behind `MEM_MAP` and the tables are allocated, in RAM and outside of the kernel. What is
allocated does not depend on what is said to be reserved. -/
theorem setup_denotes (h : dt.InRange sizeOfPage) {t : BootTables} (hlt : t.rootPpn < 2 ^ 44)
    (ht : setupMemoryAndMapping image dt sizeOfPage m = .ok t) :
    ∃ s A, Boot.TreeOf image.skernel t.rootPpn (Set.Ico dt.ramBase (dt.ramBase + dt.ramSize))
        (bootSteps image dt) s ∧ t.boot.mem = s.mem ∧
      t.boot.memblock.Denotes (Set.Ico dt.ramBase (dt.ramBase + dt.ramSize))
        (bytesOf (reservedRanges image dt)) A ∧
      A ⊆ Set.Ico dt.ramBase (dt.ramBase + dt.ramSize) \ Set.Ico image.skernel image.ekernel ∧
      Set.Ico t.memMapPa (t.memMapPa + dt.memMapSize sizeOfPage) ⊆ A ∧
      ∀ f ∈ frames decode (tables s.mem) t.rootPpn, f * pageSize ∈ A := by
  obtain ⟨rootPa, s, s', mb, hroot, hexec, hrootPa, halloc, hboot⟩ := setupMemoryAndMapping_cases ht
  rw [PhysPageNum.ofPhysAddr_eq_ok] at hrootPa
  subst hrootPa
  have htree := (treeOf_setupRoot h.bounded hlt hroot).run image.skernel_lt
    (fun op hop => ok_of_mem_bootSteps h.bounded hop) hexec
  rw [List.nil_append] at htree
  obtain ⟨mb₀, mb₁, hmb₀, halloc₀, hin, rfl⟩ := (setupRoot_eq_ok hlt).mp hroot
  have hfirst := setupMemblock_reserves h.bounded hmb₀
  have hsteps : ∀ op ∈ bootSteps image dt, Boot.InRange op := by
    intro op hop
    cases op with
    | reserve base size => exact h.nodes _ (mem_nodes_of_reserve hop)
    | map mapType flags pa size => trivial
  have hreserved : ∀ ranges : List (ℕ × ℕ), Set.Ico image.skernel image.ekernel ⊆
      bytesOf ((image.skernel, image.ekernel - image.skernel) :: ranges) := by
    intro ranges x hx
    refine ⟨_, List.mem_cons_self, hx.1, hx.2.trans_le ?_⟩
    show image.ekernel ≤ image.skernel + (image.ekernel - image.skernel)
    omega
  obtain ⟨hstart, hsub⟩ := hfirst.earlyAlloc_some (hfirst.room h.page) (hreserved _)
    (Set.empty_subset _) halloc₀
  obtain ⟨A, hsub, hA⟩ := Boot.exec_denotes h.page hsteps (hreserved _) ⟨_, hsub, hstart⟩ hexec
  rw [bytesOf_bootSteps, ← bytesOf_append, List.cons_append, List.append_assoc,
    List.singleton_append] at hA
  obtain ⟨R', A', hA', hframes⟩ := htree.allocated
  obtain rfl : A' = A := hA'.allocated.symm.trans hA.allocated
  obtain ⟨hmemMap, hsub⟩ := hA.earlyAlloc_some (hA.room h.memMap) (hreserved _) hsub halloc
  rw [hboot]
  exact ⟨s', _, htree, rfl, hmemMap, hsub, Set.subset_union_right, fun f hf =>
    Or.inl (hframes f hf)⟩

/-! ## Taking the identity area out -/

/-- A page that is taken out leaves fewer leaves and tables. -/
theorem leaves_of_unmapStep {page : ℕ × PageSize} (hpage : page ∈ image.pages)
    (htree : IsTree decode (tables m) 2 root)
    (hlt : ∀ f ∈ frames decode (tables m) root, f < 2 ^ 20)
    (hstep : unmapStep (physToVirt (PhysAddr.ofPpn root)) m page = .ok m') :
    IsTree decode (tables m') 2 root ∧
      frames decode (tables m') root ⊆ frames decode (tables m) root ∧
      leaves decode (tables m') root ⊆ leaves decode (tables m) root := by
  obtain ⟨n, hn, -⟩ := image.pages_tiles.exists_of_mem hpage
  have hpa : pageSize ∣ (BootMapType.identical, page).2.1 := ⟨n, by rw [hn, mul_comm]⟩
  obtain ⟨p, i, hpath, -⟩ := Boot.exists_leafPath .identical (pageFloor page.1) page.2
  obtain ⟨b, hb, -, rfl⟩ := (unmapPage_eq_ok hpa hpath hlt).mp hstep
  obtain ⟨htree', hframes, -, hleaves⟩ := isTree_clear (i := i) htree hb
  refine ⟨htree', hframes, ?_⟩
  rw [hleaves]
  exact fun x hx => hx.1

/-- No table is made when pages are taken out. -/
theorem frames_unmapTempIdentityArea {ram : Set ℕ} {s : Boot}
    (h : Boot.TreeOf image.skernel root ram (bootSteps image dt) s)
    (hrun : unmapTempIdentityArea image root s.mem = .ok m') :
    IsTree decode (tables m') 2 root ∧
      frames decode (tables m') root ⊆ frames decode (tables s.mem) root := by
  have hlt : ∀ f ∈ frames decode (tables s.mem) root, f < 2 ^ 20 :=
    fun f hf => (h.inGiB f hf).frame_lt image.skernel_lt
  refine invariant_exec (I := fun m => IsTree decode (tables m) 2 root ∧
    frames decode (tables m) root ⊆ frames decode (tables s.mem) root) ?_ ⟨h.tree, subset_rfl⟩ hrun
  intro m₁ m₂ page hpage hI hstep
  obtain ⟨htree, hframes, -⟩ := leaves_of_unmapStep hpage hI.1 (fun f hf => hlt f (hI.2 hf)) hstep
  exact ⟨htree, hframes.trans hI.2⟩

/-! ## Handing over the rest -/

section Handover

variable {memMap memMap' : MemMap} {buddy buddy' : BuddySystemFrameAllocator} {free : ℕ → List ℕ}
  {F : Set ℕ}

/-- The loop over the regions writes to their pages. -/
theorem handLoop_same {n n' : ℕ} {l : List MemRegion} (howns : Owns buddy free F [])
    (haddr : ∀ r ∈ l, Addressable r.pages) (hdis : ∀ r ∈ l, Disjoint r.pages F)
    (hpair : l.Pairwise fun r r' => Disjoint r.pages r'.pages)
    (hrun : handLoop memMap buddy n l = .ok (memMap', buddy', n')) :
    SameOutside {p | ∃ r ∈ l, p ∈ r.pages} buddy.mem buddy'.mem := by
  induction l generalizing memMap buddy free F n with
  | nil =>
    cases hrun
    exact .refl _ _
  | cons r l ih =>
    obtain ⟨hpair_r, hpair⟩ := List.pairwise_cons.mp hpair
    have hr := List.mem_cons_self (a := r) (l := l)
    obtain ⟨⟨memMap₁, buddy₁, n₁⟩, hhand, hrun⟩ := exists_of_bind_eq_ok hrun
    obtain ⟨memMap₂, -, hhand⟩ := exists_of_bind_eq_ok hhand
    obtain ⟨buddy₂, hbuddy, hhand⟩ := exists_of_bind_eq_ok hhand
    cases hhand
    obtain ⟨buddy₃, free', hbuddy', howns', -⟩ := howns.addFreeRegion (haddr r hr) (hdis r hr)
    cases hbuddy.symm.trans hbuddy'
    obtain ⟨buddy₃, -, hbuddy', -, hsame, -⟩ := addFreeRegion_spec howns.inv (haddr r hr)
      ((hdis r hr).mono_right Set.sdiff_subset)
    cases hbuddy.symm.trans hbuddy'
    have hrest := ih howns' (fun r' hr' => haddr r' (List.mem_cons_of_mem _ hr'))
      (fun r' hr' => (hdis r' (List.mem_cons_of_mem _ hr')).union_right (hpair_r r' hr').symm)
      hpair hrun
    have hfirst : r.pages ⊆ {p | ∃ r' ∈ r :: l, p ∈ r'.pages} := fun p hp => ⟨r, hr, hp⟩
    refine (hsame.mono hfirst).trans (hrest.mono ?_)
    rintro p ⟨r', hr', hp⟩
    exact ⟨r', List.mem_cons_of_mem _ hr', hp⟩

/-- **`init_buddy_system`** returns. The buddy allocator manages the pages that are available as a
whole, `MEM_MAP` has an entry for each of them, and no other page was written to. -/
theorem initBuddySystem_spec {mb : Memblock} {ramBase ramSize : ℕ} {R A : Set ℕ}
    (h : mb.Denotes (Set.Ico ramBase (ramBase + ramSize)) R A) (hram : ramBase + ramSize ≤ 2 ^ 32)
    (hpage : pageSize ≤ ramBase) (mem : Mem) :
    ∃ memMap buddy free n,
      initBuddySystem mb (ramBase >>> pageSizeBits) ((ramBase + ramSize) >>> pageSizeBits)
        (BuddySystemFrameAllocator.new mem) = .ok (memMap, buddy, n) ∧
      Owns buddy free (wholePages mb.available.bytes) [] ∧
      (∀ p ∈ wholePages mb.available.bytes, memMap.InRange p) ∧
      SameOutside (wholePages mb.available.bytes) mem buddy.mem := by
  have hbounds : ∀ r ∈ mb.available.regions, ramBase ≤ r.base ∧
      r.base + r.size ≤ ramBase + ramSize := by
    intro r hr
    obtain ⟨hne, hsub⟩ := h.subset_ram hr
    have hfirst := (hsub (Set.left_mem_Ico.mpr hne)).1
    have hend : r.base + r.size - 1 ∈ Set.Ico r.base (r.base + r.size) := ⟨by omega, by omega⟩
    have hlast := (hsub hend).1
    rw [Set.mem_Ico] at hfirst hlast
    omega
  have hlt : ∀ r ∈ mb.available.regions, r.base + r.size < 2 ^ 56 := fun r hr =>
    ((hbounds r hr).2.trans hram).trans_lt (by decide)
  have hmem : ∀ r ∈ mb.available.regions, ∀ p ∈ r.pages,
      ramBase ≤ p * pageSize ∧ (p + 1) * pageSize ≤ ramBase + ramSize := by
    intro r hr p hp
    obtain ⟨hlow, hhigh⟩ := (MemRegion.mem_pages (hlt r hr)).mp hp
    exact ⟨(hbounds r hr).1.trans hlow, hhigh.trans (hbounds r hr).2⟩
  have hset := h.canonical.1.wholePages_eq hlt
  have haddr : ∀ r ∈ mb.available.regions, Addressable r.pages := by
    refine fun r hr => .of_lt fun p hp => ?_
    obtain ⟨hlow, hhigh⟩ := hmem r hr p hp
    simp only [pageSize] at hlow hhigh hpage
    omega
  have hin : ∀ r ∈ mb.available.regions, ∀ p ∈ r.pages, MemMap.InRange ⟨fun _ => ⟨1, .reserved⟩,
      (ramBase + ramSize) >>> pageSizeBits - ramBase >>> pageSizeBits,
      ramBase >>> pageSizeBits⟩ p := by
    intro r hr p hp
    obtain ⟨hlow, hhigh⟩ := hmem r hr p hp
    rw [MemMap.InRange]
    simp only [Nat.shiftRight_eq_div_pow, two_pow_pageSizeBits, pageSize] at hlow hhigh ⊢
    omega
  have hpair : mb.available.regions.Pairwise fun r r' => Disjoint r.pages r'.pages := by
    refine (List.pairwise_map.mp h.canonical.1.separated.gap).imp_of_mem
      fun {r r'} hr hr' hgap => ?_
    rw [Set.disjoint_left]
    intro p hp hp'
    obtain ⟨-, hhigh⟩ := (MemRegion.mem_pages (hlt r hr)).mp hp
    obtain ⟨hlow, -⟩ := (MemRegion.mem_pages (hlt r' hr')).mp hp'
    have hgap : r.base + r.size < r'.base := hgap
    simp only [pageSize] at hlow hhigh
    omega
  obtain ⟨memMap, buddy, free, n, hloop, hlen, hstart, -, howns⟩ := handLoop_spec (F := ∅)
    (m := ⟨fun _ => ⟨1, .reserved⟩,
      (ramBase + ramSize) >>> pageSizeBits - ramBase >>> pageSizeBits, ramBase >>> pageSizeBits⟩)
    (fun p _ => ⟨fun h => absurd h (Set.notMem_empty p), fun _ => rfl⟩) (Owns.new mem) hin haddr
    (fun r _ => Set.disjoint_empty _) hpair 0
  have hsame := handLoop_same (Owns.new mem) haddr (fun r _ => Set.disjoint_empty _) hpair hloop
  rw [Set.empty_union, ← hset] at howns
  rw [← hset] at hsame
  refine ⟨memMap, buddy, free, n, hloop, howns, fun p hp => ?_, hsame⟩
  rw [hset] at hp
  obtain ⟨r, hr, hp⟩ := hp
  rw [MemMap.InRange, hlen, hstart]
  exact hin r hr p hp

end Handover

/-! ## The address space along runs -/

/-- Memory that differs outside the tables only is translated in the same way. -/
theorem Exact.congr {F : Set ℕ} (h : Exact image dt root m) (htree : TreeIn m root F)
    (hsame : SameOutside F m m') : Exact image dt root m' := by
  have hsv : ∀ va, sv39 (tables m') root va = sv39 (tables m) root va := by
    intro va
    rw [sv39, sv39, walk_congr ((htree.congr hsame).2.2 _)]
  refine ⟨fun va hva => (hsv va).trans (h.translation va hva),
    fun va hva va' hva' pa f pa' f' => ?_⟩
  rw [hsv, hsv]
  exact h.exclusive va hva va' hva' pa f pa' f'

/-- A page of RAM that does not begin in the kernel can be read and written, since a page of the
kernel begins inside of it. -/
theorem kernelSpace_of_outside {p : ℕ}
    (hp : p * pageSize ∈ Set.Ico dt.ramBase (dt.ramBase + dt.ramSize) \
      Set.Ico image.skernel image.ekernel) :
    kernelSpace image dt p = some (PTEFlags.r ||| PTEFlags.w) := by
  have hout : ¬ (image.stext ≤ p * pageSize ∧ p * pageSize < image.ebss) := hp.2
  have hkernel : ∀ {startAddr endAddr}, image.stext ≤ startAddr → endAddr ≤ image.ebss →
      pageSize ∣ startAddr → ¬ (pageFloor startAddr ≤ p ∧ p < pageCeil endAddr) := by
    rintro startAddr endAddr hstart hend ⟨n, rfl⟩ ⟨hlow, hhigh⟩
    refine hout ⟨hstart.trans ?_, lt_of_lt_of_le ?_ hend⟩
    · simp only [pageFloor, pageSize] at hlow ⊢
      omega
    · simp only [pageCeil, pageSize] at hhigh ⊢
      omega
  have hstext : pageSize ∣ image.stext := image.aligned
  have hrodata : image.erodata ≤ image.ebss :=
    (le_align4K _).trans (image.data_le.trans ((le_align4K _).trans image.bss_le))
  have htext : image.etext ≤ image.ebss := (le_align4K _).trans (image.rodata_le.trans hrodata)
  have hsrodata : pageSize ∣ image.srodata := ⟨_, by rw [KernelImage.srodata, align4K_eq, mul_comm]⟩
  have hstart : image.stext ≤ image.srodata := image.text_le.trans (le_align4K _)
  have hram : pageFloor dt.ramBase ≤ p ∧ p < pageCeil (dt.ramBase + dt.ramSize) := by
    obtain ⟨hlow, hhigh⟩ := hp.1
    simp only [pageFloor, pageCeil, pageSize] at hlow hhigh ⊢
    omega
  rw [kernelSpace, if_neg (hkernel le_rfl htext hstext), if_neg (hkernel hstart hrodata hsrodata),
    if_pos ⟨_, List.mem_cons_self, hram⟩]

/-- A page that is neither reserved nor outside RAM can be read and written. -/
theorem kernelSpace_of_available {p : ℕ}
    (hp : ∀ x ∈ Set.Ico (p * pageSize) ((p + 1) * pageSize),
      x ∈ Set.Ico dt.ramBase (dt.ramBase + dt.ramSize) ∧ x ∉ bytesOf (reservedRanges image dt)) :
    kernelSpace image dt p = some (PTEFlags.r ||| PTEFlags.w) := by
  obtain ⟨hram, hout⟩ := hp (p * pageSize)
    ⟨le_rfl, Nat.mul_lt_mul_of_pos_right (Nat.lt_succ_self p) (by decide)⟩
  refine kernelSpace_of_outside ⟨hram, fun ⟨hlow, hhigh⟩ => hout ?_⟩
  refine ⟨_, List.mem_cons_self, hlow, hhigh.trans_le ?_⟩
  show image.ekernel ≤ image.skernel + (image.ekernel - image.skernel)
  omega

/-- What an address in the linear window should be translated to. -/
theorem kernelTranslation_physToVirt {a : ℕ} (ha : a < 2 ^ 32) :
    kernelTranslation image dt (physToVirt a) =
      (kernelSpace image dt (a / pageSize)).map fun flags => (a, flags ||| PTEFlags.v) := by
  rw [physToVirt_eq ha, kernelTranslation, if_pos (Nat.le_add_left _ _), Nat.add_sub_cancel]

/-! ## The scheduler -/

section Spawn

variable {buddy buddy' : BuddySystemFrameAllocator} {free : ℕ → List ℕ} {M : Set ℕ}

/-- A stack that cannot be allocated is the only reason for `spawn` to fail. -/
theorem Scheduler.alloc_of_spawn_error {s s' : Scheduler} {trampoline stackSize priority : ℕ}
    {entry : ℕ × ℕ} {e : SchedulerError}
    (hpages : ((stackSize + pageSize - 1) % 2 ^ 64) / pageSize ≠ 0)
    (hrun : s.spawn buddy trampoline entry stackSize priority = .ok (.error e, s', buddy')) :
    buddy.alloc (((stackSize + pageSize - 1) % 2 ^ 64) / pageSize) = .ok (none, buddy') := by
  rw [Scheduler.spawn] at hrun
  dsimp only at hrun
  rw [if_neg hpages] at hrun
  obtain ⟨⟨r, buddy₁⟩, halloc, hrun⟩ := exists_of_bind_eq_ok hrun
  cases r with
  | none =>
    cases hrun
    exact halloc
  | some ppn =>
    dsimp only at hrun
    split at hrun <;> cases hrun

/-- **The dropped error**: where the idle task does not get a stack, no task gets one. -/
theorem Scheduler.spawn_of_init_error (howns : Owns buddy free M []) {trampoline : ℕ}
    {entry : ℕ × ℕ} {s : Scheduler} {e : SchedulerError}
    (hinit : Scheduler.new.init buddy trampoline entry = .ok (.error e, s, buddy'))
    (trampoline' stackSize priority : ℕ) (entry' : ℕ × ℕ) :
    s.spawn buddy' trampoline' entry' stackSize priority =
      .ok (.error .memoryAllocationError, s, buddy') := by
  have halloc := Scheduler.alloc_of_spawn_error (by decide) hinit
  have hnone : buddy.alloc 1 = .ok (none, buddy') := halloc
  obtain rfl : buddy' = buddy := by
    rcases howns.alloc Nat.one_pos (by decide) with ⟨_, _, _, hsome, -⟩ | hnone'
    · cases hsome.symm.trans hnone
    · rw [hnone] at hnone'
      exact (Prod.mk.inj (Except.ok.inj hnone')).2
  have hempty := howns.inv.alloc_one_iff.mp hnone
  rcases SchedInv.spawn_spec s howns trampoline' stackSize priority entry' with
    ⟨tcb, s', buddy'', free', -, -, -, -, -, -, howns'⟩ | herror
  · have hbase := howns'.subset _ List.mem_cons_self tcb.stackBlock.base_mem_cells
    have hfree : tcb.stackBlock.base ∈ buddy'.freePages := by
      rw [howns.freePages_eq, used_nil, Set.sdiff_empty]
      exact hbase
    obtain ⟨k, hk, a, ⟨l, hl, ha⟩, -⟩ := hfree
    rw [hempty k hk] at hl
    cases hl.unique (LinkedChain.chain_nil.mpr rfl)
    cases ha
  · exact herror

end Spawn

/-! ## The boot as a whole -/

namespace Booted

/-- **The address space is intact**: it is as it should be, and what clients hold is in RAM, apart
from what was reserved, from `MEM_MAP` and from the page table, and can be read and written through
the linear window. -/
structure Intact (image : KernelImage) (dt : DeviceTree) (sizeOfPage : ℕ) (b : Booted)
    (t : MemorySystem) : Prop where
  exact : Exact image dt b.rootPpn t.kernel.buddy.mem
  apart : ∀ o, ∀ a ∈ t.holds o, a ∈ Set.Ico dt.ramBase (dt.ramBase + dt.ramSize) ∧
    a ∉ bytesOf (reservedRanges image dt) ∧
    a ∉ Set.Ico b.memMapPa (b.memMapPa + dt.memMapSize sizeOfPage) ∧
    a / pageSize ∉ frames decode (tables t.kernel.buddy.mem) b.rootPpn
  mapped : ∀ o, ∀ a ∈ t.holds o, sv39 (tables t.kernel.buddy.mem) b.rootPpn (physToVirt a) =
    some (a, PTEFlags.r ||| PTEFlags.w ||| PTEFlags.v)

/-- What the boot leaves behind, for the pages `M` that the buddy allocator manages. -/
structure Ready (image : KernelImage) (dt : DeviceTree) (sizeOfPage : ℕ) (b : Booted) (M : Set ℕ)
    (mem : Mem) : Prop where
  exact : Exact image dt b.rootPpn mem
  tree : TreeIn mem b.rootPpn M
  managed : ∀ p ∈ M, ∀ x ∈ Set.Ico (p * pageSize) ((p + 1) * pageSize),
    x ∈ Set.Ico dt.ramBase (dt.ramBase + dt.ramSize) ∧ x ∉ bytesOf (reservedRanges image dt) ∧
      x ∉ Set.Ico b.memMapPa (b.memMapPa + dt.memMapSize sizeOfPage)

/-- As long as only managed pages were written to, the address space is intact. -/
theorem Ready.intact {b : Booted} {M : Set ℕ} {t : MemorySystem} (hlayout : BootLayout image dt)
    (h : b.Ready image dt sizeOfPage M m) (hsame : SameOutside M m t.kernel.buddy.mem)
    (ht : t.Inv M) : b.Intact image dt sizeOfPage t := by
  obtain ⟨q, slabs, part, ht⟩ := ht
  have hexact := h.exact.congr h.tree hsame
  have htree := (h.tree.congr hsame).1
  have hbytes : ∀ a, a ∈ Set.Ico (a / pageSize * pageSize) ((a / pageSize + 1) * pageSize) := by
    intro a
    rw [Set.mem_Ico]
    simp only [pageSize]
    omega
  refine ⟨hexact, fun o a ha => ?_, fun o a ha => ?_⟩
  · have hpage := (ht.managed ha).1
    obtain ⟨hram, hreserved, hmemMap⟩ := h.managed _ hpage a (hbytes a)
    exact ⟨hram, hreserved, hmemMap, fun hframe => Set.disjoint_left.mp htree.disjoint hframe hpage⟩
  · have hpage := (ht.managed ha).1
    have hram := (h.managed _ hpage a (hbytes a)).1
    have hlt : a < 2 ^ 32 := hram.2.trans_le hlayout.ram
    have hspace := kernelSpace_of_available fun x hx =>
      ⟨(h.managed _ hpage x hx).1, (h.managed _ hpage x hx).2.1⟩
    rw [hexact.translation (physToVirt a) (Nat.mod_lt _ (by decide)),
      kernelTranslation_physToVirt hlt, hspace]
    rfl

/-- **The address space stays intact.** Whenever `MEMBLOCK` serves the boot, `virt_rust_main` gets
to its first `spawn`. If the idle task was made, then along every run of the kernel, the slab caches
and the page table code each operation returns and leaves the address space intact; if not, no
`spawn` succeeds. -/
theorem intact_along (image : KernelImage) (dt : DeviceTree) (h : BootLayout image dt)
    (sizeOfPage : ℕ) (hpage : pageSize ≤ dt.ramBase)
    (hmemMap : dt.memMapSize sizeOfPage ≤ dt.ramBase) (m : Mem)
    (hserved : Served image dt sizeOfPage m) (trampoline : ℕ) (idleTask : ℕ × ℕ) (ier : ℕ)
    (initContext : TaskContext) :
    ∃ b, virtRustMain image dt sizeOfPage m trampoline idleTask ier initContext = .ok b ∧
      (b.init = .ok () → ∀ ops, Along MemorySystem.step MemorySystem.Allowed b.system ops →
        Along MemorySystem.step (fun t op => ∃ t', t.step op = .ok t' ∧
          b.Intact image dt sizeOfPage t') b.system ops) ∧
      (b.init ≠ .ok () → ∀ trampoline stackSize priority entry,
        b.system.kernel.scheduler.spawn b.system.kernel.buddy trampoline entry stackSize priority =
          .ok (.error .memoryAllocationError, b.system.kernel.scheduler,
            b.system.kernel.buddy)) := by
  obtain ⟨root, mem, hboot, hexact⟩ := exact_of_served h hserved
  have hdt : dt.InRange sizeOfPage :=
    ⟨h.bounded.ram, h.reservations, h.dtb, h.nodes, hpage, hmemMap⟩
  obtain ⟨t, ht, rfl, hlt, hunmap⟩ := boot_cases hboot
  obtain ⟨s, A, htree, hmem, hA, -, harray, hframes⟩ := setup_denotes hdt hlt ht
  rw [hmem] at hunmap
  obtain ⟨htree', hsub⟩ := frames_unmapTempIdentityArea htree hunmap
  obtain ⟨memMap, buddy, free, n, hinitBuddy, howns, hrange, hsame⟩ :=
    initBuddySystem_spec hA h.ram hpage mem
  rw [← h.ramEnd_eq] at hinitBuddy
  have hswitch : switchToFinalPageTable t.rootPpn = .ok t.rootPpn := if_pos hlt
  have hstart : ∀ {r scheduler buddy'},
      Scheduler.new.init buddy trampoline idleTask = .ok (r, scheduler, buddy') →
      virtRustMain image dt sizeOfPage m trampoline idleTask ier initContext =
        .ok ⟨t.rootPpn, t.memMapPa, r,
          .new (Kernel.boot scheduler buddy' ier initContext) memMap⟩ := by
    intro r scheduler buddy' hinit
    rw [virtRustMain, ht, ok_bind, hswitch, ok_bind, hmem, hunmap, ok_bind, hinitBuddy, ok_bind]
    dsimp only
    rw [hinit, ok_bind]
  -- a page that is available is no table, since tables are allocated
  have hready : ∀ {r system}, Ready image dt sizeOfPage ⟨t.rootPpn, t.memMapPa, r, system⟩
      (wholePages t.boot.memblock.available.bytes) mem := by
    intro r system
    have havail : ∀ p ∈ wholePages t.boot.memblock.available.bytes,
        ∀ x ∈ Set.Ico (p * pageSize) ((p + 1) * pageSize),
        x ∈ Set.Ico dt.ramBase (dt.ramBase + dt.ramSize) \
          (bytesOf (reservedRanges image dt) ∪ A) := by
      intro p hp x hx
      rw [← hA.available]
      exact hp x hx
    refine ⟨hexact, ⟨htree', fun f hf => (htree.inGiB f (hsub hf)).frame_lt image.skernel_lt, ?_⟩,
      ?_⟩
    · rw [Set.disjoint_left]
      intro f hf hp
      have hfirst := havail f hp (f * pageSize)
        ⟨le_rfl, Nat.mul_lt_mul_of_pos_right (Nat.lt_succ_self f) (by decide)⟩
      exact hfirst.2 (Or.inr (hframes f (hsub hf)))
    · intro p hp x hx
      obtain ⟨hram, hout⟩ := havail p hp x hx
      exact ⟨hram, fun hR => hout (Or.inl hR), fun hM => hout (Or.inr (harray hM))⟩
  obtain ⟨r, scheduler, buddy', hinit⟩ : ∃ r scheduler buddy',
      Scheduler.new.init buddy trampoline idleTask = .ok (r, scheduler, buddy') := by
    rcases SchedInv.spawn_spec Scheduler.new howns trampoline 4096 0 idleTask with
      ⟨tcb, scheduler, buddy', free', hspawn, -⟩ | hspawn
    · exact ⟨_, _, _, hspawn⟩
    · exact ⟨_, _, _, hspawn⟩
  refine ⟨_, hstart hinit, fun hok ops hallowed => ?_, fun herror => ?_⟩
  · obtain rfl : r = .ok () := hok
    have htaken := (Scheduler.spawn_taken howns hinit).same
    rw [howns.freePages_eq, used_nil, Set.sdiff_empty] at htaken
    have hsame' := hsame.trans htaken
    have hinv := MemorySystem.Inv.new (KernelInv.boot howns hinit ier initContext).1 hrange
    refine Along.of_invariant (I := fun u =>
      u.Inv (wholePages t.boot.memblock.available.bytes) ∧
        SameOutside (wholePages t.boot.memblock.available.bytes) mem u.kernel.buddy.mem)
      (fun u op hI hA => ?_) ⟨hinv, hsame'⟩ hallowed
    obtain ⟨⟨q, slabs, part, hu⟩, hsame⟩ := hI
    obtain ⟨u', hstep, hok⟩ := hu.step hA
    have hsame := hsame.trans hok.same
    refine ⟨⟨u', hstep, hready.intact h hsame hok.inv⟩, fun u'' hstep' => ?_⟩
    cases hstep.symm.trans hstep'
    exact ⟨hok.inv, hsame⟩
  · cases r with
    | ok u => exact absurd rfl herror
    | error e =>
      exact fun trampoline' stackSize priority entry =>
        Scheduler.spawn_of_init_error howns hinit trampoline' stackSize priority entry

/-- Two tasks, an object and a tick after a boot with 16 MiB of RAM. -/
theorem intact_along_sample : ∃ b,
    virtRustMain sampleImage (sampleTree [(0x10000000, 0x100)]) 40 (fun _ => 0) 0 (0, 0) 0
      TaskContext.zero = .ok b ∧ b.init = .ok () ∧
    Along MemorySystem.step (fun t op => ∃ t', t.step op = .ok t' ∧
        b.Intact sampleImage (sampleTree [(0x10000000, 0x100)]) 40 t') b.system
      [.kernel (.spawn 0 (1, 1) 8192 1), .slub (.alloc 5), .kernel (.spawn 0 (2, 1) 8192 1),
        .kernel .runScheduler, .kernel (.tick 100000)] := by
  obtain ⟨⟨root, m'⟩, hboot, -⟩ := exists_of_map_eq_ok (f := fun _ => ())
    (show (boot sampleImage (sampleTree [(0x10000000, 0x100)]) 40 (fun _ => 0)).map _ = .ok () by
      decide +kernel)
  obtain ⟨b, hb, hbool⟩ := exists_of_map_eq_ok (f := fun b : Booted => b.init.toBool)
    (show (virtRustMain sampleImage (sampleTree [(0x10000000, 0x100)]) 40 (fun _ => 0) 0 (0, 0) 0
      TaskContext.zero).map _ = .ok true by decide +kernel)
  obtain ⟨b', hb', hintact, -⟩ := intact_along _ _ layout_sampleTree 40 (by decide) (by decide)
    (fun _ => 0) (served_of_boot layout_sampleTree hboot) 0 (0, 0) 0 TaskContext.zero
  cases hb.symm.trans hb'
  have hinit : b.init = .ok () := by
    cases hr : b.init with
    | ok u => rfl
    | error e =>
      rw [hr] at hbool
      cases hbool
  have halloc : ∀ t : MemorySystem, t.Allowed (.slub (.alloc 5)) :=
    fun t => ⟨show 5 < 9 by decide, trivial⟩
  have htick : ∀ t : MemorySystem, t.Allowed (.kernel (.tick 100000)) := by
    intro t hecall
    cases hecall
  exact ⟨b, hb, hinit,
    hintact hinit _
      ⟨trivial, fun _ _ =>
        ⟨halloc _, fun _ _ =>
          ⟨trivial, fun _ _ => ⟨trivial, fun _ _ => ⟨htick _, fun _ _ => trivial⟩⟩⟩⟩⟩⟩

end Booted

end CharlotteOs
