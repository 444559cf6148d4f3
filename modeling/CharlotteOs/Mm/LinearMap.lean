import CharlotteOs.Mm.AddressSpace
import CharlotteOs.Mm.EarlyAlloc

/-!
# When the linear map is well defined

The linear map adds an offset of `2 ^ 64 - 2 ^ 32` to a physical address, so it has room for the
first 4 GiB. The sum of the offset and an address above wraps to the address less 4 GiB. That can
still be undone, and different pages still have different indices in the tables, but the addresses
are those of the identity map: the page 4 GiB above a page of the kernel is mapped where that one is
mapped at its physical address, and `bump_map` panics.

`setup_memory_and_mapping` compares nothing with 4 GiB, and nothing keeps the ranges of the devices
apart.

## Main definitions

* `Separate`: each page that the boot gets to is apart from the pages that are mapped before
* `DeviceTree.physPages`, `KernelImage.identityPages`: what is mapped linearly, and what identically
* `LinearMapDefined`: the linear map is well defined, and the boot finds no page mapped

## Main results

* `setupRoot_or`: the root table is a page that exists, or `MEMBLOCK` has no page left
* `conflict_iff_separate`: when the boot panics because a page is mapped
* `linearMapDefined_iff`: when the linear map is well defined
-/

namespace CharlotteOs

open FallibleRun TableTree PageTableEntry PageTable

variable {image : KernelImage} {dt : DeviceTree} {m : Mem} {kernel rootPa pa : ℕ} {s t : Boot}
  {mb mb' : Memblock}

/-! ## A root table at the end of the address space

If no page is left and a free region ends in the first page of RAM at address 0, `early_alloc`
returns the last page of the address space. `BOOT_PT` maps it if the kernel is in the fourth
gigabyte, so the root table can be cleared. But no entry can hold its address, so no page can be
mapped. -/

/-- The end of the last page wraps to zero, so nothing is taken out. -/
theorem RegionArray.removeLoop_zero (lo count : ℕ) (l : List MemRegion) :
    removeLoop lo 0 count l = .ok l := by
  induction l generalizing count with
  | nil => rfl
  | cons r l ih => rw [removeLoop, if_neg (fun h => Nat.not_lt_zero _ h.2), ih, ok_bind]

namespace Memblock

/-- No page is left. -/
structure NoPage (mb : Memblock) : Prop where
  canonical : mb.available.Canonical
  empty : fits mb.available.bytes pageSize pageSize = ∅

/-- Nothing fits exactly if the region that is found, if there is one, ends in the first page. -/
theorem noPage_of_find (hcanon : mb.available.Canonical) {reg : MemRegion}
    (hfind : mb.available.regions.reverse.find?
      (fun reg => reg.base ≤ allocBase reg pageSize pageSize) = some reg) :
    mb.NoPage ↔ reg.base + reg.size < pageSize := by
  constructor
  · intro h
    by_contra hroom
    have hmem : allocBase reg pageSize pageSize ∈ fits mb.available.bytes pageSize pageSize :=
      (isGreatest_of_find (k := 12) hcanon.separated hcanon.lt (by decide) (by decide) (by decide)
        hfind (Nat.le_of_not_lt hroom)).1
    rw [h.empty] at hmem
    exact hmem
  · refine fun hsmall => ⟨hcanon, Set.eq_empty_iff_forall_notMem.mpr fun x hx => ?_⟩
    obtain ⟨reg', hfind', hroom⟩ := find_of_fits (k := 12) hcanon.separated hcanon.lt (by decide)
      (by decide) (by decide) hx
    cases hfind.symm.trans hfind'
    exact absurd hsmall (Nat.not_lt.mpr hroom)

/-- What is returned all the same is the last page of the address space. -/
theorem NoPage.earlyAlloc (h : mb.NoPage)
    (halloc : mb.earlyAlloc pageSize pageSize = .ok (some pa, mb')) :
    pa = 2 ^ 64 - pageSize ∧ mb'.NoPage := by
  rcases earlyAlloc_cases halloc with
    ⟨hnone, -⟩ | ⟨reg, available, allocated, hfind, -, -, hpa, havail, -, rfl⟩
  · cases hnone
  have hsmall := (noPage_of_find h.canonical hfind).mp h
  rw [allocBase_of_lt hsmall] at hpa havail
  refine ⟨Option.some.inj hpa, ?_⟩
  rw [RegionArray.removeRegion, if_neg (by decide),
    show (2 ^ 64 - pageSize + pageSize) % 2 ^ 64 = 0 by decide,
    RegionArray.removeLoop_zero, ok_bind] at havail
  obtain rfl := Except.ok.inj havail
  exact ⟨.updateTotal h.canonical.separated fun x hx => h.canonical.bytes_lt hx, h.empty⟩

theorem NoPage.reserveMemory (h : mb.NoPage) {base size : ℕ} (hlt : base + size < 2 ^ 64)
    (hrun : mb.reserveMemory base size = .ok mb') : mb'.NoPage := by
  obtain ⟨available, havail, hrun⟩ := exists_of_bind_eq_ok hrun
  obtain ⟨reserved, -, hrun⟩ := exists_of_bind_eq_ok hrun
  cases hrun
  obtain ⟨hcanon, hbytes⟩ := RegionArray.removeRegion_spec h.canonical hlt havail
  refine ⟨hcanon, Set.eq_empty_iff_forall_notMem.mpr fun x hx => ?_⟩
  have hmem : x ∈ fits mb.available.bytes pageSize pageSize := by
    refine ⟨hx.1, fun y hy => ?_⟩
    have := hx.2 hy
    rw [hbytes] at this
    exact this.1
  rw [h.empty] at hmem
  exact hmem

end Memblock

/-- No page of a segment is mapped in the root table. -/
def BootStep.Small : BootStep → Prop
  | .reserve .. => True
  | .map _ _ _ size => size ≠ .oneGB

theorem small_of_mem_bootSteps {op : BootStep} (h : op ∈ bootSteps image dt) : op.Small := by
  cases op with
  | reserve base size => trivial
  | map mapType flags pa size =>
    obtain ⟨startAddr, endAddr, -, hpage⟩ := mem_bootSteps_map.mp h
    rintro rfl
    simp [segmentPages] at hpage

namespace Boot

/-- The root table is the last page of the address space, which is the last one below 4 GiB in the
linear window, and no page is left. -/
structure AtEnd (kernel : ℕ) (s : Boot) : Prop where
  noPage : s.memblock.NoPage
  inGiB : InGiB kernel ((2 ^ 20 - 1) * pageSize)
  zero : ∀ i, tables s.mem (2 ^ 20 - 1) i = 0

theorem physical_lastPage (hkernel : kernel < 2 ^ 32) {i : ℕ} (hi : i < pageSize) :
    physical kernel (2 ^ 64 - pageSize + i) =
      if InGiB kernel ((2 ^ 20 - 1) * pageSize) then .ok ((2 ^ 20 - 1) * pageSize + i)
      else .error .pageFault := by
  simp only [pageSize] at hi
  have hptr : 2 ^ 64 - pageSize + i = (2 ^ 20 - 1) * pageSize + i + physVirtOffset := by
    simp only [pageSize, physVirtOffset]
    omega
  rw [hptr, physical_linear hkernel (by simp only [pageSize]; omega)]
  refine if_congr ?_ rfl rfl
  simp only [InGiB, pageSize]
  omega

theorem AtEnd.reserve (h : AtEnd kernel s) {base size : ℕ} (hop : (BootStep.reserve base size).Ok)
    (hstep : s.step kernel rootPa (.reserve base size) = .ok t) : AtEnd kernel t := by
  obtain ⟨mb, hmb, hstep⟩ := exists_of_bind_eq_ok hstep
  cases hstep
  exact ⟨h.noPage.reserveMemory hop hmb, h.inGiB, h.zero⟩

theorem not_conflict_of_earlyAlloc {e : Fault}
    (halloc : mb.earlyAlloc pageSize pageSize = .error e) :
    ¬ e.Conflict := Fault.not_conflict_of_full (Memblock.earlyAlloc_error halloc)

/-- **No page can be mapped**: the entry for a new table cannot hold its address, and the table that
it points to cannot be reached. -/
theorem AtEnd.bumpMap (hkernel : kernel < 2 ^ 32) (h : AtEnd kernel s) {vpn ppn flags : ℕ}
    {size : PageSize} {j i : Fin 512} {p : List (Fin 512)}
    (hpath : (VirtPageNum.indices vpn).take size.targetLevel = j :: p ++ [i]) :
    ∃ e, bumpMap kernel s (2 ^ 64 - pageSize) vpn ppn flags size = .error e ∧ ¬ e.Conflict := by
  have hphys : ∀ k < pageSize, physical kernel (2 ^ 64 - pageSize + k) =
      .ok ((2 ^ 20 - 1) * pageSize + k) := fun k hk => by
    rw [physical_lastPage hkernel hk, if_pos h.inGiB]
  have hslot : 8 * (j : ℕ) < pageSize := by
    have := j.isLt
    simp only [pageSize]
    omega
  have hload : s.load kernel (2 ^ 64 - pageSize + 8 * j) = .ok 0 := by
    rw [load, hphys _ hslot, ok_bind]
    exact congrArg Except.ok (h.zero j)
  have hfar : ¬ InGiB kernel ((2 ^ 44 - 1) * pageSize) := fun hin => by
    have := hin.lt hkernel
    simp only [pageSize] at this
    omega
  rw [PageTable.bumpMap, bumpFindCreatePte, hpath, List.cons_append, bumpFindCreateLoop_cons, hload,
    ok_bind, show isValid 0 = false by decide]
  simp only [Bool.not_false, if_true]
  cases halloc : s.memblock.earlyAlloc pageSize pageSize with
  | error e =>
    simp only [error_bind]
    exact ⟨e, rfl, not_conflict_of_earlyAlloc halloc⟩
  | ok r =>
    obtain ⟨_ | pa, mb⟩ := r
    · simp only [ok_bind, error_bind]
      exact ⟨_, rfl, Fault.not_conflict_unwrapNone⟩
    obtain ⟨rfl, -⟩ := h.noPage.earlyAlloc halloc
    obtain ⟨s₁, hclear⟩ : ∃ s₁, clear kernel ⟨s.mem, mb⟩ (2 ^ 64 - pageSize) = .ok s₁ :=
      ⟨_, by rw [clear, ← Nat.add_zero (2 ^ 64 - pageSize), hphys 0 (by decide), ok_bind]⟩
    have hppn : PhysPageNum.ofPhysAddr (2 ^ 64 - pageSize) = .ok (2 ^ 52 - 1) :=
      PhysPageNum.ofPhysAddr_eq_ok.mpr (by norm_num)
    obtain ⟨s₂, hstore⟩ : ∃ s₂, s₁.store kernel (2 ^ 64 - pageSize + 8 * j)
        (PageTableEntry.new (2 ^ 52 - 1) PTEFlags.v) = .ok s₂ :=
      ⟨_, by rw [store, hphys _ hslot, ok_bind]⟩
    have hnext : PhysAddr.ofPpn (PageTableEntry.ppn (PageTableEntry.new (2 ^ 52 - 1) PTEFlags.v)) =
        (2 ^ 44 - 1) * pageSize := by
      rw [ofPpn_ppn, ppn_new_mod (by decide)]
      norm_num
    rw [ok_bind]
    dsimp only
    rw [hclear, ok_bind, hppn, ok_bind, hstore, ok_bind, hnext]
    rcases bumpFindCreateLoop_cases hkernel (show 2 ^ 44 - 1 < 2 ^ 44 by decide) (s := s₂) (p := p)
      (i := i)
      with ⟨t, c, hmade⟩ | ⟨p₁, k, q, t, c, l, -, hmade, -⟩ | ⟨e, he, hne⟩ | ⟨t, c, hloop, hc, hout⟩
    · exact absurd hmade.inGiB hfar
    · exact absurd hmade.inGiB hfar
    · rw [he]
      exact ⟨e, rfl, fun hconf => hconf.elim hne.1 hne.2⟩
    · rw [hloop, ok_bind]
      dsimp only
      rw [load_eq_error hkernel hc hout]
      exact ⟨_, rfl, Fault.not_conflict_pageFault⟩

theorem AtEnd.map (hkernel : kernel < 2 ^ 32) (h : AtEnd kernel s) {mapType : BootMapType}
    {flags : ℕ} {size : PageSize} (hop : (BootStep.map mapType flags pa size).Ok)
    (hsmall : (BootStep.map mapType flags pa size).Small) :
    ∃ e, s.step kernel (2 ^ 64 - pageSize) (.map mapType flags pa size) = .error e ∧
      ¬ e.Conflict := by
  obtain ⟨p, i, hpath, -, hlevel⟩ := exists_leafPath mapType (pageFloor pa) size
  rw [step_map hop.1]
  cases p with
  | nil =>
    refine absurd hlevel ?_
    cases size with
    | oneGB => exact absurd rfl hsmall
    | fourKB => decide
    | twoMB => decide
  | cons j p => exact h.bumpMap hkernel hpath

theorem AtEnd.not_conflict (hkernel : kernel < 2 ^ 32) (h : AtEnd kernel s) {op : BootStep}
    (hop : op.Ok) (hsmall : op.Small) {e : Fault}
    (he : s.step kernel (2 ^ 64 - pageSize) op = .error e) : ¬ e.Conflict := by
  cases op with
  | reserve base size => exact not_conflict_of_reserve he
  | map mapType flags pa size =>
    obtain ⟨e', he', hne⟩ := h.map hkernel hop hsmall
    cases he'.symm.trans he
    exact hne

/-- **A run from there** consists of reservations. -/
theorem AtEnd.run (hkernel : kernel < 2 ^ 32) (h : AtEnd kernel s) {steps : List BootStep}
    (hok : ∀ op ∈ steps, op.Ok ∧ op.Small)
    (hrun : exec (Boot.step kernel (2 ^ 64 - pageSize)) s steps = .ok t) :
    AtEnd kernel t ∧ ∀ op ∈ steps, op.leaf = none := by
  induction steps generalizing s with
  | nil =>
    cases hrun
    exact ⟨h, by simp⟩
  | cons op steps ih =>
    obtain ⟨s₁, hs₁, hrest⟩ := exec_cons_eq_ok hrun
    obtain ⟨hop, hsmall⟩ := hok op List.mem_cons_self
    cases op with
    | reserve base size =>
      obtain ⟨ht, hleaf⟩ :=
        ih (h.reserve hop hs₁) (fun op hop => hok op (List.mem_cons_of_mem _ hop)) hrest
      exact ⟨ht, List.forall_mem_cons.mpr ⟨rfl, hleaf⟩⟩
    | map mapType flags pa size =>
      obtain ⟨e, he, -⟩ := h.map hkernel hop hsmall
      rw [he] at hs₁
      cases hs₁

end Boot

/-- **The root table** is a page that exists, or no page is left and it is at the end of the address
space. -/
theorem setupRoot_or (hdt : dt.Bounded) (hram : dt.ramBase + dt.ramSize ≤ 2 ^ 38)
    (h : setupRoot image dt m = .ok (rootPa, s)) :
    (∃ root < 2 ^ 44, rootPa = root * pageSize) ∨
      rootPa = 2 ^ 64 - pageSize ∧ Boot.AtEnd image.skernel s := by
  obtain ⟨mb, mb', hmb, halloc, hclear⟩ := setupRoot_cases h
  obtain ⟨R, hd⟩ := setupMemblock_denotes hdt hmb
  obtain ⟨root, hroot⟩ : 2 ^ 12 ∣ rootPa := Memblock.earlyAlloc_dvd (by decide) halloc
  rcases Memblock.earlyAlloc_cases halloc with
    ⟨hnone, -⟩ | ⟨reg, available, allocated, hfind, hreg, hle, hpa, -⟩
  · cases hnone
  by_cases hroom : pageSize ≤ reg.base + reg.size
  · refine .inl ⟨root, ?_, hroot.trans (mul_comm _ _)⟩
    have hend : Memblock.allocBase reg pageSize pageSize + pageSize ≤ reg.base + reg.size :=
      Memblock.allocBase_le (hd.canonical.1.lt reg hreg) hroom
    obtain ⟨hne, hsub⟩ := hd.subset_ram hreg
    have hlast : reg.base + reg.size - 1 < dt.ramBase + dt.ramSize :=
      (hsub ⟨Nat.le_sub_one_of_lt hne, Nat.sub_one_lt_of_lt hne⟩).1.2
    rw [← Option.some.inj hpa] at hend
    simp only [pageSize] at hend
    omega
  · have hsmall := Nat.lt_of_not_le hroom
    have hno := (Memblock.noPage_of_find hd.canonical.1 hfind).mpr hsmall
    obtain ⟨rfl, hno'⟩ := hno.earlyAlloc halloc
    obtain ⟨x, hphys, hs⟩ := exists_of_bind_eq_ok hclear
    have hlast := Boot.physical_lastPage image.skernel_lt (i := 0) (by decide)
    rw [Nat.add_zero, hphys] at hlast
    split at hlast
    case isFalse => cases hlast
    case isTrue hin =>
      have hx : x = (2 ^ 20 - 1) * pageSize := Except.ok.inj hlast
      obtain rfl := Except.ok.inj hs
      refine .inr ⟨rfl, hno', hin, fun i => if_pos ?_⟩
      have := i.isLt
      rw [hx]
      simp only [pageSize]
      omega

/-! ## The panics of the mapping -/

/-- **Each page that the boot gets to** is apart from the pages that are mapped before. -/
def Separate (image : KernelImage) (dt : DeviceTree) (m : Mem) : Prop :=
  ∀ rootPa s pre op post t, setupRoot image dt m = .ok (rootPa, s) →
    bootSteps image dt = pre ++ op :: post →
    exec (Boot.step image.skernel rootPa) s pre = .ok t → ∀ op' ∈ pre, op'.Apart op

/-- **A step that the boot gets to** panics over a page that is mapped exactly if its page is not
apart from those before. -/
theorem step_conflict_iff (hdt : dt.Bounded) (hram : dt.ramBase + dt.ramSize ≤ 2 ^ 38)
    (hroot : setupRoot image dt m = .ok (rootPa, s)) {pre post : List BootStep} {op : BootStep}
    (hsplit : bootSteps image dt = pre ++ op :: post)
    (hrun : exec (Boot.step image.skernel rootPa) s pre = .ok t) :
    (∃ e, t.step image.skernel rootPa op = .error e ∧ e.Conflict) ↔
      ∃ op' ∈ pre, ¬ op'.Apart op := by
  have hmem : ∀ op' ∈ pre, op' ∈ bootSteps image dt := fun op' hop' => by
    rw [hsplit]
    exact List.mem_append_left _ hop'
  have hop : op ∈ bootSteps image dt := by
    rw [hsplit]
    exact List.mem_append_right _ List.mem_cons_self
  rcases setupRoot_or hdt hram hroot with ⟨root, hlt, rfl⟩ | ⟨rfl, hend⟩
  · have htree := (treeOf_setupRoot hdt hlt hroot).run image.skernel_lt
      (fun op' hop' => ok_of_mem_bootSteps hdt (hmem op' hop')) hrun
    rw [List.nil_append] at htree
    exact htree.conflict_iff image.skernel_lt (ok_of_mem_bootSteps hdt hop)
  · obtain ⟨ht, hleaf⟩ := hend.run image.skernel_lt (fun op' hop' =>
      ⟨ok_of_mem_bootSteps hdt (hmem op' hop'), small_of_mem_bootSteps (hmem op' hop')⟩) hrun
    refine iff_of_false ?_ ?_
    · rintro ⟨e, he, hconf⟩
      exact ht.not_conflict image.skernel_lt (ok_of_mem_bootSteps hdt hop)
        (small_of_mem_bootSteps hop) he
        hconf
    · rintro ⟨op', hop', hnot⟩
      refine hnot fun x hx => ?_
      rw [hleaf op' hop'] at hx
      cases hx

theorem not_conflict_of_setupMemblock {e : Fault} (h : setupMemblock image dt = .error e) :
    ¬ e.Conflict := by
  apply Fault.not_conflict_of_full
  rcases cases_of_bind_eq_error h with h | ⟨mb₀, -, h⟩
  · rcases cases_of_bind_eq_error h with h | ⟨available, -, h⟩
    · exact .inl (RegionArray.addRegion_error h)
    · cases h
  rcases cases_of_bind_eq_error h with h | ⟨mb₁, -, h⟩
  · exact Memblock.reserveMemory_error h
  rcases cases_of_bind_eq_error h with h | ⟨mb₂, -, h⟩
  · obtain ⟨pre, r, post, mb, -, -, hr⟩ := exec_eq_error_iff.mp h
    exact Memblock.reserveMemory_error hr
  · exact Memblock.reserveMemory_error h

theorem not_conflict_of_setupRoot {e : Fault} (h : setupRoot image dt m = .error e) :
    ¬ e.Conflict := by
  rcases cases_of_bind_eq_error h with h | ⟨mb, -, h⟩
  · exact not_conflict_of_setupMemblock h
  rcases cases_of_bind_eq_error h with h | ⟨⟨_ | pa, mb'⟩, -, h⟩
  · exact Boot.not_conflict_of_earlyAlloc h
  · cases h
    exact Fault.not_conflict_unwrapNone
  rcases cases_of_bind_eq_error h with h | ⟨s, -, h⟩
  · rcases cases_of_bind_eq_error h with h | ⟨x, -, h⟩
    · rw [Boot.physical] at h
      split at h <;> cases h
      exact Fault.not_conflict_pageFault
    · cases h
  · cases h

/-- The panics come from the steps. -/
theorem setup_conflict_iff {sizeOfPage : ℕ} {e : Fault} (he : e.Conflict) :
    setupMemoryAndMapping image dt sizeOfPage m = .error e ↔
      ∃ rootPa s, setupRoot image dt m = .ok (rootPa, s) ∧
        exec (Boot.step image.skernel rootPa) s (bootSteps image dt) = .error e := by
  rw [setupMemoryAndMapping_eq]
  constructor
  · intro h
    rcases cases_of_bind_eq_error h with h | ⟨⟨rootPa, s⟩, hroot, h⟩
    · exact absurd he (not_conflict_of_setupRoot h)
    rcases cases_of_bind_eq_error h with h | ⟨s', -, h⟩
    · exact ⟨rootPa, s, hroot, h⟩
    exfalso
    rcases cases_of_bind_eq_error h with h | ⟨rootPpn, -, h⟩
    · rw [PhysPageNum.ofPhysAddr] at h
      split at h <;> cases h
      rcases he with he | he <;> cases he
    rcases cases_of_bind_eq_error h with h | ⟨⟨_ | pa, mb⟩, -, h⟩
    · rcases Memblock.earlyAlloc_error h with rfl | rfl <;> rcases he with he | he <;> cases he
    · cases h
      rcases he with he | he <;> cases he
    · cases h
  · rintro ⟨rootPa, s, hroot, h⟩
    rw [hroot, ok_bind]
    dsimp only
    rw [h, error_bind]

/-- **When the boot panics because a page is mapped**: when it gets to a page that is not apart from
the pages that are mapped before. -/
theorem conflict_iff_separate (hdt : dt.Bounded) (hram : dt.ramBase + dt.ramSize ≤ 2 ^ 38)
    (sizeOfPage : ℕ) :
    (∀ e, setupMemoryAndMapping image dt sizeOfPage m = .error e → ¬ e.Conflict) ↔
      Separate image dt m := by
  constructor
  · intro h rootPa s pre op post t hroot hsplit hrun op' hop'
    by_contra hnot
    obtain ⟨e, he, hconf⟩ := (step_conflict_iff hdt hram hroot hsplit hrun).mpr ⟨op', hop', hnot⟩
    refine h e ((setup_conflict_iff hconf).mpr ⟨rootPa, s, hroot, ?_⟩) hconf
    exact exec_eq_error_iff.mpr ⟨pre, op, post, t, hsplit, hrun, he⟩
  · intro h e he hconf
    obtain ⟨rootPa, s, hroot, hexec⟩ := (setup_conflict_iff hconf).mp he
    obtain ⟨pre, op, post, t, hsplit, hrun, hstep⟩ := exec_eq_error_iff.mp hexec
    obtain ⟨op', hop', hnot⟩ := (step_conflict_iff hdt hram hroot hsplit hrun).mp ⟨e, hstep, hconf⟩
    exact hnot (h rootPa s pre op post t hroot hsplit hrun op' hop')

/-! ## The linear map -/

/-- The ranges that are mapped linearly: RAM and the devices. -/
def DeviceTree.ranges (dt : DeviceTree) : List (ℕ × ℕ) := (dt.ramBase, dt.ramSize) :: dt.devices

/-- The physical pages of RAM and of the devices. -/
def DeviceTree.physPages (dt : DeviceTree) : Set ℕ :=
  {n | ∃ r ∈ dt.ranges, ∃ x, r.1 ≤ x ∧ x < r.1 + r.2 ∧ pageFloor x = n}

/-- The pages of the segments of the kernel, which are mapped at their physical addresses. -/
def KernelImage.identityPages (image : KernelImage) : Set ℕ :=
  {n | ∃ seg ∈ image.segments, pageFloor seg.2.1 ≤ n ∧ n < pageCeil seg.2.2}

/-- **The linear map is well defined**, and the boot finds no page mapped. -/
structure LinearMapDefined (image : KernelImage) (dt : DeviceTree) (sizeOfPage : ℕ) (m : Mem) :
    Prop where
  no_overflow : ∀ n ∈ dt.physPages, n * pageSize + physVirtOffset < 2 ^ 64
  undo : ∀ n ∈ dt.physPages, virtToPhys (physToVirt (n * pageSize)) = n * pageSize
  injective : ∀ n ∈ dt.physPages, ∀ n' ∈ dt.physPages,
    VirtPageNum.indices (BootMapType.linear.page n) =
      VirtPageNum.indices (BootMapType.linear.page n') →
      n = n'
  apart : ∀ n ∈ dt.physPages, ∀ n' ∈ image.identityPages,
    VirtPageNum.indices (BootMapType.linear.page n) ≠
      VirtPageNum.indices (BootMapType.identical.page n')
  no_conflict : ∀ e, setupMemoryAndMapping image dt sizeOfPage m = .error e → ¬ e.Conflict

/-- The indices of a page are those of 27 bits. -/
theorem indices_page_eq_iff {mapType mapType' : BootMapType} {n n' : ℕ} :
    VirtPageNum.indices (mapType.page n) = VirtPageNum.indices (mapType'.page n') ↔
      mapType.key n = mapType'.key n' := by
  rw [← mapType.page_mod, ← mapType'.page_mod]
  generalize mapType.page n = v
  generalize mapType'.page n' = v'
  simp only [VirtPageNum.indices, List.cons.injEq, Fin.ext_iff, Fin.val_ofNat, and_true,
    Nat.shiftRight_eq_div_pow]
  omega

/-- The sum does not overflow exactly for ranges that end by 4 GiB. -/
theorem DeviceTree.no_overflow_iff :
    (∀ n ∈ dt.physPages, n * pageSize + physVirtOffset < 2 ^ 64) ↔
      ∀ r ∈ dt.ranges, 0 < r.2 → r.1 + r.2 ≤ 2 ^ 32 := by
  constructor
  · intro h r hr hpos
    have hlast := h _ ⟨r, hr, r.1 + r.2 - 1, by omega, by omega, rfl⟩
    simp only [pageFloor, pageSize, physVirtOffset] at hlast
    omega
  · rintro h n ⟨r, hr, x, hle, hlt, rfl⟩
    have hend := h r hr (by omega)
    simp only [pageFloor, pageSize, physVirtOffset]
    omega

theorem KernelImage.lt_of_mem_identityPages {n : ℕ} (h : n ∈ image.identityPages) : n < 2 ^ 20 := by
  obtain ⟨seg, hseg, -, hlt⟩ := h
  exact hlt.trans_le (pageCeil_le (le_of_mem_segments hseg).2)

/-- **The linear map is well defined** exactly for RAM and devices that end by 4 GiB, if the pages
that the boot gets to are apart. Pages of the linear window have root indices from 508 on, and the
others below 4. -/
theorem linearMapDefined_iff (image : KernelImage) (dt : DeviceTree) (hdt : dt.Bounded)
    (hend : ∀ r ∈ dt.ranges, r.1 + r.2 ≤ 2 ^ 38) (sizeOfPage : ℕ) (m : Mem) :
    LinearMapDefined image dt sizeOfPage m ↔
      (∀ r ∈ dt.ranges, 0 < r.2 → r.1 + r.2 ≤ 2 ^ 32) ∧ Separate image dt m := by
  have hram : dt.ramBase + dt.ramSize ≤ 2 ^ 38 := hend _ List.mem_cons_self
  rw [← conflict_iff_separate hdt hram sizeOfPage, ← dt.no_overflow_iff]
  constructor
  · exact fun h => ⟨h.no_overflow, h.no_conflict⟩
  · rintro ⟨hover, hconf⟩
    have hlt : ∀ n ∈ dt.physPages, n < 2 ^ 20 := by
      intro n hn
      have := hover n hn
      simp only [pageSize, physVirtOffset] at this
      omega
    refine ⟨hover, fun n hn => ?_, fun n hn n' hn' heq => ?_, fun n hn n' hn' heq => ?_, hconf⟩
    · have := hlt n hn
      exact virtToPhys_physToVirt (by simp only [pageSize]; omega)
    · have := hlt n hn
      have := hlt n' hn'
      rw [indices_page_eq_iff] at heq
      simp only [BootMapType.key] at heq
      omega
    · have := hlt n hn
      have := KernelImage.lt_of_mem_identityPages hn'
      rw [indices_page_eq_iff] at heq
      simp only [BootMapType.key] at heq
      omega

/-- In a layout below 4 GiB whose ranges share no pages, all pages are apart. -/
theorem BootLayout.separate (h : BootLayout image dt) : Separate image dt m := by
  intro rootPa s pre op post t _ hsplit _ op' hop'
  have hpair := h.pairwise
  rw [hsplit] at hpair
  exact (List.pairwise_append.mp hpair).2.2 op' hop' op List.mem_cons_self

/-- One device and 16 MiB of RAM. -/
theorem linearMapDefined_iff_sample :
    (sampleTree [(0x10000000, 0x100)]).Bounded ∧
    (∀ r ∈ (sampleTree [(0x10000000, 0x100)]).ranges, r.1 + r.2 ≤ 2 ^ 38) ∧
    LinearMapDefined sampleImage (sampleTree [(0x10000000, 0x100)]) 40 (fun _ => 0) := by
  have hdt := layout_sampleTree.bounded
  have hranges : (sampleTree [(0x10000000, 0x100)]).ranges =
      [(0x80000000, 0x1000000), (0x10000000, 0x100)] := by decide
  have hend : ∀ r ∈ (sampleTree [(0x10000000, 0x100)]).ranges, r.1 + r.2 ≤ 2 ^ 38 := by
    rw [hranges]
    decide
  refine ⟨hdt, hend, (linearMapDefined_iff _ _ hdt hend 40 _).mpr ⟨?_, layout_sampleTree.separate⟩⟩
  rw [hranges]
  decide

/-- A device 4 GiB above the text of the kernel: its address in the linear window wraps to that of
the text, so the text cannot be mapped there. -/
theorem device_over_text :
    (sampleTree [(0x180200000, 0x1000)]).Bounded ∧
    (∀ r ∈ (sampleTree [(0x180200000, 0x1000)]).ranges, r.1 + r.2 ≤ 2 ^ 38) ∧
    setupMemoryAndMapping sampleImage (sampleTree [(0x180200000, 0x1000)]) 40 (fun _ => 0) =
      .error .mappedBefore ∧
    ¬ LinearMapDefined sampleImage (sampleTree [(0x180200000, 0x1000)]) 40 (fun _ => 0) := by
  have hsetup :
      setupMemoryAndMapping sampleImage (sampleTree [(0x180200000, 0x1000)]) 40 (fun _ => 0) =
      .error .mappedBefore := eq_error_of_map (f := fun _ => ()) (by decide +kernel)
  refine ⟨⟨by decide, by decide, by decide, by decide⟩, ?_, hsetup, fun h => ?_⟩
  · rw [show (sampleTree [(0x180200000, 0x1000)]).ranges =
      [(0x80000000, 0x1000000), (0x180200000, 0x1000)] by decide]
    decide
  · exact h.no_conflict _ hsetup (.inl rfl)

end CharlotteOs
