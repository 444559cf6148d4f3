import CharlotteOs.Mm.BootSpace

/-!
# The address space of the kernel

What `setup_memory_and_mapping` and `unmap_temp_identity_area` are for: in the linear window the
text of the kernel can be executed, its constants can be read, and the rest of RAM and the devices
can be written, each page at its own physical address, and nothing else is mapped. So no page can be
both written and executed.

This is what the final page table says for every layout below 4 GiB in which the ranges do not share
pages, if the boot gets that far. It does exactly when `MEMBLOCK` serves every call. There has to be
room in its arrays, and memory; but also each page that it hands out for a table has to be in the
gigabyte that the kernel is in, although it hands out the highest page first.

## Main definitions

* `BootLayout`: the layouts in question
* `kernelSpace`, `Exact`: what the final page table should say
* `Served`: `MEMBLOCK` serves every call of the boot

## Main results

* `BootLayout.pairwise`: no two steps of the boot map the same page
* `kernelSpace_eq_some`: the pages of the linear window and their flags
* `boot_exact_iff`: when the boot ends with the address space that it should
-/

namespace CharlotteOs

open FallibleRun TableTree PageTableEntry PageTable

/-! ## Layouts -/

/-- The pages of a range, given by its base and its size. -/
def rangePages (r : ℕ × ℕ) : Set ℕ := Set.Ico (pageFloor r.1) (pageCeil (r.1 + r.2))

/-- The ranges of nodes that are mapped. -/
def DeviceTree.devices (dt : DeviceTree) : List (ℕ × ℕ) :=
  dt.nodes.filter fun r =>
    0 < r.2 ∧ ¬ (dt.ramBase ≤ r.1 ∧ (r.1 + r.2) % 2 ^ 64 ≤ dt.ramEnd)

/-- **A boot layout** below 4 GiB: the kernel is in RAM, and the devices share no pages with each
other and with RAM. -/
structure BootLayout (image : KernelImage) (dt : DeviceTree) : Prop where
  ram : dt.ramBase + dt.ramSize ≤ 2 ^ 32
  kernel : dt.ramBase ≤ image.skernel ∧ image.ekernel ≤ dt.ramBase + dt.ramSize
  devices : ∀ r ∈ dt.devices, r.1 + r.2 ≤ 2 ^ 32 ∧
    Disjoint (rangePages r) (rangePages (dt.ramBase, dt.ramSize))
  apart : dt.devices.Pairwise fun r r' => Disjoint (rangePages r) (rangePages r')
  nodes : ∀ r ∈ dt.nodes, r.1 + r.2 < 2 ^ 64
  reservations : ∀ r ∈ dt.reservations, r.1 + r.2 < 2 ^ 64
  dtb : dt.dtbAddr + dt.totalSize < 2 ^ 64

variable {image : KernelImage} {dt : DeviceTree} {m m' : Mem} {root : ℕ} {s : Boot}

theorem DeviceTree.mem_devices {r : ℕ × ℕ} : r ∈ dt.devices ↔ r ∈ dt.nodes ∧ 0 < r.2 ∧
    ¬ (dt.ramBase ≤ r.1 ∧ (r.1 + r.2) % 2 ^ 64 ≤ dt.ramEnd) := by
  rw [DeviceTree.devices, List.mem_filter, decide_eq_true_iff]

/-- Segments of nodes are those of devices. -/
theorem nodeRange_eq_segment (hlt : ∀ r ∈ dt.nodes, r.1 + r.2 < 2 ^ 64) {r : ℕ × ℕ}
    (hr : r ∈ dt.nodes) {mapType : BootMapType} {flags startAddr endAddr : ℕ} :
    nodeRange dt r = some (.segment mapType flags startAddr endAddr) ↔ r ∈ dt.devices ∧
      mapType = .linear ∧ flags = PTEFlags.r ||| PTEFlags.w ∧ startAddr = r.1 ∧
      endAddr = r.1 + r.2 := by
  rw [nodeRange_eq_some, DeviceTree.mem_devices, Nat.mod_eq_of_lt (hlt r hr)]
  constructor
  · rintro ⟨hpos, ⟨-, heq⟩ | ⟨hout, heq⟩⟩
    · cases heq
    · cases heq
      exact ⟨⟨hr, hpos, hout⟩, rfl, rfl, rfl, rfl⟩
  · rintro ⟨⟨-, hpos, hout⟩, rfl, rfl, rfl, rfl⟩
    exact ⟨hpos, .inr ⟨hout, rfl⟩⟩

namespace BootLayout

theorem bounded (h : BootLayout image dt) : dt.Bounded :=
  ⟨h.ram.trans_lt (by decide), h.reservations, h.dtb, h.nodes⟩

theorem ramEnd_eq (h : BootLayout image dt) : dt.ramEnd = dt.ramBase + dt.ramSize :=
  Nat.mod_eq_of_lt h.bounded.ram

/-- The page boundaries of the kernel and RAM, in order. -/
theorem boundaries (h : BootLayout image dt) :
    pageFloor dt.ramBase ≤ pageFloor image.stext ∧
      pageFloor image.stext ≤ pageCeil image.etext ∧
      pageCeil image.etext ≤ pageCeil image.erodata ∧
      pageCeil image.erodata ≤ pageCeil image.edata ∧
      pageCeil image.edata ≤ pageCeil image.ebss ∧
      pageCeil image.ebss ≤ pageCeil (dt.ramBase + dt.ramSize) := by
  obtain ⟨h₁, h₂, h₃, h₄⟩ := image.boundaries
  exact ⟨Nat.div_le_div_right h.kernel.1, h₁, h₂, h₃, h₄, pageCeil_mono h.kernel.2⟩

end BootLayout

/-! ## Ranges that share no pages -/

/-- RAM before the kernel ends where the text begins. -/
theorem pageCeil_skernel (image : KernelImage) :
    pageCeil image.skernel = pageFloor image.stext := by
  obtain ⟨n, hn⟩ := image.aligned
  rw [KernelImage.skernel, hn]
  simp only [pageCeil, pageFloor, pageSize]
  omega

theorem pageFloor_alignUp_ekernel (image : KernelImage) :
    pageFloor (alignUp image.ekernel pageSize) = pageCeil image.ebss := by
  rw [alignUp_page image.ekernel_lt.le, pageFloor, Nat.mul_div_cancel _ (by decide)]
  rfl

/-- The ranges of RAM are apart: the segments of the kernel follow each other, and the rest of RAM
is before them and after them. -/
theorem pairwise_ramRanges (image : KernelImage) (dt : DeviceTree) :
    (ramRanges image dt).Pairwise BootRange.Apart := by
  have hskernel := pageCeil_skernel image
  have hekernel := pageFloor_alignUp_ekernel image
  rw [ramRanges, List.pairwise_append, List.pairwise_flatMap]
  refine ⟨⟨fun seg _ => ?_, ?_⟩, ?_, ?_⟩
  · rw [List.pairwise_pair]
    intro heq
    cases heq
  · refine image.pairwise_segments.imp fun {seg seg'} hle range hrange range' hrange' => ?_
    simp only [List.mem_cons, List.not_mem_nil, or_false] at hrange hrange'
    rcases hrange with rfl | rfl <;> rcases hrange' with rfl | rfl <;>
      exact BootRange.apart_of_le hle
  · obtain ⟨h₁, h₂, h₃, h₄⟩ := image.boundaries
    rw [List.pairwise_pair]
    apply BootRange.Apart.symm
    apply BootRange.apart_of_le
    rw [hskernel, hekernel]
    exact ((h₁.trans h₂).trans h₃).trans h₄
  · intro range hrange range' hrange'
    obtain ⟨seg, hseg, hrange⟩ := List.mem_flatMap.mp hrange
    obtain ⟨hfirst, hlast⟩ := KernelImage.bounds_of_mem_segments hseg
    simp only [List.mem_cons, List.not_mem_nil, or_false] at hrange hrange'
    rcases hrange' with rfl | rfl
    · rw [← hekernel] at hlast
      rcases hrange with rfl | rfl <;> exact BootRange.apart_of_le hlast
    · rw [← hskernel] at hfirst
      rcases hrange with rfl | rfl <;> exact (BootRange.apart_of_le hfirst).symm

namespace BootLayout

theorem low (h : BootLayout image dt) {range : BootRange} (hrange : range ∈ bootRanges image dt) :
    range.Low := by
  cases range with
  | reserve base size => trivial
  | segment mapType flags startAddr endAddr =>
    have hram := h.ram
    have hkernel := h.kernel
    rcases mem_bootRanges.mp hrange with ⟨r, hr, heq⟩ | hmem
    · obtain ⟨hdev, -, -, rfl, rfl⟩ := (nodeRange_eq_segment h.nodes hr).mp heq
      have hend := (h.devices r hdev).1
      exact ⟨(Nat.le_add_right _ _).trans hend, hend⟩
    · rcases mem_ramRanges.mp hmem with ⟨seg, hseg, heq | heq⟩ | heq | heq <;> cases heq
      · obtain ⟨hle, hend⟩ := KernelImage.le_of_mem_segments hseg
        exact ⟨hle.trans hend, hend⟩
      · obtain ⟨hle, hend⟩ := KernelImage.le_of_mem_segments hseg
        exact ⟨hle.trans hend, hend⟩
      · refine ⟨?_, h.ramEnd_eq ▸ h.ram⟩
        rw [alignUp_page image.ekernel_lt.le]
        have := pageCeil_le image.ekernel_lt.le
        simp only [pageSize]
        omega
      · exact ⟨(Nat.le_add_right _ _).trans hram, image.skernel_lt.le⟩

/-- A range of RAM lies in RAM. -/
theorem subset_ram (h : BootLayout image dt) {mapType : BootMapType} {flags startAddr endAddr : ℕ}
    (hrange : .segment mapType flags startAddr endAddr ∈ ramRanges image dt) :
    pageFloor dt.ramBase ≤ pageFloor startAddr ∧
      pageCeil endAddr ≤ pageCeil (dt.ramBase + dt.ramSize) := by
  obtain ⟨h₁, h₂, h₃, h₄, h₅, h₆⟩ := h.boundaries
  rcases mem_ramRanges.mp hrange with ⟨seg, hseg, hsegment⟩ | heq | heq
  · obtain ⟨rfl, rfl⟩ : startAddr = seg.2.1 ∧ endAddr = seg.2.2 := by
      rcases hsegment with heq | heq <;> cases heq <;> exact ⟨rfl, rfl⟩
    obtain ⟨hfirst, hlast⟩ := KernelImage.bounds_of_mem_segments hseg
    exact ⟨h₁.trans hfirst, hlast.trans h₆⟩
  · cases heq
    rw [pageFloor_alignUp_ekernel, h.ramEnd_eq]
    omega
  · cases heq
    rw [pageCeil_skernel]
    omega

/-- The ranges of a boot are apart. -/
theorem pairwise_bootRanges (h : BootLayout image dt) :
    (bootRanges image dt).Pairwise BootRange.Apart := by
  rw [bootRanges, List.pairwise_append]
  refine ⟨?_, pairwise_ramRanges image dt, ?_⟩
  · rw [List.pairwise_filterMap]
    refine ((List.pairwise_filter.mp h.apart).imp_of_mem ?_)
    intro r r' hr hr' hdisjoint range hrange range' hrange'
    cases range with
    | reserve base size => trivial
    | segment mapType flags startAddr endAddr =>
      cases range' with
      | reserve base size => trivial
      | segment mapType' flags' startAddr' endAddr' =>
        obtain ⟨hdev, -, -, rfl, rfl⟩ := (nodeRange_eq_segment h.nodes hr).mp hrange
        obtain ⟨hdev', -, -, rfl, rfl⟩ := (nodeRange_eq_segment h.nodes hr').mp hrange'
        obtain ⟨-, hpos, hout⟩ := DeviceTree.mem_devices.mp hdev
        obtain ⟨-, hpos', hout'⟩ := DeviceTree.mem_devices.mp hdev'
        exact fun _ => hdisjoint (decide_eq_true ⟨hpos, hout⟩) (decide_eq_true ⟨hpos', hout'⟩)
  · intro range hrange range' hrange'
    obtain ⟨r, hr, heq⟩ := List.mem_filterMap.mp hrange
    cases range with
    | reserve base size => trivial
    | segment mapType flags startAddr endAddr =>
      cases range' with
      | reserve base size => trivial
      | segment mapType' flags' startAddr' endAddr' =>
        obtain ⟨hdev, -, -, rfl, rfl⟩ := (nodeRange_eq_segment h.nodes hr).mp heq
        obtain ⟨hlow, hhigh⟩ := h.subset_ram hrange'
        exact fun _ => (h.devices r hdev).2.mono_right (Set.Ico_subset_Ico hlow hhigh)

/-- **No two steps of the boot map the same page** in the same way. -/
theorem pairwise (h : BootLayout image dt) : (bootSteps image dt).Pairwise BootStep.Apart := by
  rw [bootSteps_eq, List.pairwise_flatMap]
  refine ⟨fun range hrange => BootRange.pairwise_steps (h.low hrange), ?_⟩
  refine h.pairwise_bootRanges.imp_of_mem fun {range range'} hrange hrange' hapart => ?_
  exact hapart.steps (h.low hrange) (h.low hrange')

end BootLayout

/-! ## What the address space should be -/

/-- The flags of a physical page in the linear window: the text of the kernel can be executed, its
constants can be read, and the rest of RAM and the devices can be written. -/
def kernelSpace (image : KernelImage) (dt : DeviceTree) (n : ℕ) : Option ℕ :=
  if pageFloor image.stext ≤ n ∧ n < pageCeil image.etext then some (PTEFlags.r ||| PTEFlags.x)
  else if pageFloor image.srodata ≤ n ∧ n < pageCeil image.erodata then some PTEFlags.r
  else if ∃ r ∈ (dt.ramBase, dt.ramSize) :: dt.devices, pageFloor r.1 ≤ n ∧ n < pageCeil (r.1 + r.2)
  then some (PTEFlags.r ||| PTEFlags.w)
  else none

/-- The physical address and the flags that a virtual address should have: only the linear window is
mapped. -/
def kernelTranslation (image : KernelImage) (dt : DeviceTree) (va : ℕ) : Option (ℕ × ℕ) :=
  if physVirtOffset ≤ va then
    (kernelSpace image dt ((va - physVirtOffset) / pageSize)).map fun flags =>
      (va - physVirtOffset, flags ||| PTEFlags.v)
  else none

/-- A page that is mapped in the linear window, in terms of ranges and of steps. -/
theorem exists_linear_iff (h : BootLayout image dt) {flags n : ℕ} :
    (∃ startAddr endAddr, .segment .linear flags startAddr endAddr ∈ bootRanges image dt ∧
        pageFloor startAddr ≤ n ∧ n < pageCeil endAddr) ↔
      ∃ k size, .map .linear flags (k * pageSize) size ∈ bootSteps image dt ∧ size.pages ∣ k ∧
        k + size.pages ≤ 2 ^ 20 ∧ k ≤ n ∧ n < k + size.pages := by
  constructor
  · rintro ⟨startAddr, endAddr, hrange, hstart, hend⟩
    obtain ⟨hlow, hlow'⟩ := h.low hrange
    have htiles := segmentPages_tiles hlow hlow' (by omega)
    obtain ⟨k, size, hmem, hk, hn⟩ := htiles.cover hstart hend
    obtain ⟨k', hk', hdvd, -, hceil⟩ := htiles.exists_of_mem hmem
    obtain rfl := Nat.eq_of_mul_eq_mul_right (by decide) hk'
    exact ⟨k, size, mem_bootSteps_map.mpr ⟨startAddr, endAddr, hrange, hmem⟩, hdvd,
      hceil.trans (pageCeil_le hlow'), hk, hn⟩
  · rintro ⟨k, size, hmem, -, -, hk, hn⟩
    obtain ⟨startAddr, endAddr, hrange, hpage⟩ := mem_bootSteps_map.mp hmem
    obtain ⟨hlow, hlow'⟩ := h.low hrange
    obtain ⟨k', hk', -, hstart, hend⟩ := exists_of_mem_segmentPages hlow hlow' hpage
    obtain rfl := Nat.eq_of_mul_eq_mul_right (by decide) hk'
    exact ⟨startAddr, endAddr, hrange, by omega, by omega⟩

/-- The ranges that are mapped in the linear window. -/
theorem mem_bootRanges_linear (h : BootLayout image dt) {flags startAddr endAddr : ℕ} :
    .segment .linear flags startAddr endAddr ∈ bootRanges image dt ↔
      (∃ r ∈ dt.devices, flags = PTEFlags.r ||| PTEFlags.w ∧ startAddr = r.1 ∧
        endAddr = r.1 + r.2) ∨
      (flags, startAddr, endAddr) ∈ image.segments ∨
      (flags = PTEFlags.r ||| PTEFlags.w ∧ startAddr = alignUp image.ekernel pageSize ∧
        endAddr = dt.ramBase + dt.ramSize) ∨
      (flags = PTEFlags.r ||| PTEFlags.w ∧ startAddr = dt.ramBase ∧ endAddr = image.skernel) := by
  rw [mem_bootRanges, mem_ramRanges, h.ramEnd_eq]
  constructor
  · rintro (⟨r, hr, heq⟩ | ⟨seg, hseg, heq | heq⟩ | heq | heq)
    · obtain ⟨hdev, -, rfl, rfl, rfl⟩ := (nodeRange_eq_segment h.nodes hr).mp heq
      exact .inl ⟨r, hdev, rfl, rfl, rfl⟩
    · cases heq
      exact .inr (.inl hseg)
    · cases heq
    · cases heq
      exact .inr (.inr (.inl ⟨rfl, rfl, rfl⟩))
    · cases heq
      exact .inr (.inr (.inr ⟨rfl, rfl, rfl⟩))
  · rintro (⟨r, hdev, rfl, rfl, rfl⟩ | hseg | ⟨rfl, rfl, rfl⟩ | ⟨rfl, rfl, rfl⟩)
    · have hr := (DeviceTree.mem_devices.mp hdev).1
      exact .inl ⟨r, hr, (nodeRange_eq_segment h.nodes hr).mpr ⟨hdev, rfl, rfl, rfl, rfl⟩⟩
    · exact .inr (.inl ⟨_, hseg, .inl rfl⟩)
    · exact .inr (.inr (.inl rfl))
    · exact .inr (.inr (.inr rfl))

/-- **The pages of the linear window and their flags** are those of the ranges that are mapped. The
rest of RAM is before the kernel, its data or its stack, or after it, and no page of a device is in
RAM. -/
theorem kernelSpace_eq_some (h : BootLayout image dt) {flags n : ℕ} :
    kernelSpace image dt n = some flags ↔
      ∃ startAddr endAddr, .segment .linear flags startAddr endAddr ∈ bootRanges image dt ∧
        pageFloor startAddr ≤ n ∧ n < pageCeil endAddr := by
  obtain ⟨h₁, h₂, h₃, h₄, h₅, h₆⟩ := h.boundaries
  have hskernel := pageCeil_skernel image
  have hekernel := pageFloor_alignUp_ekernel image
  obtain ⟨hrodata, hdata, hbss⟩ := image.pageFloor_starts
  rw [kernelSpace, hrodata]
  constructor
  · intro hspace
    split at hspace
    · rename_i htext
      cases hspace
      exact ⟨_, _, (mem_bootRanges_linear h).mpr (.inr (.inl List.mem_cons_self)), htext⟩
    · split at hspace
      · rename_i hconst
        cases hspace
        rw [← hrodata] at hconst
        exact ⟨_, _, (mem_bootRanges_linear h).mpr (.inr (.inl (by simp [KernelImage.segments]))),
          hconst⟩
      · split at hspace
        · rename_i htext hconst hrest
          cases hspace
          obtain ⟨r, hr, hin⟩ := hrest
          rcases List.mem_cons.mp hr with rfl | hdev
          · dsimp only at hin
            by_cases hbefore : n < pageFloor image.stext
            · exact ⟨_, _, (mem_bootRanges_linear h).mpr (.inr (.inr (.inr ⟨rfl, rfl, rfl⟩))),
                hin.1, hskernel ▸ hbefore⟩
            by_cases hdata' : n < pageCeil image.edata
            · exact ⟨image.sdata, image.edata, (mem_bootRanges_linear h).mpr
                (.inr (.inl (by simp [KernelImage.segments]))), by omega, hdata'⟩
            by_cases hbss' : n < pageCeil image.ebss
            · exact ⟨image.sbssWithStack, image.ebss, (mem_bootRanges_linear h).mpr
                (.inr (.inl (by simp [KernelImage.segments]))), by omega, hbss'⟩
            · exact ⟨_, _, (mem_bootRanges_linear h).mpr (.inr (.inr (.inl ⟨rfl, rfl, rfl⟩))),
                by omega, hin.2⟩
          · exact ⟨_, _, (mem_bootRanges_linear h).mpr (.inl ⟨r, hdev, rfl, rfl, rfl⟩), hin⟩
        · cases hspace
  · rintro ⟨startAddr, endAddr, hrange, hstart, hend⟩
    have hram : ∀ {n}, pageFloor dt.ramBase ≤ n → n < pageCeil (dt.ramBase + dt.ramSize) →
        ∃ r ∈ (dt.ramBase, dt.ramSize) :: dt.devices, pageFloor r.1 ≤ n ∧
          n < pageCeil (r.1 + r.2) :=
      fun hlow hhigh => ⟨_, List.mem_cons_self, hlow, hhigh⟩
    rcases (mem_bootRanges_linear h).mp hrange with
      ⟨r, hdev, rfl, rfl, rfl⟩ | hseg | ⟨rfl, rfl, rfl⟩ | ⟨rfl, rfl, rfl⟩
    · have hout : n ∉ rangePages (dt.ramBase, dt.ramSize) := fun hin =>
        Set.disjoint_left.mp (h.devices r hdev).2 ⟨hstart, hend⟩ hin
      rw [rangePages, Set.mem_Ico] at hout
      dsimp only at hout
      rw [if_neg (by omega), if_neg (by omega),
        if_pos ⟨r, List.mem_cons_of_mem _ hdev, hstart, hend⟩]
    · simp only [KernelImage.segments, List.mem_cons, List.not_mem_nil, or_false,
        Prod.mk.injEq] at hseg
      rcases hseg with ⟨rfl, rfl, rfl⟩ | ⟨rfl, rfl, rfl⟩ | ⟨rfl, rfl, rfl⟩ | ⟨rfl, rfl, rfl⟩
      · rw [if_pos ⟨hstart, hend⟩]
      · rw [if_neg (by omega), if_pos ⟨by omega, hend⟩]
      · rw [if_neg (by omega), if_neg (by omega), if_pos (hram (by omega) (by omega))]
      · rw [if_neg (by omega), if_neg (by omega), if_pos (hram (by omega) (by omega))]
    · rw [if_neg (by omega), if_neg (by omega), if_pos (hram (by omega) (by omega))]
    · rw [if_neg (by omega), if_neg (by omega), if_pos (hram (by omega) (by omega))]

/-- A key is in the page of the linear window whose path it begins with. -/
theorem linear_prefix_iff {n v : ℕ} {size : PageSize} (hdvd : size.pages ∣ n)
    (hn : n + size.pages ≤ 2 ^ 20) (hv : v < 2 ^ 52)
    (hcanon : v / 2 ^ 26 = 0 ∨ v / 2 ^ 26 = 2 ^ 26 - 1) :
    leafPath .linear n size <+: VirtPageNum.indices v ↔
      n + (2 ^ 52 - 2 ^ 20) ≤ v ∧ v < n + (2 ^ 52 - 2 ^ 20) + size.pages := by
  rw [leafPath_prefix_indices]
  obtain ⟨k, rfl⟩ := hdvd
  cases size <;> simp only [BootMapType.key, PageSize.pages] at * <;> omega

/-- The page of a key, from the page of its leaf. -/
theorem add_mod_pages {k n : ℕ} {size : PageSize} (hdvd : size.pages ∣ k) (hk : k ≤ n)
    (hn : n < k + size.pages) : k + (n + (2 ^ 52 - 2 ^ 20)) % size.pages = n := by
  obtain ⟨j, rfl⟩ := hdvd
  cases size <;> simp only [PageSize.pages] at * <;> omega

section Walk

variable (h : BootLayout image dt) (hleaves : leaves decode (tables m) root = linearLeaves image dt)
  {n v flags : ℕ}

include h hleaves

/-- A page of the linear window is found. -/
theorem walk_of_kernelSpace (hn : n < 2 ^ 20) (hspace : kernelSpace image dt n = some flags) :
    walk (tables m) root (n + (2 ^ 52 - 2 ^ 20)) = some (n, flags ||| PTEFlags.v) := by
  obtain ⟨k, size, hmem, hdvd, hlt, hk, hnk⟩ :=
    (exists_linear_iff h).mp ((kernelSpace_eq_some h).mp hspace)
  have hfloor : pageFloor (k * pageSize) = k := Nat.mul_div_cancel k (by decide)
  have hleaf : (leafPath .linear k size, PageTableEntry.new k (flags ||| PTEFlags.v)) ∈
      leaves decode (tables m) root := by
    rw [hleaves]
    exact ⟨flags, k * pageSize, size, hmem, by rw [hfloor]⟩
  obtain ⟨rest, hrest⟩ := (linear_prefix_iff hdvd hlt (v := n + (2 ^ 52 - 2 ^ 20)) (by omega)
    (by omega)).mpr (by omega)
  have hpages := pages_of_take_append hrest.symm
  have hwalk := walk_of_leaf (by omega) (kernelFlags_of_mem hmem).leaf
    (hpages ▸ hdvd) (lookup_eq_some_iff.mpr ⟨_, hrest.symm, hleaf⟩)
  rw [hwalk, hpages, add_mod_pages hdvd hk hnk]

/-- Any other page is not found: its key would be in a page of the linear window. -/
theorem walk_eq_none (hv : v < 2 ^ 52) (hcanon : v / 2 ^ 26 = 0 ∨ v / 2 ^ 26 = 2 ^ 26 - 1)
    (hspace : ∀ n, v = n + (2 ^ 52 - 2 ^ 20) → kernelSpace image dt n = none) :
    walk (tables m) root v = none := by
  have hnone : lookup decode (tables m) root (VirtPageNum.indices v) = none := by
    rw [lookup_eq_none_iff, hleaves]
    rintro _ ⟨flags, pa, size, hmem, rfl⟩ hpre
    obtain ⟨startAddr, endAddr, hrange, hpage⟩ := mem_bootSteps_map.mp hmem
    obtain ⟨hlow, hlow'⟩ := h.low hrange
    obtain ⟨k, rfl, hdvd, hstart, hend⟩ := exists_of_mem_segmentPages hlow hlow' hpage
    have hceil := pageCeil_le hlow'
    rw [pageFloor, Nat.mul_div_cancel k (by decide),
      linear_prefix_iff hdvd (by omega) hv hcanon] at hpre
    have hspace' := hspace (v - (2 ^ 52 - 2 ^ 20)) (by omega)
    rw [(kernelSpace_eq_some h).mpr ⟨startAddr, endAddr, hrange, by omega, by omega⟩] at hspace'
    cases hspace'
  rw [walk, hnone]

/-- **The hardware finds what the address space should be**, if the leaves are those of the linear
window. -/
theorem sv39_eq {va : ℕ} (hva : va < 2 ^ 64) :
    sv39 (tables m) root va = kernelTranslation image dt va := by
  have hoffset : physVirtOffset = (2 ^ 52 - 2 ^ 20) * 4096 := by decide
  have hpage : va / pageSize / 2 ^ 26 = va / 2 ^ 38 := Nat.div_div_eq_div_mul ..
  have hpageLt : va / pageSize < 2 ^ 52 := by
    simp only [pageSize]
    omega
  rw [sv39, kernelTranslation]
  by_cases hwindow : physVirtOffset ≤ va
  · obtain ⟨x, rfl⟩ := Nat.exists_eq_add_of_le' hwindow
    have hx : x < 2 ^ 32 := by omega
    have hsplit : (x + physVirtOffset) / pageSize = x / pageSize + (2 ^ 52 - 2 ^ 20) := by
      rw [hoffset, Nat.add_mul_div_right _ _ (by decide)]
    have hmod : (x + physVirtOffset) % pageSize = x % pageSize := by
      rw [hoffset, Nat.add_mul_mod_self_right]
    have hxpage : x / pageSize < 2 ^ 20 := by
      simp only [pageSize]
      omega
    rw [if_pos hwindow, Nat.add_sub_cancel, hmod, hsplit, if_pos (by rw [← hpage, hsplit]; omega)]
    cases hspace : kernelSpace image dt (x / pageSize) with
    | none =>
      rw [walk_eq_none h hleaves (hsplit ▸ hpageLt) (by omega) fun n hn => by
        rw [← Nat.add_right_cancel hn, hspace]]
      rfl
    | some flags =>
      rw [walk_of_kernelSpace h hleaves hxpage hspace, Option.map_some, Option.map_some]
      dsimp only
      rw [Nat.div_add_mod']
  · rw [if_neg hwindow]
    split
    · rename_i hcanon
      rw [← hpage] at hcanon
      rw [walk_eq_none h hleaves hpageLt hcanon fun n hn => absurd ?_ hwindow]
      · rfl
      · calc physVirtOffset
          _ = (2 ^ 52 - 2 ^ 20) * pageSize := hoffset
          _ ≤ va / pageSize * pageSize := Nat.mul_le_mul_right _ (hn ▸ Nat.le_add_left _ _)
          _ ≤ va := Nat.div_mul_le_self va pageSize
    · rfl

end Walk

/-- No page can be written through one address and executed through another. -/
theorem kernelTranslation_exclusive {va va' pa pa' f f' : ℕ}
    (hva : kernelTranslation image dt va = some (pa, f))
    (hva' : kernelTranslation image dt va' = some (pa', f'))
    (hpage : pa / pageSize = pa' / pageSize) :
    ¬ (PTEFlags.contains f PTEFlags.w = true ∧ PTEFlags.contains f' PTEFlags.x = true) := by
  have hpa : ∀ {va pa f}, kernelTranslation image dt va = some (pa, f) →
      ∃ flags, kernelSpace image dt (pa / pageSize) = some flags ∧ f = flags ||| PTEFlags.v := by
    intro va pa f hva
    rw [kernelTranslation] at hva
    split at hva
    · obtain ⟨flags, hflags, heq⟩ := Option.map_eq_some_iff.mp hva
      obtain ⟨rfl, rfl⟩ := Prod.mk.inj heq
      exact ⟨flags, hflags, rfl⟩
    · cases hva
  obtain ⟨flags, hflags, rfl⟩ := hpa hva
  obtain ⟨flags', hflags', rfl⟩ := hpa hva'
  rw [hpage, hflags'] at hflags
  cases hflags
  rw [kernelSpace] at hflags'
  split at hflags'
  · cases hflags'
    decide
  · split at hflags'
    · cases hflags'
      decide
    · split at hflags'
      · cases hflags'
        decide
      · cases hflags'

/-- **The final page table is as it should be**: it maps the pages of the linear window with their
flags and nothing else, and no page can be both written and executed. -/
structure Exact (image : KernelImage) (dt : DeviceTree) (root : ℕ) (m : Mem) : Prop where
  translation : ∀ va < 2 ^ 64, sv39 (tables m) root va = kernelTranslation image dt va
  exclusive : ∀ va < 2 ^ 64, ∀ va' < 2 ^ 64, ∀ pa f pa' f', sv39 (tables m) root va = some (pa, f) →
    sv39 (tables m) root va' = some (pa', f') → pa / pageSize = pa' / pageSize →
    ¬ (PTEFlags.contains f PTEFlags.w = true ∧ PTEFlags.contains f' PTEFlags.x = true)

theorem exact_of_leaves (h : BootLayout image dt)
    (hleaves : leaves decode (tables m) root = linearLeaves image dt) : Exact image dt root m where
  translation va hva := sv39_eq h hleaves hva
  exclusive va hva va' hva' pa f pa' f' hpa hpa' hpage := by
    rw [sv39_eq h hleaves hva] at hpa
    rw [sv39_eq h hleaves hva'] at hpa'
    exact kernelTranslation_exclusive hpa hpa' hpage

/-! ## When the boot gets there -/

/-- **`MEMBLOCK` serves every call of the boot**: its arrays have room for the reservations, it
hands out the pages for the root and the other tables, all in the gigabyte that the kernel is in,
and the block for `mem_map`. -/
def Served (image : KernelImage) (dt : DeviceTree) (sizeOfPage : ℕ) (m : Mem) : Prop :=
  ∃ mb root mb' s, setupMemblock image dt = .ok mb ∧
    mb.earlyAlloc pageSize pageSize = .ok (some (root * pageSize), mb') ∧
    InGiB image.skernel (root * pageSize) ∧
    s = ⟨fun a => if root * pageSize ≤ a ∧ a < root * pageSize + pageSize then 0 else m a, mb'⟩ ∧
    Along (Boot.step image.skernel (root * pageSize)) (Boot.Grants image.skernel root) s
      (bootSteps image dt) ∧
    ∀ t, exec (Boot.step image.skernel (root * pageSize)) s (bootSteps image dt) = .ok t →
      ∃ pa mb, t.memblock.earlyAlloc (dt.memMapSize sizeOfPage) pageSize = .ok (some pa, mb)

/-- The pages of different ranges are in different tables or slots, so no step finds a page
mapped. -/
theorem BootLayout.pairwise_nil_append (h : BootLayout image dt) :
    ([] ++ bootSteps image dt).Pairwise BootStep.Apart := by
  rw [List.nil_append]
  exact h.pairwise

/-- A boot that returns has been served. -/
theorem served_of_boot (h : BootLayout image dt) {sizeOfPage : ℕ}
    (hboot : boot image dt sizeOfPage m = .ok (root, m')) : Served image dt sizeOfPage m := by
  obtain ⟨t, ht, hppn, hlt, -⟩ := boot_cases hboot
  obtain ⟨rootPa, s, s', mb, hroot, hexec, hrootPa, halloc, -⟩ := setupMemoryAndMapping_cases ht
  rw [hppn, PhysPageNum.ofPhysAddr_eq_ok] at hrootPa
  subst hrootPa
  have htree := treeOf_setupRoot h.bounded hlt hroot
  obtain ⟨mb₀, mb₁, hmb₀, halloc₀, hin, hs⟩ := (setupRoot_eq_ok hlt).mp hroot
  refine ⟨mb₀, root, mb₁, s, hmb₀, halloc₀, hin, hs, ?_, fun t' ht' => ?_⟩
  · exact (htree.along_grants_iff image.skernel_lt (fun op hop => ok_of_mem_bootSteps h.bounded hop)
      h.pairwise_nil_append).mpr ⟨s', hexec⟩
  · cases hexec.symm.trans ht'
    exact ⟨_, _, halloc⟩

/-- A boot that is served returns, and the final page table is as it should be. -/
theorem exact_of_served (h : BootLayout image dt) {sizeOfPage : ℕ}
    (hserved : Served image dt sizeOfPage m) :
    ∃ root m', boot image dt sizeOfPage m = .ok (root, m') ∧ Exact image dt root m' := by
  obtain ⟨mb₀, root, mb₁, s, hmb₀, halloc₀, hin, hs, hgrants, hmemMap⟩ := hserved
  have hkernel := image.skernel_lt
  have hok : ∀ op ∈ bootSteps image dt, op.Ok := fun op hop => ok_of_mem_bootSteps h.bounded hop
  have hlt : root < 2 ^ 44 := (hin.frame_lt hkernel).trans (by decide)
  have hroot := (setupRoot_eq_ok (m := m) (s := s) hlt).mpr ⟨mb₀, mb₁, hmb₀, halloc₀, hin, hs⟩
  have htree := treeOf_setupRoot h.bounded hlt hroot
  obtain ⟨t, ht⟩ := (htree.along_grants_iff hkernel hok h.pairwise_nil_append).mp hgrants
  obtain ⟨pa, mb, halloc⟩ := hmemMap t ht
  have htree := htree.run hkernel hok ht
  rw [List.nil_append] at htree
  obtain ⟨m', hunmap, hleaves⟩ := unmapTempIdentityArea_spec htree
  refine ⟨root, m', ?_, exact_of_leaves h hleaves⟩
  rw [boot, setupMemoryAndMapping_eq, hroot, ok_bind]
  dsimp only
  rw [ht, ok_bind, PhysPageNum.ofPhysAddr_mul, ok_bind, halloc, ok_bind]
  dsimp only
  rw [ok_bind, switchToFinalPageTable, if_pos hlt, ok_bind, hunmap, ok_bind]

/-- **The boot ends with the address space that it should** exactly when `MEMBLOCK` serves every
call: tables are reached through their physical addresses while only the gigabyte around the kernel
is mapped. -/
theorem boot_exact_iff (image : KernelImage) (dt : DeviceTree) (h : BootLayout image dt)
    (sizeOfPage : ℕ) (m : Mem) :
    (∃ root m', boot image dt sizeOfPage m = .ok (root, m') ∧ Exact image dt root m') ↔
      Served image dt sizeOfPage m := by
  constructor
  · rintro ⟨root, m', hboot, -⟩
    exact served_of_boot h hboot
  · exact exact_of_served h

theorem layout_sampleTree : BootLayout sampleImage (sampleTree [(0x10000000, 0x100)]) where
  ram := by decide
  kernel := by decide
  devices := by
    intro r hr
    rw [show (sampleTree [(0x10000000, 0x100)]).devices = [(0x10000000, 0x100)] by decide,
      List.mem_singleton] at hr
    subst hr
    exact ⟨by decide, by rw [rangePages, rangePages, Set.Ico_disjoint_Ico]; decide⟩
  apart := by
    rw [show (sampleTree [(0x10000000, 0x100)]).devices = [(0x10000000, 0x100)] by decide]
    exact List.pairwise_singleton _ _
  nodes := by decide
  reservations := by decide
  dtb := by decide

/-- One device and 16 MiB of RAM. -/
theorem boot_exact_iff_sample :
    BootLayout sampleImage (sampleTree [(0x10000000, 0x100)]) ∧
    Served sampleImage (sampleTree [(0x10000000, 0x100)]) 40 (fun _ => 0) ∧
    ∃ root m', boot sampleImage (sampleTree [(0x10000000, 0x100)]) 40 (fun _ => 0) =
      .ok (root, m') ∧
      Exact sampleImage (sampleTree [(0x10000000, 0x100)]) root m' := by
  obtain ⟨⟨root, m'⟩, hboot, -⟩ := exists_of_map_eq_ok (f := fun _ => ())
    (show (boot sampleImage (sampleTree [(0x10000000, 0x100)]) 40 (fun _ => 0)).map _ = .ok () by
      decide +kernel)
  have hserved := served_of_boot layout_sampleTree hboot
  exact ⟨layout_sampleTree, hserved, (boot_exact_iff _ _ layout_sampleTree 40 _).mpr hserved⟩

/-- With 2 GiB of RAM from `0x80000000` on, the root table is the last page below 4 GiB. It is not
in the gigabyte that is mapped while the tables are built, so clearing it faults. -/
theorem boot_two_gigabytes :
    BootLayout sampleImage ⟨0x80000000, 0x80000000, [], [], 0x80e00000, 0x1000⟩ ∧
    boot sampleImage ⟨0x80000000, 0x80000000, [], [], 0x80e00000, 0x1000⟩ 40 (fun _ => 0) =
      .error .pageFault := by
  constructor
  · exact ⟨by decide, by decide, by simp [DeviceTree.devices], by simp [DeviceTree.devices],
      by simp, by simp, by decide⟩
  · exact eq_error_of_map (f := fun _ => ()) (by decide +kernel)

end CharlotteOs
