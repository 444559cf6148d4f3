import CharlotteOs.Lib.Run
import CharlotteOs.Mm.PageTable

/-!
# The address space of the kernel at boot

`src/mm/mod.rs`: `setup_memory_and_mapping` reads the device tree, tells `MEMBLOCK` what is RAM and
what is reserved in it, and builds the final page table: device ranges and all of RAM in the linear
window, and the segments of the kernel once more at their physical addresses. After the switch to
that table `unmap_temp_identity_area` takes the second mapping out.

A device tree is what the code reads of it. The segments of the kernel image are where the linker
script puts them. `map_segment` is the list of the pages that its three loops visit, so a call is a
run over that list. What the code prints is left out.

## Main definitions

* `KernelImage`, `DeviceTree`: the boot layout
* `segmentPages`: the pages that `map_segment` visits
* `BootStep`, `Boot.step`: a reservation or a page that is mapped
* `MapAction`, `Segment`, `Boot.callMapSegment`: a call of `map_segment` with either action
* `setupMemoryAndMapping`, `switchToFinalPageTable`, `unmapTempIdentityArea`, `boot`
* `bootSteps`: the steps of `setup_memory_and_mapping` after it has made the root table
* `BootRange`, `bootRanges`: the ranges that the steps are about

## Main results

* `setupRoot_cases`, `setupMemoryAndMapping_cases`, `boot_cases`: what the code has done where it
  returns
* `mapNodes_eq`, `mapKernel_eq`, `setupMemoryAndMapping_eq`: the mapping is a run of steps
* `bootSteps_eq`: the steps, range by range
-/

namespace CharlotteOs

open FallibleRun

/-- `align_up`. -/
def alignUp (value align : ℕ) : ℕ := (value + align - 1) % 2 ^ 64 &&& Usize.notWord (align - 1)

/-- `align_down`. -/
def alignDown (value align : ℕ) : ℕ := value &&& Usize.notWord (align - 1)

/-- The next page boundary, `ALIGN(4K)` of the linker script. -/
def align4K (addr : ℕ) : ℕ := (addr + (pageSize - 1)) / pageSize * pageSize

/-- The segments of the kernel, as physical addresses. In the linker script the text begins at a
page boundary, and each other segment begins at the next page boundary after the one before it. The
image is linked at `PHYS_VIRT_OFFSET` above its physical addresses. -/
structure KernelImage where
  stext : ℕ
  etext : ℕ
  erodata : ℕ
  edata : ℕ
  ebss : ℕ
  aligned : pageSize ∣ stext
  text_le : stext ≤ etext
  rodata_le : align4K etext ≤ erodata
  data_le : align4K erodata ≤ edata
  bss_le : align4K edata ≤ ebss
  ebss_lt : ebss + physVirtOffset < 2 ^ 64

namespace KernelImage

/-- `_rodata_start`. -/
def srodata (image : KernelImage) : ℕ := align4K image.etext

/-- `_data_start`. -/
def sdata (image : KernelImage) : ℕ := align4K image.erodata

/-- `_bss_start_with_stack`. -/
def sbssWithStack (image : KernelImage) : ℕ := align4K image.edata

/-- `_skernel`, which is where the text begins. -/
def skernel (image : KernelImage) : ℕ := image.stext

/-- `_ekernel`, which is `_bss_end`. -/
def ekernel (image : KernelImage) : ℕ := image.ebss

end KernelImage

theorem le_align4K (addr : ℕ) : addr ≤ align4K addr := by
  simp only [align4K, pageSize]
  omega

theorem KernelImage.skernel_le (image : KernelImage) : image.skernel ≤ image.ekernel :=
  calc image.stext
    _ ≤ image.etext := image.text_le
    _ ≤ image.erodata := (le_align4K _).trans image.rodata_le
    _ ≤ image.edata := (le_align4K _).trans image.data_le
    _ ≤ image.ebss := (le_align4K _).trans image.bss_le

/-- The image is linked in the linear window. -/
theorem KernelImage.ekernel_lt (image : KernelImage) : image.ekernel < 2 ^ 32 := by
  have := image.ebss_lt
  simp only [KernelImage.ekernel, physVirtOffset] at *
  omega

theorem KernelImage.skernel_lt (image : KernelImage) : image.skernel < 2 ^ 32 :=
  image.skernel_le.trans_lt image.ekernel_lt

/-- What is read of a device tree: the first range of the first memory node, the reservations in the
header, the ranges of all other nodes in order (with size 0 where a range has none), and the blob
itself. -/
structure DeviceTree where
  ramBase : ℕ
  ramSize : ℕ
  reservations : List (ℕ × ℕ)
  nodes : List (ℕ × ℕ)
  dtbAddr : ℕ
  totalSize : ℕ

/-- An image with 2 MiB for each segment. -/
def sampleImage : KernelImage :=
  ⟨0x80200000, 0x80400000, 0x80600000, 0x80800000, 0x80a00000, by decide, by decide, by decide,
    by decide, by decide, by decide⟩

/-- 16 MiB of RAM around the image, with a page for the firmware and one for the blob. -/
def sampleTree (nodes : List (ℕ × ℕ)) : DeviceTree :=
  ⟨0x80000000, 0x1000000, [(0x80000000, 0x1000)], nodes, 0x80e00000, 0x1000⟩

/-- `ram_end`. -/
def DeviceTree.ramEnd (dt : DeviceTree) : ℕ := (dt.ramBase + dt.ramSize) % 2 ^ 64

/-- `BootMapType`. -/
inductive BootMapType
  | identical
  | linear
  deriving DecidableEq, Repr

/-- The `pa_to_va` of a map type. -/
def BootMapType.paToVa : BootMapType → ℕ → ℕ
  | .identical, pa => pa
  | .linear, pa => physToVirt pa

/-- The page of a physical address under a map type. -/
def BootMapType.vpn (mapType : BootMapType) (pa : ℕ) : Except Fault ℕ :=
  VirtPageNum.ofVirtAddr (VirtAddr.ofUsize (mapType.paToVa pa))

/-- The values of `current_pa` in a loop `while current_pa < stop` that adds `step` each time. -/
def whileLt (current stop step : ℕ) : List ℕ :=
  (List.range ((stop - current + step - 1) / step)).map fun n => current + step * n

/-- The size of a large page, `0x20_0000`. -/
abbrev largePageSize : ℕ := 0x20_0000

/-- The physical addresses that `map_segment` visits, each with the size of the page there: small
pages up to the first large one, large pages, and small pages again. -/
def segmentPages (startAddr endAddr : ℕ) : List (ℕ × PageSize) :=
  let pageStart := alignDown startAddr pageSize
  let pageEnd := alignUp endAddr pageSize
  let alignedStart := min (alignUp pageStart largePageSize) pageEnd
  let alignedEnd := max (alignDown pageEnd largePageSize) alignedStart
  let headEnd := min alignedStart pageEnd
  let midEnd := min alignedEnd pageEnd
  (whileLt pageStart headEnd pageSize).map (·, .fourKB) ++
    (whileLt alignedStart midEnd largePageSize).map (·, .twoMB) ++
    (whileLt midEnd pageEnd pageSize).map (·, .fourKB)

/-! ## Building the table -/

/-- What `setup_memory_and_mapping` does again and again: it reserves a range, or it maps a page. -/
inductive BootStep
  | reserve (base size : ℕ)
  | map (mapType : BootMapType) (flags pa : ℕ) (size : PageSize)
  deriving DecidableEq, Repr

/-- The closure `apply_action` with `MapAction::Map`, or a call of `reserve_memory`. -/
def Boot.step (kernel root : ℕ) (s : Boot) : BootStep → Except Fault Boot
  | .reserve base size => do
    let memblock ← s.memblock.reserveMemory base size
    .ok { s with memblock }
  | .map mapType flags pa size => do
    let vpn ← mapType.vpn pa
    let ppn ← PhysPageNum.ofPhysAddr pa
    PageTable.bumpMap kernel s root vpn ppn flags size

/-- The steps of `map_segment` with `MapAction::Map`. -/
def segmentSteps (mapType : BootMapType) (flags startAddr endAddr : ℕ) : List BootStep :=
  (segmentPages startAddr endAddr).map fun page => .map mapType flags page.1 page.2

/-- `map_segment` with `MapAction::Map`. -/
def mapSegment (kernel root startAddr endAddr : ℕ) (mapType : BootMapType) (flags : ℕ) (s : Boot) :
    Except Fault Boot :=
  exec (Boot.step kernel root) s (segmentSteps mapType flags startAddr endAddr)

/-- The body of the loop over the ranges of the nodes. -/
def mapNode (dt : DeviceTree) (kernel root : ℕ) (s : Boot) (range : ℕ × ℕ) : Except Fault Boot :=
  let (base, size) := range
  if 0 < size then
    let endAddr := (base + size) % 2 ^ 64
    if dt.ramBase ≤ base ∧ endAddr ≤ dt.ramEnd then s.step kernel root (.reserve base size)
    else mapSegment kernel root base endAddr .linear (PTEFlags.r ||| PTEFlags.w) s
  else .ok s

/-- The loop over the ranges of the nodes. -/
def mapNodes (dt : DeviceTree) (kernel root : ℕ) (s : Boot) : Except Fault Boot :=
  exec (mapNode dt kernel root) s dt.nodes

/-- The part of `setup_memory_and_mapping` that maps the kernel and the rest of RAM. -/
def mapKernel (image : KernelImage) (dt : DeviceTree) (root : ℕ) (s : Boot) :
    Except Fault Boot := do
  let kernel := image.skernel
  let rx := PTEFlags.r ||| PTEFlags.x
  let rw := PTEFlags.r ||| PTEFlags.w
  let s ← mapSegment kernel root image.stext image.etext .linear rx s
  let s ← mapSegment kernel root image.stext image.etext .identical rx s
  let s ← mapSegment kernel root image.srodata image.erodata .linear PTEFlags.r s
  let s ← mapSegment kernel root image.srodata image.erodata .identical PTEFlags.r s
  let s ← mapSegment kernel root image.sdata image.edata .linear rw s
  let s ← mapSegment kernel root image.sdata image.edata .identical rw s
  let s ← mapSegment kernel root image.sbssWithStack image.ebss .linear rw s
  let s ← mapSegment kernel root image.sbssWithStack image.ebss .identical rw s
  let s ← mapSegment kernel root (alignUp image.ekernel pageSize) dt.ramEnd .linear rw s
  mapSegment kernel root dt.ramBase image.skernel .linear rw s

/-- The first part of `setup_memory_and_mapping`: RAM, and the reservations that come before any
allocation. -/
def setupMemblock (image : KernelImage) (dt : DeviceTree) : Except Fault Memblock := do
  let memblock ← Memblock.new.initAddMemory dt.ramBase dt.ramSize
  let memblock ← memblock.reserveMemory image.skernel (image.ekernel - image.skernel)
  let memblock ← exec (fun mb r => mb.reserveMemory r.1 r.2) memblock dt.reservations
  memblock.reserveMemory dt.dtbAddr dt.totalSize

/-- The part of `setup_memory_and_mapping` that makes the root table. -/
def setupRoot (image : KernelImage) (dt : DeviceTree) (m : Mem) : Except Fault (ℕ × Boot) := do
  let memblock ← setupMemblock image dt
  match ← memblock.earlyAlloc pageSize pageSize with
  | (none, _) => .error .unwrapNone
  | (some rootPa, memblock) => do
    let s ← Boot.clear image.skernel ⟨m, memblock⟩ rootPa
    .ok (rootPa, s)

/-- The bytes of the array `mem_map`, in whole pages, where an entry has `sizeOfPage` bytes. -/
def DeviceTree.memMapSize (dt : DeviceTree) (sizeOfPage : ℕ) : ℕ :=
  let ramStartPpn := dt.ramBase >>> pageSizeBits
  let ramEndPpn := dt.ramEnd >>> pageSizeBits
  let totalPages := (ramEndPpn + (2 ^ 64 - ramStartPpn)) % 2 ^ 64
  let memMapSize := totalPages * sizeOfPage % 2 ^ 64
  let memMapPages := ((memMapSize + pageSize - 1) % 2 ^ 64) >>> pageSizeBits
  memMapPages * pageSize % 2 ^ 64

/-- What `setup_memory_and_mapping` leaves behind: `BOOT_ROOT_PPN`, `MEM_MAP_PA`, and the state. -/
structure BootTables where
  rootPpn : ℕ
  memMapPa : ℕ
  boot : Boot

/-- `setup_memory_and_mapping`. -/
def setupMemoryAndMapping (image : KernelImage) (dt : DeviceTree) (sizeOfPage : ℕ) (m : Mem) :
    Except Fault BootTables := do
  let (rootPa, s) ← setupRoot image dt m
  let s ← mapNodes dt image.skernel rootPa s
  let s ← mapKernel image dt rootPa s
  let rootPpn ← PhysPageNum.ofPhysAddr rootPa
  match ← s.memblock.earlyAlloc (dt.memMapSize sizeOfPage) pageSize with
  | (none, _) => .error .unwrapNone
  | (some memMapPa, memblock) => .ok ⟨rootPpn, memMapPa, { s with memblock }⟩

/-- `switch_to_final_page_table`: the page number of the root table has to fit in `satp`. -/
def switchToFinalPageTable (rootPpn : ℕ) : Except Fault ℕ :=
  if rootPpn < 2 ^ 44 then .ok rootPpn else .error .satpPpn

/-! ## The two actions of `map_segment` -/

/-- `MapAction`. -/
inductive MapAction
  | map (flags : ℕ)
  | unmap
  deriving DecidableEq, Repr

/-- The closure `apply_action` with `MapAction::Unmap`, for a page under a map type. -/
def unmapPage (rootPt : ℕ) (m : Mem) (page : BootMapType × ℕ × PageSize) : Except Fault Mem := do
  let vpn ← page.1.vpn page.2.1
  PageTable.unmap m rootPt vpn page.2.2

/-- The closure `apply_action`. As its callers do it, the root table is passed at its physical
address when pages are mapped, and in the linear window when they are taken out. -/
def Boot.applyAction (kernel root : ℕ) (mapType : BootMapType) (action : MapAction) (s : Boot)
    (page : ℕ × PageSize) : Except Fault Boot :=
  match action with
  | .map flags => s.step kernel (root * pageSize) (.map mapType flags page.1 page.2)
  | .unmap => do
    let mem ← unmapPage (physToVirt (PhysAddr.ofPpn root)) s.mem (mapType, page)
    .ok { s with mem }

/-- The range and the map type that `map_segment` is called with. -/
structure Segment where
  startAddr : ℕ
  endAddr : ℕ
  mapType : BootMapType
  deriving DecidableEq, Repr

/-- `map_segment`, with either action. -/
def Boot.callMapSegment (kernel root : ℕ) (s : Boot) (call : Segment × MapAction) :
    Except Fault Boot :=
  exec (Boot.applyAction kernel root call.1.mapType call.2) s
    (segmentPages call.1.startAddr call.1.endAddr)

/-- With `MapAction::Map` it is a run of steps. -/
theorem Boot.callMapSegment_map (kernel root : ℕ) (s : Boot) (seg : Segment) (flags : ℕ) :
    s.callMapSegment kernel root (seg, .map flags) =
      mapSegment kernel (root * pageSize) seg.startAddr seg.endAddr seg.mapType flags s := by
  rw [mapSegment, segmentSteps, exec_map]
  rfl

/-! ## Taking the identity area out -/

/-- The closure `apply_action` with `MapAction::Unmap`, for pages at their physical addresses. -/
def unmapStep (rootPt : ℕ) (m : Mem) (page : ℕ × PageSize) : Except Fault Mem :=
  unmapPage rootPt m (.identical, page)

/-- The pages that `unmap_temp_identity_area` visits. -/
def KernelImage.pages (image : KernelImage) : List (ℕ × PageSize) :=
  segmentPages image.stext image.etext ++ segmentPages image.srodata image.erodata ++
    segmentPages image.sdata image.edata ++ segmentPages image.sbssWithStack image.ebss

/-- `unmap_temp_identity_area`. -/
def unmapTempIdentityArea (image : KernelImage) (rootPpn : ℕ) (m : Mem) : Except Fault Mem :=
  exec (unmapStep (physToVirt (PhysAddr.ofPpn rootPpn))) m image.pages

/-- The root table and the memory after `virt_rust_main` has switched to the final page table and
taken the identity area out. -/
def boot (image : KernelImage) (dt : DeviceTree) (sizeOfPage : ℕ) (m : Mem) :
    Except Fault (ℕ × Mem) := do
  let t ← setupMemoryAndMapping image dt sizeOfPage m
  let root ← switchToFinalPageTable t.rootPpn
  let m ← unmapTempIdentityArea image root t.boot.mem
  .ok (root, m)

/-! ## The mapping as a run -/

/-- The steps for the range of a node. -/
def nodeSteps (dt : DeviceTree) (range : ℕ × ℕ) : List BootStep :=
  if 0 < range.2 then
    let endAddr := (range.1 + range.2) % 2 ^ 64
    if dt.ramBase ≤ range.1 ∧ endAddr ≤ dt.ramEnd then [.reserve range.1 range.2]
    else segmentSteps .linear (PTEFlags.r ||| PTEFlags.w) range.1 endAddr
  else []

/-- The steps for a segment of the kernel, which is mapped twice. -/
def kernelSteps (flags startAddr endAddr : ℕ) : List BootStep :=
  segmentSteps .linear flags startAddr endAddr ++ segmentSteps .identical flags startAddr endAddr

/-- The steps for the kernel and the rest of RAM. -/
def ramSteps (image : KernelImage) (dt : DeviceTree) : List BootStep :=
  kernelSteps (PTEFlags.r ||| PTEFlags.x) image.stext image.etext ++
    kernelSteps PTEFlags.r image.srodata image.erodata ++
    kernelSteps (PTEFlags.r ||| PTEFlags.w) image.sdata image.edata ++
    kernelSteps (PTEFlags.r ||| PTEFlags.w) image.sbssWithStack image.ebss ++
    segmentSteps .linear (PTEFlags.r ||| PTEFlags.w) (alignUp image.ekernel pageSize) dt.ramEnd ++
    segmentSteps .linear (PTEFlags.r ||| PTEFlags.w) dt.ramBase image.skernel

/-- The steps of `setup_memory_and_mapping` after it has made the root table. -/
def bootSteps (image : KernelImage) (dt : DeviceTree) : List BootStep :=
  dt.nodes.flatMap (nodeSteps dt) ++ ramSteps image dt

/-- What is done with a range: it is reserved, or its pages are mapped. -/
inductive BootRange
  | reserve (base size : ℕ)
  | segment (mapType : BootMapType) (flags startAddr endAddr : ℕ)
  deriving DecidableEq, Repr

/-- The steps for a range. -/
def BootRange.steps : BootRange → List BootStep
  | .reserve base size => [.reserve base size]
  | .segment mapType flags startAddr endAddr => segmentSteps mapType flags startAddr endAddr

/-- The range of a node. -/
def nodeRange (dt : DeviceTree) (range : ℕ × ℕ) : Option BootRange :=
  if 0 < range.2 then
    let endAddr := (range.1 + range.2) % 2 ^ 64
    if dt.ramBase ≤ range.1 ∧ endAddr ≤ dt.ramEnd then some (.reserve range.1 range.2)
    else some (.segment .linear (PTEFlags.r ||| PTEFlags.w) range.1 endAddr)
  else none

/-- The segments of the kernel with their flags. -/
def KernelImage.segments (image : KernelImage) : List (ℕ × ℕ × ℕ) :=
  [(PTEFlags.r ||| PTEFlags.x, image.stext, image.etext),
    (PTEFlags.r, image.srodata, image.erodata),
    (PTEFlags.r ||| PTEFlags.w, image.sdata, image.edata),
    (PTEFlags.r ||| PTEFlags.w, image.sbssWithStack, image.ebss)]

/-- The ranges of the kernel and of the rest of RAM. -/
def ramRanges (image : KernelImage) (dt : DeviceTree) : List BootRange :=
  image.segments.flatMap (fun (flags, startAddr, endAddr) =>
      [.segment .linear flags startAddr endAddr, .segment .identical flags startAddr endAddr]) ++
    [.segment .linear (PTEFlags.r ||| PTEFlags.w) (alignUp image.ekernel pageSize) dt.ramEnd,
      .segment .linear (PTEFlags.r ||| PTEFlags.w) dt.ramBase image.skernel]

/-- The ranges of a boot, in order. -/
def bootRanges (image : KernelImage) (dt : DeviceTree) : List BootRange :=
  dt.nodes.filterMap (nodeRange dt) ++ ramRanges image dt

variable {image : KernelImage} {dt : DeviceTree} {kernel root : ℕ} {s : Boot}

theorem bootSteps_eq (image : KernelImage) (dt : DeviceTree) :
    bootSteps image dt = (bootRanges image dt).flatMap BootRange.steps := by
  have hnode : ∀ range,
      nodeSteps dt range = (nodeRange dt range).toList.flatMap BootRange.steps := by
    intro range
    rw [nodeSteps, nodeRange]
    split
    · dsimp only
      split <;> simp [BootRange.steps]
    · rfl
  have hnodes : ∀ nodes : List (ℕ × ℕ), nodes.flatMap (nodeSteps dt) =
      (nodes.filterMap (nodeRange dt)).flatMap BootRange.steps := by
    intro nodes
    induction nodes with
    | nil => rfl
    | cons range nodes ih =>
      rw [List.flatMap_cons, hnode, ih, List.filterMap_cons]
      cases nodeRange dt range <;> simp
  rw [bootSteps, bootRanges, List.flatMap_append, hnodes]
  congr 1
  simp [ramSteps, ramRanges, kernelSteps, KernelImage.segments, BootRange.steps]

/-- A page is mapped as part of a segment. -/
theorem mem_bootSteps_map {mapType : BootMapType} {flags pa : ℕ} {size : PageSize} :
    .map mapType flags pa size ∈ bootSteps image dt ↔
      ∃ startAddr endAddr, .segment mapType flags startAddr endAddr ∈ bootRanges image dt ∧
        (pa, size) ∈ segmentPages startAddr endAddr := by
  rw [bootSteps_eq, List.mem_flatMap]
  constructor
  · rintro ⟨range, hrange, hmem⟩
    cases range with
    | reserve base size' => simp [BootRange.steps] at hmem
    | segment mapType' flags' startAddr endAddr =>
      obtain ⟨page, hpage, heq⟩ := List.mem_map.mp hmem
      cases heq
      exact ⟨startAddr, endAddr, hrange, hpage⟩
  · rintro ⟨startAddr, endAddr, hrange, hpage⟩
    exact ⟨_, hrange, List.mem_map.mpr ⟨(pa, size), hpage, rfl⟩⟩

theorem mem_bootSteps_reserve {base size : ℕ} :
    .reserve base size ∈ bootSteps image dt ↔ .reserve base size ∈ bootRanges image dt := by
  rw [bootSteps_eq, List.mem_flatMap]
  constructor
  · rintro ⟨range, hrange, hmem⟩
    cases range with
    | reserve base' size' =>
      cases List.mem_singleton.mp hmem
      exact hrange
    | segment mapType flags startAddr endAddr => simp [BootRange.steps, segmentSteps] at hmem
  · exact fun h => ⟨_, h, List.mem_singleton.mpr rfl⟩

/-- A range is that of a node, or one of the kernel and the rest of RAM. -/
theorem mem_bootRanges {range : BootRange} :
    range ∈ bootRanges image dt ↔
      (∃ r ∈ dt.nodes, nodeRange dt r = some range) ∨ range ∈ ramRanges image dt := by
  rw [bootRanges, List.mem_append, List.mem_filterMap]

theorem mem_ramRanges {range : BootRange} :
    range ∈ ramRanges image dt ↔
      (∃ seg ∈ image.segments, range = .segment .linear seg.1 seg.2.1 seg.2.2 ∨
        range = .segment .identical seg.1 seg.2.1 seg.2.2) ∨
      range = .segment .linear (PTEFlags.r ||| PTEFlags.w) (alignUp image.ekernel pageSize)
        dt.ramEnd ∨
      range = .segment .linear (PTEFlags.r ||| PTEFlags.w) dt.ramBase image.skernel := by
  simp [ramRanges, List.mem_flatMap]

/-- What is done with the range of a node. -/
theorem nodeRange_eq_some {r : ℕ × ℕ} {range : BootRange} :
    nodeRange dt r = some range ↔ 0 < r.2 ∧
      ((dt.ramBase ≤ r.1 ∧ (r.1 + r.2) % 2 ^ 64 ≤ dt.ramEnd) ∧ range = .reserve r.1 r.2 ∨
        ¬ (dt.ramBase ≤ r.1 ∧ (r.1 + r.2) % 2 ^ 64 ≤ dt.ramEnd) ∧
          range = .segment .linear (PTEFlags.r ||| PTEFlags.w) r.1 ((r.1 + r.2) % 2 ^ 64)) := by
  rw [nodeRange]
  dsimp only
  split
  · split <;> simp_all [eq_comm]
  · simp_all

theorem mapNode_eq (range : ℕ × ℕ) :
    mapNode dt kernel root s range = exec (Boot.step kernel root) s (nodeSteps dt range) := by
  obtain ⟨base, size⟩ := range
  rw [mapNode, nodeSteps]
  dsimp only
  split
  · split
    · rw [exec_singleton]
    · rfl
  · rfl

/-- The loop over the nodes is a run of steps. -/
theorem mapNodes_eq (nodes : List (ℕ × ℕ)) :
    exec (mapNode dt kernel root) s nodes =
      exec (Boot.step kernel root) s (nodes.flatMap (nodeSteps dt)) :=
  exec_flatMap (fun _ range => mapNode_eq range) s nodes

/-- The mapping of the kernel and of RAM is a run of steps. -/
theorem mapKernel_eq :
    mapKernel image dt root s = exec (Boot.step image.skernel root) s (ramSteps image dt) := by
  simp only [mapKernel, mapSegment, ramSteps, kernelSteps, exec_append, bind_assoc]

/-- All of the mapping is one run of steps. -/
theorem mapNodes_mapKernel_eq :
    (mapNodes dt image.skernel root s >>= mapKernel image dt root) =
      exec (Boot.step image.skernel root) s (bootSteps image dt) := by
  rw [mapNodes, mapNodes_eq, bootSteps, exec_append]
  exact bind_congr fun t => mapKernel_eq

/-- `setup_memory_and_mapping` is a run of steps after the root table has been made. -/
theorem setupMemoryAndMapping_eq (image : KernelImage) (dt : DeviceTree) (sizeOfPage : ℕ)
    (m : Mem) :
    setupMemoryAndMapping image dt sizeOfPage m = (do
      let (rootPa, s) ← setupRoot image dt m
      let s ← exec (Boot.step image.skernel rootPa) s (bootSteps image dt)
      let rootPpn ← PhysPageNum.ofPhysAddr rootPa
      match ← s.memblock.earlyAlloc (dt.memMapSize sizeOfPage) pageSize with
      | (none, _) => .error .unwrapNone
      | (some memMapPa, memblock) => .ok ⟨rootPpn, memMapPa, { s with memblock }⟩) := by
  simp only [setupMemoryAndMapping, ← mapNodes_mapKernel_eq, bind_assoc]

/-! ## What has been done -/

/-- The root table was allocated after the reservations, and cleared. -/
theorem setupRoot_cases {m : Mem} {rootPa : ℕ} (h : setupRoot image dt m = .ok (rootPa, s)) :
    ∃ mb mb', setupMemblock image dt = .ok mb ∧
      mb.earlyAlloc pageSize pageSize = .ok (some rootPa, mb') ∧
      Boot.clear image.skernel ⟨m, mb'⟩ rootPa = .ok s := by
  obtain ⟨mb, hmb, h⟩ := exists_of_bind_eq_ok h
  obtain ⟨⟨r, mb'⟩, halloc, h⟩ := exists_of_bind_eq_ok h
  cases r with
  | none => cases h
  | some pa =>
    obtain ⟨s', hclear, h⟩ := exists_of_bind_eq_ok h
    cases h
    exact ⟨mb, mb', hmb, halloc, hclear⟩

/-- The root table was made, the steps were run, and the block for `mem_map` was allocated. -/
theorem setupMemoryAndMapping_cases {sizeOfPage : ℕ} {m : Mem} {t : BootTables}
    (h : setupMemoryAndMapping image dt sizeOfPage m = .ok t) :
    ∃ rootPa s s' mb, setupRoot image dt m = .ok (rootPa, s) ∧
      exec (Boot.step image.skernel rootPa) s (bootSteps image dt) = .ok s' ∧
      PhysPageNum.ofPhysAddr rootPa = .ok t.rootPpn ∧
      s'.memblock.earlyAlloc (dt.memMapSize sizeOfPage) pageSize = .ok (some t.memMapPa, mb) ∧
      t.boot = { s' with memblock := mb } := by
  rw [setupMemoryAndMapping_eq] at h
  obtain ⟨⟨rootPa, s⟩, hroot, h⟩ := exists_of_bind_eq_ok h
  obtain ⟨s', hrun, h⟩ := exists_of_bind_eq_ok h
  obtain ⟨rootPpn, hppn, h⟩ := exists_of_bind_eq_ok h
  obtain ⟨⟨r, mb⟩, halloc, h⟩ := exists_of_bind_eq_ok h
  cases r with
  | none => cases h
  | some pa =>
    obtain rfl := Except.ok.inj h
    exact ⟨rootPa, s, s', mb, hroot, hrun, hppn, halloc, rfl⟩

/-- The page number of the root table fits in `satp`, and the identity area was taken out. -/
theorem boot_cases {sizeOfPage : ℕ} {m m' : Mem} (h : boot image dt sizeOfPage m = .ok (root, m')) :
    ∃ t, setupMemoryAndMapping image dt sizeOfPage m = .ok t ∧ t.rootPpn = root ∧ root < 2 ^ 44 ∧
      unmapTempIdentityArea image root t.boot.mem = .ok m' := by
  obtain ⟨t, ht, h⟩ := exists_of_bind_eq_ok h
  obtain ⟨root', hswitch, h⟩ := exists_of_bind_eq_ok h
  obtain ⟨m₁, hunmap, h⟩ := exists_of_bind_eq_ok h
  obtain ⟨rfl, rfl⟩ := Prod.mk.inj (Except.ok.inj h)
  rw [switchToFinalPageTable] at hswitch
  split at hswitch
  · rename_i hlt
    have hroot := Except.ok.inj hswitch
    exact ⟨t, ht, hroot, hroot ▸ hlt, hunmap⟩
  · cases hswitch

end CharlotteOs
