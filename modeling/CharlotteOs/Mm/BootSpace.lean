import CharlotteOs.Mm.BootReserve
import CharlotteOs.Mm.BootRun

/-!
# The final page table

After `setup_memory_and_mapping` the leaves of the page table are those of the pages that its steps
map. `unmap_temp_identity_area` visits the pages of the kernel once more, in the same sizes, so each
entry that it clears is the leaf of one of them, and what is left are the pages of the linear
window.

## Main definitions

* `linearLeaves`: the leaves of the pages that are mapped in the linear window

## Main results

* `KernelImage.pages_tiles`: the pages of the kernel follow each other
* `setupRoot_eq_ok`, `treeOf_setupRoot`: the root table is a tree without leaves
* `unmapTempIdentityArea_spec`: what taking the identity area out does
* `boot_leaves`: the leaves of the final page table
-/

namespace CharlotteOs

open FallibleRun TableTree PageTableEntry PageTable

variable {image : KernelImage} {dt : DeviceTree} {m m' : Mem} {root : ℕ} {s : Boot}

/-! ## The pages of the kernel -/

theorem pageFloor_align4K (v : ℕ) : pageFloor (align4K v) = pageCeil v := by
  rw [align4K_eq, pageFloor, Nat.mul_div_cancel _ (by decide)]

theorem pageFloor_le_pageCeil {v w : ℕ} (h : v ≤ w) : pageFloor v ≤ pageCeil w :=
  Nat.div_le_div_right (h.trans (Nat.le_add_right _ _))

theorem pageCeil_mono {v w : ℕ} (h : v ≤ w) : pageCeil v ≤ pageCeil w :=
  Nat.div_le_div_right (Nat.add_le_add_right h _)

/-- The path of a page that is mapped at its physical address. -/
def identityPath (page : ℕ × PageSize) : List (Fin 512) :=
  leafPath .identical (pageFloor page.1) page.2

namespace KernelImage

theorem ebss_le (image : KernelImage) : image.ebss ≤ 2 ^ 32 := image.ekernel_lt.le

theorem edata_le (image : KernelImage) : image.edata ≤ 2 ^ 32 :=
  (le_align4K _).trans (image.bss_le.trans image.ebss_le)

theorem erodata_le (image : KernelImage) : image.erodata ≤ 2 ^ 32 :=
  (le_align4K _).trans (image.data_le.trans image.edata_le)

theorem etext_le (image : KernelImage) : image.etext ≤ 2 ^ 32 :=
  (le_align4K _).trans (image.rodata_le.trans image.erodata_le)

/-- A segment ends in the linear window, and not before it begins. -/
theorem le_of_mem_segments {seg : ℕ × ℕ × ℕ} (h : seg ∈ image.segments) :
    seg.2.1 ≤ seg.2.2 ∧ seg.2.2 ≤ 2 ^ 32 := by
  simp only [segments, List.mem_cons, List.not_mem_nil, or_false] at h
  rcases h with rfl | rfl | rfl | rfl
  · exact ⟨image.text_le, image.etext_le⟩
  · exact ⟨image.rodata_le, image.erodata_le⟩
  · exact ⟨image.data_le, image.edata_le⟩
  · exact ⟨image.bss_le, image.ebss_le⟩

/-- Each segment begins at the first page after the one before it. -/
theorem pageFloor_starts (image : KernelImage) :
    pageFloor image.srodata = pageCeil image.etext ∧
      pageFloor image.sdata = pageCeil image.erodata ∧
      pageFloor image.sbssWithStack = pageCeil image.edata :=
  ⟨pageFloor_align4K _, pageFloor_align4K _, pageFloor_align4K _⟩

/-- The page boundaries of the kernel, in order. -/
theorem boundaries (image : KernelImage) :
    pageFloor image.stext ≤ pageCeil image.etext ∧
      pageCeil image.etext ≤ pageCeil image.erodata ∧
      pageCeil image.erodata ≤ pageCeil image.edata ∧
      pageCeil image.edata ≤ pageCeil image.ebss :=
  ⟨pageFloor_le_pageCeil image.text_le, pageCeil_mono ((le_align4K _).trans image.rodata_le),
    pageCeil_mono ((le_align4K _).trans image.data_le),
    pageCeil_mono ((le_align4K _).trans image.bss_le)⟩

/-- The pages of a segment are pages of the kernel. -/
theorem bounds_of_mem_segments {seg : ℕ × ℕ × ℕ} (h : seg ∈ image.segments) :
    pageFloor image.stext ≤ pageFloor seg.2.1 ∧ pageCeil seg.2.2 ≤ pageCeil image.ebss := by
  obtain ⟨h₁, h₂, h₃, h₄⟩ := image.boundaries
  obtain ⟨hrodata, hdata, hbss⟩ := image.pageFloor_starts
  simp only [segments, List.mem_cons, List.not_mem_nil, or_false] at h
  rcases h with rfl | rfl | rfl | rfl <;> dsimp only <;> omega

/-- A segment has no page that is before the end of an earlier one. -/
theorem pairwise_segments (image : KernelImage) :
    image.segments.Pairwise fun seg seg' => pageCeil seg.2.2 ≤ pageFloor seg'.2.1 := by
  obtain ⟨-, h₂, h₃, -⟩ := image.boundaries
  obtain ⟨hrodata, hdata, hbss⟩ := image.pageFloor_starts
  simp only [segments, List.pairwise_cons, List.mem_cons, List.not_mem_nil, or_false,
    forall_eq_or_imp, forall_eq, hrodata, hdata, hbss]
  exact ⟨⟨le_rfl, h₂, h₂.trans h₃⟩, ⟨le_rfl, h₃⟩, le_rfl, fun _ h => h.elim, List.Pairwise.nil⟩

theorem pages_eq (image : KernelImage) :
    image.pages = image.segments.flatMap fun seg => segmentPages seg.2.1 seg.2.2 := by
  simp [pages, segments]

/-- **The pages of the kernel follow each other**, since each segment begins at the first page after
the one before it. -/
theorem pages_tiles (image : KernelImage) :
    Tiles image.pages (pageFloor image.stext) (pageCeil image.ebss) := by
  have htext := segmentPages_tiles (image.text_le.trans image.etext_le) image.etext_le
    (pageFloor_le_pageCeil image.text_le)
  have hrodata := segmentPages_tiles (image.rodata_le.trans image.erodata_le) image.erodata_le
    (pageFloor_le_pageCeil image.rodata_le)
  have hdata := segmentPages_tiles (image.data_le.trans image.edata_le) image.edata_le
    (pageFloor_le_pageCeil image.data_le)
  have hbss := segmentPages_tiles (image.bss_le.trans image.ebss_le) image.ebss_le
    (pageFloor_le_pageCeil image.bss_le)
  rw [pageFloor_align4K] at hrodata hdata hbss
  exact ((htext.append hrodata).append hdata).append hbss

/-- The paths of the pages of the kernel are different. -/
theorem nodup_pages (image : KernelImage) :
    (image.pages.map identityPath).Nodup := by
  have hlt : pageCeil image.ebss ≤ 2 ^ 20 := by
    have := image.ebss_le
    simp only [pageCeil, pageSize]
    omega
  rw [List.nodup_iff_pairwise_ne, List.pairwise_map]
  refine image.pages_tiles.pairwise.imp_of_mem fun {x y} hx hy hxy heq => ?_
  obtain ⟨n, hn, hdvd, -, hend⟩ := image.pages_tiles.exists_of_mem hx
  obtain ⟨n', hn', -, -, hend'⟩ := image.pages_tiles.exists_of_mem hy
  have hfloor : pageFloor x.1 = n := by rw [hn, pageFloor, Nat.mul_div_cancel _ (by decide)]
  have hfloor' : pageFloor y.1 = n' := by rw [hn', pageFloor, Nat.mul_div_cancel _ (by decide)]
  have hpos := y.2.pages_pos
  have hxpos := x.2.pages_pos
  change pageFloor x.1 + _ ≤ pageFloor y.1 at hxy
  rw [identityPath, identityPath, hfloor, hfloor'] at heq
  rw [hfloor, hfloor'] at hxy
  have hpre : leafPath .identical n x.2 <+: leafPath .identical n' y.2 :=
    heq ▸ List.prefix_rfl
  obtain ⟨-, -, hover⟩ := leafPath_prefix (by omega) (by omega) hdvd hpre
  omega

end KernelImage

/-- The identity area consists of the pages of the kernel. -/
theorem mem_pages_of_identical {flags pa : ℕ} {size : PageSize}
    (h : .map .identical flags pa size ∈ bootSteps image dt) : (pa, size) ∈ image.pages := by
  obtain ⟨startAddr, endAddr, hrange, hpage⟩ := mem_bootSteps_map.mp h
  rw [image.pages_eq, List.mem_flatMap]
  rcases mem_bootRanges.mp hrange with ⟨r, -, hr⟩ | hram
  · rcases nodeRange_eq_some.mp hr with ⟨-, ⟨-, heq⟩ | ⟨-, heq⟩⟩ <;> cases heq
  · rcases mem_ramRanges.mp hram with ⟨seg, hseg, heq | heq⟩ | heq | heq <;> cases heq
    exact ⟨seg, hseg, hpage⟩

theorem exists_identical_of_mem_pages (dt : DeviceTree) {page : ℕ × PageSize}
    (h : page ∈ image.pages) :
    ∃ flags, .map .identical flags page.1 page.2 ∈ bootSteps image dt := by
  rw [image.pages_eq, List.mem_flatMap] at h
  obtain ⟨seg, hseg, hpage⟩ := h
  refine ⟨seg.1, mem_bootSteps_map.mpr ⟨seg.2.1, seg.2.2, ?_, hpage⟩⟩
  exact mem_bootRanges.mpr (.inr (mem_ramRanges.mpr (.inl ⟨seg, hseg, .inr rfl⟩)))

/-! ## The root table -/

/-- The root table is made: `MEMBLOCK` hands out a page in the gigabyte that the kernel is in. -/
theorem setupRoot_eq_ok (hroot : root < 2 ^ 44) :
    setupRoot image dt m = .ok (root * pageSize, s) ↔
      ∃ mb mb', setupMemblock image dt = .ok mb ∧
        mb.earlyAlloc pageSize pageSize = .ok (some (root * pageSize), mb') ∧
        InGiB image.skernel (root * pageSize) ∧
        s = ⟨fun a =>
          if root * pageSize ≤ a ∧ a < root * pageSize + pageSize then 0 else m a, mb'⟩ := by
  have hkernel := image.skernel_lt
  constructor
  · intro h
    obtain ⟨mb, mb', hmb, halloc, hclear⟩ := setupRoot_cases h
    have hin : InGiB image.skernel (root * pageSize) := by
      obtain ⟨_, hphys, -⟩ := exists_of_bind_eq_ok hclear
      exact Boot.inGiB_of_physical hkernel hroot (i := 0) (by simpa using hphys)
    rw [Boot.clear_page hkernel _ hin] at hclear
    exact ⟨mb, mb', hmb, halloc, hin, (Except.ok.inj hclear).symm⟩
  · rintro ⟨mb, mb', hmb, halloc, hin, rfl⟩
    rw [setupRoot, hmb, ok_bind, halloc, ok_bind]
    dsimp only
    rw [Boot.clear_page hkernel _ hin, ok_bind]

/-- **The root table** is a page that was cleared, so it is a tree without leaves. -/
theorem treeOf_setupRoot (hdt : dt.Bounded) (hroot : root < 2 ^ 44)
    (h : setupRoot image dt m = .ok (root * pageSize, s)) :
    Boot.TreeOf image.skernel root (Set.Ico dt.ramBase (dt.ramBase + dt.ramSize)) [] s := by
  obtain ⟨mb, mb', hmb, halloc, hin, rfl⟩ := (setupRoot_eq_ok hroot).mp h
  have hkernel := image.skernel_lt
  have hempty : ∀ i, decode (tables (fun x =>
      if root * pageSize ≤ x ∧ x < root * pageSize + pageSize then 0 else m x) root i) =
        .empty := by
    intro i
    have := i.isLt
    rw [tables, if_pos (by simp only [pageSize]; omega)]
    rfl
  obtain ⟨htree, hframes, -⟩ := IsTree.of_empty (n := 2) hempty
  have hnone : leavesOf [] = ∅ := by simp [leavesOf]
  obtain ⟨R, hR⟩ := setupMemblock_denotes hdt hmb
  rw [Boot.TreeOf, hnone, Set.image_empty]
  refine ⟨htree, leaves_of_empty hempty, .of_empty hempty, ?_, ?_⟩
  · rw [hframes]
    rintro f rfl
    exact hin
  · rw [hframes]
    rcases hR.earlyAlloc (Memblock.room_of_lt halloc (hin.lt hkernel)) halloc with
      ⟨hnone, -⟩ | ⟨pa, hpa, -, hnext⟩
    · cases hnone
    · cases hpa
      refine ⟨R, _, hnext, ?_⟩
      rintro f rfl
      exact .inr (Set.left_mem_Ico.mpr (Nat.lt_add_of_pos_right (by decide)))

/-- The steps are those of aligned pages, with flags of leaves. -/
theorem ok_of_mem_bootSteps (hdt : dt.Bounded) {op : BootStep} (h : op ∈ bootSteps image dt) :
    op.Ok := by
  cases op with
  | reserve base size => exact hdt.nodes _ (mem_nodes_of_reserve h)
  | map mapType flags pa size =>
    refine ⟨?_, (kernelFlags_of_mem h).leaf⟩
    obtain ⟨startAddr, endAddr, hrange, hpage⟩ := mem_bootSteps_map.mp h
    refine dvd_of_mem_segmentPages ?_ hpage
    rcases mem_bootRanges.mp hrange with ⟨r, hr, heq⟩ | hram
    · rcases nodeRange_eq_some.mp heq with ⟨-, ⟨-, heq⟩ | ⟨-, heq⟩⟩ <;> cases heq
      exact (Nat.le_add_right _ _).trans_lt (hdt.nodes r hr)
    · rcases mem_ramRanges.mp hram with ⟨seg, hseg, heq | heq⟩ | heq | heq <;> cases heq
      · have := KernelImage.le_of_mem_segments hseg
        omega
      · have := KernelImage.le_of_mem_segments hseg
        omega
      · exact Nat.and_le_left.trans_lt (Nat.mod_lt _ (by decide))
      · exact (Nat.le_add_right _ _).trans_lt hdt.ram

/-! ## Taking the identity area out -/

/-- The leaves of the pages in the linear window. -/
def linearLeaves (image : KernelImage) (dt : DeviceTree) : Set (List (Fin 512) × ℕ) :=
  {x | ∃ flags pa size, .map .linear flags pa size ∈ bootSteps image dt ∧
    x = (leafPath .linear (pageFloor pa) size,
      PageTableEntry.new (pageFloor pa) (flags ||| PTEFlags.v))}

section Unmap

variable {page : BootMapType × ℕ × PageSize} {p : List (Fin 512)} {i : Fin 512}

/-- The path of a page under a map type. -/
def pagePath (page : BootMapType × ℕ × PageSize) : List (Fin 512) :=
  leafPath page.1 (pageFloor page.2.1) page.2.2

/-- **A page is taken out** exactly if its entry is in use. -/
theorem unmapPage_eq_ok (hpa : pageSize ∣ page.2.1) (hpath : pagePath page = p ++ [i])
    (hlt : ∀ f ∈ frames decode (tables m) root, f < 2 ^ 20) :
    unmapPage (physToVirt (PhysAddr.ofPpn root)) m page = .ok m' ↔
      ∃ b, tableAt decode (tables m) root p = some b ∧ decode (tables m b i) ≠ .empty ∧
        m' = Function.update m (b * pageSize + 8 * i) PageTableEntry.empty := by
  obtain ⟨mapType, pa, size⟩ := page
  obtain ⟨n, rfl⟩ := hpa
  have hfloor : pageFloor (pageSize * n) = n := Nat.mul_div_cancel_left n (by decide)
  rw [pagePath, hfloor] at hpath
  rw [unmapPage, mul_comm, mapType.vpn_eq n, ok_bind]
  exact unmap_eq_ok hpath hlt

/-- **A page that is mapped** can be taken out. No leaf is above another, so only the one at its
path is lost. -/
theorem unmapPage_spec (ht : IsTree decode (tables m) 2 root)
    (hlt : ∀ f ∈ frames decode (tables m) root, f < 2 ^ 20) (hpa : pageSize ∣ page.2.1)
    (hmem : pagePath page ∈ Prod.fst '' leaves decode (tables m) root) :
    ∃ m', unmapPage (physToVirt (PhysAddr.ofPpn root)) m page = .ok m' ∧
      IsTree decode (tables m') 2 root ∧
      frames decode (tables m') root ⊆ frames decode (tables m) root ∧
      leaves decode (tables m') root =
        {x | x ∈ leaves decode (tables m) root ∧ x.1 ≠ pagePath page} := by
  obtain ⟨p, i, hpath, -⟩ := Boot.exists_leafPath page.1 (pageFloor page.2.1) page.2.2
  obtain ⟨⟨y, l⟩, hleaf, hy⟩ := hmem
  dsimp only at hy
  subst hy
  have hentry := hleaf
  rw [pagePath, hpath] at hentry
  obtain ⟨b, hb, hl⟩ := exists_of_mem_leaves hentry
  obtain ⟨htree, hframes, -, hleaves⟩ := isTree_clear (i := i) ht hb
  refine ⟨_, (unmapPage_eq_ok hpa hpath hlt).mpr ⟨b, hb, by rw [hl]; nofun, rfl⟩, htree, hframes,
    ?_⟩
  rw [hleaves, ← hpath]
  ext x
  refine and_congr_right fun hx => not_congr ⟨fun hpre => ?_, fun heq => heq ▸ List.prefix_rfl⟩
  exact (leaf_paths_eq hleaf hx hpre).symm

/-- **A run of `unmap`** over pages that are mapped, each once. The other pages have other paths, so
their leaves are still there. -/
theorem exec_unmapPage (ht : IsTree decode (tables m) 2 root)
    (hlt : ∀ f ∈ frames decode (tables m) root, f < 2 ^ 20)
    {pages : List (BootMapType × ℕ × PageSize)}
    (hpages : ∀ page ∈ pages, pageSize ∣ page.2.1 ∧
      pagePath page ∈ Prod.fst '' leaves decode (tables m) root)
    (hnodup : (pages.map pagePath).Nodup) :
    ∃ m', exec (unmapPage (physToVirt (PhysAddr.ofPpn root))) m pages = .ok m' ∧
      leaves decode (tables m') root = {x | x ∈ leaves decode (tables m) root ∧
        ∀ page ∈ pages, x.1 ≠ pagePath page} := by
  induction pages generalizing m with
  | nil => exact ⟨m, rfl, by simp⟩
  | cons page pages ih =>
    obtain ⟨hdvd, hmem⟩ := hpages page List.mem_cons_self
    obtain ⟨m₁, hm₁, htree, hframes, hleaves⟩ := unmapPage_spec ht hlt hdvd hmem
    obtain ⟨hfirst, hrest⟩ := List.nodup_cons.mp hnodup
    have hstill : ∀ page' ∈ pages, pageSize ∣ page'.2.1 ∧
        pagePath page' ∈ Prod.fst '' leaves decode (tables m₁) root := by
      intro page' hpage'
      obtain ⟨hdvd', x, hx, hpath⟩ := hpages page' (List.mem_cons_of_mem _ hpage')
      refine ⟨hdvd', x, ?_, hpath⟩
      rw [hleaves]
      refine ⟨hx, fun heq => hfirst ?_⟩
      rw [← heq, hpath]
      exact List.mem_map_of_mem hpage'
    obtain ⟨m₂, hm₂, hleaves₂⟩ := ih htree (fun f hf => hlt f (hframes hf)) hstill hrest
    refine ⟨m₂, by rw [exec_cons_of_ok hm₁, hm₂], ?_⟩
    rw [hleaves₂, hleaves]
    ext x
    simp [and_assoc]

end Unmap

/-- A page in the linear window and one at its physical address have the same path only if they are
different pages. -/
theorem leafPath_ne_identityPath {n flags flags' : ℕ} {size : PageSize} {page : ℕ × PageSize}
    (hpath : leafPath .linear n size = identityPath page) (hflags : flags < 2 ^ 8)
    (hflags' : flags' < 2 ^ 8) :
    PageTableEntry.new n flags ≠ PageTableEntry.new (pageFloor page.1) flags' := by
  intro hword
  have hppn := congrArg PageTableEntry.ppn hword
  rw [ppn_new_mod hflags, ppn_new_mod hflags'] at hppn
  have hpre : leafPath .linear n size <+: VirtPageNum.indices (BootMapType.identical.page
      (pageFloor page.1)) := by
    rw [hpath]
    exact List.take_prefix _ _
  rw [leafPath_prefix_indices, BootMapType.page_mod] at hpre
  cases size <;> simp only [BootMapType.key, PageSize.pages] at hpre <;> omega

/-- **`unmap_temp_identity_area`** leaves the pages in the linear window. -/
theorem unmapTempIdentityArea_spec {ram : Set ℕ}
    (h : Boot.TreeOf image.skernel root ram (bootSteps image dt) s) :
    ∃ m', unmapTempIdentityArea image root s.mem = .ok m' ∧
      leaves decode (tables m') root = linearLeaves image dt := by
  have hidentity : ∀ page ∈ image.pages, ∃ flags < 2 ^ 8,
      (identityPath page, PageTableEntry.new (pageFloor page.1) flags) ∈
      leavesOf (bootSteps image dt) := by
    intro page hpage
    obtain ⟨flags, hmem⟩ := exists_identical_of_mem_pages dt hpage
    exact ⟨_, or_v_lt (kernelFlags_of_mem hmem).leaf.lt, _, hmem, rfl⟩
  have hpages : ∀ page ∈ image.pages.map fun page => (BootMapType.identical, page),
      pageSize ∣ page.2.1 ∧ pagePath page ∈ Prod.fst '' leaves decode (tables s.mem) root := by
    refine List.forall_mem_map.mpr fun page hpage => ?_
    obtain ⟨n, hn, -⟩ := image.pages_tiles.exists_of_mem hpage
    obtain ⟨flags, -, hmem⟩ := hidentity page hpage
    exact ⟨⟨n, by rw [hn, mul_comm]⟩, _, h.leaves ▸ hmem, rfl⟩
  obtain ⟨m', hrun, hleaves⟩ := exec_unmapPage h.tree
    (fun f hf => (h.inGiB f hf).frame_lt image.skernel_lt) hpages
    (by rw [List.map_map]; exact image.nodup_pages)
  rw [exec_map] at hrun
  refine ⟨m', hrun, ?_⟩
  simp only [hleaves, h.leaves, List.forall_mem_map]
  ext x
  constructor
  · rintro ⟨⟨op, hop, hx⟩, hne⟩
    cases op with
    | reserve base size => cases hx
    | map mapType flags pa size =>
      cases hx
      cases mapType with
      | identical => exact absurd rfl (hne _ (mem_pages_of_identical hop))
      | linear => exact ⟨flags, pa, size, hop, rfl⟩
  · rintro ⟨flags, pa, size, hop, rfl⟩
    have hmem : (leafPath .linear (pageFloor pa) size,
        PageTableEntry.new (pageFloor pa) (flags ||| PTEFlags.v)) ∈ leavesOf (bootSteps image dt) :=
      ⟨_, hop, rfl⟩
    refine ⟨hmem, fun page hpage heq => ?_⟩
    obtain ⟨flags', hflags', hmem'⟩ := hidentity page hpage
    refine leafPath_ne_identityPath heq (or_v_lt (kernelFlags_of_mem hop).leaf.lt) hflags' ?_
    dsimp only at heq
    rw [heq, ← h.leaves] at hmem
    rw [← h.leaves] at hmem'
    exact leaf_unique hmem hmem'

/-- **The leaves of the final page table** are those of the pages in the linear window. -/
theorem boot_leaves {sizeOfPage : ℕ} (hdt : dt.Bounded)
    (h : boot image dt sizeOfPage m = .ok (root, m')) :
    leaves decode (tables m') root = linearLeaves image dt := by
  obtain ⟨t, ht, hppn, hlt, hunmap⟩ := boot_cases h
  obtain ⟨rootPa, s, s', mb, hroot, hexec, hrootPa, -, hboot⟩ := setupMemoryAndMapping_cases ht
  rw [hppn, PhysPageNum.ofPhysAddr_eq_ok] at hrootPa
  subst hrootPa
  have htree := (treeOf_setupRoot hdt hlt hroot).run image.skernel_lt
    (fun op hop => ok_of_mem_bootSteps hdt hop) hexec
  rw [List.nil_append] at htree
  obtain ⟨m'', hrun, hleaves⟩ := unmapTempIdentityArea_spec htree
  rw [hboot, hrun] at hunmap
  cases hunmap
  exact hleaves

end CharlotteOs
