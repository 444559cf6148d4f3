import CharlotteOs.Mm.BootSpace

/-!
# Mapping and taking out segments

`map_segment` maps the pages of a range, or takes them out. What the tables say afterwards depends
only on their leaves, so a call that maps a range adds the leaves of its pages, and a call that
takes it out removes what is at their paths.

A call that maps a range returns if none of its pages is mapped and `MEMBLOCK` serves it, as long as
no page has been taken out before. `unmap` clears the entry of a page and leaves the table that it
was in. Such a table is in the way of a large page: its entry is valid, though nothing behind it is
mapped, and `bump_map` takes it for a page that is mapped before.

## Main definitions

* `LegalLeaf`: the hardware accepts a leaf
* `Boot.ZeroedRoot`: the root table is cleared
* `Segment.pages`, `Segment.image`: the physical pages and the virtual addresses of a segment
* `Boot.StaleTable`: a table is in the way of a large page
* `leafPages`: the number of pages of the leaf that translates a page

## Main results

* `Boot.LegalTree.calls`: the tables after any calls are well-formed, with legal leaves
* `mapSegment_returns_iff`: where no page is mapped, a call fails exactly over a stale table
* `mapSegment_exact`: after calls that map, a call maps exactly its range
-/

namespace CharlotteOs

open FallibleRun TableTree PageTableEntry PageTable

/-! ## Leaves that the hardware accepts -/

/-- **A legal leaf**: it is readable if it can be written, and it is aligned to the pages that it
maps. -/
def LegalLeaf (x : List (Fin 512) × ℕ) : Prop :=
  (PTEFlags.contains (flags x.2) PTEFlags.w = true →
    PTEFlags.contains (flags x.2) PTEFlags.r = true) ∧
    512 ^ (3 - x.1.length) ∣ ppn x.2

/-- A page behind a legal leaf is mapped. -/
theorem walk_ne_none {t : ℕ → Fin 512 → ℕ} {root v : ℕ} {x : List (Fin 512) × ℕ}
    (hx : x ∈ leaves decode t root) (hlegal : LegalLeaf x) (hpre : x.1 <+: VirtPageNum.indices v) :
    walk t root v ≠ none := by
  obtain ⟨rest, hrest⟩ := hpre
  have hlen : rest.length = 3 - x.1.length := by
    have := congrArg List.length hrest
    simp only [List.length_append, VirtPageNum.indices, List.length_cons, List.length_nil] at this
    omega
  rw [walk, lookup_eq_some_iff.mpr ⟨x.1, hrest.symm, hx⟩]
  dsimp only
  rw [hlen, if_neg, if_neg]
  · exact Option.some_ne_none _
  · rw [not_not]
    exact Nat.mod_eq_zero_of_dvd hlegal.2
  · intro hreserved
    rw [Bool.and_eq_true, Bool.not_eq_true'] at hreserved
    rw [hlegal.1 hreserved.1] at hreserved
    cases hreserved.2

/-- The leaf of a page that `map_segment` maps is legal. -/
theorem legalLeaf_of_map {mapType : BootMapType} {f pa : ℕ} {size : PageSize} (hf : LeafFlags f)
    (hdvd : size.pages * pageSize ∣ pa) :
    LegalLeaf (leafPath mapType (pageFloor pa) size,
      PageTableEntry.new (pageFloor pa) (f ||| PTEFlags.v)) := by
  have hv := or_v_lt hf.lt
  refine ⟨?_, ?_⟩
  · rw [flags_new hv, contains_or_v (by decide), contains_or_v (by decide)]
    exact hf.readable
  · have hpages : 512 ^ (3 - (leafPath mapType (pageFloor pa) size).length) = size.pages := by
      cases size <;> rfl
    obtain ⟨k, rfl⟩ := hdvd
    have hfloor : pageFloor (size.pages * pageSize * k) = size.pages * k := by
      rw [pageFloor, Nat.mul_right_comm, Nat.mul_div_cancel _ (by decide)]
    rw [hpages, ppn_new_mod hv, hfloor]
    refine (Nat.dvd_mod_iff ?_).mpr (dvd_mul_right _ _)
    cases size <;> decide

/-! ## The tables after calls -/

/-- The arguments of a call are words, and pages are mapped with flags of leaves. -/
def CallOk (call : Segment × MapAction) : Prop :=
  call.1.startAddr < 2 ^ 64 ∧ call.1.endAddr < 2 ^ 64 ∧
    ∀ flags, call.2 = .map flags → LeafFlags flags

namespace Boot

/-- **The root table is cleared**, in a page that is not available, where the kernel can reach
it. -/
structure ZeroedRoot (kernel root : ℕ) (s : Boot) : Prop where
  zero : ∀ i, tables s.mem root i = 0
  inGiB : InGiB kernel (root * pageSize)
  canonical : s.memblock.available.Canonical
  apart : Disjoint (pageBytes root) s.memblock.available.bytes

/-- **The tables are a well-formed tree** whose leaves are legal. -/
structure LegalTree (kernel root : ℕ) (s : Boot) : Prop where
  wellFormed : s.WellFormed kernel root
  legal : ∀ x ∈ leaves decode (tables s.mem) root, LegalLeaf x

variable {kernel root : ℕ} {s s' : Boot}

theorem ZeroedRoot.empty (h : s.ZeroedRoot kernel root) (i : Fin 512) :
    decode (tables s.mem root i) = .empty := by
  rw [h.zero i]
  exact decode_empty

theorem ZeroedRoot.legalTree (h : s.ZeroedRoot kernel root) : s.LegalTree kernel root := by
  refine ⟨wellFormed_of_empty h.empty h.inGiB h.canonical h.apart, ?_⟩
  rw [leaves_of_empty h.empty]
  exact fun x hx => hx.elim

theorem WellFormed.frame_lt (hkernel : kernel < 2 ^ 32) (h : s.WellFormed kernel root) :
    ∀ f ∈ frames decode (tables s.mem) root, f < 2 ^ 20 := fun f hf =>
  (h.inGiB f hf).frame_lt hkernel

/-- `apply_action` keeps the tree. -/
theorem LegalTree.applyAction (hkernel : kernel < 2 ^ 32) (h : s.LegalTree kernel root)
    {mapType : BootMapType} {action : MapAction} {page : ℕ × PageSize}
    (hdvd : page.2.pages * pageSize ∣ page.1)
    (hflags : ∀ flags, action = .map flags → LeafFlags flags)
    (hrun : s.applyAction kernel root mapType action page = .ok s') : s'.LegalTree kernel root := by
  have hpage : pageSize ∣ page.1 := dvd_of_mul_left_dvd hdvd
  cases action with
  | map flags =>
    have hf := hflags flags rfl
    have hop : (BootStep.map mapType flags page.1 page.2).Ok := ⟨hpage, hf⟩
    have hshape := h.wellFormed.shape.step hkernel (ledger_unavailable hkernel) hop hrun
    refine ⟨hshape.wellFormed, ?_⟩
    rw [hshape.leaves]
    rintro x (hx | ⟨op, hop, hx⟩)
    · exact h.legal x hx
    · cases List.mem_singleton.mp hop
      cases hx
      exact legalLeaf_of_map hf hdvd
  | unmap =>
    obtain ⟨mem, hmem, hrun⟩ := exists_of_bind_eq_ok hrun
    cases hrun
    obtain ⟨p, i, hpath, -⟩ := exists_leafPath mapType (pageFloor page.1) page.2
    have hpath' : pagePath (mapType, page) = p ++ [i] := hpath
    obtain ⟨b, hb, -, rfl⟩ := (unmapPage_eq_ok hpage hpath' (h.wellFormed.frame_lt hkernel)).mp hmem
    obtain ⟨htree, hframes, -, hleaves⟩ := isTree_clear (i := i) h.wellFormed.tree hb
    refine ⟨⟨htree, fun f hf => h.wellFormed.inGiB f (hframes hf), h.wellFormed.canonical,
      fun f hf => h.wellFormed.apart f (hframes hf)⟩, ?_⟩
    rw [hleaves]
    exact fun x hx => h.legal x hx.1

/-- A call of `map_segment` keeps the tree. -/
theorem LegalTree.call (hkernel : kernel < 2 ^ 32) (h : s.LegalTree kernel root)
    {call : Segment × MapAction} (hcall : CallOk call)
    (hrun : s.callMapSegment kernel root call = .ok s') : s'.LegalTree kernel root :=
  invariant_exec (fun _ _ _ hpage hs hs' => hs.applyAction hkernel
    (pages_dvd_of_mem_segmentPages hcall.1 hpage) hcall.2.2 hs') h hrun

/-- **Any calls of `map_segment`** that return leave a well-formed tree with legal leaves. -/
theorem LegalTree.calls (hkernel : kernel < 2 ^ 32) (h : s.LegalTree kernel root)
    {calls : List (Segment × MapAction)} (hcalls : ∀ call ∈ calls, CallOk call)
    (hrun : exec (Boot.callMapSegment kernel root) s calls = .ok s') : s'.LegalTree kernel root :=
  invariant_exec (fun _ _ call hcall hs hs' => hs.call hkernel (hcalls call hcall) hs') h hrun

end Boot

/-! ## Segments -/

namespace Segment

/-- The physical pages of a segment, rounded to whole pages. -/
def pages (seg : Segment) : Set ℕ := Set.Ico (pageFloor seg.startAddr) (pageCeil seg.endAddr)

/-- The virtual addresses of a segment. -/
def image (seg : Segment) : Set ℕ :=
  {va | ∃ pa, pageFloor pa ∈ seg.pages ∧ va = seg.mapType.paToVa pa}

/-- The large page around a page lies in the segment as a whole. -/
def Large (seg : Segment) (n : ℕ) : Prop :=
  pageFloor seg.startAddr ≤ n / 512 * 512 ∧ n / 512 * 512 + 512 ≤ pageCeil seg.endAddr

instance (seg : Segment) (n : ℕ) : Decidable (seg.Large n) := inferInstanceAs (Decidable (_ ∧ _))

theorem large_of_page {seg : Segment} {k n : ℕ} (hdvd : 512 ∣ k) (hk : k ≤ n) (hn : n < k + 512)
    (hstart : pageFloor seg.startAddr ≤ k) (hend : k + 512 ≤ pageCeil seg.endAddr) :
    seg.Large n := by
  have hblock : n / 512 * 512 = k := by omega
  exact ⟨hblock.symm ▸ hstart, hblock.symm ▸ hend⟩

/-- A segment as a range that is mapped. -/
def range (seg : Segment) (flags : ℕ) : BootRange :=
  .segment seg.mapType flags seg.startAddr seg.endAddr

/-- The segment is below 4 GiB. -/
def Low (seg : Segment) : Prop := seg.startAddr ≤ 2 ^ 32 ∧ seg.endAddr ≤ 2 ^ 32

theorem lt_of_mem_pages {seg : Segment} (h : seg.Low) {n : ℕ} (hn : n ∈ seg.pages) : n < 2 ^ 20 :=
  hn.2.trans_le (pageCeil_le h.2)

end Segment

/-! ## Virtual pages -/

/-- The virtual page of a physical address below 4 GiB, in the bits of its indices. -/
theorem BootMapType.paToVa_mod (mapType : BootMapType) {pa : ℕ} (hpa : pa < 2 ^ 32) :
    mapType.paToVa pa / pageSize % 2 ^ 27 = mapType.key (pageFloor pa) := by
  cases mapType with
  | identical => rfl
  | linear =>
    rw [paToVa, physToVirt_eq hpa, key]
    simp only [physVirtOffset, pageSize, pageFloor]
    omega

/-- The hardware translates the virtual addresses of a segment. -/
theorem sv39_paToVa {t : ℕ → Fin 512 → ℕ} {root pa : ℕ} (mapType : BootMapType)
    (hpa : pa < 2 ^ 32) :
    sv39 t root (mapType.paToVa pa) = (walk t root (mapType.paToVa pa / pageSize)).map
      fun x => (x.1 * pageSize + pa % pageSize, x.2) := by
  have hcanon : mapType.paToVa pa / 2 ^ 38 = 0 ∨ mapType.paToVa pa / 2 ^ 38 = 2 ^ 26 - 1 := by
    cases mapType with
    | identical =>
      rw [BootMapType.paToVa]
      omega
    | linear =>
      rw [BootMapType.paToVa, physToVirt_eq hpa]
      simp only [physVirtOffset]
      omega
  have hoffset : mapType.paToVa pa % pageSize = pa % pageSize := by
    cases mapType with
    | identical => rfl
    | linear =>
      rw [BootMapType.paToVa, physToVirt_eq hpa]
      simp only [physVirtOffset, pageSize]
      omega
  rw [sv39, if_pos hcanon, hoffset]

theorem VirtPageNum.indices_congr {v w : ℕ} (h : v % 2 ^ 27 = w % 2 ^ 27) :
    indices v = indices w := by
  simp only [indices, List.cons.injEq, Fin.ext_iff, Fin.val_ofNat, and_true,
    Nat.shiftRight_eq_div_pow]
  omega

theorem BootMapType.key_add {mapType : BootMapType} {k w : ℕ} {size : PageSize}
    (hdvd : size.pages ∣ k) (hlt : k + size.pages ≤ 2 ^ 20)
    (h : mapType.key k / size.pages = w % 2 ^ 27 / size.pages) :
    mapType.key (k + w % size.pages) = w % 2 ^ 27 := by
  obtain ⟨j, rfl⟩ := hdvd
  cases mapType <;> cases size <;> simp only [key, PageSize.pages] at * <;> omega

/-- A key that begins with the path of a page is that of one of its small pages. -/
theorem exists_page_of_indices {mapType : BootMapType} {k w : ℕ} {size : PageSize}
    (hdvd : size.pages ∣ k) (hlt : k + size.pages ≤ 2 ^ 20)
    (hpre : leafPath mapType k size <+: VirtPageNum.indices w) :
    ∃ n, k ≤ n ∧ n < k + size.pages ∧ mapType.key n = w % 2 ^ 27 := by
  refine ⟨k + w % size.pages, Nat.le_add_right _ _, ?_, ?_⟩
  · exact Nat.add_lt_add_left (Nat.mod_lt _ size.pages_pos) k
  · exact BootMapType.key_add hdvd hlt ((leafPath_prefix_indices mapType k w size).mp hpre)

/-- **Where no page is mapped there is no leaf**: the path of a page is not comparable with that of
any leaf, since a key behind both would be that of a page that is mapped. -/
theorem free_of_unmapped {t : ℕ → Fin 512 → ℕ} {root k : ℕ} {mapType : BootMapType}
    {size : PageSize} (ht : IsTree decode t 2 root)
    (hlegal : ∀ x ∈ leaves decode t root, LegalLeaf x) (hdvd : size.pages ∣ k)
    (hlt : k + size.pages ≤ 2 ^ 20) (hunmapped : ∀ n, k ≤ n → n < k + size.pages →
      walk t root (mapType.paToVa (n * pageSize) / pageSize) = none) :
    Free (Prod.fst '' leaves decode t root) (leafPath mapType k size) := by
  rintro _ ⟨x, hx, rfl⟩
  have hboth : ∀ w, x.1 <+: VirtPageNum.indices w →
      leafPath mapType k size <+: VirtPageNum.indices w → False := by
    intro w hxw hkw
    obtain ⟨n, hn, hn', hkey⟩ := exists_page_of_indices hdvd hlt hkw
    have hpa : n * pageSize < 2 ^ 32 := by
      simp only [pageSize]
      omega
    have hindices := mapType.paToVa_mod hpa
    rw [pageFloor, Nat.mul_div_cancel _ (by decide), hkey] at hindices
    rw [← VirtPageNum.indices_congr hindices] at hxw
    exact walk_ne_none hx (hlegal x hx) hxw (hunmapped n hn hn')
  refine ⟨fun hpre => ?_, fun hpre => ?_⟩
  · have hk : leafPath mapType k size <+: VirtPageNum.indices (mapType.page k) :=
      List.take_prefix _ _
    exact hboth _ (hpre.trans hk) hk
  · obtain ⟨w, hw⟩ : ∃ w, x.1 <+: VirtPageNum.indices w := by
      obtain ⟨p, b, i, hy, hb, -⟩ := hx
      have hlen := ht.height hb
      obtain ⟨w, -, hw⟩ := VirtPageNum.exists_indices
        (l := x.1 ++ List.replicate (3 - x.1.length) 0) (by simp [hy]; omega)
      exact ⟨w, hw ▸ List.prefix_append _ _⟩
    exact hboth w hw (hpre.trans hw)

/-- The number of pages of the leaf that translates a virtual page. -/
def leafPages (t : ℕ → Fin 512 → ℕ) (root v : ℕ) : Option ℕ :=
  (lookup decode t root (VirtPageNum.indices v)).map fun x => 512 ^ x.2.length

/-- **The translation of a physical page** in a leaf of a map type: it is the page itself. -/
theorem walk_of_mapped {t : ℕ → Fin 512 → ℕ} {root k pa f : ℕ} {mapType : BootMapType}
    {size : PageSize} (hf : LeafFlags f) (hdvd : size.pages ∣ k) (hlt : k + size.pages ≤ 2 ^ 20)
    (hk : k ≤ pageFloor pa) (hpa : pageFloor pa < k + size.pages)
    (hleaf : (leafPath mapType k size, PageTableEntry.new k (f ||| PTEFlags.v)) ∈
      leaves decode t root) :
    sv39 t root (mapType.paToVa pa) = some (pa, f ||| PTEFlags.v) ∧
      leafPages t root (mapType.paToVa pa / pageSize) = some size.pages := by
  have hlow : pa < 2 ^ 32 := by
    simp only [pageFloor, pageSize] at hpa
    omega
  have hkey := mapType.paToVa_mod hlow
  have hpage : mapType.key k / size.pages = mapType.paToVa pa / pageSize % 2 ^ 27 / size.pages := by
    rw [hkey]
    obtain ⟨j, rfl⟩ := hdvd
    cases mapType <;> cases size <;> simp only [BootMapType.key, PageSize.pages] at * <;> omega
  obtain ⟨rest, hrest⟩ := (leafPath_prefix_indices mapType k _ size).mpr hpage
  have hpages := pages_of_take_append hrest.symm
  have hlookup := lookup_eq_some_iff.mpr ⟨_, hrest.symm, hleaf⟩
  have hoffset : k + mapType.paToVa pa / pageSize % size.pages = pageFloor pa := by
    obtain ⟨j, rfl⟩ := hdvd
    cases mapType <;> cases size <;> simp only [BootMapType.key, PageSize.pages] at * <;> omega
  constructor
  · rw [sv39_paToVa mapType hlow, walk_of_leaf (by omega) hf (hpages ▸ hdvd) hlookup, hpages,
      hoffset]
    exact congrArg (fun x => some (x, f ||| PTEFlags.v)) (Nat.div_add_mod' pa pageSize)
  · rw [leafPages, hlookup, Option.map_some, hpages]

/-- A virtual address whose key is that of a physical page is an address of that page. -/
theorem mem_image_of_key {seg : Segment} (hlow : seg.Low) {n va : ℕ} (hn : n ∈ seg.pages)
    (hcanon : va / 2 ^ 38 = 0 ∨ va / 2 ^ 38 = 2 ^ 26 - 1)
    (hkey : seg.mapType.key n = va / pageSize % 2 ^ 27) : va ∈ seg.image := by
  have hlt := Segment.lt_of_mem_pages hlow hn
  have hfloor : pageFloor (n * pageSize + va % pageSize) = n := by
    simp only [pageFloor, pageSize]
    omega
  have hpa : n * pageSize + va % pageSize < 2 ^ 32 := by
    simp only [pageSize]
    omega
  refine ⟨n * pageSize + va % pageSize, hfloor.symm ▸ hn, ?_⟩
  cases htype : seg.mapType with
  | identical =>
    rw [htype] at hkey
    simp only [BootMapType.key, BootMapType.paToVa, pageSize] at *
    omega
  | linear =>
    rw [htype] at hkey
    rw [BootMapType.paToVa, physToVirt_eq hpa]
    simp only [BootMapType.key, physVirtOffset, pageSize] at *
    omega

/-! ## Where a segment can be mapped -/

/-- The steps of a call that maps a segment. -/
def Segment.steps (seg : Segment) (flags : ℕ) : List BootStep :=
  segmentSteps seg.mapType flags seg.startAddr seg.endAddr

/-- **There is enough memory**: `MEMBLOCK` hands out a page for each table that is missing when a
step comes to it. -/
def Boot.Supplied (kernel root : ℕ) (s : Boot) (steps : List BootStep) : Prop :=
  Along (Boot.step kernel (root * pageSize)) (Boot.Grants kernel root) s steps

/-- **A stale table**: at the entry of a large page of the segment there is a table. -/
def Boot.StaleTable (root : ℕ) (s : Boot) (seg : Segment) : Prop :=
  ∃ pa c, (pa, .twoMB) ∈ segmentPages seg.startAddr seg.endAddr ∧
    tableAt decode (tables s.mem) root (leafPath seg.mapType (pageFloor pa) .twoMB) = some c

theorem ne_oneGB_of_mem {startAddr endAddr pa : ℕ} {size : PageSize}
    (h : (pa, size) ∈ segmentPages startAddr endAddr) : size ≠ .oneGB := by
  rw [segmentPages] at h
  simp only [List.mem_append, List.mem_map, Prod.mk.injEq] at h
  rcases h with (⟨x, -, -, rfl⟩ | ⟨x, -, -, rfl⟩) | ⟨x, -, -, rfl⟩ <;> decide

namespace Segment

variable {seg : Segment} {flags : ℕ} {op : BootStep}

theorem mem_steps : op ∈ seg.steps flags ↔ ∃ pa size,
    (pa, size) ∈ segmentPages seg.startAddr seg.endAddr ∧ op = .map seg.mapType flags pa size := by
  rw [steps, segmentSteps, List.mem_map]
  constructor
  · rintro ⟨⟨pa, size⟩, hpage, rfl⟩
    exact ⟨pa, size, hpage, rfl⟩
  · rintro ⟨pa, size, hpage, rfl⟩
    exact ⟨(pa, size), hpage, rfl⟩

theorem ok_of_mem_steps (hstart : seg.startAddr < 2 ^ 64) (hflags : LeafFlags flags)
    (hop : op ∈ seg.steps flags) : op.Ok := by
  obtain ⟨pa, size, hpage, rfl⟩ := mem_steps.mp hop
  exact ⟨dvd_of_mem_segmentPages hstart hpage, hflags⟩

theorem pairwise_steps (hlow : seg.Low) : (seg.steps flags).Pairwise BootStep.Apart :=
  have hrange : (seg.range flags).Low := hlow
  BootRange.pairwise_steps hrange

end Segment

namespace Boot

variable {kernel root : ℕ} {s s' : Boot} {seg : Segment} {flags : ℕ}

/-- The path of each page of a segment that is not mapped is not comparable with that of a leaf. -/
theorem LegalTree.free (h : s.LegalTree kernel root) (hlow : seg.Low)
    (hunmapped : ∀ va ∈ seg.image, sv39 (tables s.mem) root va = none) {pa : ℕ} {size : PageSize}
    (hpage : (pa, size) ∈ segmentPages seg.startAddr seg.endAddr) :
    Free (Prod.fst '' leaves decode (tables s.mem) root)
      (leafPath seg.mapType (pageFloor pa) size) := by
  obtain ⟨k, rfl, hdvd, hstart, hend⟩ := exists_of_mem_segmentPages hlow.1 hlow.2 hpage
  have hceil := pageCeil_le hlow.2
  have hfloor : ∀ n, pageFloor (n * pageSize) = n := fun n => Nat.mul_div_cancel n (by decide)
  rw [hfloor]
  refine free_of_unmapped h.wellFormed.tree h.legal hdvd (hend.trans hceil) fun n hn hn' => ?_
  have hpa : n * pageSize < 2 ^ 32 := by
    simp only [pageSize]
    omega
  have hnone :=
    hunmapped _ ⟨n * pageSize, by rw [hfloor]; exact ⟨hstart.trans hn, hn'.trans_le hend⟩, rfl⟩
  rw [sv39_paToVa _ hpa, Option.map_eq_none_iff] at hnone
  exact hnone

/-- The paths of the pages of such a segment are clear, except where a stale table stands. A path to
a small page is longer than that to any table. -/
theorem LegalTree.clear_iff (h : s.LegalTree kernel root) (hlow : seg.Low)
    (hunmapped : ∀ va ∈ seg.image, sv39 (tables s.mem) root va = none) :
    (∀ op ∈ seg.steps flags, op.Clear (paths decode (tables s.mem) root)
      (leaves decode (tables s.mem) root)) ↔ ¬ s.StaleTable root seg := by
  constructor
  · rintro hclear ⟨pa, c, hpage, hc⟩
    exact (hclear _ (Segment.mem_steps.mpr ⟨pa, .twoMB, hpage, rfl⟩) _ rfl).1 ⟨c, hc⟩
  · intro hstale op hop x hx
    obtain ⟨pa, size, hpage, rfl⟩ := Segment.mem_steps.mp hop
    cases hx
    have hfree := h.free hlow hunmapped hpage
    refine ⟨?_, fun x hx => (hfree _ ⟨x, hx, rfl⟩).1⟩
    rintro ⟨c, hc⟩
    cases size with
    | fourKB =>
      have := h.wellFormed.tree.height hc
      simp [leafPath, VirtPageNum.indices, PageSize.targetLevel] at this
    | twoMB => exact hstale ⟨pa, c, hpage, hc⟩
    | oneGB => exact ne_oneGB_of_mem hpage rfl

theorem callMapSegment_steps : s.callMapSegment kernel root (seg, .map flags) =
    exec (Boot.step kernel (root * pageSize)) s (seg.steps flags) :=
  callMapSegment_map kernel root s seg flags

/-- **Stale tables block a mapping.** After any calls of `map_segment` that returned, a call that
maps a segment of which no page is mapped, with enough memory, returns exactly if no table stands at
the entry of one of its large pages. If one does, `bump_map` panics over a page that is mapped
before. -/
theorem mapSegment_returns_iff (hkernel : kernel < 2 ^ 32) {start : Boot}
    (hroot : start.ZeroedRoot kernel root) {calls : List (Segment × MapAction)}
    (hcalls : ∀ call ∈ calls, CallOk call)
    (hrun : exec (Boot.callMapSegment kernel root) start calls = .ok s) (hlow : seg.Low)
    (hflags : LeafFlags flags) (hunmapped : ∀ va ∈ seg.image, sv39 (tables s.mem) root va = none)
    (hmemory : s.Supplied kernel root (seg.steps flags)) :
    ((∃ s', s.callMapSegment kernel root (seg, .map flags) = .ok s') ↔ ¬ s.StaleTable root seg) ∧
      (s.callMapSegment kernel root (seg, .map flags) = .error .mappedBefore ↔
        s.StaleTable root seg) := by
  have h := hroot.legalTree.calls hkernel hcalls hrun
  have hL := ledger_unavailable hkernel
  have hok : ∀ op ∈ seg.steps flags, op.Ok := fun op hop =>
    Segment.ok_of_mem_steps (hlow.1.trans_lt (by decide)) hflags hop
  have hapart : (seg.steps flags).Pairwise BootStep.Apart := Segment.pairwise_steps hlow
  have hiff := h.wellFormed.shape.run_ok_iff hkernel hL hok hapart
  rw [Supplied] at hmemory
  rw [and_iff_right hmemory, h.clear_iff hlow hunmapped] at hiff
  have hleaf : ∀ op ∈ seg.steps flags, ∀ x, op.leaf = some x →
      ∀ z ∈ leaves decode (tables s.mem) root, ¬ z.1 <+: x.1 := by
    intro op hop x hx z hz
    obtain ⟨pa, size, hpage, rfl⟩ := Segment.mem_steps.mp hop
    cases hx
    exact (h.free hlow hunmapped hpage _ ⟨z, hz, rfl⟩).1
  rw [callMapSegment_steps]
  refine ⟨hiff, fun he => ?_, fun hstale => ?_⟩
  · by_contra hno
    obtain ⟨t, ht⟩ := hiff.mpr hno
    rw [ht] at he
    cases he
  · refine (h.wellFormed.shape.run_cases hkernel hL hok hapart hmemory hleaf).resolve_left ?_
    exact fun hret => hiff.mp hret hstale

/-- Nothing is mapped by a root table that is cleared. -/
theorem ZeroedRoot.sv39_eq_none (h : s.ZeroedRoot kernel root) (va : ℕ) :
    sv39 (tables s.mem) root va = none := by
  have hlookup := (IsTree.of_empty (n := 2) h.empty).2.2 (VirtPageNum.indices (va / pageSize))
  rw [sv39, walk, hlookup]
  split <;> rfl

theorem ZeroedRoot.not_staleTable (h : s.ZeroedRoot kernel root) : ¬ s.StaleTable root seg := by
  rintro ⟨pa, c, -, hc⟩
  obtain ⟨p, i, hpath, -⟩ := exists_leafPath seg.mapType (pageFloor pa) .twoMB
  rw [hpath] at hc
  rcases Tidy.of_empty (P := ∅) h.empty _ c hc with hnil | ⟨y, hy, -⟩
  · exact List.append_ne_nil_of_right_ne_nil p (List.cons_ne_nil i []) hnil
  · exact hy.elim

theorem sampleBoot_zeroedRoot : sampleBoot.ZeroedRoot 0x80200000 0x80300 where
  zero _ := rfl
  inGiB := by decide
  canonical := sampleBoot_wellFormed.canonical
  apart := sampleBoot_wellFormed.apart _ root_mem_frames

/-- One page of 2 MiB. -/
def sampleLarge : Segment := ⟨0x80400000, 0x80600000, .identical⟩

/-- Its first small page. -/
def sampleSmall : Segment := ⟨0x80400000, 0x80401000, .identical⟩

theorem sampleLarge_low : sampleLarge.Low := ⟨by decide, by decide⟩

theorem sampleLarge_steps (flags : ℕ) :
    sampleLarge.steps flags = [.map .identical flags 0x80400000 .twoMB] := by
  have hpages : segmentPages sampleLarge.startAddr sampleLarge.endAddr =
      [(0x80400000, .twoMB)] := by
    decide +kernel
  rw [Segment.steps, segmentSteps, hpages]
  rfl

theorem sampleBoot_supplied :
    sampleBoot.Supplied 0x80200000 0x80300 (sampleLarge.steps (PTEFlags.r ||| PTEFlags.w)) := by
  rw [sampleLarge_steps]
  refine ⟨?_, fun _ _ => trivial⟩
  rw [Grants]
  decide +kernel

theorem mapSegment_returns_iff_sample : ∃ s',
    sampleBoot.callMapSegment 0x80200000 0x80300 (sampleLarge, .map (PTEFlags.r ||| PTEFlags.w)) =
      .ok s' := by
  have hnil : ∀ call ∈ ([] : List (Segment × MapAction)), CallOk call :=
    fun call hcall => nomatch hcall
  exact (mapSegment_returns_iff (by decide) sampleBoot_zeroedRoot hnil (exec_nil _) sampleLarge_low
    ⟨by decide, by decide, by decide⟩ (fun va _ => sampleBoot_zeroedRoot.sv39_eq_none va)
    sampleBoot_supplied).1.mpr sampleBoot_zeroedRoot.not_staleTable

/-- A small page is mapped and taken out again. The table that it was in stays, and nothing is
mapped; but the large page around it cannot be mapped. -/
theorem mapSegment_stale_table :
    sampleBoot.ZeroedRoot 0x80200000 0x80300 ∧ ∃ s,
    exec (Boot.callMapSegment 0x80200000 0x80300) sampleBoot
      [(sampleSmall, .map (PTEFlags.r ||| PTEFlags.w)), (sampleSmall, .unmap)] = .ok s ∧
    sampleLarge.Low ∧ (∀ va ∈ sampleLarge.image, sv39 (tables s.mem) 0x80300 va = none) ∧
    s.Supplied 0x80200000 0x80300 (sampleLarge.steps (PTEFlags.r ||| PTEFlags.w)) ∧
    s.callMapSegment 0x80200000 0x80300 (sampleLarge, .map (PTEFlags.r ||| PTEFlags.w)) =
      .error .mappedBefore := by
  have hthird := eq_error_of_map (f := fun _ : Boot => ()) (show
    (exec (Boot.callMapSegment 0x80200000 0x80300) sampleBoot
      ([(sampleSmall, .map (PTEFlags.r ||| PTEFlags.w)), (sampleSmall, .unmap)] ++
        [(sampleLarge, .map (PTEFlags.r ||| PTEFlags.w))])).map _ =
          .error .mappedBefore by decide +kernel)
  obtain ⟨s, hs, hstate⟩ := exists_of_map_eq_ok (f := fun s : Boot =>
    ((List.range 512).all fun n => (walk (tables s.mem) 0x80300 (0x80400 + n)).isNone,
      missing (tables s.mem) 0x80300 ((leafPath .identical 0x80400 .twoMB).take 1))) (show
    (exec (Boot.callMapSegment 0x80200000 0x80300) sampleBoot
      [(sampleSmall, .map (PTEFlags.r ||| PTEFlags.w)), (sampleSmall, .unmap)]).map _ =
        .ok (true, 0) by decide +kernel)
  rw [exec_append_of_ok hs, exec_singleton] at hthird
  obtain ⟨hwalks, hmissing⟩ := Prod.mk.inj hstate
  refine ⟨sampleBoot_zeroedRoot, s, hs, sampleLarge_low, ?_, ?_, hthird⟩
  · rintro va ⟨pa, ⟨hlo, hhi⟩, hva⟩
    have hpa : pa < 2 ^ 32 := by
      simp only [pageFloor, pageCeil, sampleLarge, pageSize] at hhi
      omega
    have hmem : pageFloor pa - 0x80400 ∈ List.range 512 := by
      rw [List.mem_range]
      simp only [pageFloor, pageCeil, sampleLarge, pageSize] at hlo hhi ⊢
      omega
    have hnone := List.all_eq_true.mp hwalks _ hmem
    have hpage : 0x80400 + (pageFloor pa - 0x80400) = sampleLarge.mapType.paToVa pa / pageSize := by
      simp only [pageFloor, pageCeil, sampleLarge, pageSize, BootMapType.paToVa] at hlo hhi ⊢
      omega
    rw [hpage, Option.isNone_iff_eq_none] at hnone
    rw [hva, sv39_paToVa _ hpa, hnone]
    rfl
  · rw [Supplied, sampleLarge_steps]
    refine ⟨?_, fun _ _ => trivial⟩
    have hfloor : pageFloor 0x80400000 = 0x80400 := by decide
    rw [Grants, hfloor]
    exact hmissing ▸ trivial

/-! ## Calls that only map -/

/-- Calls that map segments, each with its flags. -/
def mapCalls (segs : List (Segment × ℕ)) : List (Segment × MapAction) :=
  segs.map fun x => (x.1, .map x.2)

/-- Their steps. -/
def mapSteps (segs : List (Segment × ℕ)) : List BootStep := segs.flatMap fun x => x.1.steps x.2

theorem exec_mapCalls (kernel root : ℕ) (s : Boot) (segs : List (Segment × ℕ)) :
    exec (Boot.callMapSegment kernel root) s (mapCalls segs) =
      exec (Boot.step kernel (root * pageSize)) s (mapSteps segs) := by
  rw [mapCalls, exec_map]
  refine exec_flatMap (fun s x => ?_) s segs
  exact callMapSegment_steps

/-- The steps of such calls are those of aligned pages. -/
theorem ok_of_mem_mapSteps {segs : List (Segment × ℕ)}
    (hsegs : ∀ x ∈ segs, x.1.startAddr < 2 ^ 64 ∧ LeafFlags x.2) :
    ∀ op ∈ mapSteps segs, op.Ok := by
  intro op hop
  obtain ⟨x, hx, hop⟩ := List.mem_flatMap.mp hop
  exact Segment.ok_of_mem_steps (hsegs x hx).1 (hsegs x hx).2 hop

/-- The shape of a root table that is cleared: there are no other tables. -/
theorem ZeroedRoot.shapeOf (h : s.ZeroedRoot kernel root) :
    ShapeOf kernel root Unavailable [] s := by
  have hnone : leavesOf [] = ∅ := by simp [leavesOf]
  have hleaves := leaves_of_empty h.empty
  have hshape := h.legalTree.wellFormed.shape
  have hpaths :=
    tidy_iff.mp (Tidy.of_empty (P := Prod.fst '' leaves decode (tables s.mem) root) h.empty)
  rw [hleaves] at hpaths
  rwa [hpaths, hleaves, ← hnone] at hshape

/-- **After calls that only map** there are tables only above leaves, and the leaves are those of
the pages that were mapped. -/
theorem ZeroedRoot.shapeOf_mapSteps (hkernel : kernel < 2 ^ 32) {start : Boot}
    (hroot : start.ZeroedRoot kernel root) {segs : List (Segment × ℕ)}
    (hsegs : ∀ x ∈ segs, x.1.startAddr < 2 ^ 64 ∧ LeafFlags x.2)
    (hrun : exec (Boot.callMapSegment kernel root) start (mapCalls segs) = .ok s) :
    ShapeOf kernel root Unavailable (mapSteps segs) s := by
  rw [exec_mapCalls] at hrun
  exact shapeOf_append.mpr (hroot.shapeOf.run hkernel (ledger_unavailable hkernel)
    (ok_of_mem_mapSteps hsegs) hrun)

/-- **What a segment adds to the translation**, where its leaves are added: each of its pages is
translated to itself, by a large page where one lies in the segment as a whole, and nothing else
changes. -/
theorem translation_of_leaves {t t' : ℕ → Fin 512 → ℕ} (hlow : seg.Low) (hflags : LeafFlags flags)
    (hleaves : leaves decode t' root = leaves decode t root ∪ leavesOf (seg.steps flags)) :
    (∀ pa, pageFloor pa ∈ seg.pages →
      sv39 t' root (seg.mapType.paToVa pa) = some (pa, flags ||| PTEFlags.v) ∧
      leafPages t' root (seg.mapType.paToVa pa / pageSize) =
        some (if seg.Large (pageFloor pa) then 512 else 1)) ∧
    ∀ va, va ∉ seg.image → sv39 t' root va = sv39 t root va := by
  have hceil := pageCeil_le hlow.2
  constructor
  · intro pa hpa
    have htiles := segmentPages_tiles hlow.1 hlow.2 (hpa.1.trans hpa.2.le)
    obtain ⟨k, size, hpage, hk, hk'⟩ := htiles.cover hpa.1 hpa.2
    obtain ⟨n, hn, hdvd, hstart, hend⟩ := htiles.exists_of_mem hpage
    cases Nat.eq_of_mul_eq_mul_right (by decide) hn
    have hleaf : (leafPath seg.mapType k size, PageTableEntry.new k (flags ||| PTEFlags.v)) ∈
        leaves decode t' root := by
      rw [hleaves]
      refine .inr ⟨_, Segment.mem_steps.mpr ⟨_, size, hpage, rfl⟩, ?_⟩
      rw [BootStep.leaf, pageFloor, Nat.mul_div_cancel _ (by decide)]
    obtain ⟨hsv39, hpages⟩ := walk_of_mapped hflags hdvd (hend.trans hceil) hk hk' hleaf
    refine ⟨hsv39, hpages.trans (congrArg some ?_)⟩
    cases size with
    | fourKB =>
      have hsmall : ¬ seg.Large k := not_block_of_mem_segmentPages hlow.1 hlow.2 hpage
      rw [Nat.le_antisymm (Nat.lt_succ_iff.mp hk') hk, if_neg hsmall, PageSize.pages]
    | twoMB => rw [if_pos (Segment.large_of_page hdvd hk hk' hstart hend), PageSize.pages]
    | oneGB => exact absurd rfl (ne_oneGB_of_mem hpage)
  · intro va hva
    rw [sv39, sv39]
    split
    · rename_i hcanon
      rw [walk_congr (lookup_eq_of_leaves fun x hpre => ?_)]
      rw [hleaves]
      refine or_iff_left ?_
      rintro ⟨op, hop, hx⟩
      obtain ⟨pa, size, hpage, rfl⟩ := Segment.mem_steps.mp hop
      obtain ⟨k, rfl, hdvd, hstart, hend⟩ := exists_of_mem_segmentPages hlow.1 hlow.2 hpage
      cases hx
      rw [pageFloor, Nat.mul_div_cancel _ (by decide)] at hpre
      obtain ⟨n, hn, hn', hkey⟩ := exists_page_of_indices hdvd (hend.trans hceil) hpre
      exact hva (mem_image_of_key hlow ⟨hstart.trans hn, hn'.trans_le hend⟩ hcanon hkey)
    · rfl

/-- **A call maps exactly its range.** After calls that only map, a call that maps a segment of
which no page is mapped, with enough memory, returns. Each page of the segment is then translated to
itself with the flags of the call, by a large page exactly where one lies in the segment as a whole,
and the translation of every other address is as before. There are tables only above leaves, so
where no page is mapped the paths are clear. -/
theorem mapSegment_exact (hkernel : kernel < 2 ^ 32) {start : Boot}
    (hroot : start.ZeroedRoot kernel root) {earlier : List (Segment × ℕ)}
    (hearlier : ∀ call ∈ mapCalls earlier, CallOk call)
    (hrun : exec (Boot.callMapSegment kernel root) start (mapCalls earlier) = .ok s)
    (hlow : seg.Low) (hflags : LeafFlags flags)
    (hunmapped : ∀ va ∈ seg.image, sv39 (tables s.mem) root va = none)
    (hmemory : s.Supplied kernel root (seg.steps flags)) :
    ∃ s', s.callMapSegment kernel root (seg, .map flags) = .ok s' ∧
      (∀ pa, pageFloor pa ∈ seg.pages →
        sv39 (tables s'.mem) root (seg.mapType.paToVa pa) = some (pa, flags ||| PTEFlags.v) ∧
        leafPages (tables s'.mem) root (seg.mapType.paToVa pa / pageSize) =
          some (if seg.Large (pageFloor pa) then 512 else 1)) ∧
      ∀ va, va ∉ seg.image → sv39 (tables s'.mem) root va = sv39 (tables s.mem) root va := by
  have hsegs : ∀ x ∈ earlier, x.1.startAddr < 2 ^ 64 ∧ LeafFlags x.2 := fun x hx =>
    have hcall := hearlier _ (List.mem_map_of_mem hx)
    ⟨hcall.1, hcall.2.2 x.2 rfl⟩
  have hL := ledger_unavailable hkernel
  have htree := hroot.legalTree.calls hkernel hearlier hrun
  have hshape := hroot.shapeOf_mapSteps hkernel hsegs hrun
  have hok : ∀ op ∈ seg.steps flags, op.Ok := fun op hop =>
    Segment.ok_of_mem_steps (hlow.1.trans_lt (by decide)) hflags hop
  have hclear : ∀ op ∈ seg.steps flags,
      op.Clear (above (leavesOf (mapSteps earlier))) (leavesOf (mapSteps earlier)) := by
    intro op hop x hx
    obtain ⟨pa, size, hpage, rfl⟩ := Segment.mem_steps.mp hop
    cases hx
    have hfree := htree.free hlow hunmapped hpage
    rw [hshape.leaves] at hfree
    exact (clear_above_iff (leafPath_ne_nil _ _ _)).mpr hfree
  obtain ⟨s', hs'⟩ := (hshape.run_ok_iff hkernel hL hok (Segment.pairwise_steps hlow)).mpr
    ⟨hmemory, hclear⟩
  have hshape' := hshape.run hkernel hL hok hs'
  refine ⟨s', callMapSegment_steps.trans hs', translation_of_leaves hlow hflags ?_⟩
  rw [hshape'.leaves, hshape.leaves]

theorem mapSegment_exact_sample : ∃ s',
    sampleBoot.callMapSegment 0x80200000 0x80300 (sampleLarge, .map (PTEFlags.r ||| PTEFlags.w)) =
      .ok s' ∧
      sv39 (tables s'.mem) 0x80300 0x80412345 =
        some (0x80412345, PTEFlags.r ||| PTEFlags.w ||| PTEFlags.v) ∧
      leafPages (tables s'.mem) 0x80300 0x80412 = some 512 := by
  have hnil : ∀ call ∈ mapCalls [], CallOk call := fun call hcall => nomatch hcall
  obtain ⟨s', hs', hinside, -⟩ := mapSegment_exact (by decide) sampleBoot_zeroedRoot hnil
    (exec_nil _)
    sampleLarge_low ⟨by decide, by decide, by decide⟩
      (fun va _ => sampleBoot_zeroedRoot.sv39_eq_none va)
    sampleBoot_supplied
  exact ⟨s', hs', hinside 0x80412345 ⟨by decide, by decide⟩⟩

end Boot

end CharlotteOs
