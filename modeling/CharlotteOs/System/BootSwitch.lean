import CharlotteOs.System.Boot

/-!
# Changing the page table while it is in use

The kernel starts at physical addresses. `enable_early_mmu` turns on `BOOT_PT`, which maps the
gigabyte around the kernel twice, and `rust_main` jumps to `virt_rust_main` in the linear window.
When the final page table is built, `switch_to_final_page_table` writes it to `satp`, and
`unmap_temp_identity_area` takes pages out of it. By then every load and store goes through the very
table that is being changed: the entry of a page is found and cleared at addresses in the linear
window, which the table has to map.

The definitions with `Through` in their names are those of `PageTable` and of the boot with each
access translated, and a fault where the table does not allow it. There is no fault. At no moment
does the code or the stack of the kernel lose its place, and no pointer comes to mean other memory
than under `BOOT_PT`.

## Main definitions

* `Mem.translate`, `Mem.loadThrough`, `Mem.storeThrough`: accesses through a page table in memory
* `PageTable.unmapThrough`, `unmapTempIdentityAreaThrough`: the code over such accesses
* `SelfMapped`: a page table that can be changed through itself
* `Steady`: what the kernel relies on while the table is changed

## Main results

* `PageTable.unmapThrough_eq`: `unmap` does not fault in a table that maps itself
* `Boot.sv39_bootPt`: what `BOOT_PT` maps
* `unmapTempIdentityArea_steady`: the kernel keeps running while the identity area is taken out
-/

namespace CharlotteOs

open FallibleRun TableTree PageTableEntry PageTable

/-! ## Accesses through a page table -/

namespace Mem

/-- The physical address behind a pointer under the page table at `root`, for an access that needs a
flag. -/
def translate (m : Mem) (root need ptr : ℕ) : Except Fault ℕ :=
  match sv39 (tables m) root ptr with
  | some (pa, flags) => if PTEFlags.contains flags need then .ok pa else .error .pageFault
  | none => .error .pageFault

/-- The word that a pointer reads. -/
def loadThrough (m : Mem) (root ptr : ℕ) : Except Fault ℕ := do
  let pa ← m.translate root PTEFlags.r ptr
  .ok (m pa)

/-- The memory after a word is written through a pointer. -/
def storeThrough (m : Mem) (root ptr val : ℕ) : Except Fault Mem := do
  let pa ← m.translate root PTEFlags.w ptr
  .ok (Function.update m pa val)

end Mem

namespace PageTable

/-- The loop of `bump_find_pte`. -/
def bumpFindLoopThrough (m : Mem) (root : ℕ) : ℕ → List (Fin 512) → Except Fault (Option ℕ)
  | _, [] => .ok none
  | entries, [i] => .ok (some (entries + 8 * i))
  | entries, i :: rest => do
    let pte ← m.loadThrough root (entries + 8 * i)
    if !isValid pte then .ok none
    else if isLeaf pte then .ok none
    else bumpFindLoopThrough m root (physToVirt (PhysAddr.ofPpn (ppn pte))) rest

/-- `unmap`. -/
def unmapThrough (m : Mem) (root self vpn : ℕ) (size : PageSize) : Except Fault Mem := do
  match ← bumpFindLoopThrough m root self ((VirtPageNum.indices vpn).take size.targetLevel) with
  | none => .error .unwrapNone
  | some pte => do
    let bits ← m.loadThrough root pte
    if isValid bits then m.storeThrough root pte PageTableEntry.empty else .error .notMapped

end PageTable

/-- The closure `apply_action` with `MapAction::Unmap`. -/
def unmapStepThrough (root : ℕ) (m : Mem) (page : ℕ × PageSize) : Except Fault Mem := do
  let vpn ← BootMapType.identical.vpn page.1
  unmapThrough m root (physToVirt (PhysAddr.ofPpn root)) vpn page.2

/-- `unmap_temp_identity_area`, under the page table that it changes. -/
def unmapTempIdentityAreaThrough (image : KernelImage) (rootPpn : ℕ) (m : Mem) : Except Fault Mem :=
  exec (unmapStepThrough rootPpn) m image.pages

/-! ## A table that maps itself -/

/-- A page table that can be changed through itself: its tables can be read and written in the
linear window. -/
structure SelfMapped (m : Mem) (root : ℕ) : Prop where
  lt : ∀ f ∈ frames decode (tables m) root, f < 2 ^ 20
  mapped : ∀ f ∈ frames decode (tables m) root, ∀ i : Fin 512,
    sv39 (tables m) root (physToVirt (f * pageSize + 8 * i)) =
      some (f * pageSize + 8 * i, PTEFlags.r ||| PTEFlags.w ||| PTEFlags.v)

namespace SelfMapped

variable {m : Mem} {root f : ℕ} (h : SelfMapped m root) (hf : f ∈ frames decode (tables m) root)
  (i : Fin 512)

include h hf

theorem translate {need : ℕ} (hneed : need = PTEFlags.r ∨ need = PTEFlags.w) :
    m.translate root need (physToVirt (PhysAddr.ofPpn f) + 8 * i) = .ok (f * pageSize + 8 * i) := by
  rw [entryPtr (h.lt f hf), Mem.translate, h.mapped f hf i]
  dsimp only
  rcases hneed with rfl | rfl
  · rw [if_pos (by decide)]
  · rw [if_pos (by decide)]

/-- An entry is read as it is in memory. -/
theorem loadThrough :
    m.loadThrough root (physToVirt (PhysAddr.ofPpn f) + 8 * i) = .ok (tables m f i) := by
  rw [Mem.loadThrough, h.translate hf i (.inl rfl), ok_bind]
  rfl

/-- An entry is written as it is in memory. -/
theorem storeThrough (val : ℕ) :
    m.storeThrough root (physToVirt (PhysAddr.ofPpn f) + 8 * i) val =
      .ok (m.store (physToVirt (PhysAddr.ofPpn f) + 8 * i) val) := by
  rw [Mem.storeThrough, h.translate hf i (.inr rfl), ok_bind, store_entry m (h.lt f hf)]

end SelfMapped

namespace PageTable

variable {m : Mem} {root a : ℕ}

/-- The tables on the way to an entry are read as they are in memory. -/
theorem bumpFindLoopThrough_eq (h : SelfMapped m root) (ha : a ∈ frames decode (tables m) root)
    (p : List (Fin 512)) :
    bumpFindLoopThrough m root (physToVirt (PhysAddr.ofPpn a)) p =
      .ok (bumpFindLoop m (physToVirt (PhysAddr.ofPpn a)) p) := by
  induction p generalizing a with
  | nil => rfl
  | cons i p ih =>
    cases p with
    | nil => rfl
    | cons j p =>
      rw [bumpFindLoopThrough, h.loadThrough ha, ok_bind, bumpFindLoop, load_entry m (h.lt a ha)]
      · cases hv : isValid (tables m a i) with
        | false => rfl
        | true =>
          cases hl : isLeaf (tables m a i) with
          | true => rfl
          | false =>
            obtain ⟨q, hq⟩ := ha
            exact ih (mem_frames (tableAt_snoc hq (decode_of_table hv hl)))
      · intro hnil
        cases hnil
      · intro hnil
        cases hnil

/-- **`unmap` does not fault** in a table that maps itself. -/
theorem unmapThrough_eq (h : SelfMapped m root) (vpn : ℕ) (size : PageSize) :
    unmapThrough m root (physToVirt (PhysAddr.ofPpn root)) vpn size =
      unmap m (physToVirt (PhysAddr.ofPpn root)) vpn size := by
  obtain ⟨p, i, hpath, -⟩ := VirtPageNum.exists_take vpn size
  rw [unmapThrough, unmap, bumpFindPte, bumpFindLoopThrough_eq h root_mem_frames, ok_bind, hpath,
    bumpFindLoop_eq fun q b _ hb => h.lt b (mem_frames hb)]
  cases hb : tableAt decode (tables m) root p with
  | none => rfl
  | some b =>
    have hb := mem_frames hb
    dsimp only [Option.map_some]
    rw [h.loadThrough hb, ok_bind, load_entry m (h.lt b hb), h.storeThrough hb]

end PageTable

theorem unmapStepThrough_eq {m : Mem} {root : ℕ} (h : SelfMapped m root) (page : ℕ × PageSize) :
    unmapStepThrough root m page = unmapStep (physToVirt (PhysAddr.ofPpn root)) m page :=
  bind_congr fun vpn => unmapThrough_eq h vpn page.2

/-! ## What the tables map -/

/-- What is found in a table is found in one with more leaves. -/
theorem sv39_of_leaves_subset {t t' : ℕ → Fin 512 → ℕ} {root va : ℕ} {x : ℕ × ℕ}
    (hsub : leaves decode t root ⊆ leaves decode t' root) (h : sv39 t root va = some x) :
    sv39 t' root va = some x := by
  obtain ⟨pte, rest, hlookup, -⟩ := lookup_of_sv39 h
  obtain ⟨y, hy, hleaf⟩ := lookup_eq_some_iff.mp hlookup
  have hwalk : walk t' root (va / pageSize) = walk t root (va / pageSize) := by
    apply walk_congr
    rw [hlookup, lookup_eq_some_iff]
    exact ⟨y, hy, hsub hleaf⟩
  rwa [sv39, hwalk]

namespace Boot

variable {kernel ptr pa : ℕ}

/-- **`BOOT_PT` allows everything** where it maps an address. -/
theorem sv39_bootPt (hkernel : kernel < 2 ^ 32) (h : physical kernel ptr = .ok pa) :
    sv39 (fun _ => bootPt kernel) 0 ptr =
      some (pa, PTEFlags.r ||| PTEFlags.w ||| PTEFlags.x ||| PTEFlags.v) := by
  rw [physical] at h
  cases hsv : sv39 (fun _ => bootPt kernel) 0 ptr with
  | none =>
    rw [hsv] at h
    cases h
  | some x =>
    obtain ⟨pa', f⟩ := x
    rw [hsv] at h
    cases h
    obtain ⟨pte, rest, hlookup, rfl, -⟩ := lookup_of_sv39 hsv
    obtain ⟨y, -, p, b, i, -, -, hleaf⟩ := lookup_eq_some_iff.mp hlookup
    dsimp only at hleaf
    rw [bootPt_eq hkernel] at hleaf
    split at hleaf
    · rw [decode_of_leaf (isValid_new (by decide)) (isLeaf_new (by decide))] at hleaf
      cases hleaf
      rw [flags_new (by decide)]
      rfl
    · cases hleaf

/-- `BOOT_PT` maps physical addresses to themselves, and the linear window to what is in it. -/
theorem straight_of_physical (hkernel : kernel < 2 ^ 32) (hptr : ptr < 2 ^ 64)
    (h : physical kernel ptr = .ok pa) : pa = ptr ∧ ptr < 2 ^ 38 ∨ ptr = pa + physVirtOffset := by
  by_cases hhalf : ptr / 2 ^ 38 = 0 ∨ ptr / 2 ^ 38 = 2 ^ 26 - 1
  · rw [physical_of_half hkernel hhalf] at h
    split at h
    · cases h
      simp only [physVirtOffset]
      omega
    · cases h
  · rw [physical, sv39, if_neg hhalf] at h
    cases h

end Boot

section Straight

variable {image : KernelImage} {dt : DeviceTree} {m : Mem} {root : ℕ}

/-- The page that a key is in, from the page of its leaf. -/
theorem page_of_leafPath {mapType : BootMapType} {k v : ℕ} {size : PageSize} (hdvd : size.pages ∣ k)
    (hk : k + size.pages ≤ 2 ^ 20) (hv : v < 2 ^ 52)
    (hcanon : v / 2 ^ 26 = 0 ∨ v / 2 ^ 26 = 2 ^ 26 - 1)
    (hpre : leafPath mapType k size <+: VirtPageNum.indices v) :
    k + v % size.pages = v ∧ v < 2 ^ 26 ∨ v = k + v % size.pages + (2 ^ 52 - 2 ^ 20) := by
  rw [leafPath_prefix_indices] at hpre
  obtain ⟨j, rfl⟩ := hdvd
  cases mapType <;> cases size <;> simp only [BootMapType.key, PageSize.pages] at * <;> omega

/-- So do the tables of the kernel, while only its pages are mapped. -/
theorem straight_of_sv39 (h : BootLayout image dt)
    (hsub : leaves decode (tables m) root ⊆ leavesOf (bootSteps image dt)) {va pa f : ℕ}
    (hva : va < 2 ^ 64) (hsv : sv39 (tables m) root va = some (pa, f)) :
    pa = va ∧ va < 2 ^ 38 ∨ va = pa + physVirtOffset := by
  have hcanon : va / 2 ^ 38 = 0 ∨ va / 2 ^ 38 = 2 ^ 26 - 1 := by
    by_contra hcanon
    rw [sv39, if_neg hcanon] at hsv
    cases hsv
  obtain ⟨pte, rest, hlookup, -, -, hpa⟩ := lookup_of_sv39 hsv
  obtain ⟨y, hy, hleaf⟩ := lookup_eq_some_iff.mp hlookup
  obtain ⟨op, hop, heq⟩ := hsub hleaf
  cases op with
  | reserve base size => cases heq
  | map mapType flags start size =>
    obtain ⟨startAddr, endAddr, hrange, hpage⟩ := mem_bootSteps_map.mp hop
    obtain ⟨hlow, hlow'⟩ := h.low hrange
    obtain ⟨k, rfl, hdvd, hstart, hend⟩ := exists_of_mem_segmentPages hlow hlow' hpage
    have hceil := pageCeil_le hlow'
    have hflags := or_v_lt (kernelFlags_of_mem hop).leaf.lt
    obtain ⟨rfl, rfl⟩ := Prod.mk.inj (Option.some.inj heq)
    rw [pageFloor, Nat.mul_div_cancel k (by decide)] at hy hpa
    rw [ppn_new (by omega) hflags, pages_of_take_append hy] at hpa
    have hv : va / pageSize < 2 ^ 52 ∧
        (va / pageSize / 2 ^ 26 = 0 ∨ va / pageSize / 2 ^ 26 = 2 ^ 26 - 1) := by
      simp only [pageSize]
      omega
    have hpage := page_of_leafPath hdvd (by omega) hv.1 hv.2 ⟨rest, hy.symm⟩
    generalize va / pageSize % size.pages = o at hpa hpage
    simp only [physVirtOffset, pageSize] at *
    omega

/-- The segments of the kernel should have their flags. -/
theorem kernelTranslation_of_segment (h : BootLayout image dt) {flags startAddr endAddr pa : ℕ}
    (hseg : (flags, startAddr, endAddr) ∈ image.segments) (hstart : startAddr ≤ pa)
    (hend : pa < endAddr) :
    kernelTranslation image dt (physToVirt pa) = some (pa, flags ||| PTEFlags.v) := by
  have hspace : kernelSpace image dt (pa / pageSize) = some flags := by
    refine (kernelSpace_eq_some h).mpr
      ⟨startAddr, endAddr, (mem_bootRanges_linear h).mpr (.inr (.inl hseg)), ?_, ?_⟩
    · exact Nat.div_le_div_right hstart
    · simp only [pageCeil, pageSize]
      omega
  have hle := KernelImage.le_of_mem_segments hseg
  dsimp only at hle
  rw [kernelTranslation_physToVirt (by omega), hspace]
  rfl

/-- A page of RAM that does not begin in the kernel should be readable and writable. -/
theorem kernelTranslation_of_outside {f : ℕ}
    (hf : f * pageSize ∈ Set.Ico dt.ramBase (dt.ramBase + dt.ramSize) \
      Set.Ico image.skernel image.ekernel) (hlt : f < 2 ^ 20) (i : Fin 512) :
    kernelTranslation image dt (physToVirt (f * pageSize + 8 * i)) =
      some (f * pageSize + 8 * i, PTEFlags.r ||| PTEFlags.w ||| PTEFlags.v) := by
  rw [kernelTranslation_physToVirt (slot_lt hlt i), slot_page, kernelSpace_of_outside hf]
  rfl

end Straight

/-! ## The kernel while its table is changed -/

/-- **What the kernel relies on** under the page table at `root`: its segments are where they were,
with their flags, so are the tables, and no pointer means other memory than under `BOOT_PT`. -/
structure Steady (image : KernelImage) (root : ℕ) (m : Mem) : Prop where
  segments : ∀ flags startAddr endAddr, (flags, startAddr, endAddr) ∈ image.segments →
    ∀ pa, startAddr ≤ pa → pa < endAddr →
      sv39 (tables m) root (physToVirt pa) = some (pa, flags ||| PTEFlags.v)
  self : SelfMapped m root
  same : ∀ va < 2 ^ 64, ∀ pa f pa' f', sv39 (fun _ => bootPt image.skernel) 0 va = some (pa, f) →
    sv39 (tables m) root va = some (pa', f') → pa = pa'

variable {image : KernelImage} {dt : DeviceTree} {m m' : Mem} {root : ℕ}

/-- Between the table as it was built and the one that is left in the end, the kernel has what it
relies on: what is mapped in the end is mapped now. -/
theorem Steady.of_between (h : BootLayout image dt) {A : Set ℕ}
    (hA : A ⊆ Set.Ico dt.ramBase (dt.ramBase + dt.ramSize) \ Set.Ico image.skernel image.ekernel)
    (hframes : ∀ f ∈ frames decode (tables m) root, f < 2 ^ 20 ∧ f * pageSize ∈ A)
    (hlow : linearLeaves image dt ⊆ leaves decode (tables m) root)
    (hhigh : leaves decode (tables m) root ⊆ leavesOf (bootSteps image dt))
    (hend : leaves decode (tables m') root = linearLeaves image dt) : Steady image root m := by
  have hmapped : ∀ va < 2 ^ 64, ∀ x, kernelTranslation image dt va = some x →
      sv39 (tables m) root va = some x := by
    intro va hva x hx
    refine sv39_of_leaves_subset (t := tables m') (by rwa [hend]) ?_
    rw [sv39_eq h hend hva, hx]
  have hwindow : ∀ a, physToVirt a < 2 ^ 64 := fun a => Nat.mod_lt _ (by decide)
  refine ⟨fun flags startAddr endAddr hseg pa hstart hend => ?_, ⟨fun f hf => (hframes f hf).1,
    fun f hf i => ?_⟩, fun va hva pa f pa' f' hboot hsv => ?_⟩
  · exact hmapped _ (hwindow pa) _ (kernelTranslation_of_segment h hseg hstart hend)
  · obtain ⟨hlt, hmem⟩ := hframes f hf
    exact hmapped _ (hwindow _) _ (kernelTranslation_of_outside (hA hmem) hlt i)
  · have hphysical : Boot.physical image.skernel va = .ok pa := by rw [Boot.physical, hboot]
    have hstraight := Boot.straight_of_physical image.skernel_lt hva hphysical
    have hstraight' := straight_of_sv39 h hhigh hva hsv
    simp only [physVirtOffset] at hstraight hstraight'
    omega

/-- The run of `unmap_temp_identity_area` through the table that it changes. -/
theorem steady_of_treeOf (h : BootLayout image dt) {ram A : Set ℕ} {s : Boot}
    (htree : Boot.TreeOf image.skernel root ram (bootSteps image dt) s)
    (hA : A ⊆ Set.Ico dt.ramBase (dt.ramBase + dt.ramSize) \ Set.Ico image.skernel image.ekernel)
    (hframes : ∀ f ∈ frames decode (tables s.mem) root, f * pageSize ∈ A) :
    Along (unmapStepThrough root) (fun m _ => Steady image root m) s.mem image.pages ∧
      ∃ m', unmapTempIdentityAreaThrough image root s.mem = .ok m' ∧
        unmapTempIdentityArea image root s.mem = .ok m' ∧ Steady image root m' := by
  obtain ⟨m', hrun, hend⟩ := unmapTempIdentityArea_spec htree
  have hlt : ∀ f ∈ frames decode (tables s.mem) root, f < 2 ^ 20 :=
    fun f hf => (htree.inGiB f hf).frame_lt image.skernel_lt
  -- on the way there are fewer leaves than at the start, and more than in the end
  obtain ⟨halong, hlast, -⟩ := along_between
    (I := fun u => IsTree decode (tables u) 2 root ∧
      frames decode (tables u) root ⊆ frames decode (tables s.mem) root ∧
      leaves decode (tables u) root ⊆ leaves decode (tables s.mem) root)
    (R := fun u u' => leaves decode (tables u') root ⊆ leaves decode (tables u) root)
    (fun _ => subset_rfl) (fun hab hbc => hbc.trans hab) (fun u u' page hpage hu hstep => by
      obtain ⟨hu, hsub, hleaves⟩ := hu
      obtain ⟨hu', hsub', hleaves'⟩ :=
        leaves_of_unmapStep hpage hu (fun f hf => hlt f (hsub hf)) hstep
      exact ⟨⟨hu', hsub'.trans hsub, hleaves'.trans hleaves⟩, hleaves'⟩)
    ⟨htree.tree, subset_rfl, subset_rfl⟩ hrun
  have hsteady : ∀ u, frames decode (tables u) root ⊆ frames decode (tables s.mem) root →
      leaves decode (tables u) root ⊆ leaves decode (tables s.mem) root →
      leaves decode (tables m') root ⊆ leaves decode (tables u) root → Steady image root u := by
    intro u hsub hhigh hlow
    rw [htree.leaves] at hhigh
    exact .of_between h hA (fun f hf => ⟨hlt f (hsub hf), hframes f (hsub hf)⟩)
      (hend ▸ hlow) hhigh hend
  obtain ⟨hexec, hthrough⟩ := (halong.mono fun u page hu => by
    obtain ⟨⟨-, hsub, hhigh⟩, -, hlow⟩ := hu
    have hu := hsteady u hsub hhigh hlow
    exact (⟨unmapStepThrough_eq hu.self page, hu⟩ : _ ∧ Steady image root u)).congr
  exact ⟨hthrough, m', hexec.trans hrun, hrun, hsteady m' hlast.2.1 hlast.2.2 subset_rfl⟩

/-- **The kernel keeps running while the identity area is taken out.** Under `BOOT_PT` the kernel
can be reached both at its physical addresses and in the linear window. When the final page table is
in use, `unmap_temp_identity_area` reaches every entry through that table, without a fault, and does
what it does to the memory. From the switch on and after each page, the kernel has what it relies
on. -/
theorem unmapTempIdentityArea_steady (image : KernelImage) (dt : DeviceTree)
    (h : BootLayout image dt) (sizeOfPage : ℕ) (hpage : pageSize ≤ dt.ramBase)
    (hmemMap : dt.memMapSize sizeOfPage ≤ dt.ramBase) (m : Mem) (t : BootTables)
    (ht : setupMemoryAndMapping image dt sizeOfPage m = .ok t) (root : ℕ)
    (hroot : switchToFinalPageTable t.rootPpn = .ok root) :
    (∀ pa, InGiB image.skernel pa → ∀ va ∈ [pa, physToVirt pa],
      sv39 (fun _ => bootPt image.skernel) 0 va =
        some (pa, PTEFlags.r ||| PTEFlags.w ||| PTEFlags.x ||| PTEFlags.v)) ∧
    Along (unmapStepThrough root) (fun m _ => Steady image root m) t.boot.mem image.pages ∧
    ∃ m', unmapTempIdentityAreaThrough image root t.boot.mem = .ok m' ∧
      unmapTempIdentityArea image root t.boot.mem = .ok m' ∧ Steady image root m' := by
  have hkernel := image.skernel_lt
  refine ⟨fun pa hin => ?_, ?_⟩
  · have hlt := hin.lt hkernel
    rw [List.forall_mem_cons, List.forall_mem_singleton, physToVirt_eq hlt]
    refine ⟨Boot.sv39_bootPt hkernel ?_, Boot.sv39_bootPt hkernel ?_⟩
    · rw [Boot.physical_eq hkernel (by omega), if_pos hin]
    · rw [Boot.physical_linear hkernel hlt, if_pos hin]
  · rw [switchToFinalPageTable] at hroot
    split at hroot
    case isFalse => cases hroot
    case isTrue hlt =>
      cases hroot
      obtain ⟨s, A, htree, hmem, -, hA, -, hframes⟩ :=
        setup_denotes ⟨h.bounded.ram, h.reservations, h.dtb, h.nodes, hpage, hmemMap⟩ hlt ht
      rw [hmem]
      exact steady_of_treeOf h htree hA hframes

/-- The identity area of a kernel in 16 MiB of RAM is taken out. -/
theorem unmapTempIdentityArea_steady_sample : ∃ t m',
    setupMemoryAndMapping sampleImage (sampleTree [(0x10000000, 0x100)]) 40 (fun _ => 0) = .ok t ∧
    unmapTempIdentityAreaThrough sampleImage t.rootPpn t.boot.mem = .ok m' ∧
    Steady sampleImage t.rootPpn m' := by
  obtain ⟨⟨root, m'⟩, hboot, -⟩ := exists_of_map_eq_ok (f := fun _ => ())
    (show (boot sampleImage (sampleTree [(0x10000000, 0x100)]) 40 (fun _ => 0)).map _ = .ok () by
      decide +kernel)
  obtain ⟨t, ht, rfl, hlt, -⟩ := boot_cases hboot
  obtain ⟨-, -, m', hrun, -, hsteady⟩ := unmapTempIdentityArea_steady _ _ layout_sampleTree 40
    (by decide) (by decide) (fun _ => 0) t ht t.rootPpn (if_pos hlt)
  exact ⟨t, m', ht, hrun, hsteady⟩

end CharlotteOs
