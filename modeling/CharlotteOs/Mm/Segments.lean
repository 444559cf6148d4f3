import CharlotteOs.Mm.BootMap
import CharlotteOs.Mm.PageTableSpec

/-!
# Segments and their pages

`map_segment` visits the pages of a range: small pages up to the first large one, large pages, and
small pages again. Together they tile the range, rounded to pages, and each one is aligned to its
size.

A page number and a page size determine the path to a leaf. Paths of pages of one kind of mapping
are comparable only if the pages overlap, and the two kinds differ in the root index.

## Main definitions

* `PageSize.pages`: how many small pages a page has
* `Tiles l a b`: the pages of a list are aligned and follow each other from `a` to `b`
* `KernelFlags`: the flags of the pages that the boot maps
* `BootMapType.page`, `leafPath`: the virtual page of a physical one, and the path to its leaf

## Main results

* `segmentPages_tiles`: the pages of `map_segment` tile its range
* `Tiles.exists_of_mem`, `Tiles.cover`, `Tiles.pairwise`: what a tiling is good for
* `take_prefix_iff`: the paths that a key begins with
* `leafPath_prefix`: pages with comparable paths overlap
-/

namespace CharlotteOs

/-! ## Rounding -/

theorem alignDown_two_pow {v k : ℕ} (hv : v < 2 ^ 64) (hk : k ≤ 64) :
    alignDown v (2 ^ k) = v / 2 ^ k * 2 ^ k := Usize.and_notWord_two_pow hv hk

theorem alignUp_two_pow {v k : ℕ} (hv : v + 2 ^ k - 1 < 2 ^ 64) (hk : k ≤ 64) :
    alignUp v (2 ^ k) = (v + 2 ^ k - 1) / 2 ^ k * 2 ^ k := by
  rw [alignUp, Nat.mod_eq_of_lt hv, Usize.and_notWord_two_pow hv hk]

/-- The number of the first page that is not before an address. -/
def pageCeil (v : ℕ) : ℕ := (v + (pageSize - 1)) / pageSize

/-- The page that an address is in. -/
def pageFloor (v : ℕ) : ℕ := v / pageSize

theorem alignDown_page {v : ℕ} (hv : v < 2 ^ 64) : alignDown v pageSize = pageFloor v * pageSize :=
  alignDown_two_pow (k := 12) hv (by decide)

theorem alignUp_page {v : ℕ} (hv : v ≤ 2 ^ 32) : alignUp v pageSize = pageCeil v * pageSize :=
  alignUp_two_pow (k := 12) (by omega) (by decide)

theorem align4K_eq (v : ℕ) : align4K v = pageCeil v * pageSize := rfl

/-! ## Tilings -/

/-- The number of small pages of a page. -/
def PageSize.pages : PageSize → ℕ
  | .fourKB => 1
  | .twoMB => 512
  | .oneGB => 512 ^ 2

theorem PageSize.pages_pos (size : PageSize) : 0 < size.pages := by
  cases size <;> decide

theorem whileLt_of_le {current stop step : ℕ} (hstep : 0 < step) (h : stop ≤ current) :
    whileLt current stop step = [] := by
  have hcount : (stop - current + step - 1) / step = 0 := by
    rw [Nat.sub_eq_zero_of_le h, Nat.zero_add, Nat.div_eq_of_lt (Nat.sub_one_lt hstep.ne')]
  rw [whileLt, hcount]
  rfl

/-- The pages of a list are aligned to their sizes and follow each other from page `a` to page
`b`. -/
def Tiles : List (ℕ × PageSize) → ℕ → ℕ → Prop
  | [], a, b => a = b
  | (pa, size) :: l, a, b => pa = a * pageSize ∧ size.pages ∣ a ∧ Tiles l (a + size.pages) b

namespace Tiles

variable {l l' : List (ℕ × PageSize)} {a b c : ℕ}

theorem append (h : Tiles l a b) (h' : Tiles l' b c) : Tiles (l ++ l') a c := by
  induction l generalizing a with
  | nil =>
    cases h
    exact h'
  | cons x l ih => exact ⟨h.1, h.2.1, ih h.2.2⟩

theorem le (h : Tiles l a b) : a ≤ b := by
  induction l generalizing a with
  | nil => exact h.le
  | cons x l ih =>
    have := ih h.2.2
    omega

/-- A page of a tiling lies in it. -/
theorem exists_of_mem (h : Tiles l a b) {pa : ℕ} {size : PageSize} (hmem : (pa, size) ∈ l) :
    ∃ n, pa = n * pageSize ∧ size.pages ∣ n ∧ a ≤ n ∧ n + size.pages ≤ b := by
  induction l generalizing a with
  | nil => cases hmem
  | cons x l ih =>
    obtain ⟨hpa, hdvd, hrest⟩ := h
    rcases List.mem_cons.mp hmem with rfl | hmem
    · exact ⟨a, hpa, hdvd, le_rfl, hrest.le⟩
    · obtain ⟨n, hn, hdvd', hle, hend⟩ := ih hrest hmem
      exact ⟨n, hn, hdvd', (Nat.le_add_right _ _).trans hle, hend⟩

/-- Every page between the ends is in one of the pages. -/
theorem cover (h : Tiles l a b) {n : ℕ} (ha : a ≤ n) (hb : n < b) :
    ∃ k size, (k * pageSize, size) ∈ l ∧ k ≤ n ∧ n < k + size.pages := by
  induction l generalizing a with
  | nil =>
    cases h
    omega
  | cons x l ih =>
    obtain ⟨hpa, -, hrest⟩ := h
    by_cases hn : n < a + x.2.pages
    · exact ⟨a, x.2, List.mem_cons.mpr (.inl (Prod.ext hpa.symm rfl)), ha, hn⟩
    · obtain ⟨k, size, hmem, hk⟩ := ih hrest (by omega)
      exact ⟨k, size, List.mem_cons_of_mem _ hmem, hk⟩

/-- The pages are apart. -/
theorem pairwise (h : Tiles l a b) :
    l.Pairwise fun x y => x.1 / pageSize + x.2.pages ≤ y.1 / pageSize := by
  induction l generalizing a with
  | nil => exact List.Pairwise.nil
  | cons x l ih =>
    obtain ⟨hpa, -, hrest⟩ := h
    refine List.Pairwise.cons (fun y hy => ?_) (ih hrest)
    obtain ⟨n, hn, -, hle, -⟩ := hrest.exists_of_mem hy
    rw [hpa, hn, Nat.mul_div_cancel _ (by decide), Nat.mul_div_cancel _ (by decide)]
    exact hle

/-- Pages of one size in a row. -/
theorem range {size : PageSize} (hdvd : size.pages ∣ a) (k : ℕ) :
    Tiles ((List.range k).map fun n => (a * pageSize + size.pages * pageSize * n, size)) a
      (a + size.pages * k) := by
  induction k generalizing a with
  | zero => exact rfl
  | succ k ih =>
    have hnext : ∀ n, a * pageSize + size.pages * pageSize * (n + 1) =
        (a + size.pages) * pageSize + size.pages * pageSize * n := fun n => by ring
    have hend : a + size.pages * (k + 1) = a + size.pages + size.pages * k := by ring
    rw [List.range_succ_eq_map, List.map_cons, List.map_map, hend]
    refine ⟨by rw [Nat.mul_zero, Nat.add_zero], hdvd, ?_⟩
    simp only [Function.comp_def, Nat.succ_eq_add_one, hnext]
    exact ih ((Nat.dvd_add_right hdvd).mpr dvd_rfl)

/-- A loop over pages of one size. -/
theorem whileLt (size : PageSize) (hdvd : size.pages ∣ a) (hdvd' : size.pages ∣ b) (hle : a ≤ b) :
    Tiles ((whileLt (a * pageSize) (b * pageSize) (size.pages * pageSize)).map (·, size)) a b := by
  obtain ⟨k, hk⟩ : size.pages ∣ b - a := Nat.dvd_sub hdvd' hdvd
  have hb : b = a + size.pages * k := by omega
  have hpos := size.pages_pos
  have hcount : (b * pageSize - a * pageSize + size.pages * pageSize - 1) /
      (size.pages * pageSize) = k := by
    have hdiff : b * pageSize - a * pageSize = size.pages * pageSize * k := by
      rw [← Nat.sub_mul, hk]
      ring
    have hstep : 0 < size.pages * pageSize := Nat.mul_pos hpos (by decide)
    rw [hdiff, Nat.add_sub_assoc hstep, Nat.mul_add_div hstep,
      Nat.div_eq_of_lt (Nat.sub_one_lt hstep.ne'), Nat.add_zero]
  rw [CharlotteOs.whileLt, hcount, List.map_map, hb]
  exact range hdvd k

end Tiles

theorem alignUp_large {a : ℕ} (ha : a ≤ 2 ^ 20) :
    alignUp (a * pageSize) largePageSize = (a + 511) / 512 * 512 * pageSize := by
  have := alignUp_two_pow (v := a * pageSize) (k := 21) (by simp only [pageSize]; omega) (by decide)
  rw [show largePageSize = 2 ^ 21 from rfl, this]
  simp only [pageSize]
  omega

theorem alignDown_large {b : ℕ} (hb : b ≤ 2 ^ 20) :
    alignDown (b * pageSize) largePageSize = b / 512 * 512 * pageSize := by
  have := alignDown_two_pow (v := b * pageSize) (k := 21) (by simp only [pageSize]; omega)
    (by decide)
  rw [show largePageSize = 2 ^ 21 from rfl, this]
  simp only [pageSize]
  omega

/-- **The pages of `map_segment` tile its range**, rounded to pages. -/
theorem segmentPages_tiles {startAddr endAddr : ℕ} (hstart : startAddr ≤ 2 ^ 32)
    (hend : endAddr ≤ 2 ^ 32) (hle : pageFloor startAddr ≤ pageCeil endAddr) :
    Tiles (segmentPages startAddr endAddr) (pageFloor startAddr) (pageCeil endAddr) := by
  have hceil : pageCeil endAddr ≤ 2 ^ 20 := by
    simp only [pageCeil, pageSize]
    omega
  rw [segmentPages, alignDown_page (by omega), alignUp_page hend]
  generalize pageFloor startAddr = a at *
  generalize pageCeil endAddr = b at *
  rw [alignUp_large (hle.trans hceil), alignDown_large hceil]
  have hfloor : b / 512 * 512 ≤ b := Nat.div_mul_le_self b 512
  by_cases hlarge : (a + 511) / 512 * 512 ≤ b
  · have hround : (a + 511) / 512 * 512 ≤ b / 512 * 512 :=
      Nat.mul_le_mul_right 512 ((Nat.le_div_iff_mul_le (by decide)).mpr hlarge)
    rw [min_eq_left (Nat.mul_le_mul_right pageSize hlarge),
      min_eq_left (Nat.mul_le_mul_right pageSize hlarge),
      max_eq_left (Nat.mul_le_mul_right pageSize hround),
      min_eq_left (Nat.mul_le_mul_right pageSize hfloor)]
    have hhead := Tiles.whileLt .fourKB (a := a) (b := (a + 511) / 512 * 512) (one_dvd _)
      (one_dvd _)
      (by omega)
    have hmid := Tiles.whileLt .twoMB (dvd_mul_left 512 ((a + 511) / 512))
      (dvd_mul_left 512 (b / 512)) hround
    have htail := Tiles.whileLt .fourKB (a := b / 512 * 512) (b := b) (one_dvd _) (one_dvd _) hfloor
    exact (hhead.append hmid).append htail
  · have hle' : b * pageSize ≤ (a + 511) / 512 * 512 * pageSize :=
      Nat.mul_le_mul_right pageSize (by omega)
    rw [min_eq_right hle', min_self, max_eq_right (Nat.mul_le_mul_right pageSize hfloor), min_self,
      whileLt_of_le (by decide) le_rfl, whileLt_of_le (by decide) le_rfl]
    have hnil : Tiles [] b b := rfl
    exact ((Tiles.whileLt .fourKB (one_dvd _) (one_dvd _) hle).append hnil).append hnil

/-- A range that ends before it begins has no pages. -/
theorem segmentPages_eq_nil {startAddr endAddr : ℕ} (hstart : startAddr ≤ 2 ^ 32)
    (hend : endAddr ≤ 2 ^ 32) (hlt : pageCeil endAddr < pageFloor startAddr) :
    segmentPages startAddr endAddr = [] := by
  have hfloor : pageFloor startAddr ≤ 2 ^ 20 := by
    simp only [pageFloor, pageSize]
    omega
  rw [segmentPages, alignDown_page (by omega), alignUp_page hend]
  generalize pageFloor startAddr = a at *
  generalize pageCeil endAddr = b at *
  have hup : b * pageSize ≤ alignUp (a * pageSize) largePageSize := by
    rw [alignUp_large hfloor]
    exact Nat.mul_le_mul_right pageSize (by omega)
  have hdown : alignDown (b * pageSize) largePageSize ≤ b * pageSize := Nat.and_le_left
  rw [min_eq_right hup, min_self, max_eq_right hdown, min_self,
    whileLt_of_le (by decide) (Nat.mul_le_mul_right pageSize hlt.le),
    whileLt_of_le (by decide) le_rfl, whileLt_of_le (by decide) le_rfl]
  rfl

/-- A page of a segment lies in its range, rounded to pages, also if the range is empty. -/
theorem exists_of_mem_segmentPages {startAddr endAddr pa : ℕ} {size : PageSize}
    (hstart : startAddr ≤ 2 ^ 32) (hend : endAddr ≤ 2 ^ 32)
    (h : (pa, size) ∈ segmentPages startAddr endAddr) :
    ∃ n, pa = n * pageSize ∧ size.pages ∣ n ∧ pageFloor startAddr ≤ n ∧
      n + size.pages ≤ pageCeil endAddr := by
  by_cases hle : pageFloor startAddr ≤ pageCeil endAddr
  · exact (segmentPages_tiles hstart hend hle).exists_of_mem h
  · rw [segmentPages_eq_nil hstart hend (by omega)] at h
    cases h

theorem dvd_whileLt {d step current stop pa : ℕ} (hstep : d ∣ step) (hcurrent : d ∣ current)
    (h : pa ∈ whileLt current stop step) : d ∣ pa := by
  obtain ⟨n, -, rfl⟩ := List.mem_map.mp h
  exact (Nat.dvd_add_right hcurrent).mpr (hstep.mul_right n)

theorem lt_of_mem_whileLt {step current stop pa : ℕ} (hstep : 0 < step)
    (h : pa ∈ whileLt current stop step) : current < stop := by
  by_contra hle
  rw [whileLt_of_le hstep (Nat.le_of_not_lt hle)] at h
  cases h

theorem mem_whileLt {step current stop pa : ℕ} (hstep : 0 < step)
    (h : pa ∈ whileLt current stop step) : current ≤ pa ∧ pa < stop := by
  have hlt := lt_of_mem_whileLt hstep h
  obtain ⟨n, hn, rfl⟩ := List.mem_map.mp h
  refine ⟨Nat.le_add_right _ _, ?_⟩
  have hmul := (Nat.le_div_iff_mul_le hstep).mp (Nat.succ_le_of_lt (List.mem_range.mp hn))
  rw [Nat.succ_mul, mul_comm n step] at hmul
  omega

/-- A small page of `map_segment` is in no large page that lies in the range as a whole. -/
theorem not_block_of_mem_segmentPages {startAddr endAddr k : ℕ} (hstart : startAddr ≤ 2 ^ 32)
    (hend : endAddr ≤ 2 ^ 32) (h : (k * pageSize, .fourKB) ∈ segmentPages startAddr endAddr) :
    ¬ (pageFloor startAddr ≤ k / 512 * 512 ∧ k / 512 * 512 + 512 ≤ pageCeil endAddr) := by
  have hfloor : pageFloor startAddr ≤ 2 ^ 20 := by
    simp only [pageFloor, pageSize]
    omega
  have hceil : pageCeil endAddr ≤ 2 ^ 20 := by
    simp only [pageCeil, pageSize]
    omega
  rw [segmentPages, alignDown_page (by omega), alignUp_page hend] at h
  generalize pageFloor startAddr = a at *
  generalize pageCeil endAddr = b at *
  rw [alignUp_large hfloor, alignDown_large hceil] at h
  simp only [List.mem_append, List.mem_map, Prod.mk.injEq] at h
  rcases h with (⟨x, hx, rfl, -⟩ | ⟨x, -, -, hsize⟩) | ⟨x, hx, rfl, -⟩
  · have := mem_whileLt (by decide) hx
    simp only [pageSize, lt_min_iff] at this
    omega
  · cases hsize
  · have := mem_whileLt (by decide) hx
    simp only [pageSize, min_le_iff, max_le_iff] at this
    omega

/-- The pages that `map_segment` visits are aligned to their sizes. -/
theorem pages_dvd_of_mem_segmentPages {startAddr endAddr pa : ℕ} {size : PageSize}
    (hstart : startAddr < 2 ^ 64) (h : (pa, size) ∈ segmentPages startAddr endAddr) :
    size.pages * pageSize ∣ pa := by
  have hdown : ∀ v k, v < 2 ^ 64 → 12 ≤ k → k ≤ 64 → pageSize ∣ alignDown v (2 ^ k) := by
    intro v k hv hk hk'
    rw [alignDown_two_pow hv hk']
    exact (pow_dvd_pow 2 hk).mul_left _
  have hup : ∀ v k, k ≤ 64 → 2 ^ k ∣ alignUp v (2 ^ k) := by
    intro v k hk'
    rw [alignUp, Usize.and_notWord_two_pow (Nat.mod_lt _ (by decide)) hk']
    exact dvd_mul_left _ _
  have hmin : ∀ {x y}, pageSize ∣ x → pageSize ∣ y → pageSize ∣ min x y := fun {x y} hx hy => by
    rcases min_choice x y with heq | heq <;> rw [heq] <;> assumption
  have hmax : ∀ {x y}, pageSize ∣ x → pageSize ∣ y → pageSize ∣ max x y := fun {x y} hx hy => by
    rcases max_choice x y with heq | heq <;> rw [heq] <;> assumption
  have hpageStart : pageSize ∣ alignDown startAddr pageSize :=
    hdown startAddr 12 hstart le_rfl (by decide)
  have hpageEnd : pageSize ∣ alignUp endAddr pageSize := hup endAddr 12 (by decide)
  have hpageEndLt : alignUp endAddr pageSize < 2 ^ 64 :=
    Nat.and_le_left.trans_lt (Nat.mod_lt _ (by decide))
  have hlarge : largePageSize ∣ alignUp (alignDown startAddr pageSize) largePageSize :=
    hup _ 21 (by decide)
  have halignedStart := hmin (dvd_trans (by decide) hlarge) hpageEnd
  have hmid := hmin (hmax (hdown (alignUp endAddr pageSize) 21 hpageEndLt (by decide) (by decide))
    halignedStart) hpageEnd
  rw [segmentPages] at h
  simp only [List.mem_append, List.mem_map, Prod.mk.injEq] at h
  rcases h with (⟨x, hx, rfl, rfl⟩ | ⟨x, hx, rfl, rfl⟩) | ⟨x, hx, rfl, rfl⟩
  · exact (Nat.one_mul pageSize).symm ▸ dvd_whileLt dvd_rfl hpageStart hx
  · refine dvd_whileLt dvd_rfl ?_ hx
    have hlt := (lt_of_mem_whileLt (by decide) hx).trans_le (min_le_right _ _)
    rw [min_eq_left (Nat.le_of_not_le fun hle => by rw [min_eq_right hle] at hlt; omega)]
    exact hlarge
  · exact (Nat.one_mul pageSize).symm ▸ dvd_whileLt dvd_rfl hmid hx

/-- The addresses that `map_segment` visits are those of pages. -/
theorem dvd_of_mem_segmentPages {startAddr endAddr pa : ℕ} {size : PageSize}
    (hstart : startAddr < 2 ^ 64) (h : (pa, size) ∈ segmentPages startAddr endAddr) :
    pageSize ∣ pa :=
  dvd_of_mul_left_dvd (pages_dvd_of_mem_segmentPages hstart h)

/-! ## Flags -/

/-- The flags of the leaves that the boot code makes. -/
structure KernelFlags (f : ℕ) : Prop where
  leaf : LeafFlags f
  user : PTEFlags.contains f PTEFlags.u = false

theorem KernelFlags.rx : KernelFlags (PTEFlags.r ||| PTEFlags.x) :=
  ⟨⟨by decide, by decide, by decide⟩, by decide⟩

theorem KernelFlags.r : KernelFlags PTEFlags.r := ⟨⟨by decide, by decide, by decide⟩, by decide⟩

theorem KernelFlags.rw : KernelFlags (PTEFlags.r ||| PTEFlags.w) :=
  ⟨⟨by decide, by decide, by decide⟩, by decide⟩

theorem kernelFlags_of_mem_segments {image : KernelImage} {seg : ℕ × ℕ × ℕ}
    (h : seg ∈ image.segments) : KernelFlags seg.1 := by
  simp only [KernelImage.segments, List.mem_cons, List.not_mem_nil, or_false] at h
  rcases h with rfl | rfl | rfl | rfl
  · exact .rx
  · exact .r
  · exact .rw
  · exact .rw

/-- The steps of the boot code map pages with such flags only. -/
theorem kernelFlags_of_mem {image : KernelImage} {dt : DeviceTree} {mapType : BootMapType}
    {f pa : ℕ} {size : PageSize} (h : .map mapType f pa size ∈ bootSteps image dt) :
    KernelFlags f := by
  obtain ⟨startAddr, endAddr, hrange, -⟩ := mem_bootSteps_map.mp h
  rcases mem_bootRanges.mp hrange with ⟨r, -, hr⟩ | hram
  · rcases nodeRange_eq_some.mp hr with ⟨-, ⟨-, heq⟩ | ⟨-, heq⟩⟩ <;> cases heq
    exact .rw
  · rcases mem_ramRanges.mp hram with ⟨seg, hseg, heq | heq⟩ | heq | heq <;> cases heq
    · exact kernelFlags_of_mem_segments hseg
    · exact kernelFlags_of_mem_segments hseg
    · exact .rw
    · exact .rw

/-! ## Paths -/

/-- The virtual page of a physical page under a map type. -/
def BootMapType.page (mapType : BootMapType) (n : ℕ) : ℕ :=
  VirtAddr.ofUsize (mapType.paToVa (n * pageSize)) / pageSize

theorem BootMapType.vpn_eq (mapType : BootMapType) (n : ℕ) :
    mapType.vpn (n * pageSize) = .ok (mapType.page n) := by
  have halign : mapType.paToVa (n * pageSize) % 2 ^ 39 % 4096 = 0 := by
    cases mapType <;> simp only [paToVa, physToVirt, pageSize, physVirtOffset] <;> omega
  rw [← VirtAddr.ofUsize_mod] at halign
  have hva : VirtAddr.ofUsize (mapType.paToVa (n * pageSize)) = mapType.page n * 4096 := by
    simp only [page, pageSize] at *
    omega
  rw [vpn, hva]
  exact VirtPageNum.ofVirtAddr_mul _

/-- The bits of the virtual page that its indices are made of. -/
def BootMapType.key : BootMapType → ℕ → ℕ
  | .identical, n => n % 2 ^ 27
  | .linear, n => (n + (2 ^ 27 - 2 ^ 20)) % 2 ^ 27

theorem BootMapType.page_mod (mapType : BootMapType) (n : ℕ) :
    mapType.page n % 2 ^ 27 = mapType.key n := by
  have hpage : mapType.page n % 2 ^ 27 = mapType.paToVa (n * pageSize) % 2 ^ 39 / 4096 := by
    rw [← VirtAddr.ofUsize_mod, page]
    simp only [pageSize]
    omega
  rw [hpage]
  cases mapType <;> simp only [paToVa, physToVirt, pageSize, physVirtOffset, key] <;> omega

/-- The path to the leaf of a page. -/
def leafPath (mapType : BootMapType) (n : ℕ) (size : PageSize) : List (Fin 512) :=
  (VirtPageNum.indices (mapType.page n)).take size.targetLevel

/-- A key begins with the path to the leaf of a page exactly when it is in that page. -/
theorem take_prefix_iff (v v' : ℕ) (size : PageSize) :
    (VirtPageNum.indices v).take size.targetLevel <+: VirtPageNum.indices v' ↔
      v % 2 ^ 27 / size.pages = v' % 2 ^ 27 / size.pages := by
  cases size <;>
    simp only [VirtPageNum.indices, PageSize.targetLevel, PageSize.pages, List.take_succ_cons,
      List.take_zero, List.cons_prefix_cons, List.nil_prefix, and_true, Fin.ext_iff, Fin.val_ofNat,
      Nat.shiftRight_eq_div_pow] <;>
    omega

/-- The indices of a page behind the path of its leaf. -/
theorem pages_of_take_append {v v' : ℕ} {size : PageSize} {rest : List (Fin 512)}
    (h : VirtPageNum.indices v' = (VirtPageNum.indices v).take size.targetLevel ++ rest) :
    512 ^ rest.length = size.pages := by
  have hlen := congrArg List.length h
  rw [List.length_append, List.length_take] at hlen
  cases size <;> simp only [VirtPageNum.indices, PageSize.targetLevel, PageSize.pages,
    List.length_cons, List.length_nil] at hlen ⊢
  · rw [show rest.length = 0 by omega, pow_zero]
  · rw [show rest.length = 1 by omega, pow_one]
  · rw [show rest.length = 2 by omega]

theorem leafPath_prefix_indices (mapType : BootMapType) (n v : ℕ) (size : PageSize) :
    leafPath mapType n size <+: VirtPageNum.indices v ↔
      mapType.key n / size.pages = v % 2 ^ 27 / size.pages := by
  rw [leafPath, take_prefix_iff, mapType.page_mod]

/-- **Pages with comparable paths overlap**, if they are mapped in the same way. The root indices
are below 4 for the one way, and at least 508 for the other. -/
theorem leafPath_prefix {mapType mapType' : BootMapType} {n n' : ℕ} {size size' : PageSize}
    (hn : n < 2 ^ 20) (hn' : n' < 2 ^ 20) (hdvd : size.pages ∣ n)
    (h : leafPath mapType n size <+: leafPath mapType' n' size') :
    mapType = mapType' ∧ n ≤ n' ∧ n' < n + size.pages := by
  have hkey := (leafPath_prefix_indices mapType n _ size).mp (h.trans ( List.take_prefix _ _))
  rw [mapType'.page_mod] at hkey
  obtain ⟨k, rfl⟩ := hdvd
  cases mapType <;> cases mapType'
  case identical.identical | linear.linear =>
    refine ⟨rfl, ?_⟩
    cases size <;> simp only [BootMapType.key, PageSize.pages] at * <;> omega
  case identical.linear | linear.identical =>
    cases size <;> simp only [BootMapType.key, PageSize.pages] at * <;> omega

end CharlotteOs
