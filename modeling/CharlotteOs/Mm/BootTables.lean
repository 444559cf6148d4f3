import CharlotteOs.Mm.BootMap
import CharlotteOs.Mm.MemblockRuns
import CharlotteOs.Mm.PageTableSpec

/-!
# Building page tables at boot

While the final page table is built, `BOOT_PT` is in use. It maps one gigabyte at its physical
address, the one that the kernel is in. `bump_find_create_pte` clears and follows tables at their
physical addresses, so it works for tables in that gigabyte and faults for all others.

## Main definitions

* `InGiB`: the gigabyte that the kernel is in
* `Made`: tables are followed and made along a path

## Main results

* `Boot.physical_eq`: what `BOOT_PT` makes of a physical address
* `PageTable.bumpFindCreateLoop_cases`, `PageTable.bumpFindCreateLoop_of_made`: the loop of
  `bump_find_create_pte` is `Made`
* `PageTable.bumpMap_cases`, `PageTable.bumpMap_eq_ok`: what `bump_map` does
-/

namespace CharlotteOs

open FallibleRun TableTree PageTableEntry

/-! ## The boot page table -/

/-- The gigabyte that the kernel is in. -/
def InGiB (kernel ptr : ℕ) : Prop := ptr / 2 ^ 30 = kernel / 2 ^ 30

instance (kernel ptr : ℕ) : Decidable (InGiB kernel ptr) :=
  inferInstanceAs (Decidable (ptr / 2 ^ 30 = kernel / 2 ^ 30))

theorem InGiB.lt {kernel ptr : ℕ} (hkernel : kernel < 2 ^ 32) (h : InGiB kernel ptr) :
    ptr < 2 ^ 32 := by
  rw [InGiB] at h
  omega

namespace Boot

variable {kernel ptr : ℕ}

/-- The two entries of `BOOT_PT`. -/
theorem bootPt_eq (hkernel : kernel < 2 ^ 32) (i : Fin 512) :
    bootPt kernel i = if (i : ℕ) = 508 + kernel / 2 ^ 30 ∨ (i : ℕ) = kernel / 2 ^ 30 then
      PageTableEntry.new (kernel / 2 ^ 30 * 2 ^ 18) 15 else 0 := by
  have hbase : kernel &&& Usize.notWord (2 ^ 30 - 1) = kernel / 2 ^ 30 * 2 ^ 30 :=
    Usize.and_notWord_two_pow (by omega) (by decide)
  have hvirt : physToVirt (kernel / 2 ^ 30 * 2 ^ 30) = kernel / 2 ^ 30 * 2 ^ 30 + physVirtOffset :=
    physToVirt_eq (by omega)
  have hlow : i = Fin.ofNat 512 (kernel / 2 ^ 30 * 2 ^ 30 / 2 ^ 30) ↔
      (i : ℕ) = kernel / 2 ^ 30 := by
    rw [Fin.ext_iff, Fin.val_ofNat]
    omega
  have hhigh : i = Fin.ofNat 512 ((kernel / 2 ^ 30 * 2 ^ 30 + physVirtOffset) / 2 ^ 30) ↔
      (i : ℕ) = 508 + kernel / 2 ^ 30 := by
    rw [Fin.ext_iff, Fin.val_ofNat]
    simp only [physVirtOffset]
    omega
  have hpage : kernel / 2 ^ 30 * 2 ^ 30 / 2 ^ pageSizeBits = kernel / 2 ^ 30 * 2 ^ 18 := by
    simp only [pageSizeBits]
    omega
  simp only [bootPt, hbase, hvirt, Nat.shiftRight_eq_div_pow, hpage, Function.update_apply, hlow,
    hhigh]
  rw [ite_or]
  rfl

/-- **What `BOOT_PT` makes of an address** in one of the two halves of the address space: the root
index decides. -/
theorem physical_of_half (hkernel : kernel < 2 ^ 32)
    (hhalf : ptr / 2 ^ 38 = 0 ∨ ptr / 2 ^ 38 = 2 ^ 26 - 1) :
    physical kernel ptr = if ptr / 2 ^ 30 % 512 = 508 + kernel / 2 ^ 30 ∨
        ptr / 2 ^ 30 % 512 = kernel / 2 ^ 30 then
      .ok (kernel / 2 ^ 30 * 2 ^ 30 + ptr % 2 ^ 30) else .error .pageFault := by
  have hppn : kernel / 2 ^ 30 * 2 ^ 18 < 2 ^ 44 := by omega
  have hindex : ((Fin.ofNat 512 (ptr / pageSize / 2 ^ 9 / 2 ^ 9) : Fin 512) : ℕ) =
      ptr / 2 ^ 30 % 512 := by
    rw [Fin.val_ofNat]
    simp only [pageSize]
    omega
  have hword := bootPt_eq hkernel (Fin.ofNat 512 (ptr / pageSize / 2 ^ 9 / 2 ^ 9))
  rw [hindex] at hword
  rw [physical, sv39, if_pos hhalf]
  split at hword
  case isTrue hroot =>
    have hlookup : lookup decode (fun _ => bootPt kernel) 0 (VirtPageNum.indices (ptr / pageSize)) =
        some (PageTableEntry.new (kernel / 2 ^ 30 * 2 ^ 18) 15,
          [Fin.ofNat 512 (ptr / pageSize / 2 ^ 9), Fin.ofNat 512 (ptr / pageSize)]) := by
      simp only [VirtPageNum.indices, Nat.shiftRight_eq_div_pow]
      rw [lookup, hword, decode_of_leaf (isValid_new (by decide)) (isLeaf_new (by decide))]
    rw [walk_of_leaf (f := 15) hppn ⟨by decide, by decide, by decide⟩ (by simp) hlookup,
      if_pos hroot]
    simp only [Option.map_some, List.length_cons, List.length_nil, pageSize]
    refine congrArg Except.ok ?_
    omega
  case isFalse hroot =>
    rw [walk, VirtPageNum.indices]
    simp only [Nat.shiftRight_eq_div_pow]
    rw [lookup, hword, if_neg hroot]
    rfl

/-- **What `BOOT_PT` makes of a physical address**: it is mapped to itself in the gigabyte that the
kernel is in, and not at all elsewhere. -/
theorem physical_eq (hkernel : kernel < 2 ^ 32) (hptr : ptr < 2 ^ 56) :
    physical kernel ptr = if InGiB kernel ptr then .ok ptr else .error .pageFault := by
  by_cases hhalf : ptr / 2 ^ 38 = 0
  · rw [physical_of_half hkernel (.inl hhalf)]
    refine ite_congr ?_ (fun hin => congrArg Except.ok ?_) fun _ => rfl
    · rw [InGiB, eq_iff_iff]
      omega
    · rw [InGiB] at hin
      omega
  · rw [physical, sv39, if_neg (by omega), if_neg]
    intro hin
    have := hin.lt hkernel
    omega

/-- What it makes of an address in the linear window. -/
theorem physical_linear (hkernel : kernel < 2 ^ 32) (hptr : ptr < 2 ^ 32) :
    physical kernel (ptr + physVirtOffset) =
      if InGiB kernel ptr then .ok ptr else .error .pageFault := by
  have hhalf : (ptr + physVirtOffset) / 2 ^ 38 = 2 ^ 26 - 1 := by
    simp only [physVirtOffset]
    omega
  rw [physical_of_half hkernel (.inr hhalf)]
  refine ite_congr ?_ (fun hin => congrArg Except.ok ?_) fun _ => rfl
  · rw [InGiB, eq_iff_iff]
    simp only [physVirtOffset]
    omega
  · rw [InGiB] at hin
    simp only [physVirtOffset]
    omega

end Boot

/-! ## Following and making tables -/

/-- Memory after the page `b` has been cleared and entered as the table at the index `j` of `a`. -/
def withTable (m : Mem) (a : ℕ) (j : Fin 512) (b : ℕ) : Mem :=
  Function.update
    (fun x => if b * pageSize ≤ x ∧ x < b * pageSize + pageSize then 0 else m x)
    (a * pageSize + 8 * j) (PageTableEntry.new b PTEFlags.v)

theorem tables_withTable (m : Mem) (a b f : ℕ) (i j : Fin 512) :
    tables (withTable m a j b) f i =
      if f = a ∧ i = j then PageTableEntry.new b PTEFlags.v
      else if f = b then 0
      else tables m f i := by
  have hpage : (b * pageSize ≤ f * pageSize + 8 * i ∧
      f * pageSize + 8 * i < b * pageSize + pageSize) ↔ f = b := by
    have := i.isLt
    simp only [pageSize]
    omega
  rw [withTable, tables_update]
  refine if_congr Iff.rfl rfl ?_
  rw [tables]
  exact if_congr hpage rfl rfl

/-- The tables along a path from the table `a` to the table `c` exist, or are made from pages of the
gigabyte that the kernel is in. -/
inductive Made (kernel : ℕ) : Boot → ℕ → List (Fin 512) → Boot → ℕ → Prop
  | done {s : Boot} {a : ℕ} (hin : InGiB kernel (a * pageSize)) : Made kernel s a [] s a
  | follow {s t : Boot} {a b c : ℕ} {j : Fin 512} {p : List (Fin 512)}
    (hin : InGiB kernel (a * pageSize)) (hword : decode (tables s.mem a j) = .table b)
    (rest : Made kernel s b p t c) : Made kernel s a (j :: p) t c
  | make {s t : Boot} {mb : Memblock} {a b c : ℕ} {j : Fin 512} {p : List (Fin 512)}
    (hin : InGiB kernel (a * pageSize)) (hword : decode (tables s.mem a j) = .empty)
    (halloc : s.memblock.earlyAlloc pageSize pageSize = .ok (some (b * pageSize), mb))
    (rest : Made kernel ⟨withTable s.mem a j b, mb⟩ b p t c) : Made kernel s a (j :: p) t c

variable {kernel : ℕ} {s t : Boot} {a b c : ℕ} {i : Fin 512} {p : List (Fin 512)}

theorem Made.inGiB (h : Made kernel s a p t c) : InGiB kernel (a * pageSize) := by
  cases h with
  | done hin => exact hin
  | follow hin => exact hin
  | make hin => exact hin

theorem Made.inGiB_end (h : Made kernel s a p t c) : InGiB kernel (c * pageSize) := by
  induction h with
  | done hin => exact hin
  | follow _ _ _ ih => exact ih
  | make _ _ _ _ ih => exact ih

/-- A page is in the gigabyte as a whole. -/
theorem inGiB_slot (a : ℕ) (i : Fin 512) :
    InGiB kernel (a * pageSize + 8 * i) ↔ InGiB kernel (a * pageSize) := by
  have := i.isLt
  simp only [InGiB, pageSize]
  omega

theorem InGiB.frame_lt (hkernel : kernel < 2 ^ 32) (h : InGiB kernel (a * pageSize)) :
    a < 2 ^ 20 := by
  have := h.lt hkernel
  simp only [pageSize] at this
  omega

namespace Boot

variable (hkernel : kernel < 2 ^ 32)

include hkernel

/-- The pointer to an entry under `BOOT_PT`. -/
theorem physical_slot (ha : a < 2 ^ 44) (i : Fin 512) :
    physical kernel (a * pageSize + 8 * i) =
      if InGiB kernel (a * pageSize) then .ok (a * pageSize + 8 * i) else .error .pageFault := by
  have hlt : a * pageSize + 8 * i < 2 ^ 56 := by
    have := i.isLt
    simp only [pageSize]
    omega
  rw [physical_eq hkernel hlt]
  exact if_congr (inGiB_slot a i) rfl rfl

theorem inGiB_of_physical {x : ℕ} (ha : a < 2 ^ 44)
    (h : physical kernel (a * pageSize + 8 * i) = .ok x) : InGiB kernel (a * pageSize) := by
  by_contra hin
  rw [physical_slot hkernel ha, if_neg hin] at h
  cases h

theorem load_slot (s : Boot) (hin : InGiB kernel (a * pageSize)) (i : Fin 512) :
    s.load kernel (a * pageSize + 8 * i) = .ok (tables s.mem a i) := by
  have ha := hin.frame_lt hkernel
  rw [load, physical_slot hkernel (by omega), if_pos hin, ok_bind, tables]

theorem store_slot (s : Boot) (hin : InGiB kernel (a * pageSize)) (i : Fin 512) (w : ℕ) :
    s.store kernel (a * pageSize + 8 * i) w =
      .ok { s with mem := Function.update s.mem (a * pageSize + 8 * i) w } := by
  have ha := hin.frame_lt hkernel
  rw [store, physical_slot hkernel (by omega), if_pos hin, ok_bind]

theorem clear_page (s : Boot) (hin : InGiB kernel (a * pageSize)) :
    s.clear kernel (a * pageSize) = .ok { s with mem := fun x =>
      if a * pageSize ≤ x ∧ x < a * pageSize + pageSize then 0 else s.mem x } := by
  have hlt := hin.lt hkernel
  rw [clear, physical_eq hkernel (by omega), if_pos hin, ok_bind]

omit hkernel in
/-- A pointer that is mapped is in one of the two halves of the address space. -/
theorem half_of_physical {ptr x : ℕ} (h : physical kernel ptr = .ok x) :
    ptr / 2 ^ 38 = 0 ∨ ptr / 2 ^ 38 = 2 ^ 26 - 1 := by
  by_contra hhalf
  rw [physical, sv39, if_neg hhalf] at h
  cases h

/-- A page that can be cleared and whose table can be reached afterwards is in the gigabyte: a
pointer in the linear window does not fit in an entry. -/
theorem inGiB_of_clear {pa ppn x : ℕ} (hclear : physical kernel pa = .ok x)
    (hppn : PhysPageNum.ofPhysAddr pa = .ok ppn)
    (hin : InGiB kernel (PageTableEntry.ppn (PageTableEntry.new ppn PTEFlags.v) * pageSize)) :
    pa = ppn * pageSize ∧ InGiB kernel (ppn * pageSize) := by
  rw [PhysPageNum.ofPhysAddr_eq_ok] at hppn
  subst hppn
  have hfit : ppn < 2 ^ 44 := by
    have hlt := hin.frame_lt hkernel
    rw [ppn_new_mod (by decide)] at hlt
    have hhalf := half_of_physical hclear
    simp only [pageSize] at hhalf
    omega
  rw [ppn_new hfit (by decide)] at hin
  exact ⟨rfl, hin⟩

end Boot

namespace PageTable

variable {pte x : ℕ} (hkernel : kernel < 2 ^ 32)

theorem bumpFindCreateLoop_cons (s : Boot) (e : ℕ) (j i : Fin 512) (p : List (Fin 512)) :
    bumpFindCreateLoop kernel s e (j :: (p ++ [i])) = (do
      let pte ← s.load kernel (e + 8 * j)
      if !isValid pte then
        match ← s.memblock.earlyAlloc pageSize pageSize with
        | (none, _) => .error .unwrapNone
        | (some allocatedAddr, memblock) => do
          let s ← { s with memblock }.clear kernel allocatedAddr
          let ppn ← PhysPageNum.ofPhysAddr allocatedAddr
          let pte := PageTableEntry.new ppn PTEFlags.v
          let s ← s.store kernel (e + 8 * j) pte
          bumpFindCreateLoop kernel s (PhysAddr.ofPpn (PageTableEntry.ppn pte)) (p ++ [i])
      else if isLeaf pte then .error .largePage
      else bumpFindCreateLoop kernel s (PhysAddr.ofPpn (ppn pte)) (p ++ [i])) := by
  cases p <;> rfl

theorem ofPpn_ppn (bits : ℕ) : PhysAddr.ofPpn (ppn bits) = ppn bits * pageSize :=
  PhysAddr.ofPpn_eq ((ppn_lt bits).trans (by decide))

include hkernel

/-- Where tables can be followed and made along the path, `bump_find_create_pte` does it. -/
theorem bumpFindCreateLoop_of_made (h : Made kernel s a p t c) (q : List (Fin 512)) (i : Fin 512) :
    bumpFindCreateLoop kernel s (a * pageSize) (p ++ (q ++ [i])) =
      bumpFindCreateLoop kernel t (c * pageSize) (q ++ [i]) := by
  induction h with
  | done hin => rfl
  | @follow s t a b c j p hin hword rest ih =>
    obtain ⟨hv, hl, rfl⟩ := decode_eq_table.mp hword
    rw [List.cons_append, ← List.append_assoc, bumpFindCreateLoop_cons,
      Boot.load_slot hkernel s hin, ok_bind, hv, hl, ofPpn_ppn, List.append_assoc]
    exact ih
  | @make s t mb a b c j p hin hword halloc rest ih =>
    have hfit : b < 2 ^ 44 := (rest.inGiB.frame_lt hkernel).trans (by decide)
    rw [List.cons_append, ← List.append_assoc, bumpFindCreateLoop_cons,
      Boot.load_slot hkernel s hin, ok_bind, decode_eq_empty.mp hword, halloc, List.append_assoc]
    simp only [Bool.not_false, if_true, ok_bind]
    rw [Boot.clear_page hkernel _ rest.inGiB, ok_bind, PhysPageNum.ofPhysAddr_mul, ok_bind,
      Boot.store_slot hkernel _ hin, ok_bind, ofPpn_ppn, ppn_new hfit (by decide)]
    exact ih

/-- A pointer to an entry of a page that is not in the gigabyte cannot be used. -/
theorem load_eq_error (ha : a < 2 ^ 44) (hin : ¬ InGiB kernel (a * pageSize)) (i : Fin 512) :
    s.load kernel (a * pageSize + 8 * i) = .error .pageFault := by
  rw [Boot.load, Boot.physical_slot hkernel ha, if_neg hin]
  rfl

/-- A page for a new table is cleared and entered, or it cannot be. In the first case, if the table
can be reached afterwards, the page is in the gigabyte. -/
theorem newTable_cases {β : Type} (s : Boot) (mb : Memblock) (pa : ℕ)
    (hin : InGiB kernel (a * pageSize)) (j : Fin 512) (k : Boot → ℕ → Except Fault β) :
    let run := (do
      let s ← Boot.clear kernel ⟨s.mem, mb⟩ pa
      let ppn ← PhysPageNum.ofPhysAddr pa
      let pte := PageTableEntry.new ppn PTEFlags.v
      let s ← s.store kernel (a * pageSize + 8 * j) pte
      k s (PhysAddr.ofPpn (PageTableEntry.ppn pte)))
    run = .error .pageFault ∨ (run = .error .pageOffset ∧ ¬ pageSize ∣ pa) ∨
      ∃ s' b, b < 2 ^ 44 ∧ run = k s' (b * pageSize) ∧
        (InGiB kernel (b * pageSize) → pa = b * pageSize ∧ s' = ⟨withTable s.mem a j b, mb⟩) := by
  intro run
  cases hphys : Boot.physical kernel pa with
  | error e =>
    have he : e = .pageFault := by
      rw [Boot.physical] at hphys
      split at hphys
      · cases hphys
      · exact (Except.error.inj hphys).symm
    left
    simp only [run, Boot.clear, hphys, he, error_bind]
  | ok x =>
    cases hppn : PhysPageNum.ofPhysAddr pa with
    | error e =>
      have he : e = .pageOffset := by
        rw [PhysPageNum.ofPhysAddr] at hppn
        split at hppn
        · cases hppn
        · exact (Except.error.inj hppn).symm
      right
      left
      refine ⟨by simp only [run, Boot.clear, hphys, hppn, he, ok_bind, error_bind], ?_⟩
      rintro ⟨n, rfl⟩
      rw [mul_comm, PhysPageNum.ofPhysAddr_mul] at hppn
      cases hppn
    | ok ppn =>
      right
      right
      refine ⟨⟨Function.update (fun y => if x ≤ y ∧ y < x + pageSize then 0 else s.mem y)
        (a * pageSize + 8 * j) (PageTableEntry.new ppn PTEFlags.v), mb⟩, _,
        ppn_lt (PageTableEntry.new ppn PTEFlags.v), ?_, fun hb => ?_⟩
      · simp only [run, Boot.clear, hphys, hppn, ok_bind, Boot.store_slot hkernel _ hin, ofPpn_ppn]
      · obtain ⟨hpa, hpage⟩ := Boot.inGiB_of_clear hkernel hphys hppn hb
        have hx : x = pa := by
          rw [hpa, Boot.physical_eq hkernel ((hpage.lt hkernel).trans (by decide)),
            if_pos hpage] at hphys
          rw [hpa]
          exact (Except.ok.inj hphys).symm
        have hfit : ppn < 2 ^ 44 := (hpage.frame_lt hkernel).trans (by decide)
        rw [ppn_new hfit (by decide)]
        refine ⟨hpa, ?_⟩
        rw [hx, hpa]
        rfl

/-- What `bump_find_create_pte` can do: it follows and makes the tables on the path, or finds a leaf
on the way, or fails for lack of memory, or returns a pointer that cannot be used. -/
theorem bumpFindCreateLoop_cases (ha : a < 2 ^ 44) :
    (∃ t c, Made kernel s a p t c) ∨
      (∃ p₁ j q t c l, p = p₁ ++ j :: q ∧ Made kernel s a p₁ t c ∧
        decode (tables t.mem c j) = .leaf l) ∨
      (∃ e, bumpFindCreateLoop kernel s (a * pageSize) (p ++ [i]) = .error e ∧
        e ≠ .mappedBefore ∧ e ≠ .largePage) ∨
      ∃ t c, bumpFindCreateLoop kernel s (a * pageSize) (p ++ [i]) =
        .ok (some (c * pageSize + 8 * i), t) ∧ c < 2 ^ 44 ∧ ¬ InGiB kernel (c * pageSize) := by
  induction p generalizing s a with
  | nil =>
    by_cases hin : InGiB kernel (a * pageSize)
    · exact .inl ⟨s, a, .done hin⟩
    · exact .inr (.inr (.inr ⟨s, a, rfl, ha, hin⟩))
  | cons j p ih =>
    rw [List.cons_append, bumpFindCreateLoop_cons]
    by_cases hin : InGiB kernel (a * pageSize)
    case neg =>
      rw [load_eq_error hkernel ha hin]
      exact .inr (.inr (.inl ⟨_, rfl, by decide, by decide⟩))
    rw [Boot.load_slot hkernel s hin, ok_bind]
    cases hv : isValid (tables s.mem a j) with
    | true =>
      cases hl : isLeaf (tables s.mem a j) with
      | true =>
        exact .inr (.inl ⟨[], j, p, s, a, _, rfl, .done hin, decode_of_leaf hv hl⟩)
      | false =>
        have hword := decode_of_table hv hl
        rw [ofPpn_ppn]
        rcases ih (s := s) (ppn_lt (tables s.mem a j)) with
          ⟨t, c, hmade⟩ | ⟨p₁, k, q, t, c, l, rfl, hmade, hleaf⟩ | hrest
        · exact .inl ⟨t, c, .follow hin hword hmade⟩
        · exact .inr (.inl ⟨j :: p₁, k, q, t, c, l, rfl, .follow hin hword hmade, hleaf⟩)
        · exact .inr (.inr hrest)
    | false =>
      have hword := decode_of_not_valid hv
      simp only [Bool.not_false, if_true]
      cases halloc : s.memblock.earlyAlloc pageSize pageSize with
      | error e =>
        refine .inr (.inr (.inl ⟨e, rfl, ?_⟩))
        rcases Memblock.earlyAlloc_error halloc with rfl | rfl <;> exact ⟨by decide, by decide⟩
      | ok r =>
        obtain ⟨_ | pa, mb⟩ := r
        · exact .inr (.inr (.inl ⟨_, rfl, by decide, by decide⟩))
        rw [ok_bind]
        dsimp only
        rcases newTable_cases hkernel s mb pa hin j fun s' e =>
          bumpFindCreateLoop kernel s' e (p ++ [i]) with hrun | ⟨hrun, -⟩ | ⟨s', b, hb, hrun, hpage⟩
        · rw [hrun]
          exact .inr (.inr (.inl ⟨_, rfl, by decide, by decide⟩))
        · rw [hrun]
          exact .inr (.inr (.inl ⟨_, rfl, by decide, by decide⟩))
        rw [hrun]
        rcases ih (s := s') hb with
          ⟨t, c, hmade⟩ | ⟨p₁, k, q, t, c, l, rfl, hmade, hleaf⟩ | hrest
        · obtain ⟨rfl, rfl⟩ := hpage hmade.inGiB
          exact .inl ⟨t, c, .make hin hword halloc hmade⟩
        · obtain ⟨rfl, rfl⟩ := hpage hmade.inGiB
          exact .inr (.inl ⟨j :: p₁, k, q, t, c, l, rfl, .make hin hword halloc hmade, hleaf⟩)
        · exact .inr (.inr hrest)

section bumpMap

variable {vpn ppn flags : ℕ} {size : PageSize}

/-- The entry of a page is reached: it must be empty. -/
theorem bumpMap_of_made (hpath : (VirtPageNum.indices vpn).take size.targetLevel = p ++ [i])
    (h : Made kernel s a p t c) :
    bumpMap kernel s (a * pageSize) vpn ppn flags size =
      if isValid (tables t.mem c i) then .error .mappedBefore
      else .ok ⟨Function.update t.mem (c * pageSize + 8 * i)
        (PageTableEntry.new ppn (flags ||| PTEFlags.v)), t.memblock⟩ := by
  have hin := h.inGiB_end
  have hloop : bumpFindCreateLoop kernel s (a * pageSize) (p ++ [i]) =
      .ok (some (c * pageSize + 8 * i), t) := bumpFindCreateLoop_of_made hkernel h [] i
  rw [bumpMap, bumpFindCreatePte, hpath, hloop, ok_bind]
  dsimp only
  rw [Boot.load_slot hkernel t hin, ok_bind, Boot.store_slot hkernel t hin]

/-- There is a leaf on the way to the entry. -/
theorem bumpMap_of_leaf {j : Fin 512} {q : List (Fin 512)} {l : ℕ}
    (hpath : (VirtPageNum.indices vpn).take size.targetLevel = p ++ j :: q ++ [i])
    (h : Made kernel s a p t c) (hleaf : decode (tables t.mem c j) = .leaf l) :
    bumpMap kernel s (a * pageSize) vpn ppn flags size = .error .largePage := by
  obtain ⟨hv, hl⟩ := valid_leaf_of_decode hleaf
  have hloop := bumpFindCreateLoop_of_made hkernel h (j :: q) i
  rw [bumpMap, bumpFindCreatePte, hpath, List.append_assoc, hloop, List.cons_append,
    bumpFindCreateLoop_cons, Boot.load_slot hkernel t h.inGiB_end, ok_bind, hv, hl]
  rfl

/-- **What `bump_map` can do**: it reaches the entry of the page over tables that exist or are made,
or there is a leaf on the way, or it fails for lack of memory. -/
theorem bumpMap_cases (ppn flags : ℕ) (ha : a < 2 ^ 44)
    (hpath : (VirtPageNum.indices vpn).take size.targetLevel = p ++ [i]) :
    (∃ t c, Made kernel s a p t c) ∨
      (∃ p₁ j q t c l, p = p₁ ++ j :: q ∧ Made kernel s a p₁ t c ∧
        decode (tables t.mem c j) = .leaf l) ∨
      ∃ e, bumpMap kernel s (a * pageSize) vpn ppn flags size = .error e ∧
        e ≠ .mappedBefore ∧ e ≠ .largePage := by
  rw [bumpMap, bumpFindCreatePte, hpath]
  rcases bumpFindCreateLoop_cases hkernel ha (s := s) (p := p) (i := i) with
    hmade | hleaf | ⟨e, he, hne⟩ | ⟨t, c, hloop, hc, hout⟩
  · exact .inl hmade
  · exact .inr (.inl hleaf)
  · rw [he]
    exact .inr (.inr ⟨e, rfl, hne⟩)
  · rw [hloop, ok_bind]
    dsimp only
    rw [load_eq_error hkernel hc hout]
    exact .inr (.inr ⟨_, rfl, by decide, by decide⟩)

/-- **What `bump_map` does where it returns**: it follows and makes the tables on the path of the
page, and enters the leaf in an entry that is empty. -/
theorem bumpMap_eq_ok (ha : a < 2 ^ 44)
    (hpath : (VirtPageNum.indices vpn).take size.targetLevel = p ++ [i]) {s' : Boot} :
    bumpMap kernel s (a * pageSize) vpn ppn flags size = .ok s' ↔
      ∃ t c, Made kernel s a p t c ∧ decode (tables t.mem c i) = .empty ∧
        s' = ⟨Function.update t.mem (c * pageSize + 8 * i)
          (PageTableEntry.new ppn (flags ||| PTEFlags.v)), t.memblock⟩ := by
  constructor
  · intro hrun
    have hcases := bumpMap_cases hkernel ppn flags ha hpath (s := s)
    rcases hcases with
      ⟨t, c, hmade⟩ | ⟨p₁, j, q, t, c, l, rfl, hmade, hleaf⟩ | ⟨e, he, -⟩
    · rw [bumpMap_of_made hkernel hpath hmade] at hrun
      cases hv : isValid (tables t.mem c i) with
      | true =>
        rw [hv] at hrun
        cases hrun
      | false =>
        rw [hv] at hrun
        exact ⟨t, c, hmade, decode_of_not_valid hv, (Except.ok.inj hrun).symm⟩
    · rw [bumpMap_of_leaf hkernel hpath hmade hleaf] at hrun
      cases hrun
    · rw [he] at hrun
      cases hrun
  · rintro ⟨t, c, hmade, hempty, rfl⟩
    rw [bumpMap_of_made hkernel hpath hmade, decode_eq_empty.mp hempty]
    rfl

end bumpMap

end PageTable

end CharlotteOs
