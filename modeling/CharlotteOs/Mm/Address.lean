import CharlotteOs.Fault
import CharlotteOs.Lib.Usize

/-!
# Addresses, page numbers and the memory behind them

`src/mm/address.rs` wraps `usize` in four types and gives them overloaded conversions: from a
plain `usize` they mask, from an address they assert alignment and shift. The wrappers are
transparent, so all four are natural numbers here and each conversion has its own name.

`Mem` is the physical memory as 64-bit words at 8-byte aligned physical addresses. The kernel
reaches it through pointers: an address from `physVirtOffset` on is in the linear window, and an
address below is in the identity window that the kernel runs in until the final page table.
-/

namespace CharlotteOs

/-- `PAGE_SIZE_BITS`. -/
abbrev pageSizeBits : ℕ := 12

/-- `PAGE_SIZE`. -/
abbrev pageSize : ℕ := 4096

/-- `PHYS_VIRT_OFFSET`. -/
abbrev physVirtOffset : ℕ := 0xFFFF_FFFF_0000_0000

/-- `phys_to_virt`. -/
def physToVirt (pa : ℕ) : ℕ := (pa + physVirtOffset) % 2 ^ 64

/-- `virt_to_phys`. -/
def virtToPhys (va : ℕ) : ℕ := (va + (2 ^ 64 - physVirtOffset)) % 2 ^ 64

namespace PhysAddr

/-- `From<usize> for PhysAddr`. -/
def ofUsize (v : ℕ) : ℕ := v &&& (2 ^ 56 - 1)

/-- `From<&PhysPageNum> for PhysAddr`. -/
def ofPpn (ppn : ℕ) : ℕ := (ppn <<< pageSizeBits) % 2 ^ 64

/-- `PhysAddr::page_offset`. -/
def pageOffset (pa : ℕ) : ℕ := pa &&& (pageSize - 1)

/-- `PhysAddr::floor`. -/
def floor (pa : ℕ) : ℕ := pa >>> pageSizeBits

/-- `PhysAddr::ceil`. -/
def ceil (pa : ℕ) : ℕ := ((pa + pageSize - 1) % 2 ^ 64) >>> pageSizeBits

end PhysAddr

namespace PhysPageNum

/-- `From<usize> for PhysPageNum`: a mask, not a shift. -/
def ofUsize (v : ℕ) : ℕ := v &&& (2 ^ 44 - 1)

/-- `From<PhysAddr> for PhysPageNum`. -/
def ofPhysAddr (pa : ℕ) : Except Fault ℕ :=
  if PhysAddr.pageOffset pa = 0 then .ok (PhysAddr.floor pa) else .error .pageOffset

end PhysPageNum

/-- `From<usize> for VirtAddr`: the low 39 bits, sign extended. Irreducible, since a comparison with
`2 ^ 63` must not be unfolded. -/
@[irreducible] def VirtAddr.ofUsize (v : ℕ) : ℕ :=
  let shifted := (v <<< 25) % 2 ^ 64
  if shifted < 2 ^ 63 then shifted >>> 25 else (shifted >>> 25) + (2 ^ 64 - 2 ^ 39)

namespace VirtPageNum

/-- `From<VirtAddr> for VirtPageNum`. -/
def ofVirtAddr (va : ℕ) : Except Fault ℕ :=
  if va &&& (pageSize - 1) = 0 then .ok (va >>> pageSizeBits) else .error .pageOffset

/-- A table has entries. -/
instance neZeroEntries : NeZero 512 := ⟨by decide⟩

/-- `VirtPageNum::indices`, the index of the root table first. The mask is in the type. -/
def indices (vpn : ℕ) : List (Fin 512) :=
  [Fin.ofNat 512 (vpn >>> 9 >>> 9), Fin.ofNat 512 (vpn >>> 9), Fin.ofNat 512 vpn]

end VirtPageNum

/-- Physical memory: the word at each 8-byte aligned physical address. -/
abbrev Mem := ℕ → ℕ

/-- The physical address behind a kernel pointer. -/
def kernelPa (ptr : ℕ) : ℕ :=
  if physVirtOffset ≤ ptr then ptr - physVirtOffset else ptr

/-- The word a kernel pointer reads. -/
def Mem.load (m : Mem) (ptr : ℕ) : ℕ := m (kernelPa ptr)

/-- Memory after a word is written through a kernel pointer. -/
def Mem.store (m : Mem) (ptr val : ℕ) : Mem := Function.update m (kernelPa ptr) val

/-! ## Arithmetic of the conversions -/

theorem two_pow_pageSizeBits : 2 ^ pageSizeBits = pageSize := rfl

theorem PhysAddr.pageOffset_eq (pa : ℕ) : PhysAddr.pageOffset pa = pa % 4096 :=
  Nat.and_two_pow_sub_one_eq_mod pa 12

theorem PhysAddr.floor_eq (pa : ℕ) : PhysAddr.floor pa = pa / 4096 :=
  Nat.shiftRight_eq_div_pow pa 12

theorem PhysAddr.ofPpn_eq {ppn : ℕ} (h : ppn < 2 ^ 52) :
    PhysAddr.ofPpn ppn = ppn * 4096 := by
  rw [PhysAddr.ofPpn, Nat.shiftLeft_eq]
  exact Nat.mod_eq_of_lt (show ppn * 4096 < 2 ^ 64 by omega)

theorem PhysPageNum.ofPhysAddr_mul (ppn : ℕ) :
    PhysPageNum.ofPhysAddr (ppn * 4096) = .ok ppn := by
  rw [PhysPageNum.ofPhysAddr, PhysAddr.pageOffset_eq, PhysAddr.floor_eq, if_pos (by omega),
    Nat.mul_div_cancel _ (by omega)]

/-- Only page aligned addresses have a page number. -/
theorem PhysPageNum.ofPhysAddr_eq_ok {pa ppn : ℕ} :
    PhysPageNum.ofPhysAddr pa = .ok ppn ↔ pa = ppn * pageSize := by
  constructor
  · intro h
    rw [PhysPageNum.ofPhysAddr, PhysAddr.pageOffset_eq, PhysAddr.floor_eq] at h
    split at h
    · cases h
      simp only [pageSize]
      omega
    · cases h
  · rintro rfl
    exact PhysPageNum.ofPhysAddr_mul ppn

theorem mul_pageSize_lt {ppn : ℕ} (h : ppn < 2 ^ 20) : ppn * pageSize < 2 ^ 32 := by
  simp only [pageSize]
  omega

theorem physToVirt_eq {pa : ℕ} (h : pa < 2 ^ 32) : physToVirt pa = pa + physVirtOffset := by
  rw [physToVirt, Nat.mod_eq_of_lt]
  show pa + 0xFFFF_FFFF_0000_0000 < 2 ^ 64
  omega

theorem virtToPhys_physToVirt {pa : ℕ} (h : pa < 2 ^ 64) : virtToPhys (physToVirt pa) = pa := by
  simp only [virtToPhys, physToVirt, physVirtOffset]
  omega

/-- Below 4 GiB the linear window is exact: the pointer `phys_to_virt` makes goes back. -/
theorem kernelPa_physToVirt {pa : ℕ} (h : pa < 2 ^ 32) : kernelPa (physToVirt pa) = pa := by
  rw [physToVirt_eq h, kernelPa, if_pos (by omega)]
  omega

theorem Mem.load_physToVirt {pa : ℕ} (m : Mem) (h : pa < 2 ^ 32) :
    m.load (physToVirt pa) = m pa := by
  rw [Mem.load, kernelPa_physToVirt h]

theorem Mem.store_physToVirt {pa : ℕ} (m : Mem) (val : ℕ) (h : pa < 2 ^ 32) :
    m.store (physToVirt pa) val = Function.update m pa val := by
  rw [Mem.store, kernelPa_physToVirt h]

/-- Addresses in the linear window are canonical. -/
theorem VirtAddr.ofUsize_of_le {v : ℕ} (h : physVirtOffset ≤ v) (hlt : v < 2 ^ 64) :
    VirtAddr.ofUsize v = v := by
  simp only [physVirtOffset] at h
  unfold VirtAddr.ofUsize
  simp only [Nat.shiftLeft_eq, Nat.shiftRight_eq_div_pow]
  split <;> omega

/-- The conversion keeps the low 39 bits. -/
theorem VirtAddr.ofUsize_mod (v : ℕ) : VirtAddr.ofUsize v % 2 ^ 39 = v % 2 ^ 39 := by
  unfold VirtAddr.ofUsize
  simp only [Nat.shiftLeft_eq, Nat.shiftRight_eq_div_pow]
  split <;> omega

theorem VirtPageNum.ofVirtAddr_mul (vpn : ℕ) : VirtPageNum.ofVirtAddr (vpn * 4096) = .ok vpn := by
  have hmask : vpn * 4096 &&& (pageSize - 1) = vpn * 4096 % 2 ^ 12 :=
    Nat.and_two_pow_sub_one_eq_mod _ 12
  rw [VirtPageNum.ofVirtAddr, hmask, if_pos (by omega), Nat.shiftRight_eq_div_pow]
  exact congrArg Except.ok (Nat.mul_div_cancel vpn (by decide))

/-! ## Words behind kernel pointers -/

theorem kernelPa_of_le {ptr : ℕ} (h : physVirtOffset ≤ ptr) :
    kernelPa ptr = ptr - physVirtOffset := if_pos h

theorem kernelPa_ne {ptr ptr' : ℕ} (h : physVirtOffset ≤ ptr) (h' : physVirtOffset ≤ ptr')
    (hne : ptr ≠ ptr') : kernelPa ptr ≠ kernelPa ptr' := by
  rw [kernelPa_of_le h, kernelPa_of_le h']
  omega

theorem Mem.load_store_self (m : Mem) (ptr val : ℕ) : (m.store ptr val).load ptr = val :=
  Function.update_self ..

theorem Mem.load_store_of_ne {ptr ptr' : ℕ} (m : Mem) (val : ℕ)
    (hne : kernelPa ptr' ≠ kernelPa ptr) : (m.store ptr val).load ptr' = m.load ptr' :=
  Function.update_of_ne hne _ _

end CharlotteOs
