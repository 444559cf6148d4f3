import CharlotteOs.Lib.TableTree
import CharlotteOs.Mm.Buddy
import CharlotteOs.Mm.Memblock

/-!
# Page tables

`src/mm/pagetable.rs`: Sv39 tables of 512 entries in three levels. Two families of functions walk
them. Those named `bump` build the tables of the kernel at boot: they know leaves of three sizes and
take the memory for tables from `MEMBLOCK`. `find_pte` and `find_create_pte` know leaves of one page
only, and take the memory from the buddy allocator.

A reference to an entry is the pointer to it. The functions that look entries up reach the tables
through `phys_to_virt`. `bump_find_create_pte` uses physical addresses as pointers, which works
where `BOOT_PT` maps them: `enable_early_mmu` enters one gigabyte, the one that the kernel is in.

`walk` and `sv39` are what the hardware makes of the tables.

## Main definitions

* `PageTableEntry.new`, `isValid`, `isLeaf`, `ppn`, `flags`, `decode`: entries
* `PageTable.findPte`, `PageTable.bumpFindPte`, `PageTable.unmap`: lookup
* `PageTable.findCreatePte`, `PageTable.map`: mapping with frames of the buddy allocator
* `bootPt`, `Boot`, `PageTable.bumpFindCreatePte`, `PageTable.bumpMap`: mapping at boot
* `walk`, `sv39`: translation
-/

namespace CharlotteOs

open TableTree

/-! ## Entries -/

namespace PTEFlags

/-- `PTEFlags::V`. -/
abbrev v : ℕ := 1 <<< 0

/-- `PTEFlags::R`. -/
abbrev r : ℕ := 1 <<< 1

/-- `PTEFlags::W`. -/
abbrev w : ℕ := 1 <<< 2

/-- `PTEFlags::X`. -/
abbrev x : ℕ := 1 <<< 3

/-- `PTEFlags::U`. -/
abbrev u : ℕ := 1 <<< 4

/-- `contains`. -/
def contains (flags other : ℕ) : Bool := flags &&& other == other

end PTEFlags

namespace PageTableEntry

/-- `PageTableEntry::new`. -/
def new (ppn flags : ℕ) : ℕ := (ppn <<< 10) % 2 ^ 64 ||| flags

/-- `PageTableEntry::empty`. -/
def empty : ℕ := 0

/-- `is_valid`. -/
def isValid (bits : ℕ) : Bool := bits &&& PTEFlags.v != 0

/-- `ppn`. -/
def ppn (bits : ℕ) : ℕ := (bits >>> 10) &&& (2 ^ 44 - 1)

/-- `flags`. -/
def flags (bits : ℕ) : ℕ := bits % 2 ^ 8

/-- The test for a leaf: one of the flags `R`, `W` and `X` is set. -/
def isLeaf (bits : ℕ) : Bool :=
  PTEFlags.contains (flags bits) PTEFlags.r || PTEFlags.contains (flags bits) PTEFlags.w ||
    PTEFlags.contains (flags bits) PTEFlags.x

/-- What an entry says: it is not valid, it is a leaf, or it points to a table. -/
def decode (bits : ℕ) : Entry ℕ ℕ :=
  if !isValid bits then .empty else if isLeaf bits then .leaf bits else .table (ppn bits)

end PageTableEntry

open PageTableEntry

/-- `PageSize`. -/
inductive PageSize
  | fourKB
  | twoMB
  | oneGB
  deriving DecidableEq, Repr

/-- The `target_level` of a page size: the number of tables down to its leaf. -/
def PageSize.targetLevel : PageSize → ℕ
  | .oneGB => 1
  | .twoMB => 2
  | .fourKB => 3

/-! ## Translation -/

/-- The tables in a memory: the word of each frame at each index. -/
def tables (m : Mem) (ppn : ℕ) (i : Fin 512) : ℕ := m (ppn * pageSize + 8 * i)

/-- The page and the flags that the hardware finds for a virtual page. A leaf above the last level
maps several pages and must be aligned to them, and a leaf that can be written must be readable. -/
def walk (t : ℕ → Fin 512 → ℕ) (root vpn : ℕ) : Option (ℕ × ℕ) :=
  match lookup decode t root (VirtPageNum.indices vpn) with
  | none => none
  | some (pte, rest) =>
    let pages := 512 ^ rest.length
    if PTEFlags.contains (flags pte) PTEFlags.w && !PTEFlags.contains (flags pte) PTEFlags.r then
      none
    else if ppn pte % pages ≠ 0 then none
    else some (ppn pte + vpn % pages, flags pte)

/-- The physical address and the flags for a virtual address. Bits 38 to 63 must be equal. -/
def sv39 (t : ℕ → Fin 512 → ℕ) (root va : ℕ) : Option (ℕ × ℕ) :=
  if va / 2 ^ 38 = 0 ∨ va / 2 ^ 38 = 2 ^ 26 - 1 then
    (walk t root (va / pageSize)).map fun (ppn, flags) => (ppn * pageSize + va % pageSize, flags)
  else none

/-! ## Lookup -/

namespace PageTable

/-- The loop of `bump_find_pte` over the indices down to the target level. -/
def bumpFindLoop (m : Mem) : ℕ → List (Fin 512) → Option ℕ
  | _, [] => none
  | entries, [i] => some (entries + 8 * i)
  | entries, i :: rest =>
    let pte := m.load (entries + 8 * i)
    if !isValid pte then none
    else if isLeaf pte then none
    else bumpFindLoop m (physToVirt (PhysAddr.ofPpn (ppn pte))) rest

/-- `bump_find_pte`. -/
def bumpFindPte (m : Mem) (self vpn : ℕ) (pageSize : PageSize) : Option ℕ :=
  bumpFindLoop m self ((VirtPageNum.indices vpn).take pageSize.targetLevel)

/-- The loop of `find_pte`. -/
def findLoop (m : Mem) : ℕ → List (Fin 512) → Option ℕ
  | _, [] => none
  | entries, [i] => some (entries + 8 * i)
  | entries, i :: rest =>
    let pte := m.load (entries + 8 * i)
    if !isValid pte then none
    else findLoop m (physToVirt (PhysAddr.ofPpn (ppn pte))) rest

/-- `find_pte`. -/
def findPte (m : Mem) (self vpn : ℕ) : Option ℕ := findLoop m self (VirtPageNum.indices vpn)

/-- `unmap`. -/
def unmap (m : Mem) (self vpn : ℕ) (size : PageSize) : Except Fault Mem :=
  match bumpFindPte m self vpn size with
  | none => .error .unwrapNone
  | some pte =>
    if isValid (m.load pte) then .ok (m.store pte PageTableEntry.empty) else .error .notMapped

/-! ## Mapping with frames of the buddy allocator -/

/-- The loop of `find_create_pte`. The frames of new tables go to the end of the vector; they are
not cleared. -/
def findCreateLoop (s : BuddySystemFrameAllocator) (frames : List ℕ) (entries : ℕ) :
    List (Fin 512) → Except Fault (Option ℕ × BuddySystemFrameAllocator × List ℕ)
  | [] => .ok (none, s, frames)
  | [i] => .ok (some (entries + 8 * i), s, frames)
  | i :: rest =>
    let pte := s.mem.load (entries + 8 * i)
    if !isValid pte then do
      match ← s.alloc 1 with
      | (none, _) => .error .unwrapNone
      | (some frame, s) =>
        let pte := PageTableEntry.new frame PTEFlags.v
        findCreateLoop { s with mem := s.mem.store (entries + 8 * i) pte } (frames ++ [frame])
          (physToVirt (PhysAddr.ofPpn (ppn pte))) rest
    else findCreateLoop s frames (physToVirt (PhysAddr.ofPpn (ppn pte))) rest

/-- `find_create_pte`. -/
def findCreatePte (s : BuddySystemFrameAllocator) (self vpn : ℕ) (frames : List ℕ) :
    Except Fault (Option ℕ × BuddySystemFrameAllocator × List ℕ) :=
  findCreateLoop s frames self (VirtPageNum.indices vpn)

/-- `map`. -/
def map (s : BuddySystemFrameAllocator) (self vpn ppn flags : ℕ) (frames : List ℕ) :
    Except Fault (BuddySystemFrameAllocator × List ℕ) := do
  match ← findCreatePte s self vpn frames with
  | (none, _, _) => .error .unwrapNone
  | (some pte, s, frames) =>
    if isValid (s.mem.load pte) then .error .mappedBefore
    else
      .ok ({ s with mem := s.mem.store pte (PageTableEntry.new ppn (flags ||| PTEFlags.v)) },
        frames)

end PageTable

/-! ## Mapping at boot -/

/-- `BOOT_PT` as `enable_early_mmu` fills it in: the gigabyte that the kernel is in, at its physical
address and at its address in the linear window. -/
def bootPt (kernelPhysAddr : ℕ) : Fin 512 → ℕ :=
  let phyBase := kernelPhysAddr &&& Usize.notWord (2 ^ 30 - 1)
  let virtBase := physToVirt phyBase
  let flags := PTEFlags.v ||| PTEFlags.r ||| PTEFlags.w ||| PTEFlags.x
  let pte := ((phyBase >>> pageSizeBits) <<< 10) % 2 ^ 64 ||| flags
  let identIdx := Fin.ofNat 512 (phyBase >>> 30)
  let higherHalfIdx := Fin.ofNat 512 (virtBase >>> 30)
  Function.update (Function.update (fun _ => 0) identIdx pte) higherHalfIdx pte

/-- The memory and `MEMBLOCK`, before the final page table is in use. -/
structure Boot where
  mem : Mem
  memblock : Memblock

namespace Boot

/-- The physical address behind a pointer under `BOOT_PT`, which has no second level. -/
def physical (kernel ptr : ℕ) : Except Fault ℕ :=
  match sv39 (fun _ => bootPt kernel) 0 ptr with
  | some (pa, _) => .ok pa
  | none => .error .pageFault

/-- The word that a pointer reads. -/
def load (kernel : ℕ) (s : Boot) (ptr : ℕ) : Except Fault ℕ := do
  let pa ← physical kernel ptr
  .ok (s.mem pa)

/-- The state after a word is written through a pointer. -/
def store (kernel : ℕ) (s : Boot) (ptr val : ℕ) : Except Fault Boot := do
  let pa ← physical kernel ptr
  .ok { s with mem := Function.update s.mem pa val }

/-- `write_bytes(ptr, 0, PAGE_SIZE)`. -/
def clear (kernel : ℕ) (s : Boot) (ptr : ℕ) : Except Fault Boot := do
  let pa ← physical kernel ptr
  .ok { s with mem := fun a => if pa ≤ a ∧ a < pa + pageSize then 0 else s.mem a }

end Boot

namespace PageTable

/-- The loop of `bump_find_create_pte` over the indices down to the target level. -/
def bumpFindCreateLoop (kernel : ℕ) (s : Boot) (entries : ℕ) :
    List (Fin 512) → Except Fault (Option ℕ × Boot)
  | [] => .ok (none, s)
  | [i] => .ok (some (entries + 8 * i), s)
  | i :: rest => do
    let pte ← s.load kernel (entries + 8 * i)
    if !isValid pte then
      match ← s.memblock.earlyAlloc pageSize pageSize with
      | (none, _) => .error .unwrapNone
      | (some allocatedAddr, memblock) => do
        let s ← { s with memblock }.clear kernel allocatedAddr
        let ppn ← PhysPageNum.ofPhysAddr allocatedAddr
        let pte := PageTableEntry.new ppn PTEFlags.v
        let s ← s.store kernel (entries + 8 * i) pte
        bumpFindCreateLoop kernel s (PhysAddr.ofPpn (PageTableEntry.ppn pte)) rest
    else if isLeaf pte then .error .largePage
    else bumpFindCreateLoop kernel s (PhysAddr.ofPpn (ppn pte)) rest

/-- `bump_find_create_pte`. -/
def bumpFindCreatePte (kernel : ℕ) (s : Boot) (self vpn : ℕ) (pageSize : PageSize) :
    Except Fault (Option ℕ × Boot) :=
  bumpFindCreateLoop kernel s self ((VirtPageNum.indices vpn).take pageSize.targetLevel)

/-- `bump_map`. -/
def bumpMap (kernel : ℕ) (s : Boot) (self vpn ppn flags : ℕ) (size : PageSize) :
    Except Fault Boot := do
  match ← bumpFindCreatePte kernel s self vpn size with
  | (none, _) => .error .unwrapNone
  | (some pte, s) => do
    let bits ← s.load kernel pte
    if isValid bits then .error .mappedBefore
    else s.store kernel pte (PageTableEntry.new ppn (flags ||| PTEFlags.v))

end PageTable

end CharlotteOs
