import CharlotteOs.Lib.Intervals
import CharlotteOs.Mm.Address

/-!
# The boot-time memory map

`src/mm/memblock.rs`: three arrays of regions, for the memory that is available, reserved and
allocated before there is a page allocator. A `RegionArray` has 128 slots and a count; here it is
the list of the first `count` slots, so moving the slots behind an index is a change of a list, and
the assertions on the count are about its length.

As an interval list (`RegionArray.intervals`) an array stays in normal form, `remove_region` is
set difference and `add_region` is union.

## Main definitions

* `RegionArray`, `RegionArray.addRegion`, `RegionArray.removeRegion`
* `Memblock`, `Memblock.reserveMemory`, `Memblock.earlyAlloc`
* `RegionArray.intervals`, `RegionArray.bytes`, `RegionArray.Canonical`: what an array denotes

## Main results

* `RegionArray.addRegion_spec`, `RegionArray.removeRegion_spec`: union and difference
* `Memblock.earlyAlloc_spec`: an allocated range was available
-/

namespace CharlotteOs

open IntervalList

/-- `MAX_REGIONS`. -/
abbrev maxRegions : ℕ := 128

/-- `MemRegion`. -/
structure MemRegion where
  base : ℕ
  size : ℕ
  deriving DecidableEq, Repr

/-- `MemRegion::end`. -/
def MemRegion.end_ (r : MemRegion) : ℕ := (r.base + r.size) % 2 ^ 64

/-- `RegionArray`, with `regions[0..count]` as a list. -/
structure RegionArray where
  regions : List MemRegion
  totalSize : ℕ
  deriving DecidableEq, Repr

namespace RegionArray

/-- `RegionArray::new`. -/
def new : RegionArray := ⟨[], 0⟩

/-- `update_total`. -/
def updateTotal (regions : List MemRegion) : RegionArray :=
  ⟨regions, (regions.map MemRegion.size).sum⟩

/-- The second loop of `add_region`: the new region grows by the regions that it reaches. The
result is the grown base and end, and the regions behind. -/
def mergeLoop : ℕ → ℕ → List MemRegion → ℕ × ℕ × List MemRegion
  | mergedBase, mergedEnd, [] => (mergedBase, mergedEnd, [])
  | mergedBase, mergedEnd, r :: rest =>
    if r.base ≤ mergedEnd then mergeLoop (min mergedBase r.base) (max mergedEnd r.end_) rest
    else (mergedBase, mergedEnd, r :: rest)

/-- `add_region`. -/
def addRegion (a : RegionArray) (base size : ℕ) : Except Fault RegionArray :=
  if size = 0 then .ok a
  else
    let endAddr := (base + size) % 2 ^ 64
    let before := a.regions.takeWhile fun r => r.end_ < base
    let rest := a.regions.dropWhile fun r => r.end_ < base
    let (mergedBase, mergedEnd, after) := mergeLoop base endAddr rest
    -- nothing was merged, so the region takes a slot of its own
    if rest.length = after.length ∧ maxRegions ≤ a.regions.length then .error .regionArrayFull
    else .ok (updateTotal
      (before ++ ⟨mergedBase, (mergedEnd + (2 ^ 64 - mergedBase)) % 2 ^ 64⟩ :: after))

/-- The loop of `remove_region` over the regions from an index on, where the array has `count` of
them in all. -/
def removeLoop (rmBase rmEnd : ℕ) : ℕ → List MemRegion → Except Fault (List MemRegion)
  | _, [] => .ok []
  | count, r :: rest =>
    if rmBase < r.end_ ∧ r.base < rmEnd then
      if rmBase ≤ r.base ∧ r.end_ ≤ rmEnd then removeLoop rmBase rmEnd (count - 1) rest
      else if rmBase ≤ r.base ∧ rmEnd < r.end_ then do
        let rest ← removeLoop rmBase rmEnd count rest
        .ok (⟨rmEnd, r.end_ - rmEnd⟩ :: rest)
      else if r.base < rmBase ∧ r.end_ ≤ rmEnd then do
        let rest ← removeLoop rmBase rmEnd count rest
        .ok (⟨r.base, rmBase - r.base⟩ :: rest)
      else if maxRegions ≤ count then .error .regionArrayFullHole
      else do
        let rest ← removeLoop rmBase rmEnd (count + 1) rest
        .ok (⟨r.base, rmBase - r.base⟩ :: ⟨rmEnd, r.end_ - rmEnd⟩ :: rest)
    else do
      let rest ← removeLoop rmBase rmEnd count rest
      .ok (r :: rest)

/-- `remove_region`. -/
def removeRegion (a : RegionArray) (rmBase rmSize : ℕ) : Except Fault RegionArray :=
  if rmSize = 0 then .ok a
  else do
    let regions ← removeLoop rmBase ((rmBase + rmSize) % 2 ^ 64) a.regions.length a.regions
    .ok (updateTotal regions)

end RegionArray

/-- `Memblock`. -/
structure Memblock where
  available : RegionArray
  reserved : RegionArray
  allocated : RegionArray
  deriving DecidableEq, Repr

namespace Memblock

/-- `MEMBLOCK` at boot. -/
def new : Memblock := ⟨.new, .new, .new⟩

/-- `init_add_memory`. -/
def initAddMemory (mb : Memblock) (base size : ℕ) : Except Fault Memblock := do
  let available ← mb.available.addRegion base size
  .ok { mb with available }

/-- `reserve_memory`. -/
def reserveMemory (mb : Memblock) (base size : ℕ) : Except Fault Memblock := do
  let available ← mb.available.removeRegion base size
  let reserved ← mb.reserved.addRegion base size
  .ok { mb with available, reserved }

/-- The base that `early_alloc` tries in a region: as high as the size allows, aligned down. Both
subtractions wrap. -/
def allocBase (reg : MemRegion) (size align : ℕ) : ℕ :=
  (reg.end_ + (2 ^ 64 - size)) % 2 ^ 64 &&& Usize.notWord ((align + (2 ^ 64 - 1)) % 2 ^ 64)

/-- `early_alloc`: the regions are tried from the last to the first. -/
def earlyAlloc (mb : Memblock) (size align : ℕ) : Except Fault (Option ℕ × Memblock) :=
  match mb.available.regions.reverse.find? fun reg => reg.base ≤ allocBase reg size align with
  | none => .ok (none, mb)
  | some reg => do
    let physAddr := allocBase reg size align
    let available ← mb.available.removeRegion physAddr size
    let allocated ← mb.allocated.addRegion physAddr size
    .ok (some physAddr, { mb with available, allocated })

end Memblock

/-! ## What an array denotes -/

/-- The bytes of a region as an interval. -/
def MemRegion.interval (r : MemRegion) : ℕ × ℕ := (r.base, r.base + r.size)

/-- The end of a region that does not overflow. -/
theorem MemRegion.end_eq {r : MemRegion} (h : r.base + r.size < 2 ^ 64) :
    r.end_ = r.base + r.size :=
  Nat.mod_eq_of_lt h

namespace RegionArray

/-- The regions as a list of intervals. -/
def intervals (a : RegionArray) : List (ℕ × ℕ) := a.regions.map MemRegion.interval

/-- The bytes of an array. -/
def bytes (a : RegionArray) : Set ℕ := cover a.intervals

theorem mem_bytes {a : RegionArray} {x : ℕ} :
    x ∈ a.bytes ↔ ∃ r ∈ a.regions, r.base ≤ x ∧ x < r.base + r.size := by
  simp [bytes, cover, intervals, MemRegion.interval]

/-- Normal form: the regions are nonempty, increasing, apart from each other and do not overflow,
and the total is the sum of their sizes. -/
structure Canonical (a : RegionArray) : Prop where
  separated : Separated a.intervals
  lt : ∀ r ∈ a.regions, r.base + r.size < 2 ^ 64
  total : a.totalSize = (a.regions.map MemRegion.size).sum

theorem Canonical.new : Canonical .new := ⟨Separated.nil, by simp [RegionArray.new], rfl⟩

@[simp] theorem bytes_new : RegionArray.new.bytes = ∅ := cover_nil

/-- The loop of `add_region` absorbs as intervals do. -/
theorem mergeLoop_eq {l : List MemRegion} (hl : ∀ r ∈ l, r.base + r.size < 2 ^ 64) (lo hi : ℕ) :
    (((mergeLoop lo hi l).1, (mergeLoop lo hi l).2.1),
      (mergeLoop lo hi l).2.2.map MemRegion.interval) =
      absorb lo hi (l.map MemRegion.interval) := by
  induction l generalizing lo hi with
  | nil => rfl
  | cons r l ih =>
    rw [mergeLoop, List.map_cons, absorb, MemRegion.end_eq (hl r List.mem_cons_self)]
    show _ = if r.base ≤ hi then _ else _
    split
    · exact ih (fun r hr => hl r (List.mem_cons_of_mem _ hr)) _ _
    · rfl

/-- No byte of an array is the last of the address space. -/
theorem Canonical.bytes_lt {a : RegionArray} (h : Canonical a) {x : ℕ} (hx : x ∈ a.bytes) :
    x + 1 < 2 ^ 64 := by
  obtain ⟨p, hp, -, hxp⟩ := hx
  obtain ⟨r, hr, rfl⟩ := List.mem_map.mp hp
  exact Nat.lt_of_le_of_lt hxp (h.lt r hr)

/-- Regions whose intervals are in normal form and do not reach the end of the address space. -/
theorem Canonical.updateTotal {l : List MemRegion} (h : Separated (l.map MemRegion.interval))
    (hlt : ∀ x ∈ cover (l.map MemRegion.interval), x + 1 < 2 ^ 64) : Canonical (updateTotal l) := by
  refine ⟨h, fun r hr => ?_, rfl⟩
  have hmem := List.mem_map_of_mem (f := MemRegion.interval) hr
  have hne : r.base < r.base + r.size := h.nonempty _ hmem
  have := hlt (r.base + r.size - 1) ⟨_, hmem, Nat.le_sub_one_of_lt hne, Nat.sub_one_lt_of_lt hne⟩
  omega

theorem interval_mk {lo hi : ℕ} (h : lo ≤ hi) : MemRegion.interval ⟨lo, hi - lo⟩ = (lo, hi) :=
  Prod.ext rfl (Nat.add_sub_of_le h)

variable {a a' : RegionArray} {base size : ℕ}

/-- The regions that end before an address, as intervals. -/
theorem takeWhile_interval {l : List MemRegion} (hl : ∀ r ∈ l, r.base + r.size < 2 ^ 64) (lo : ℕ) :
    (l.takeWhile fun r => r.end_ < lo).map MemRegion.interval =
        (l.map MemRegion.interval).takeWhile (fun p => p.2 < lo) ∧
      (l.dropWhile fun r => r.end_ < lo).map MemRegion.interval =
        (l.map MemRegion.interval).dropWhile (fun p => p.2 < lo) := by
  induction l with
  | nil => exact ⟨rfl, rfl⟩
  | cons r l ih =>
    obtain ⟨htake, hdrop⟩ := ih fun r hr => hl r (List.mem_cons_of_mem _ hr)
    have hend := MemRegion.end_eq (hl r List.mem_cons_self)
    rw [List.takeWhile_cons, List.dropWhile_cons, List.map_cons, List.takeWhile_cons,
      List.dropWhile_cons, hend]
    show _ = (if decide (r.base + r.size < lo) then _ else _) ∧
      _ = if decide (r.base + r.size < lo) then _ else _
    split
    · rw [List.map_cons, htake, hdrop]
      exact ⟨rfl, rfl⟩
    · exact ⟨rfl, rfl⟩

/-- **`add_region` is union.** -/
theorem addRegion_spec (h : Canonical a) (hlt : base + size < 2 ^ 64)
    (hrun : a.addRegion base size = .ok a') :
    Canonical a' ∧ a'.bytes = a.bytes ∪ Set.Ico base (base + size) := by
  rw [addRegion] at hrun
  by_cases hzero : size = 0
  · rw [if_pos hzero] at hrun
    cases hrun
    rw [hzero, Nat.add_zero, Set.Ico_self, Set.union_empty]
    exact ⟨h, rfl⟩
  rw [if_neg hzero, Nat.mod_eq_of_lt hlt] at hrun
  have hdrop : ∀ r ∈ a.regions.dropWhile (fun r => r.end_ < base), r.base + r.size < 2 ^ 64 :=
    fun r hr => h.lt r ((List.dropWhile_sublist _).subset hr)
  obtain ⟨htake_eq, hdrop_eq⟩ := takeWhile_interval h.lt base
  have hmerge := mergeLoop_eq hdrop base (base + size)
  rw [hdrop_eq] at hmerge
  have hne : base < base + size := Nat.lt_add_of_pos_right (Nat.pos_of_ne_zero hzero)
  obtain ⟨hsep, hcover⟩ := h.separated.insert hne
  dsimp only at hrun
  split at hrun
  · cases hrun
  cases hrun
  generalize mergeLoop base (base + size) (a.regions.dropWhile fun r => r.end_ < base) = m
    at hmerge ⊢
  obtain ⟨lo, hi, after⟩ := m
  have hinsert : IntervalList.insert base (base + size) a.intervals =
      (a.regions.takeWhile fun r => r.end_ < base).map MemRegion.interval ++
        (lo, hi) :: after.map MemRegion.interval := by
    rw [IntervalList.insert, intervals, ← hmerge, htake_eq]
  rw [hinsert] at hsep hcover
  have hlo : lo < hi := hsep.nonempty (lo, hi) (by simp)
  have hbytes : ∀ x ∈ a.bytes ∪ Set.Ico base (base + size), x + 1 < 2 ^ 64 := by
    rintro x (hx | hx)
    · exact h.bytes_lt hx
    · exact Nat.lt_of_le_of_lt hx.2 hlt
  have hhi : hi - 1 ∈ cover a.intervals ∪ Set.Ico base (base + size) := by
    rw [← hcover]
    exact ⟨(lo, hi), by simp, Nat.le_sub_one_of_lt hlo, Nat.sub_one_lt_of_lt hlo⟩
  have hwidth : (hi + (2 ^ 64 - lo)) % 2 ^ 64 = hi - lo := by
    have := hbytes _ hhi
    omega
  rw [← interval_mk hlo.le, ← List.map_cons, ← List.map_append] at hsep hcover
  dsimp only
  rw [hwidth]
  refine ⟨Canonical.updateTotal hsep fun x hx => ?_, hcover⟩
  rw [hcover] at hx
  exact hbytes x hx

/-- What `remove_region` makes of one region: the cut of its interval. -/
theorem removeLoop_spec {lo hi : ℕ} (hlt : lo < hi) {l l' : List MemRegion} {count : ℕ}
    (hl : ∀ r ∈ l, 0 < r.size ∧ r.base + r.size < 2 ^ 64)
    (hrun : removeLoop lo hi count l = .ok l') :
    l'.map MemRegion.interval = (l.map MemRegion.interval).flatMap (cut lo hi) := by
  induction l generalizing count l' with
  | nil =>
    cases hrun
    rfl
  | cons r l ih =>
    obtain ⟨hpos, hbound⟩ := hl r List.mem_cons_self
    have ih : ∀ {count l'}, removeLoop lo hi count l = .ok l' →
        l'.map MemRegion.interval = (l.map MemRegion.interval).flatMap (cut lo hi) :=
      ih fun r hr => hl r (List.mem_cons_of_mem _ hr)
    rw [List.map_cons, List.flatMap_cons]
    rw [removeLoop, MemRegion.end_eq hbound] at hrun
    split at hrun
    case isFalse hout =>
      obtain ⟨rest, hrest, hrun⟩ := exists_of_bind_eq_ok hrun
      cases hrun
      have hside : r.base + r.size ≤ lo ∨ hi ≤ r.base := by omega
      rw [cut_of_disjoint (Nat.lt_add_of_pos_right hpos) hlt hside, List.map_cons, ih hrest]
      rfl
    split at hrun
    case isTrue hcover =>
      rw [cut_of_le hcover.1 hcover.2, ih hrun]
      rfl
    split at hrun
    case isTrue hhead =>
      obtain ⟨rest, hrest, hrun⟩ := exists_of_bind_eq_ok hrun
      cases hrun
      have hin : r.base ≤ hi := by omega
      rw [cut_head hhead.1 hin hhead.2, List.map_cons, ih hrest, interval_mk hhead.2.le]
      rfl
    split at hrun
    case isTrue htail =>
      obtain ⟨rest, hrest, hrun⟩ := exists_of_bind_eq_ok hrun
      cases hrun
      have hin : lo ≤ r.base + r.size := by omega
      rw [cut_tail htail.1 hin htail.2, List.map_cons, ih hrest, interval_mk htail.1.le]
      rfl
    split at hrun
    · cases hrun
    · obtain ⟨rest, hrest, hrun⟩ := exists_of_bind_eq_ok hrun
      cases hrun
      have hlow : r.base < lo := by omega
      have hhigh : hi < r.base + r.size := by omega
      rw [cut_hole hlow hlt.le hhigh, List.map_cons, List.map_cons, ih hrest, interval_mk hlow.le,
        interval_mk hhigh.le]
      rfl

/-- The only fault of `add_region` is that the array is full. -/
theorem addRegion_error {e : Fault} (h : a.addRegion base size = .error e) :
    e = .regionArrayFull := by
  rw [addRegion] at h
  split at h
  · cases h
  · dsimp only at h
    split at h
    · exact (Except.error.inj h).symm
    · cases h

/-- The only fault of the loop of `remove_region` is that there is no slot for the second half. -/
theorem removeLoop_error {lo hi count : ℕ} {l : List MemRegion} {e : Fault}
    (h : removeLoop lo hi count l = .error e) : e = .regionArrayFullHole := by
  induction l generalizing count with
  | nil => cases h
  | cons r l ih =>
    have hrest : ∀ {count} {f : List MemRegion → List MemRegion},
        (do let rest ← removeLoop lo hi count l; .ok (f rest)) = Except.error e →
          e = .regionArrayFullHole := by
      intro count f hrun
      rcases cases_of_bind_eq_error hrun with hrun | ⟨rest, -, hrun⟩
      · exact ih hrun
      · cases hrun
    rw [removeLoop] at h
    split at h
    · split at h
      · exact ih h
      · split at h
        · exact hrest h
        · split at h
          · exact hrest h
          · split at h
            · exact (Except.error.inj h).symm
            · exact hrest h
    · exact hrest h

theorem removeRegion_error {e : Fault} (h : a.removeRegion base size = .error e) :
    e = .regionArrayFullHole := by
  rw [removeRegion] at h
  split at h
  · cases h
  · rcases cases_of_bind_eq_error h with h | ⟨regions, -, h⟩
    · exact removeLoop_error h
    · cases h

/-- **`remove_region` is set difference.** -/
theorem removeRegion_spec (h : Canonical a) (hlt : base + size < 2 ^ 64)
    (hrun : a.removeRegion base size = .ok a') :
    Canonical a' ∧ a'.bytes = a.bytes \ Set.Ico base (base + size) := by
  rw [removeRegion] at hrun
  by_cases hzero : size = 0
  · rw [if_pos hzero] at hrun
    cases hrun
    rw [hzero, Nat.add_zero, Set.Ico_self, Set.sdiff_empty]
    exact ⟨h, rfl⟩
  rw [if_neg hzero, Nat.mod_eq_of_lt hlt] at hrun
  obtain ⟨l, hl, hrun⟩ := exists_of_bind_eq_ok hrun
  cases hrun
  have hne : base < base + size := Nat.lt_add_of_pos_right (Nat.pos_of_ne_zero hzero)
  have hpos : ∀ r ∈ a.regions, 0 < r.size ∧ r.base + r.size < 2 ^ 64 := fun r hr =>
    ⟨Nat.pos_of_lt_add_right (h.separated.nonempty _ (List.mem_map_of_mem hr)), h.lt r hr⟩
  have hcut := removeLoop_spec hne hpos hl
  have hsep := h.separated.cut hne
  have hcover := cover_cut base (base + size) a.intervals
  rw [intervals, ← hcut] at hsep hcover
  refine ⟨Canonical.updateTotal hsep fun x hx => ?_, hcover⟩
  rw [hcover] at hx
  exact h.bytes_lt hx.1

end RegionArray

namespace Memblock

variable {mb mb' : Memblock} {size align : ℕ} {r : Option ℕ}

/-- The base that is tried leaves room for the size. -/
theorem allocBase_le {reg : MemRegion} (hlt : reg.base + reg.size < 2 ^ 64)
    (hsize : size ≤ reg.base + reg.size) :
    allocBase reg size align + size ≤ reg.base + reg.size := by
  rw [allocBase, MemRegion.end_eq hlt]
  have hand := Nat.and_le_left (n := (reg.base + reg.size + (2 ^ 64 - size)) % 2 ^ 64)
    (m := Usize.notWord ((align + (2 ^ 64 - 1)) % 2 ^ 64))
  omega

/-- With an alignment that is a power of two, the base that is tried is aligned. -/
theorem allocBase_dvd {reg : MemRegion} {k : ℕ} (hk : k < 64) :
    2 ^ k ∣ allocBase reg size (2 ^ k) := by
  have hpow : 2 ^ k < 2 ^ 64 := Nat.pow_lt_pow_right (by omega) hk
  have hmask : (2 ^ k + (2 ^ 64 - 1)) % 2 ^ 64 = 2 ^ k - 1 := by
    have hpos := Nat.two_pow_pos k
    omega
  rw [allocBase, hmask, Usize.and_notWord_two_pow (Nat.mod_lt _ (by decide)) hk.le]
  exact dvd_mul_left _ _

/-- What `early_alloc` can do: nothing, where no region has room, or take a block from the last
region that has. -/
theorem earlyAlloc_cases (hrun : mb.earlyAlloc size align = .ok (r, mb')) :
    (r = none ∧ mb' = mb) ∨ ∃ reg available allocated,
      mb.available.regions.reverse.find? (fun reg => reg.base ≤ allocBase reg size align) =
        some reg ∧
      reg ∈ mb.available.regions ∧ reg.base ≤ allocBase reg size align ∧
      r = some (allocBase reg size align) ∧
      mb.available.removeRegion (allocBase reg size align) size = .ok available ∧
      mb.allocated.addRegion (allocBase reg size align) size = .ok allocated ∧
      mb' = { mb with available, allocated } := by
  rw [earlyAlloc] at hrun
  split at hrun
  · cases hrun
    exact Or.inl ⟨rfl, rfl⟩
  · rename_i reg hfind
    obtain ⟨available, havail, hrun⟩ := exists_of_bind_eq_ok hrun
    obtain ⟨allocated, halloc, hrun⟩ := exists_of_bind_eq_ok hrun
    cases hrun
    refine Or.inr ⟨reg, available, allocated, hfind,
      List.mem_reverse.mp (List.mem_of_find?_eq_some hfind), ?_, rfl, havail, halloc, rfl⟩
    simpa using List.find?_some hfind

/-- The only faults of `early_alloc` are that an array is full. -/
theorem earlyAlloc_error {e : Fault} (hrun : mb.earlyAlloc size align = .error e) :
    e = .regionArrayFull ∨ e = .regionArrayFullHole := by
  rw [earlyAlloc] at hrun
  split at hrun
  · cases hrun
  · rcases cases_of_bind_eq_error hrun with hrun | ⟨available, -, hrun⟩
    · exact .inr (RegionArray.removeRegion_error hrun)
    · rcases cases_of_bind_eq_error hrun with hrun | ⟨allocated, -, hrun⟩
      · exact .inl (RegionArray.addRegion_error hrun)
      · cases hrun

/-- So are those of `reserve_memory`. -/
theorem reserveMemory_error {base : ℕ} {e : Fault} (hrun : mb.reserveMemory base size = .error e) :
    e = .regionArrayFull ∨ e = .regionArrayFullHole := by
  rcases cases_of_bind_eq_error hrun with hrun | ⟨available, -, hrun⟩
  · exact .inr (RegionArray.removeRegion_error hrun)
  · rcases cases_of_bind_eq_error hrun with hrun | ⟨reserved, -, hrun⟩
    · exact .inl (RegionArray.addRegion_error hrun)
    · cases hrun

/-- A block that `early_alloc` returns is aligned. -/
theorem earlyAlloc_dvd {k pa : ℕ} (hk : k < 64)
    (hrun : mb.earlyAlloc size (2 ^ k) = .ok (some pa, mb')) : 2 ^ k ∣ pa := by
  rcases earlyAlloc_cases hrun with ⟨hnone, -⟩ | ⟨reg, -, -, -, -, -, hpa, -⟩
  · cases hnone
  · cases hpa
    exact allocBase_dvd hk

/-- **`reserve_memory`** takes its range out of the available bytes. -/
theorem reserveMemory_spec {base : ℕ} (h : mb.available.Canonical) (hlt : base + size < 2 ^ 64)
    (hrun : mb.reserveMemory base size = .ok mb') :
    mb'.available.Canonical ∧
      mb'.available.bytes = mb.available.bytes \ Set.Ico base (base + size) := by
  obtain ⟨available, havail, hrun⟩ := exists_of_bind_eq_ok hrun
  obtain ⟨reserved, -, hrun⟩ := exists_of_bind_eq_ok hrun
  cases hrun
  exact RegionArray.removeRegion_spec h hlt havail

/-- The region that an allocation is tried in has the room, so its address does not wrap. -/
def Room (mb : Memblock) (size align : ℕ) : Prop :=
  ∀ reg, mb.available.regions.reverse.find? (fun reg => reg.base ≤ allocBase reg size align) =
    some reg → size ≤ reg.base + reg.size

/-- **`early_alloc`** takes what it returns out of the available bytes. Without a result it changes
nothing. -/
theorem earlyAlloc_spec (h : mb.available.Canonical) (hroom : mb.Room size align)
    (hrun : mb.earlyAlloc size align = .ok (r, mb')) :
    (r = none ∧ mb' = mb) ∨ ∃ pa, r = some pa ∧ mb'.available.Canonical ∧
      Set.Ico pa (pa + size) ⊆ mb.available.bytes ∧
      mb'.available.bytes = mb.available.bytes \ Set.Ico pa (pa + size) := by
  rcases earlyAlloc_cases hrun with hnone | ⟨reg, available, allocated, hfind, hreg, hbase, rfl,
    havail, -, rfl⟩
  · exact Or.inl hnone
  · have hend : allocBase reg size align + size ≤ reg.base + reg.size :=
      allocBase_le (h.lt reg hreg) (hroom reg hfind)
    obtain ⟨hcanon, hbytes⟩ := RegionArray.removeRegion_spec h (hend.trans_lt (h.lt reg hreg))
      havail
    refine Or.inr ⟨_, rfl, hcanon, fun x hx => ?_, hbytes⟩
    exact ⟨_, List.mem_map_of_mem hreg, hbase.trans hx.1, hx.2.trans_le hend⟩

end Memblock

end CharlotteOs
