import CharlotteOs.Lib.Run
import CharlotteOs.Mm.SlubLists

/-!
# Whole runs of the slab caches

Caches that share a buddy allocator, and clients that allocate objects, write to them and free
them with the head page of the slab they came from. The run keeps the live objects next to the
heap.

A new slab is put on the list of partial slabs and made active at once, and neither reference is
dropped when the other one is used. So a slab can be released while the list still leads to it,
or be linked into the list twice. `FreeExpected` says of a `free_object` step that the slab is
where the code expects it, and it is exact for the lists.

## Main definitions

* `SlubSystem`, `SlubSystem.step`: the heap and the live objects
* `NoWrap`: sizes and pages for which no address wraps
* `SlubSystem.FreeExpected`: a freed object's slab is where `free_object` expects it
* `SlubSystem.LiveOk`: live objects are disjoint, in slabs of their own cache and not free

## Main results

* `SlubSystem.partialLists_along_iff`: the lists stay in order exactly along the runs whose frees
  are as expected
* `SlubSystem.liveOk_along`: along these runs the live objects of all caches are in order
-/

namespace CharlotteOs

open LinkedChain DyadicTiling FallibleRun BuddySystemFrameAllocator

/-- An operation of a client of the caches: the last writes to a word of an object it holds. -/
inductive SlubOp where
  | alloc (cache : ℕ)
  | freeObject (o : LiveObj)
  | write (ptr val : ℕ)
  deriving DecidableEq, Repr

/-- The caches with the objects that are live. -/
structure SlubSystem where
  heap : Heap
  live : List LiveObj

namespace SlubSystem

/-- One operation. After `KmemCache::alloc` returned an object, the active slab is the one that
the object came from. -/
def step (t : SlubSystem) : SlubOp → Except Fault SlubSystem
  | .alloc c => do
    let (ptr, heap) ← t.heap.alloc c
    if ptr = 0 then .ok { t with heap }
    else .ok ⟨heap, ⟨c, ptr, (heap.caches c).activeSlabPpn.getD 0⟩ :: t.live⟩
  | .freeObject o => do
    let heap ← t.heap.freeObject o.cache o.ptr o.slab
    .ok ⟨heap, t.live.erase o⟩
  | .write ptr val =>
    .ok { t with heap.buddy.mem := t.heap.buddy.mem.store ptr val }

/-- Caches as `KmemCache::new` makes them, one for each requested size, with nothing live. -/
def new (buddy : BuddySystemFrameAllocator) (memMap : MemMap) (requestedSize : ℕ → ℕ) :
    SlubSystem :=
  ⟨⟨buddy, memMap, fun c => KmemCache.new (requestedSize c)⟩, []⟩

end SlubSystem

/-- No address computation on slabs for objects of a size wraps: neither the rounding of the size
up to pages, nor the address of one more object after a managed page. -/
def NoWrap (M : Set ℕ) (size : ℕ) : Prop :=
  size + pageSize ≤ 2 ^ 64 ∧ (size ≤ 2 ^ (maxOrder - 1) * pageSize → ∀ p ∈ M,
    (p + 1) * pageSize + size + physVirtOffset < 2 ^ 64)

/-- Sizes that `KmemCache::new` accepts are positive multiples of the word. -/
theorem objectSize_new (requestedSize : ℕ) :
    0 < (KmemCache.new requestedSize).objectSize ∧
    8 ∣ (KmemCache.new requestedSize).objectSize := by
  have hround : (requestedSize + 8 - 1) % 2 ^ 64 &&& Usize.notWord (8 - 1) =
      (requestedSize + 8 - 1) % 2 ^ 64 / 2 ^ 3 * 2 ^ 3 :=
    Usize.and_notWord_two_pow (k := 3) (Nat.mod_lt _ (by decide)) (by decide)
  simp only [KmemCache.new, hround]
  split
  · exact ⟨by decide, dvd_rfl⟩
  · exact ⟨by omega, Nat.dvd_mul_left _ _⟩

theorem NoWrap.sizeOk {M : Set ℕ} {requestedSize : ℕ}
    (h : NoWrap M (KmemCache.new requestedSize).objectSize) :
    SizeOk M (KmemCache.new requestedSize).objectSize :=
  ⟨(objectSize_new _).1, (objectSize_new _).2, h.1, fun _ => h.2⟩

/-- Whether a page is on the list of partial slabs of a cache. -/
def Heap.Listed (hp : Heap) (c p : ℕ) : Prop :=
  ∃ l, Chain hp.memMap.nextPartial (hp.caches c).partialSlabsHead l ∧ p ∈ l

theorem HeapInv.listed_iff {sz : ℕ → ℕ} {M : Set ℕ} {hp : Heap} {live : List LiveObj}
    {slabs : List (ℕ × ℕ)} {part : ℕ → List ℕ} (h : HeapInv sz M hp live slabs part) (c p : ℕ) :
    hp.Listed c p ↔ p ∈ part c := by
  constructor
  · rintro ⟨l, hl, hp⟩
    rwa [hl.unique (h.lists c).chain] at hp
  · exact fun hp => ⟨_, (h.lists c).chain, hp⟩

namespace SlubSystem

variable {t t' : SlubSystem} {op : SlubOp} {M : Set ℕ} {sz : ℕ → ℕ}

/-- **Where `free_object` expects a slab**, from the state before the call. For the slab's last
object, either it is the active slab or it is on the list of partial slabs, and not both. For an
object of a full slab that is not active, the slab is not on the list. -/
def FreeExpected (t : SlubSystem) : SlubOp → Prop
  | .freeObject o => ∀ s, t.heap.memMap.slubAt o.slab = some s →
    (s.inuse = 1 →
      ((t.heap.caches o.cache).activeSlabPpn = some o.slab ↔ ¬ t.heap.Listed o.cache o.slab)) ∧
    (s.inuse ≠ 1 → s.freelist = 0 → (t.heap.caches o.cache).activeSlabPpn ≠ some o.slab →
      ¬ t.heap.Listed o.cache o.slab)
  | _ => True

/-- Allocations from caches whose sizes do not wrap, and frees of live objects with the head page
of their slab. -/
def AllocFree (M : Set ℕ) (t : SlubSystem) : SlubOp → Prop
  | .alloc c => NoWrap M (t.heap.caches c).objectSize
  | .freeObject o => o ∈ t.live
  | .write .. => False

/-- The invariant of runs, for caches with requested sizes. -/
def Inv (M : Set ℕ) (requestedSize : ℕ → ℕ) (t : SlubSystem) : Prop :=
  ∃ slabs part, HeapInv (fun c => (KmemCache.new (requestedSize c)).objectSize) M t.heap t.live
    slabs part

theorem Inv.new {buddy : BuddySystemFrameAllocator} {memMap : MemMap} {free : ℕ → List ℕ}
    (hfree : buddy.Inv free M) (hrange : ∀ p ∈ M, memMap.InRange p) (requestedSize : ℕ → ℕ) :
    Inv M requestedSize (SlubSystem.new buddy memMap requestedSize) := by
  have hnil : SlabInv _ M (SlubSystem.new buddy memMap requestedSize).heap [] free [] :=
    SlabInv.nil hfree hrange
  refine ⟨[], fun _ => [], ⟨free, hnil⟩, fun c => ⟨rfl, ?_, ?_⟩⟩
  · simp
  · simp [SlubSystem.new, KmemCache.new]

/-- `alloc` ends with the invariant. -/
theorem Inv.alloc {requestedSize : ℕ → ℕ} (h : Inv M requestedSize t) {c : ℕ}
    (hsz : SizeOk M (KmemCache.new (requestedSize c)).objectSize) :
    ∃ t', t.step (.alloc c) = .ok t' ∧ Inv M requestedSize t' := by
  obtain ⟨slabs, part, hinv⟩ := h
  obtain ⟨ptr, hp', hrun, hres, -⟩ := hinv.alloc (c := c) hsz
  rcases hres with ⟨hzero, slabs', part', hinv'⟩ | ⟨hne, p, slabs', part', hact, hinv'⟩
  · refine ⟨{ t with heap := hp' }, ?_, slabs', part', hinv'⟩
    rw [step, hrun, ok_bind]
    exact if_pos hzero
  · refine ⟨⟨hp', ⟨c, ptr, p⟩ :: t.live⟩, ?_, slabs', part', hinv'⟩
    rw [step, hrun, ok_bind]
    dsimp only
    rw [if_neg hne, hact]
    rfl

theorem Inv.sizeOk {requestedSize : ℕ → ℕ} (h : Inv M requestedSize t) {c : ℕ}
    (hsize : NoWrap M (t.heap.caches c).objectSize) :
    SizeOk M (KmemCache.new (requestedSize c)).objectSize := by
  obtain ⟨slabs, part, hinv⟩ := h
  obtain ⟨free, hs⟩ := hinv.slab
  rw [hs.size_eq c] at hsize
  exact hsize.sizeOk

/-- `free_object` as expected ends with the invariant. -/
theorem Inv.freeObject {requestedSize : ℕ → ℕ} (h : Inv M requestedSize t) {o : LiveObj}
    (ho : o ∈ t.live) (hexp : t.FreeExpected (.freeObject o)) :
    ∃ t', t.step (.freeObject o) = .ok t' ∧ Inv M requestedSize t' := by
  obtain ⟨slabs, part, hinv⟩ := h
  obtain ⟨s, l, hok⟩ := hinv.slubAt (hinv.live_slab ho)
  obtain ⟨hone, hfull⟩ := hexp s hok.slub
  rw [hinv.listed_iff] at hone hfull
  obtain ⟨hp', slabs', part', hrun, hinv'⟩ := hinv.freeObject_ok ho hok ⟨hone, hfull⟩
  refine ⟨⟨hp', t.live.erase o⟩, ?_, slabs', part', hinv'⟩
  rw [step, hrun, ok_bind]

/-- `free_object` otherwise panics or breaks the list. -/
theorem Inv.not_expected {requestedSize : ℕ → ℕ} (h : Inv M requestedSize t) {o : LiveObj}
    (ho : o ∈ t.live) (hexp : ¬ t.FreeExpected (.freeObject o)) :
    ¬ ∃ t', t.step (.freeObject o) = .ok t' ∧ ∀ c, PartialListOk t'.heap c := by
  obtain ⟨slabs, part, hinv⟩ := h
  obtain ⟨s, l, hok⟩ := hinv.slubAt (hinv.live_slab ho)
  have hbad : ∀ hp', t.heap.freeObject o.cache o.ptr o.slab = .ok hp' →
      ¬ PartialListOk hp' o.cache →
      ¬ ∃ t', t.step (.freeObject o) = .ok t' ∧ ∀ c, PartialListOk t'.heap c := by
    rintro hp' hrun hno ⟨t', hstep, hall⟩
    rw [step, hrun, ok_bind] at hstep
    cases hstep
    exact hno (hall o.cache)
  simp only [FreeExpected, not_forall, exists_prop] at hexp
  obtain ⟨s', hs', hcases⟩ := hexp
  obtain rfl : s' = s := Option.some.inj (hs'.symm.trans hok.slub)
  rw [hinv.listed_iff] at hcases
  by_cases hone : s'.inuse = 1
  · by_cases hact : (t.heap.caches o.cache).activeSlabPpn = some o.slab <;>
      by_cases hmem : o.slab ∈ part o.cache
    · obtain ⟨hp', hrun, hno⟩ := hinv.freeObject_stale ho hok hone hact hmem
      exact hbad hp' hrun hno
    · exact absurd ⟨fun _ => iff_of_true hact hmem, fun hne => absurd hone hne⟩ hcases
    · exact absurd ⟨fun _ => iff_of_false hact (not_not.mpr hmem),
        fun hne => absurd hone hne⟩ hcases
    · rintro ⟨t', hstep, -⟩
      rw [step, hinv.freeObject_panic ho hok hone hact hmem, error_bind] at hstep
      cases hstep
  · have hfull : s'.freelist = 0 ∧ (t.heap.caches o.cache).activeSlabPpn ≠ some o.slab ∧
        o.slab ∈ part o.cache := by
      by_contra hno
      exact hcases ⟨fun h => absurd h hone, fun _ hz ha hm => hno ⟨hz, ha, hm⟩⟩
    obtain ⟨hp', hrun, hno⟩ := hinv.freeObject_cycle ho hok hone hfull.1 hfull.2.1 hfull.2.2
    exact hbad hp' hrun hno

theorem Inv.partialListOk {requestedSize : ℕ → ℕ} (h : Inv M requestedSize t) (c : ℕ) :
    PartialListOk t.heap c := by
  obtain ⟨slabs, part, hinv⟩ := h
  exact hinv.partialListOk c

/-- A step is as expected exactly when it returns with all lists in order. -/
theorem Inv.step_iff {requestedSize : ℕ → ℕ} (h : Inv M requestedSize t)
    (ha : t.AllocFree M op) :
    t.FreeExpected op ↔ ∃ t', t.step op = .ok t' ∧ ∀ c, PartialListOk t'.heap c := by
  cases op with
  | alloc c =>
    obtain ⟨t', hstep, hinv⟩ := h.alloc (h.sizeOk ha)
    exact iff_of_true trivial ⟨t', hstep, hinv.partialListOk⟩
  | freeObject o =>
    constructor
    · intro hexp
      obtain ⟨t', hstep, hinv⟩ := h.freeObject ha hexp
      exact ⟨t', hstep, hinv.partialListOk⟩
    · intro hstep
      by_contra hexp
      exact h.not_expected ha hexp hstep
  | write ptr val => exact absurd ha id

theorem Inv.of_step {requestedSize : ℕ → ℕ} (h : Inv M requestedSize t) (ha : t.AllocFree M op)
    (hexp : t.FreeExpected op) (hstep : t.step op = .ok t') : Inv M requestedSize t' := by
  cases op with
  | alloc c =>
    obtain ⟨t'', hstep', hinv⟩ := h.alloc (h.sizeOk ha)
    cases hstep'.symm.trans hstep
    exact hinv
  | freeObject o =>
    obtain ⟨t'', hstep', hinv⟩ := h.freeObject ha hexp
    cases hstep'.symm.trans hstep
    exact hinv
  | write ptr val => exact absurd ha id

/-- **The partial lists**: from new caches of any requested sizes over any free pages, a run of
allocations and frees returns from every operation with all lists finite, without repetition and
in slabs of their own cache, exactly when every free finds its slab as expected. -/
theorem partialLists_along_iff (requestedSize : ℕ → ℕ) (buddy : BuddySystemFrameAllocator)
    (memMap : MemMap) (M : Set ℕ) (free : ℕ → List ℕ) (hfree : buddy.Inv free M)
    (hrange : ∀ p ∈ M, memMap.InRange p) (ops : List SlubOp)
    (h : Along step (AllocFree M) (new buddy memMap requestedSize) ops) :
    Along step FreeExpected (new buddy memMap requestedSize) ops ↔
      Along step (fun t op => ∃ t', t.step op = .ok t' ∧ ∀ c, PartialListOk t'.heap c)
        (new buddy memMap requestedSize) ops :=
  Along.iff_of_invariant (I := Inv M requestedSize) (fun _ _ hI hA => hI.step_iff hA)
    (fun _ _ _ hI hA hC hs => hI.of_step hA hC hs) (Inv.new hfree hrange requestedSize) h

/-- The condition on a freed slab can be read off the list of its cache. -/
theorem FreeExpected.of_chain {o : LiveObj} {l : List ℕ}
    (hl : Chain t.heap.memMap.nextPartial (t.heap.caches o.cache).partialSlabsHead l)
    (h : ∀ s ∈ t.heap.memMap.slubAt o.slab,
      (s.inuse = 1 → ((t.heap.caches o.cache).activeSlabPpn = some o.slab ↔ o.slab ∉ l)) ∧
      (s.inuse ≠ 1 → s.freelist = 0 → (t.heap.caches o.cache).activeSlabPpn ≠ some o.slab →
        o.slab ∉ l)) : t.FreeExpected (.freeObject o) := by
  have hlisted : t.heap.Listed o.cache o.slab ↔ o.slab ∈ l := by
    constructor
    · rintro ⟨l', hl', hmem⟩
      rwa [hl'.unique hl] at hmem
    · exact fun hmem => ⟨l, hl, hmem⟩
  intro s hs
  rw [hlisted]
  exact h s hs

/-- A buddy allocator with two free pages. -/
def sampleBuddy : BuddySystemFrameAllocator :=
  ((BuddySystemFrameAllocator.new fun _ => 0).addFreeRegion 0x80002 0x80004).toOption.getD
    (BuddySystemFrameAllocator.new fun _ => 0)

/-- `MEM_MAP` for sixteen pages from `0x80000000` on. -/
def sampleMap : MemMap := ⟨fun _ => ⟨0, .free⟩, 16, 0x80000⟩

theorem sampleBuddy_inv : ∃ free, sampleBuddy.Inv free (Set.Ico 0x80002 0x80004) := by
  obtain ⟨free, howns⟩ := @Owns.ofRegion 0x80002 0x80004 (by decide) (by decide)
  have hinv := howns.inv
  rw [used_nil, Set.sdiff_empty] at hinv
  exact ⟨free, hinv⟩

theorem sampleMap_inRange : ∀ p ∈ Set.Ico 0x80002 0x80004, sampleMap.InRange p := by
  intro p hp
  rw [Set.mem_Ico] at hp
  refine ⟨?_, ?_, ?_⟩
  · show 0x80000 ≤ p
    omega
  · show p < 0x80000 + 16
    omega
  · omega

theorem topPage_notMem_sample : topPage ∉ Set.Ico 0x80002 0x80004 := by
  rw [Set.mem_Ico]
  decide

theorem noWrap_sample : NoWrap (Set.Ico 0x80002 0x80004) 2048 := by
  refine ⟨by decide, fun _ p hp => ?_⟩
  rw [Set.mem_Ico] at hp
  simp only [pageSize, physVirtOffset]
  omega

/-- An object at an offset into a page. -/
def sampleObj (c page off : ℕ) : LiveObj := ⟨c, physToVirt (page * pageSize) + off, page⟩

/-- `AllocFree` for objects of 2048 bytes, as it is checked by execution. -/
def SampleStep (t : SlubSystem) : SlubOp → Prop
  | .alloc c => (t.heap.caches c).objectSize = 2048
  | .freeObject o => o ∈ t.live
  | .write .. => False

instance (t : SlubSystem) : ∀ op, Decidable (t.SampleStep op)
  | .alloc c => inferInstanceAs (Decidable ((t.heap.caches c).objectSize = 2048))
  | .freeObject o => inferInstanceAs (Decidable (o ∈ t.live))
  | .write .. => inferInstanceAs (Decidable False)

theorem SampleStep.allocFree (h : t.SampleStep op) : t.AllocFree (Set.Ico 0x80002 0x80004) op := by
  cases op with
  | alloc c =>
    have h : (t.heap.caches c).objectSize = 2048 := h
    rw [AllocFree, h]
    exact noWrap_sample
  | freeObject o => exact h
  | write ptr val => exact h

/-- `FreeExpected`, as it is checked by execution, for lists of at most the two pages. -/
def SampleExpected (t : SlubSystem) : SlubOp → Prop
  | .freeObject o => ∃ l ∈ [[], [0x80002], [0x80003], [0x80002, 0x80003], [0x80003, 0x80002]],
    Chain t.heap.memMap.nextPartial (t.heap.caches o.cache).partialSlabsHead l ∧
    ∀ s ∈ t.heap.memMap.slubAt o.slab,
      (s.inuse = 1 → ((t.heap.caches o.cache).activeSlabPpn = some o.slab ↔ o.slab ∉ l)) ∧
      (s.inuse ≠ 1 → s.freelist = 0 → (t.heap.caches o.cache).activeSlabPpn ≠ some o.slab →
        o.slab ∉ l)
  | _ => True

instance (t : SlubSystem) : ∀ op, Decidable (t.SampleExpected op)
  | .freeObject _ => by unfold SampleExpected; infer_instance
  | .alloc _ => .isTrue trivial
  | .write .. => .isTrue trivial

theorem SampleExpected.freeExpected (h : t.SampleExpected op) : t.FreeExpected op := by
  cases op with
  | freeObject o =>
    obtain ⟨l, -, hl, hs⟩ := h
    exact FreeExpected.of_chain hl hs
  | alloc c => trivial
  | write ptr val => trivial

/-- Two objects fill a slab and a third takes another one. The full slab is listed again with its
first free, and released with its second. -/
theorem partialLists_along_sample :
    Along step (fun t op => ∃ t', t.step op = .ok t' ∧ ∀ c, PartialListOk t'.heap c)
      (new sampleBuddy sampleMap fun _ => 2048)
      [.alloc 0, .alloc 0, .alloc 0, .freeObject (sampleObj 0 0x80002 0),
        .freeObject (sampleObj 0 0x80002 2048)] := by
  obtain ⟨free, hfree⟩ := sampleBuddy_inv
  refine (partialLists_along_iff _ _ _ _ free hfree sampleMap_inRange _ ?_).mp ?_
  · refine Along.mono (fun _ _ h => SampleStep.allocFree h) ?_
    decide +kernel
  · refine Along.mono (fun _ _ h => SampleExpected.freeExpected h) ?_
    decide +kernel

/-- **A released slab stays on the list**: after the only object of the first slab is freed, its
page is free and still the head of the list, and the next `alloc` panics on it. -/
theorem partialLists_stale :
    (∃ free, sampleBuddy.Inv free (Set.Ico 0x80002 0x80004)) ∧
    (∀ p ∈ Set.Ico 0x80002 0x80004, sampleMap.InRange p) ∧
    Along step (AllocFree (Set.Ico 0x80002 0x80004)) (new sampleBuddy sampleMap fun _ => 2048)
      [.alloc 0, .freeObject (sampleObj 0 0x80002 0), .alloc 0] ∧
    ¬ Along step (fun t op => ∃ t', t.step op = .ok t' ∧ ∀ c, PartialListOk t'.heap c)
      (new sampleBuddy sampleMap fun _ => 2048)
      [.alloc 0, .freeObject (sampleObj 0 0x80002 0), .alloc 0] ∧
    exec step (new sampleBuddy sampleMap fun _ => 2048)
      [.alloc 0, .freeObject (sampleObj 0 0x80002 0), .alloc 0] = .error .partialHeadNotSlub := by
  have hpanic : exec step (new sampleBuddy sampleMap fun _ => 2048)
      [.alloc 0, .freeObject (sampleObj 0 0x80002 0), .alloc 0] = .error .partialHeadNotSlub := by
    refine eq_error_of_map (f := SlubSystem.live) ?_
    decide +kernel
  refine ⟨sampleBuddy_inv, sampleMap_inRange, ?_, fun hall => ?_, hpanic⟩
  · refine Along.mono (fun _ _ h => SampleStep.allocFree h) ?_
    decide +kernel
  · obtain ⟨t, ht⟩ := hall.exec_ok fun _ _ h => ⟨_, h.choose_spec.1⟩
    rw [hpanic] at ht
    cases ht

end SlubSystem

/-! ## Objects as ranges of bytes -/

section Bytes

variable {size ppn a b x : ℕ} {sz : ℕ → ℕ} {M : Set ℕ} {hp : Heap} {live : List LiveObj}
  {slabs : List (ℕ × ℕ)} {part : ℕ → List ℕ}

/-- Where the size divides the page, an object does not reach past its page. -/
theorem object_bytes (hpos : 0 < size) (hlt : size < pageSize) (hdvd : size ∣ pageSize)
    (hppn : ppn < 2 ^ 20) (ha : a ∈ objects size ppn) (hx : x ∈ Set.Ico a (a + size)) :
    ppn * pageSize + physVirtOffset ≤ x ∧ x < (ppn + 1) * pageSize + physVirtOffset := by
  obtain ⟨i, hi, rfl⟩ := (mem_objects hppn).mp ha
  have hend : (i + 1) * size ≤ pageSize := by
    obtain ⟨k, hk⟩ := hdvd
    have hik := (lt_slabCapacity_small hpos hlt).mp hi
    rw [hk, mul_comm size, Nat.mul_lt_mul_right hpos] at hik
    rw [hk, mul_comm size]
    exact Nat.mul_le_mul_right size hik
  obtain ⟨hle, hlt⟩ := hx
  rw [add_mul, one_mul] at hend ⊢
  omega

theorem object_page (hpos : 0 < size) (hlt : size < pageSize) (hdvd : size ∣ pageSize)
    (hppn : ppn < 2 ^ 20) (ha : a ∈ objects size ppn) (hx : x ∈ Set.Ico a (a + size)) :
    virtToPhys x / pageSize = ppn := by
  obtain ⟨hlow, hhigh⟩ := object_bytes hpos hlt hdvd hppn ha hx
  simp only [virtToPhys, pageSize, physVirtOffset] at hlow hhigh ⊢
  omega

/-- Two objects of a slab do not overlap. -/
theorem object_disjoint (hppn : ppn < 2 ^ 20) (ha : a ∈ objects size ppn)
    (hb : b ∈ objects size ppn) (hne : a ≠ b) :
    Disjoint (Set.Ico a (a + size)) (Set.Ico b (b + size)) := by
  obtain ⟨i, -, rfl⟩ := (mem_objects hppn).mp ha
  obtain ⟨j, -, rfl⟩ := (mem_objects hppn).mp hb
  rw [Set.disjoint_left]
  rintro x ⟨hi, hi'⟩ ⟨hj, hj'⟩
  rcases lt_trichotomy i j with hij | rfl | hij
  · have := Nat.mul_le_mul_right size hij
    rw [Nat.succ_mul] at this
    omega
  · exact hne rfl
  · have := Nat.mul_le_mul_right size hij
    rw [Nat.succ_mul] at this
    omega

/-- Objects of one slab are live at most once. -/
theorem pairwise_of_liveOf (h : ∀ p, (liveOf live p).Nodup) :
    live.Pairwise fun o o' => o.slab = o'.slab → o.ptr ≠ o'.ptr := by
  induction live with
  | nil => exact List.Pairwise.nil
  | cons o live ih =>
    refine List.pairwise_cons.mpr ⟨fun o' ho' hslab hptr => ?_, ih fun p => ?_⟩
    · have hnodup := h o.slab
      rw [liveOf_cons_self, List.nodup_cons] at hnodup
      rw [hslab, hptr] at hnodup
      exact hnodup.1 (mem_liveOf ho')
    · exact (h p).sublist (((List.sublist_cons_self o live).filter _).map _)

/-- A word of a live object that its client writes is not in the way of any slab. -/
theorem SlabInv.write {free : ℕ → List ℕ} (hs : SlabInv sz M hp live free slabs) {o : LiveObj}
    (ho : o ∈ live) (hlt : sz o.cache < pageSize) (hdvd : sz o.cache ∣ pageSize)
    (hx : x ∈ Set.Ico o.ptr (o.ptr + sz o.cache)) (val : ℕ) :
    SlabInv sz M { hp with buddy := { hp.buddy with mem := hp.buddy.mem.store x val } } live free
      slabs := by
  have he := hs.live_slab o ho
  have hpos := (hs.size_ok _ he).pos
  have hppn := hs.head_lt he
  have hobj := hs.ptr_mem_objects ho
  obtain ⟨hlow, hhigh⟩ := object_bytes hpos hlt hdvd hppn hobj hx
  obtain ⟨s, l, hok⟩ := hs.ok _ he
  have hself : hp.memMap.setSlub o.slab s = hp.memMap := MemMap.setSlub_eq_self hok.slub
  have hle : physVirtOffset ≤ x := (Nat.le_add_left _ _).trans hlow
  have hpage : kernelPa x / pageSize = o.slab := by
    rw [kernelPa_of_le hle]
    simp only [pageSize] at hlow hhigh ⊢
    omega
  have hchain : ∀ a ∈ l, nextFree (hp.buddy.mem.store x val) a = nextFree hp.buddy.mem a := by
    intro a ha
    have haobj := hok.subset_objects (hs.size_ok _ he).pos (List.mem_append_left _ ha)
    have hne : a ≠ o.ptr := fun heq =>
      List.disjoint_of_nodup_append (hok.nodup hpos) ha (heq ▸ mem_liveOf ho)
    have hax : a ≠ x := by
      rintro rfl
      exact Set.disjoint_left.mp (object_disjoint hppn haobj hobj hne)
        ⟨le_rfl, Nat.lt_add_of_pos_right hpos⟩ hx
    rw [nextFree, nextFree,
      Mem.load_store_of_ne _ _ (kernelPa_ne (hs.object_mem he haobj).1 hle hax)]
  have hmem : SameOutside (slabBlock (sz o.cache) o.slab).cells hp.buddy.mem
      (hp.buddy.mem.store x val) := by
    intro a ha
    refine Function.update_of_ne ?_ _ _
    rintro rfl
    rw [hpage] at ha
    exact ha (hs.head_mem_block he)
  have hslab := hs.update he s l hmem
    (hok.congr (by rw [hself]; exact hok.slub) rfl rfl rfl (List.Perm.refl _) hchain)
    (fun _ _ => List.Perm.refl _) hs.live_slab
  rwa [hself] at hslab

theorem HeapInv.write (h : HeapInv sz M hp live slabs part) {o : LiveObj} (ho : o ∈ live)
    (hlt : sz o.cache < pageSize) (hdvd : sz o.cache ∣ pageSize)
    (hx : x ∈ Set.Ico o.ptr (o.ptr + sz o.cache)) (val : ℕ) :
    HeapInv sz M { hp with buddy := { hp.buddy with mem := hp.buddy.mem.store x val } } live slabs
      part := by
  obtain ⟨free, hs⟩ := h.slab
  exact ⟨⟨free, hs.write ho hlt hdvd hx val⟩,
    fun d => (h.lists d).congr rfl (fun _ _ => rfl) fun _ hp _ => hp⟩

end Bytes

namespace SlubSystem

variable {t t' : SlubSystem} {op : SlubOp} {M : Set ℕ}

/-- The bytes of a live object. -/
def bytes (t : SlubSystem) (o : LiveObj) : Set ℕ :=
  Set.Ico o.ptr (o.ptr + (t.heap.caches o.cache).objectSize)

/-- **Live objects in order**: they are disjoint, each lies in a page that is a slab of its own
cache, and that page is not on a list of the buddy allocator. -/
structure LiveOk (t : SlubSystem) : Prop where
  disjoint : t.live.Pairwise fun o o' => Disjoint (t.bytes o) (t.bytes o')
  in_page : ∀ o ∈ t.live, ∀ x ∈ t.bytes o, virtToPhys x / pageSize = o.slab
  own_slab : ∀ o ∈ t.live, ∃ s, t.heap.memMap.slubAt o.slab = some s ∧ s.cache = o.cache
  not_free : ∀ o ∈ t.live, o.slab ∉ t.heap.buddy.freePages

/-- Operations of clients of the nine caches. -/
def ClientOp (t : SlubSystem) : SlubOp → Prop
  | .alloc c => c < 9
  | .freeObject o => o ∈ t.live
  | .write ptr _ => ∃ o ∈ t.live, 8 ∣ ptr ∧ ptr ∈ t.bytes o

/-- The sizes of the nine caches. -/
theorem objectSize_new_two_pow :
    ∀ i < 9, (KmemCache.new (2 ^ (i + 3))).objectSize = 2 ^ (i + 3) := by decide

/-- The invariant of runs of the nine caches. -/
def NineInv (M : Set ℕ) (t : SlubSystem) : Prop :=
  Inv M (fun i => 2 ^ (i + 3)) t ∧ ∀ o ∈ t.live, o.cache < 9

/-- Objects of the nine caches are smaller than a page and fill it. -/
theorem size_lt_dvd {i : ℕ} (hi : i < 9) :
    (KmemCache.new (2 ^ (i + 3))).objectSize < pageSize ∧
      (KmemCache.new (2 ^ (i + 3))).objectSize ∣ pageSize := by
  rw [objectSize_new_two_pow i hi]
  have hbits : i + 3 < pageSizeBits := by
    simp only [pageSizeBits]
    omega
  rw [← two_pow_pageSizeBits]
  exact ⟨Nat.pow_lt_pow_right (by decide) hbits, Nat.pow_dvd_pow 2 hbits.le⟩

/-- In the invariant a live object's bytes are in the page of its slab. -/
theorem NineInv.bytes_page (h : NineInv M t) {o : LiveObj} (ho : o ∈ t.live) {x : ℕ}
    (hx : x ∈ t.bytes o) : virtToPhys x / pageSize = o.slab := by
  obtain ⟨⟨slabs, part, hinv⟩, hnine⟩ := h
  obtain ⟨free, hs⟩ := hinv.slab
  have he := hs.live_slab o ho
  obtain ⟨hlt, hdvd⟩ := size_lt_dvd (hnine o ho)
  rw [bytes, hs.size_eq] at hx
  exact object_page (hs.size_ok _ he).pos hlt hdvd (hs.head_lt he) (hs.ptr_mem_objects ho) hx

theorem NineInv.liveOk (h : NineInv M t) : LiveOk t := by
  have hpage := fun o (ho : o ∈ t.live) x => h.bytes_page ho (x := x)
  obtain ⟨⟨slabs, part, hinv⟩, hnine⟩ := h
  obtain ⟨free, hs⟩ := hinv.slab
  refine ⟨?_, hpage, fun o ho => ?_, fun o ho => ?_⟩
  · have hnodup : ∀ p, (liveOf t.live p).Nodup := by
      intro p
      by_cases hp : ∃ o ∈ t.live, o.slab = p
      · obtain ⟨o, ho, rfl⟩ := hp
        obtain ⟨s, l, hok⟩ := hs.ok _ (hs.live_slab o ho)
        exact (List.nodup_append.mp (hok.nodup (hs.size_ok _ (hs.live_slab o ho)).pos)).2.1
      · have hnil : t.live.filter (fun o => decide (o.slab = p)) = [] :=
          List.filter_eq_nil_iff.mpr fun o ho => by simpa using fun heq => hp ⟨o, ho, heq⟩
        rw [liveOf, hnil]
        exact List.nodup_nil
    refine (pairwise_of_liveOf hnodup).imp_of_mem fun {o o'} ho ho' hne => ?_
    by_cases hslab : o.slab = o'.slab
    · have heq := hs.eq_of_head_eq (hs.live_slab o' ho') (hs.live_slab o ho) hslab
      have hcache : o'.cache = o.cache := (Prod.mk.inj heq).2
      have hobj := hs.ptr_mem_objects ho
      have hobj' := hs.ptr_mem_objects ho'
      rw [hcache, ← hslab] at hobj'
      rw [bytes, bytes, hcache, hs.size_eq]
      exact object_disjoint (hs.head_lt (hs.live_slab o ho)) hobj hobj' (hne hslab)
    · rw [Set.disjoint_left]
      intro x hx hx'
      exact hslab ((hpage o ho x hx).symm.trans (hpage o' ho' x hx'))
  · obtain ⟨s, l, hok⟩ := hs.ok _ (hs.live_slab o ho)
    exact ⟨s, hok.slub, hok.cache⟩
  · have hno := hs.head_not_free (hs.live_slab o ho)
    exact hno

/-- Nothing wraps for the sizes of the nine caches but the end of the last page below 4 GiB. -/
theorem sizeOk_nine {i : ℕ} (hi : i < 9) : SizeOk M (KmemCache.new (2 ^ (i + 3))).objectSize :=
  .of_lt (objectSize_new _).1 (objectSize_new _).2 (size_lt_dvd hi).1

/-- `alloc` adds objects of the cache it is called for only. -/
theorem cache_of_step_alloc {c : ℕ} (hstep : t.step (.alloc c) = .ok t') :
    ∀ o ∈ t'.live, o ∈ t.live ∨ o.cache = c := by
  rw [step] at hstep
  cases hrun : t.heap.alloc c with
  | error e =>
    rw [hrun] at hstep
    cases hstep
  | ok r =>
    rw [hrun, ok_bind] at hstep
    dsimp only at hstep
    split at hstep
    · cases hstep
      exact fun o ho => Or.inl ho
    · cases hstep
      intro o ho
      rcases List.mem_cons.mp ho with rfl | ho
      · exact Or.inr rfl
      · exact Or.inl ho

/-- `alloc` of one of the nine caches. -/
theorem NineInv.alloc (h : NineInv M t) {c : ℕ} (hc : c < 9) :
    ∃ t', t.step (.alloc c) = .ok t' ∧ NineInv M t' := by
  obtain ⟨hinv, hnine⟩ := h
  obtain ⟨t', hstep, hinv'⟩ := hinv.alloc (sizeOk_nine hc)
  refine ⟨t', hstep, hinv', fun o ho => ?_⟩
  rcases cache_of_step_alloc hstep o ho with ho | rfl
  · exact hnine o ho
  · exact hc

/-- A write to a live object. -/
theorem NineInv.write (h : NineInv M t) {ptr val : ℕ} (hop : t.ClientOp (.write ptr val)) :
    ∃ t', t.step (.write ptr val) = .ok t' ∧ NineInv M t' := by
  obtain ⟨⟨slabs, part, hinv⟩, hnine⟩ := h
  obtain ⟨o, ho, -, hx⟩ := hop
  obtain ⟨free, hs⟩ := hinv.slab
  rw [bytes, hs.size_eq] at hx
  obtain ⟨hlt, hdvd⟩ := size_lt_dvd (hnine o ho)
  exact ⟨_, rfl, ⟨slabs, part, hinv.write ho hlt hdvd hx val⟩, hnine⟩

/-- A client's step that finds the freed slab as expected keeps the invariant. -/
theorem NineInv.of_step (h : NineInv M t) (ha : t.ClientOp op) (hexp : t.FreeExpected op) :
    ∃ t', t.step op = .ok t' ∧ NineInv M t' := by
  cases op with
  | alloc c => exact h.alloc ha
  | freeObject o =>
    obtain ⟨hinv, hnine⟩ := h
    obtain ⟨t', hstep, hinv'⟩ := hinv.freeObject ha hexp
    refine ⟨t', hstep, hinv', fun o' ho' => hnine o' ?_⟩
    rw [step] at hstep
    cases hrun : t.heap.freeObject o.cache o.ptr o.slab with
    | error e =>
      rw [hrun] at hstep
      cases hstep
    | ok hp' =>
      rw [hrun] at hstep
      cases hstep
      exact List.mem_of_mem_erase ho'
  | write ptr val => exact h.write ha

/-- **Live objects of all caches**: from the nine new caches over any free pages, along every run
of clients whose frees find the slab as expected, every operation returns, and after it all live
objects are disjoint, lie in slabs of their own cache and in no free page. -/
theorem liveOk_along (buddy : BuddySystemFrameAllocator) (memMap : MemMap) (M : Set ℕ)
    (free : ℕ → List ℕ) (hfree : buddy.Inv free M) (hrange : ∀ p ∈ M, memMap.InRange p)
    (ops : List SlubOp) (h : Along step (fun t op => t.ClientOp op ∧ t.FreeExpected op)
      ⟨Heap.slubAllocator buddy memMap, []⟩ ops) :
    Along step (fun t op => ∃ t', t.step op = .ok t' ∧ LiveOk t')
      ⟨Heap.slubAllocator buddy memMap, []⟩ ops := by
  have hstart : NineInv M ⟨Heap.slubAllocator buddy memMap, []⟩ :=
    ⟨Inv.new hfree hrange _, fun _ ho => absurd ho List.not_mem_nil⟩
  refine Along.of_invariant (I := NineInv M) (fun t op hI hA => ?_) hstart h
  obtain ⟨t', hstep, hinv⟩ := hI.of_step hA.1 hA.2
  refine ⟨⟨t', hstep, hinv.liveOk⟩, fun t'' hstep' => ?_⟩
  cases hstep.symm.trans hstep'
  exact hinv

instance (t : SlubSystem) : ∀ op, Decidable (t.ClientOp op)
  | .alloc c => inferInstanceAs (Decidable (c < 9))
  | .freeObject o => inferInstanceAs (Decidable (o ∈ t.live))
  | .write ptr _ => inferInstanceAs (Decidable (∃ o ∈ t.live, 8 ∣ ptr ∧
      (o.ptr ≤ ptr ∧ ptr < o.ptr + (t.heap.caches o.cache).objectSize)))

/-- Two caches with a slab each, a write to an object, and a free from the full slab. -/
theorem liveOk_along_sample :
    Along step (fun t op => ∃ t', t.step op = .ok t' ∧ LiveOk t')
      ⟨Heap.slubAllocator sampleBuddy sampleMap, []⟩
      [.alloc 8, .alloc 8, .alloc 7, .write (physToVirt (0x80002 * pageSize) + 2056) 5,
        .freeObject (sampleObj 8 0x80002 0)] := by
  obtain ⟨free, hfree⟩ := sampleBuddy_inv
  refine liveOk_along _ _ _ free hfree sampleMap_inRange _ ?_
  refine Along.mono (A := fun t op => t.ClientOp op ∧ t.SampleExpected op)
    (fun _ _ h => ⟨h.1, h.2.freeExpected⟩) ?_
  decide +kernel

/-- **Two caches carve one page**: the page that the cache for 2048 bytes released becomes a slab
of the cache for 1024 bytes, and the first cache takes an object out of it through its stale list.
The two live objects at the end overlap. -/
theorem liveOk_stale :
    Along step ClientOp ⟨Heap.slubAllocator sampleBuddy sampleMap, []⟩
      [.alloc 8, .freeObject (sampleObj 8 0x80002 0), .alloc 7, .alloc 8, .alloc 7] ∧
    ∃ t, exec step ⟨Heap.slubAllocator sampleBuddy sampleMap, []⟩
        [.alloc 8, .freeObject (sampleObj 8 0x80002 0), .alloc 7, .alloc 8, .alloc 7] = .ok t ∧
      t.live = [sampleObj 7 0x80002 2048, sampleObj 8 0x80002 1024, sampleObj 7 0x80002 0] ∧
      ¬ LiveOk t := by
  refine ⟨by decide +kernel, ?_⟩
  obtain ⟨t, hrun, hpart⟩ := exists_of_map_eq_ok
    (x := exec step ⟨Heap.slubAllocator sampleBuddy sampleMap, []⟩
      [.alloc 8, .freeObject (sampleObj 8 0x80002 0), .alloc 7, .alloc 8, .alloc 7])
    (f := fun t => (t.live, (t.heap.caches 7).objectSize, (t.heap.caches 8).objectSize))
    (a := ([sampleObj 7 0x80002 2048, sampleObj 8 0x80002 1024, sampleObj 7 0x80002 0], 1024, 2048))
    (by decide +kernel)
  obtain ⟨hlive, hsize⟩ := Prod.mk.inj hpart
  obtain ⟨h7, h8⟩ := Prod.mk.inj hsize
  refine ⟨t, hrun, hlive, fun hok => ?_⟩
  have hdis := hok.disjoint
  rw [hlive] at hdis
  have hpair := (List.pairwise_cons.mp hdis).1 _ List.mem_cons_self
  have hmem : (sampleObj 7 0x80002 2048).ptr ∈ t.bytes (sampleObj 7 0x80002 2048) := by
    show _ ∈ Set.Ico _ (_ + (t.heap.caches 7).objectSize)
    rw [h7]
    exact ⟨le_rfl, by decide⟩
  have hmem' : (sampleObj 7 0x80002 2048).ptr ∈ t.bytes (sampleObj 8 0x80002 1024) := by
    show _ ∈ Set.Ico _ (_ + (t.heap.caches 8).objectSize)
    rw [h8]
    exact ⟨by decide, by decide⟩
  exact Set.disjoint_left.mp hpair hmem hmem'

end SlubSystem

end CharlotteOs
