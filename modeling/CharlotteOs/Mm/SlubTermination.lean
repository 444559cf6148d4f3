import CharlotteOs.Mm.SlubRuns

/-!
# The loop of `KmemCache::alloc`

An iteration of the loop may only move a slab: the active slab is dropped when it is full, and the
next partial slab becomes active. So the loop ends if the list of partial slabs is finite. A new
slab stays on the list while it is active, and `free_object` puts a full slab that is not active in
front of the list without a look at the list. A slab that filled up while it was listed is then
linked to itself, and when it is full again the loop runs forever.

## Main definitions

* `SlubSystem.FreeUnlisted`: `free_object` does not release or list a slab that the list leads to
* `Heap.Spins`: a full slab is linked to itself

## Main results

* `SlubSystem.alloc_returns_along`: along runs whose frees meet the condition the loop ends
* `Heap.Spins.allocLoop`: with a full slab that is linked to itself it does not
-/

namespace CharlotteOs

open LinkedChain DyadicTiling FallibleRun BuddySystemFrameAllocator

namespace SlubSystem

variable {t t' : SlubSystem} {op : SlubOp} {M : Set ℕ} {requestedSize : ℕ → ℕ}

/-- **Where a free does no harm to the list**, from the state before the call. A slab that the list
leads to is not the active one when its last object is freed, and it is not a full one apart from
the active one. -/
def FreeUnlisted (t : SlubSystem) : SlubOp → Prop
  | .freeObject o => ∀ s, t.heap.memMap.slubAt o.slab = some s → t.heap.Listed o.cache o.slab →
    (s.inuse = 1 → (t.heap.caches o.cache).activeSlabPpn ≠ some o.slab) ∧
    (s.inuse ≠ 1 → s.freelist = 0 → (t.heap.caches o.cache).activeSlabPpn = some o.slab)
  | _ => True

/-- A free that returns and meets the condition finds its slab where it expects it. A slab that is
nowhere makes the call panic. -/
theorem Inv.freeExpected (h : Inv M requestedSize t) {o : LiveObj} (ho : o ∈ t.live)
    (hfree : t.FreeUnlisted (.freeObject o)) (hstep : t.step (.freeObject o) = .ok t') :
    t.FreeExpected (.freeObject o) := by
  obtain ⟨slabs, part, hinv⟩ := h
  intro s hs
  have hlisted := hinv.listed_iff o.cache o.slab
  refine ⟨fun hone => ⟨fun hact hmem => (hfree s hs hmem).1 hone hact, fun hno => ?_⟩,
    fun hne hfull hact hmem => hact ((hfree s hs hmem).2 hne hfull)⟩
  by_contra hact
  obtain ⟨s', l, hok⟩ := hinv.slubAt (hinv.live_slab ho)
  obtain rfl : s' = s := Option.some.inj (hok.slub.symm.trans hs)
  rw [hlisted] at hno
  rw [step, hinv.freeObject_panic ho hok hone hact hno, error_bind] at hstep
  cases hstep

/-- A step that returns and meets the condition keeps the invariant. -/
theorem Inv.of_unlisted (h : Inv M requestedSize t) (hallowed : t.AllocFree M op)
    (hfree : t.FreeUnlisted op) (hstep : t.step op = .ok t') : Inv M requestedSize t' := by
  refine h.of_step hallowed ?_ hstep
  cases op with
  | alloc c => trivial
  | freeObject o => exact h.freeExpected hallowed hfree hstep
  | write ptr val => trivial

/-- With the invariant the loop of `alloc` ends. -/
theorem Inv.allocLoop (h : Inv M requestedSize t) {c : ℕ}
    (hsize : NoWrap M (t.heap.caches c).objectSize) :
    ∃ n ptr hp', Heap.allocLoop c n t.heap = .ok (ptr, hp') := by
  have hsz := h.sizeOk hsize
  obtain ⟨slabs, part, hinv⟩ := h
  obtain ⟨ptr, hp', hrun, -⟩ := HeapInv.allocLoop_spec hsz _ hinv le_rfl
  exact ⟨_, ptr, hp', hrun⟩

/-- **`alloc` terminates**: from new caches of any requested sizes over any free pages, in every
state that a run of allocations and frees reaches in which no free releases or lists a slab that the
list leads to, the loop of `alloc` returns after finitely many iterations. -/
theorem alloc_returns_along (requestedSize : ℕ → ℕ) (buddy : BuddySystemFrameAllocator)
    (memMap : MemMap) (M : Set ℕ) (free : ℕ → List ℕ) (hfree : buddy.Inv free M)
    (hrange : ∀ p ∈ M, memMap.InRange p) (ops : List SlubOp)
    (h : Along step (fun t op => t.AllocFree M op ∧ t.FreeUnlisted op)
      (new buddy memMap requestedSize) ops)
    (t : SlubSystem) (hrun : exec step (new buddy memMap requestedSize) ops = .ok t) (c : ℕ)
    (hsize : NoWrap M (t.heap.caches c).objectSize) :
    ∃ n ptr hp', Heap.allocLoop c n t.heap = .ok (ptr, hp') := by
  have hinv : Inv M requestedSize t := Along.invariant_exec
    (fun _ _ _ hI hA hstep => hI.of_unlisted hA.1 hA.2 hstep)
    (Inv.new hfree hrange requestedSize) h hrun
  exact hinv.allocLoop hsize

/-- Where `free_object` expects a slab, the free does no harm to the list. -/
theorem FreeExpected.unlisted (h : t.FreeExpected op) : t.FreeUnlisted op := by
  cases op with
  | freeObject o =>
    intro s hs hmem
    obtain ⟨hone, hfull⟩ := h s hs
    refine ⟨fun hinuse hact => (hone hinuse).mp hact hmem, fun hinuse hzero => ?_⟩
    by_contra hact
    exact hfull hinuse hzero hact hmem
  | alloc c => trivial
  | write ptr val => trivial

/-- Two objects fill a slab, a third takes another one, and the full slab is listed again and
released. -/
theorem alloc_returns_along_sample : ∃ t,
    exec step (new sampleBuddy sampleMap fun _ => 2048) [.alloc 0, .alloc 0, .alloc 0,
      .freeObject (sampleObj 0 0x80002 0), .freeObject (sampleObj 0 0x80002 2048)] = .ok t ∧
    ∃ n ptr hp', Heap.allocLoop 0 n t.heap = .ok (ptr, hp') := by
  obtain ⟨t, ht, hsize⟩ := exists_of_map_eq_ok (show
    (exec step (new sampleBuddy sampleMap fun _ => 2048) [.alloc 0, .alloc 0, .alloc 0,
      .freeObject (sampleObj 0 0x80002 0), .freeObject (sampleObj 0 0x80002 2048)]).map
        (fun t => (t.heap.caches 0).objectSize) = .ok 2048 by decide +kernel)
  obtain ⟨free, hfree⟩ := sampleBuddy_inv
  refine ⟨t, ht, alloc_returns_along _ _ _ _ free hfree sampleMap_inRange _ ?_ t ht 0 ?_⟩
  · refine Along.mono (A := fun t op => t.SampleStep op ∧ t.SampleExpected op)
      (fun _ _ h => ⟨h.1.allocFree, h.2.freeExpected.unlisted⟩) ?_
    decide +kernel
  · rw [hsize]
    exact noWrap_sample

end SlubSystem

/-! ## A slab that is linked to itself -/

/-- **A full slab is linked to itself** at the head of the list, and no other slab is active. -/
structure Heap.Spins (hp : Heap) (c p : ℕ) : Prop where
  slub : ∃ s, hp.memMap.slubAt p = some s ∧ s.freelist = 0 ∧ s.next = some p
  in_range : hp.memMap.InRange p
  head : (hp.caches c).partialSlabsHead = some p
  active : (hp.caches c).activeSlabPpn = none ∨ (hp.caches c).activeSlabPpn = some p

/-- **The loop does not end**: the slab is dropped and becomes active again. -/
theorem Heap.Spins.allocLoop {hp : Heap} {c p : ℕ} (h : hp.Spins c p) (n : ℕ) :
    Heap.allocLoop c n hp = .error .endless := by
  induction n generalizing hp with
  | zero => rfl
  | succ n ih =>
    obtain ⟨s, hs, hfull, hnext⟩ := h.slub
    have hget := MemMap.getSlub_of_slubAt h.in_range hs
    rw [Heap.allocLoop]
    rcases h.active with hact | hact
    · rw [hact, h.head]
      dsimp only
      rw [hget, ok_bind, hnext]
      refine ih ⟨⟨s, hs, hfull, hnext⟩, h.in_range, ?_, .inr ?_⟩
      · rw [Heap.caches_setActive_self, Heap.caches_setPartial_self]
      · rw [Heap.caches_setActive_self]
    · rw [hact]
      dsimp only
      rw [hget, ok_bind, if_pos hfull]
      refine ih ⟨⟨s, hs, hfull, hnext⟩, h.in_range, ?_, .inl ?_⟩
      · rw [Heap.caches_setActive_self]
        exact h.head
      · rw [Heap.caches_setActive_self]

namespace SlubSystem

/-- The first slab is full and forgotten, and is listed again in front of the second one, which is
active and listed. When the second slab is full, the first one becomes active and the second one
stays on the list. The next free of an object of the second slab links it to itself, and one more
allocation fills it. -/
def spinOps : List SlubOp :=
  [.alloc 0, .alloc 0, .alloc 0, .freeObject (sampleObj 0 0x80002 0), .alloc 0, .alloc 0,
    .freeObject (sampleObj 0 0x80003 0), .alloc 0]

/-- **A run into the endless loop**: every operation returns, and the loop of the next `alloc` does
not end. -/
theorem alloc_endless : ∃ t,
    Along step (AllocFree (Set.Ico 0x80002 0x80004))
      (new sampleBuddy sampleMap fun _ => 2048) spinOps ∧
    exec step (new sampleBuddy sampleMap fun _ => 2048) spinOps = .ok t ∧
    ∀ n, Heap.allocLoop 0 n t.heap = .error .endless := by
  obtain ⟨t, ht, hstate⟩ := exists_of_map_eq_ok (show
    (exec step (new sampleBuddy sampleMap fun _ => 2048) spinOps).map
      (fun t => [(t.heap.caches 0).activeSlabPpn, (t.heap.caches 0).partialSlabsHead,
        (t.heap.memMap.slubAt 0x80003).map Slub.freelist, t.heap.memMap.nextPartial 0x80003,
        some t.heap.memMap.ramStartPpn, some t.heap.memMap.len]) =
      .ok [some 0x80003, some 0x80003, some 0, some 0x80003, some 0x80000, some 16] by
        decide +kernel)
  simp only [List.cons.injEq, Option.some.injEq, and_true] at hstate
  obtain ⟨hact, hhead, hslub, hnext, hstart, hlen⟩ := hstate
  obtain ⟨s, hs, hfull⟩ := Option.map_eq_some_iff.mp hslub
  rw [MemMap.nextPartial, hs, Option.bind_some] at hnext
  refine ⟨t, ?_, ht, fun n => Heap.Spins.allocLoop ⟨⟨s, hs, hfull, hnext⟩, ?_, hhead, .inr hact⟩ n⟩
  · refine Along.mono (fun _ _ h => SampleStep.allocFree h) ?_
    decide +kernel
  · rw [MemMap.InRange, hstart, hlen]
    decide

end SlubSystem

end CharlotteOs
