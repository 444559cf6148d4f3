import CharlotteOs.Mm.SlubSpec

/-!
# The caches' lists of slabs

A cache finds its slabs through two references: the active slab, and the list of partial slabs
that runs through `MEM_MAP`. `HeapInv` adds to the slabs' own invariant that both lead only to
slabs of that cache. `KmemCache::alloc` keeps it and always ends. `free_object` keeps it when the
slab is where the code expects it; what happens otherwise is said too.

## Main definitions

* `ListInv`, `HeapInv`: the references of one cache, and the whole heap
* `Heap.giveBack`: the heap after the object is back on its slab's free list, the common beginning
  of all cases of `free_object`

## Main results

* `HeapInv.alloc`: `alloc` ends and keeps the invariant
* `HeapInv.removeFromPartial_hit`, `HeapInv.removeFromPartial_miss`: unlinking a slab
* `SlabInv.freeObject_eq`: the cases of `free_object`
* `HeapInv.freeObject_ok`: `free_object` keeps the invariant when the slab is where it is expected
* `HeapInv.freeObject_stale`, `HeapInv.freeObject_panic`, `HeapInv.freeObject_cycle`: what it does
  to the list otherwise
-/

namespace CharlotteOs

open LinkedChain DyadicTiling BuddySystemFrameAllocator

/-! ## Links -/

namespace MemMap

variable {m : MemMap} {p q : ℕ} {s : Slub}

theorem nextPartial_of_slubAt (h : m.slubAt p = some s) : m.nextPartial p = s.next := by
  rw [nextPartial, h]
  rfl

theorem nextPartial_congr {m' : MemMap} (h : m'.slubAt p = m.slubAt p) :
    m'.nextPartial p = m.nextPartial p := by
  rw [nextPartial, nextPartial, h]

theorem nextPartial_setSlub_self (s : Slub) : (m.setSlub p s).nextPartial p = s.next :=
  nextPartial_of_slubAt (slubAt_setSlub_self s)

theorem nextPartial_setSlub_of_ne (h : m.InRange p) (hq : m.InRange q) (hne : q ≠ p) (s : Slub) :
    (m.setSlub p s).nextPartial q = m.nextPartial q :=
  nextPartial_congr (slubAt_setSlub_of_ne h hq hne s)

end MemMap

theorem Slub.next_setNext (s : Slub) (o : Option ℕ) : (s.setNext o).next = o := by
  cases o <;> rfl

theorem Heap.newSlub_next (hp : Heap) (c startVa : ℕ) :
    (hp.newSlub c startVa).next = (hp.caches c).partialSlabsHead := by
  rw [Slub.next, Heap.newSlub]
  cases (hp.caches c).partialSlabsHead <;> rfl

/-- Changing the link of a slab changes no slab. -/
theorem SlabInv.relink {sz : ℕ → ℕ} {M : Set ℕ} {hp : Heap} {live : List LiveObj}
    {free : ℕ → List ℕ} {slabs : List (ℕ × ℕ)} {e : ℕ × ℕ} {s : Slub}
    (h : SlabInv sz M hp live free slabs) (he : e ∈ slabs) (hs : hp.memMap.slubAt e.1 = some s)
    (o : Option ℕ) : SlabInv sz M (hp.setSlub e.1 (s.setNext o)) live free slabs := by
  obtain ⟨t, l, hok⟩ := h.ok _ he
  obtain rfl : t = s := Option.some.inj (hok.slub.symm.trans hs)
  refine h.update (m := hp.buddy.mem) he _ l (SameOutside.refl _ _) ?_
    (fun _ _ => List.Perm.refl _) h.live_slab
  refine hok.congr (MemMap.slubAt_setSlub_self _) ?_ ?_ ?_ (List.Perm.refl _) fun _ _ => rfl
  · cases o <;> rfl
  · cases o <;> rfl
  · cases o <;> rfl

/-! ## The invariant -/

/-- **The references of one cache**: its list of partial slabs is the chain `l`, and all of `l` and
the active slab are slabs of the cache. -/
structure ListInv (hp : Heap) (slabs : List (ℕ × ℕ)) (c : ℕ) (l : List ℕ) : Prop where
  chain : Chain hp.memMap.nextPartial (hp.caches c).partialSlabsHead l
  listed : ∀ p ∈ l, (p, c) ∈ slabs
  active : ∀ p, (hp.caches c).activeSlabPpn = some p → (p, c) ∈ slabs

/-- **The heap's invariant**, with the partial list `part c` for each cache `c`. -/
structure HeapInv (sz : ℕ → ℕ) (M : Set ℕ) (hp : Heap) (live : List LiveObj)
    (slabs : List (ℕ × ℕ)) (part : ℕ → List ℕ) : Prop where
  slab : ∃ free, SlabInv sz M hp live free slabs
  lists : ∀ c, ListInv hp slabs c (part c)

variable {sz : ℕ → ℕ} {M : Set ℕ} {hp hp' : Heap} {live live' : List LiveObj}
  {slabs slabs' : List (ℕ × ℕ)} {part : ℕ → List ℕ} {c p q : ℕ} {s : Slub} {l : List ℕ}

/-- A cache notices changes of its own references and of the links of its own list only. -/
theorem ListInv.congr (h : ListInv hp slabs c l) (hcache : hp'.caches c = hp.caches c)
    (hnext : ∀ p ∈ l, hp'.memMap.nextPartial p = hp.memMap.nextPartial p)
    (hslabs : ∀ p, (p, c) ∈ slabs → p ∈ l ∨ (hp.caches c).activeSlabPpn = some p →
      (p, c) ∈ slabs') : ListInv hp' slabs' c l where
  chain := by
    rw [hcache]
    exact h.chain.congr hnext
  listed p hp := hslabs p (h.listed p hp) (Or.inl hp)
  active p hp := by
    rw [hcache] at hp
    exact hslabs p (h.active p hp) (Or.inr hp)

namespace HeapInv

theorem in_range (h : HeapInv sz M hp live slabs part) (hpc : (p, c) ∈ slabs) :
    hp.memMap.InRange p := by
  obtain ⟨free, hs⟩ := h.slab
  exact hs.head_in_range hpc

theorem slubAt (h : HeapInv sz M hp live slabs part) (hpc : (p, c) ∈ slabs) :
    ∃ s l, SlabOk sz hp live (p, c) s l := by
  obtain ⟨free, hs⟩ := h.slab
  exact hs.ok _ hpc

/-- A page is the head of a slab of one cache only. -/
theorem cache_unique (h : HeapInv sz M hp live slabs part) {d : ℕ} (hc : (p, c) ∈ slabs)
    (hd : (p, d) ∈ slabs) : c = d := by
  obtain ⟨free, hs⟩ := h.slab
  exact (Prod.mk.inj (hs.eq_of_head_eq hc hd rfl)).2

theorem length_le (h : HeapInv sz M hp live slabs part) (c : ℕ) : (part c).length ≤ 2 ^ 20 := by
  obtain ⟨free, hs⟩ := h.slab
  have hsub : (part c).toFinset ⊆ Finset.range (2 ^ 20) := by
    intro p hp
    rw [Finset.mem_range]
    exact hs.head_lt ((h.lists c).listed p (List.mem_toFinset.mp hp))
  have hcard := Finset.card_le_card hsub
  rwa [List.toFinset_card_of_nodup (h.lists c).chain.nodup, Finset.card_range] at hcard

/-- Setting the active slab to one of the cache's own, or to none. -/
theorem setActive (h : HeapInv sz M hp live slabs part) {o : Option ℕ}
    (ho : ∀ p, o = some p → (p, c) ∈ slabs) :
    HeapInv sz M (hp.setActive c o) live slabs part where
  slab := by
    obtain ⟨free, hs⟩ := h.slab
    exact ⟨free, hs.congr_caches fun d => hp.objectSize_setActive c d o⟩
  lists d := by
    by_cases hd : d = c
    · subst hd
      refine ⟨?_, (h.lists d).listed, fun p hp => ?_⟩
      · rw [Heap.caches_setActive_self]
        exact (h.lists d).chain
      · rw [Heap.caches_setActive_self] at hp
        exact ho p hp
    · exact (h.lists d).congr (hp.caches_setActive_of_ne hd o) (fun _ _ => rfl) fun _ hp _ => hp

/-- Giving a cache another list of its own slabs. -/
theorem setPartial (h : HeapInv sz M hp live slabs part) {o : Option ℕ} {l : List ℕ}
    (hchain : Chain hp.memMap.nextPartial o l) (hl : ∀ p ∈ l, (p, c) ∈ slabs) :
    HeapInv sz M (hp.setPartial c o) live slabs (Function.update part c l) where
  slab := by
    obtain ⟨free, hs⟩ := h.slab
    exact ⟨free, hs.congr_caches fun d => hp.objectSize_setPartial c d o⟩
  lists d := by
    by_cases hd : d = c
    · subst hd
      rw [Function.update_self]
      refine ⟨?_, hl, fun p hp => (h.lists d).active p ?_⟩
      · rw [Heap.caches_setPartial_self]
        exact hchain
      · rwa [Heap.caches_setPartial_self] at hp
    · rw [Function.update_of_ne hd]
      exact (h.lists d).congr (hp.caches_setPartial_of_ne hd o) (fun _ _ => rfl) fun _ hp _ => hp

/-- The next slab of the list becomes the active one. -/
theorem pop (h : HeapInv sz M hp live slabs part) (hl : part c = p :: l)
    (hs : hp.memMap.slubAt p = some s) :
    HeapInv sz M ((hp.setPartial c s.next).setActive c (some p)) live slabs
      (Function.update part c l) := by
  have hlist := h.lists c
  rw [hl] at hlist
  have hnext := MemMap.nextPartial_of_slubAt hs
  refine (h.setPartial (o := s.next) ?_ fun q hq => ?_).setActive fun q hq => ?_
  · rw [← hnext]
    exact hlist.chain.2
  · exact hlist.listed q (List.mem_cons_of_mem _ hq)
  · cases hq
    exact hlist.listed p List.mem_cons_self

/-- A change of a slab that keeps its link changes no list. -/
theorem of_setSlub (h : HeapInv sz M hp live slabs part) (hpc : (p, c) ∈ slabs)
    (hs : hp.memMap.slubAt p = some s) {s' : Slub} (hnext : s'.next = s.next) {b}
    (hslab : ∃ free, SlabInv sz M ⟨b, hp.memMap.setSlub p s', hp.caches⟩ live' free slabs) :
    HeapInv sz M ⟨b, hp.memMap.setSlub p s', hp.caches⟩ live' slabs part where
  slab := hslab
  lists d := by
    refine (h.lists d).congr rfl (fun q hq => ?_) fun _ hp _ => hp
    by_cases hqp : q = p
    · rw [hqp, MemMap.nextPartial_setSlub_self, MemMap.nextPartial_of_slubAt hs, hnext]
    · exact MemMap.nextPartial_setSlub_of_ne (h.in_range hpc)
        (h.in_range ((h.lists d).listed q hq)) hqp s'

/-- A new slab stands at the head of its cache's list. -/
theorem newSlab (h : HeapInv sz M hp live slabs part)
    (hnew : SlabInv.NewSlab sz M hp live slabs c p hp') :
    HeapInv sz M hp' live ((p, c) :: slabs) (Function.update part c (p :: part c)) where
  slab := hnew.inv
  lists d := by
    obtain ⟨free, hs⟩ := h.slab
    obtain ⟨free', hs'⟩ := hnew.inv
    have hkeep : ∀ d, ∀ q ∈ part d, hp'.memMap.nextPartial q = hp.memMap.nextPartial q := by
      intro d q hq
      have hqd := (h.lists d).listed q hq
      refine MemMap.nextPartial_congr (hnew.keep q (hs.head_mem hqd) fun hmem => ?_)
      have heq := hs'.eq_of_head_mem List.mem_cons_self (List.mem_cons_of_mem _ hqd) hmem
      exact (List.nodup_cons.mp hs'.nodup).1 (heq ▸ hqd)
    by_cases hd : d = c
    · subst hd
      rw [Function.update_self]
      refine ⟨?_, ?_, fun q hq => ?_⟩
      · rw [hnew.caches, Heap.caches_setPartial_self]
        refine (h.lists d).chain.push ?_ (hkeep d)
        rw [MemMap.nextPartial_of_slubAt hnew.slub, Heap.newSlub_next]
      · exact List.forall_mem_cons.mpr ⟨List.mem_cons_self, fun q hq =>
          List.mem_cons_of_mem _ ((h.lists d).listed q hq)⟩
      · rw [hnew.caches, Heap.caches_setPartial_self] at hq
        exact List.mem_cons_of_mem _ ((h.lists d).active q hq)
    · rw [Function.update_of_ne hd]
      refine (h.lists d).congr ?_ (hkeep d) fun _ hp _ => List.mem_cons_of_mem _ hp
      rw [hnew.caches, Heap.caches_setPartial_of_ne _ hd]

/-! ## Allocation -/

/-- What `alloc` leaves behind: a null result and the same live objects, or an object of the slab
that is active now. -/
def AllocOk (sz : ℕ → ℕ) (M : Set ℕ) (live : List LiveObj) (c ptr : ℕ) (hp' : Heap) : Prop :=
  (ptr = 0 ∧ ∃ slabs' part', HeapInv sz M hp' live slabs' part') ∨
    (ptr ≠ 0 ∧ ∃ p slabs' part', (hp'.caches c).activeSlabPpn = some p ∧
      HeapInv sz M hp' (⟨c, ptr, p⟩ :: live) slabs' part')

/-- The iteration of `alloc` that finds a free object in the active slab. -/
theorem allocLoop_take (h : HeapInv sz M hp live slabs part)
    (ha : (hp.caches c).activeSlabPpn = some p) (hok : SlabOk sz hp live (p, c) s l)
    (hne : s.freelist ≠ 0) (n : ℕ) :
    ∃ hp', Heap.allocLoop c (n + 1) hp = .ok (s.freelist, hp') ∧
      AllocOk sz M live c s.freelist hp' := by
  have hpc := (h.lists c).active p ha
  obtain ⟨free, hs⟩ := h.slab
  let taken : Slub := { s with freelist := hp.buddy.mem.load s.freelist,
                               inuse := (s.inuse + 1) % 2 ^ 16 }
  have hnext : taken.next = s.next := rfl
  refine ⟨hp.setSlub p taken, ?_, Or.inr ⟨hne, p, slabs, part, ha,
    h.of_setSlub hpc hok.slub hnext ⟨free, hs.take hpc hok hne⟩⟩⟩
  rw [Heap.allocLoop, ha]
  dsimp only
  rw [MemMap.getSlub_of_slubAt (h.in_range hpc) hok.slub, ok_bind, if_neg hne]

/-- The steps that the loop of `alloc` takes at most before it asks for a new slab. -/
def budget (hp : Heap) (part : ℕ → List ℕ) (c : ℕ) : ℕ :=
  2 * (part c).length + (hp.caches c).activeSlabPpn.elim 0 fun _ => 1

/-- **A cache has nothing to give**: the active slab and those on the list have no free object, and
the buddy allocator has no block for another slab. -/
def Exhausted (sz : ℕ → ℕ) (hp : Heap) (part : ℕ → List ℕ) (c : ℕ) : Prop :=
  (∀ p s, (hp.caches c).activeSlabPpn = some p ∨ p ∈ part c → hp.memMap.slubAt p = some s →
    s.freelist = 0) ∧
  hp.buddy.alloc (2 ^ slabOrder (sz c)) = .ok (none, hp.buddy)

/-- A full active slab can be dropped. -/
theorem exhausted_setActive (ha : (hp.caches c).activeSlabPpn = some p)
    (hs : hp.memMap.slubAt p = some s) (hzero : s.freelist = 0) :
    Exhausted sz (hp.setActive c none) part c ↔ Exhausted sz hp part c := by
  refine and_congr_left fun _ => forall₂_congr fun q r => ?_
  rw [Heap.caches_setActive_self, ha]
  refine ⟨fun hall hor hr => ?_, fun hall hor => hall (hor.imp_left nofun)⟩
  rcases hor with heq | hmem
  · cases heq
    cases hs.symm.trans hr
    exact hzero
  · exact hall (Or.inr hmem) hr

/-- The head of the list may become active. -/
theorem exhausted_pop (ha : (hp.caches c).activeSlabPpn = none) (hl : part c = p :: l)
    (o : Option ℕ) :
    Exhausted sz ((hp.setPartial c o).setActive c (some p)) (Function.update part c l) c ↔
      Exhausted sz hp part c := by
  refine and_congr_left fun _ => forall₂_congr fun q r => imp_congr_left ?_
  rw [Heap.caches_setActive_self, Function.update_self, ha, hl, List.mem_cons, Option.some.injEq,
    eq_comm (a := p), or_iff_right (show ¬ (none : Option ℕ) = some q from nofun)]

/-- **The loop of `alloc`** ends with an object, or with null where the cache has nothing to
give. -/
theorem allocLoop_spec (hsz : SizeOk M (sz c)) :
    ∀ n {hp : Heap} {part : ℕ → List ℕ}, HeapInv sz M hp live slabs part →
      budget hp part c + 2 ≤ n →
      ∃ ptr hp', Heap.allocLoop c n hp = .ok (ptr, hp') ∧ AllocOk sz M live c ptr hp' ∧
        (ptr = 0 ↔ Exhausted sz hp part c) := by
  intro n
  induction n with
  | zero =>
    intro hp part _ hn
    omega
  | succ n ih =>
    intro hp part h hn
    rw [budget] at hn
    cases ha : (hp.caches c).activeSlabPpn with
    | some p =>
      have hpc := (h.lists c).active p ha
      obtain ⟨s, l, hok⟩ := h.slubAt hpc
      by_cases hzero : s.freelist = 0
      · obtain ⟨ptr, hp', hrun, hres, hnull⟩ := ih (h.setActive (c := c) (o := none) (by simp)) (by
          rw [budget, Heap.caches_setActive_self]
          rw [ha] at hn
          simp only [Option.elim] at hn ⊢
          omega)
        refine ⟨ptr, hp', ?_, hres, hnull.trans (exhausted_setActive ha hok.slub hzero)⟩
        rw [Heap.allocLoop, ha]
        dsimp only
        rw [MemMap.getSlub_of_slubAt (h.in_range hpc) hok.slub, ok_bind, if_pos hzero]
        exact hrun
      · obtain ⟨hp', hrun, hres⟩ := h.allocLoop_take ha hok hzero n
        exact ⟨_, hp', hrun, hres,
          iff_of_false hzero fun hex => hzero (hex.1 p s (Or.inl ha) hok.slub)⟩
    | none =>
      cases hl : part c with
      | cons p l =>
        have hlist := h.lists c
        rw [hl] at hlist
        have hpc := hlist.listed p List.mem_cons_self
        obtain ⟨s, k, hok⟩ := h.slubAt hpc
        obtain ⟨ptr, hp', hrun, hres, hnull⟩ := ih (h.pop hl hok.slub) (by
          rw [budget, Heap.caches_setActive_self, Function.update_self]
          rw [ha, hl, List.length_cons] at hn
          simp only [Option.elim] at hn ⊢
          omega)
        refine ⟨ptr, hp', ?_, hres, hnull.trans (exhausted_pop ha hl _)⟩
        rw [Heap.allocLoop, ha, hlist.chain.1]
        dsimp only
        rw [MemMap.getSlub_of_slubAt (h.in_range hpc) hok.slub, ok_bind]
        exact hrun
      | nil =>
        have hhead : (hp.caches c).partialSlabsHead = none := by
          have := (h.lists c).chain
          rwa [hl] at this
        obtain ⟨free, hs⟩ := h.slab
        obtain ⟨n, rfl⟩ : ∃ n', n = n' + 1 := ⟨n - 1, by omega⟩
        rcases hs.allocNewSlab hsz with ⟨p, hp₁, hrun, hnew, b, hbuddy⟩ | ⟨hrun, hbuddy⟩
        · -- a new slab has a free object, so the next iteration returns
          have h₁ := (h.newSlab hnew).setActive (c := c) (o := some p) fun q hq => by
            cases hq
            exact List.mem_cons_self
          have ha₁ : ((hp₁.setActive c (some p)).caches c).activeSlabPpn = some p := by
            rw [Heap.caches_setActive_self]
          obtain ⟨s, l, hok⟩ := h₁.slubAt ((h₁.lists c).active p ha₁)
          have hslub : s = hp.newSlub c (physToVirt (p * pageSize)) :=
            Option.some.inj (hok.slub.symm.trans hnew.slub)
          have hinuse : s.inuse < (freshObjects (sz c) p).length := by
            rw [hslub]
            exact length_freshObjects_pos hsz.pos p
          have hne := hok.freelist_ne_zero hinuse
          obtain ⟨hp', hrun', hres⟩ := h₁.allocLoop_take ha₁ hok hne n
          have hgives : ¬ Exhausted sz hp part c := fun hex => by cases hbuddy.symm.trans hex.2
          refine ⟨_, hp', ?_, hres, iff_of_false hne hgives⟩
          rw [Heap.allocLoop, ha, hhead]
          dsimp only
          rw [hrun, ok_bind]
          exact hrun'
        · have hex : Exhausted sz hp part c := by
            refine ⟨fun p s hor => ?_, hbuddy⟩
            rw [ha, hl] at hor
            simp at hor
          refine ⟨0, hp, ?_, Or.inl ⟨rfl, slabs, part, h⟩, iff_of_true rfl hex⟩
          rw [Heap.allocLoop, ha, hhead]
          dsimp only
          rw [hrun, ok_bind]

/-- **`KmemCache::alloc`** ends, and keeps the invariant. -/
theorem alloc (h : HeapInv sz M hp live slabs part) (hsz : SizeOk M (sz c)) :
    ∃ ptr hp', hp.alloc c = .ok (ptr, hp') ∧ AllocOk sz M live c ptr hp' ∧
      (ptr = 0 ↔ Exhausted sz hp part c) := by
  refine allocLoop_spec hsz walkLimit h ?_
  have hlen := h.length_le c
  have hactive : ((hp.caches c).activeSlabPpn.elim 0 fun _ => 1) ≤ 1 := by
    cases (hp.caches c).activeSlabPpn with
    | none => exact Nat.zero_le 1
    | some p => exact le_rfl
  rw [budget]
  have hbound : 2 * (part c).length + ((hp.caches c).activeSlabPpn.elim 0 fun _ => 1) + 1 ≤
      2 ^ 22 := by
    omega
  exact lt_walkLimit hbound

/-! ## Unlinking a slab -/

/-- Changing the link of a slab changes no slab. -/
theorem relink (h : HeapInv sz M hp live slabs part) (hpc : (p, c) ∈ slabs)
    (hs : hp.memMap.slubAt p = some s) (o : Option ℕ) :
    ∃ free, SlabInv sz M (hp.setSlub p (s.setNext o)) live free slabs := by
  obtain ⟨free, hinv⟩ := h.slab
  exact ⟨free, hinv.relink hpc hs o⟩

/-- The loop of `remove_from_partial` on a list without the target. -/
theorem removeLoop_miss (hin : ∀ q ∈ l, hp.memMap.InRange q ∧ ∃ s, hp.memMap.slubAt q = some s)
    (hp' : p ∉ l) :
    ∀ {n : ℕ} {prev cur : Option ℕ}, Chain hp.memMap.nextPartial cur l → l.length < n →
      Heap.removeLoop hp c p n prev cur = .error .notInPartial := by
  induction l with
  | nil =>
    intro n prev cur hchain hn
    obtain ⟨n, rfl⟩ : ∃ n', n = n' + 1 := ⟨n - 1, by omega⟩
    rw [chain_nil.mp hchain, Heap.removeLoop]
  | cons q l ih =>
    intro n prev cur hchain hn
    obtain ⟨n, rfl⟩ : ∃ n', n = n' + 1 := ⟨n - 1, by omega⟩
    obtain ⟨hcur, hrest⟩ := hchain
    obtain ⟨hrange, s, hs⟩ := hin q List.mem_cons_self
    have hne : q ≠ p := fun heq => hp' (heq ▸ List.mem_cons_self)
    rw [List.length_cons] at hn
    rw [hcur, Heap.removeLoop, MemMap.getSlub_of_slubAt hrange hs, ok_bind, if_neg hne]
    refine ih (fun r hr => hin r (List.mem_cons_of_mem _ hr))
      (fun hmem => hp' (List.mem_cons_of_mem _ hmem)) ?_ (by omega)
    rwa [← MemMap.nextPartial_of_slubAt hs]

/-- The heap after the node behind `prev`, or the head, is unlinked. -/
def unlink (hp : Heap) (c : ℕ) (next : Option ℕ) : Option ℕ → Heap
  | none => hp.setPartial c next
  | some prevPpn =>
    match hp.memMap.slubAt prevPpn with
    | some prev => hp.setSlub prevPpn (prev.setNext next)
    | none => hp

/-- The loop of `remove_from_partial` unlinks the target from the node before it. -/
theorem removeLoop_hit {l₁ l₂ : List ℕ}
    (hin : ∀ q ∈ l₁ ++ p :: l₂, hp.memMap.InRange q ∧ ∃ s, hp.memMap.slubAt q = some s)
    (hp' : p ∉ l₁) :
    ∀ {n : ℕ} {prev cur : Option ℕ}, Chain hp.memMap.nextPartial cur (l₁ ++ p :: l₂) →
      l₁.length < n → (∀ q ∈ prev, hp.memMap.InRange q) →
      Heap.removeLoop hp c p n prev cur =
        .ok (unlink hp c (hp.memMap.nextPartial p) (l₁.getLast?.or prev)) := by
  induction l₁ with
  | nil =>
    intro n prev cur hchain hn hprev
    obtain ⟨n, rfl⟩ : ∃ n', n = n' + 1 := ⟨n - 1, by omega⟩
    obtain ⟨hcur, -⟩ := hchain
    obtain ⟨hrange, s, hs⟩ := hin p (by simp)
    rw [hcur, Heap.removeLoop, MemMap.getSlub_of_slubAt hrange hs, ok_bind, if_pos rfl,
      MemMap.nextPartial_of_slubAt hs]
    cases prev with
    | none => rfl
    | some q =>
      dsimp only
      rw [(hprev q rfl).getPageState_eq, ok_bind]
      simp only [List.getLast?_nil, Option.or, unlink, MemMap.slubAt]
      cases (hp.memMap.page q).slub? <;> rfl
  | cons q l₁ ih =>
    intro n prev cur hchain hn hprev
    obtain ⟨n, rfl⟩ : ∃ n', n = n' + 1 := ⟨n - 1, by omega⟩
    obtain ⟨hcur, hrest⟩ := hchain
    obtain ⟨hrange, s, hs⟩ := hin q (by simp)
    have hne : q ≠ p := fun heq => hp' (heq ▸ List.mem_cons_self)
    rw [List.length_cons] at hn
    rw [hcur, Heap.removeLoop, MemMap.getSlub_of_slubAt hrange hs, ok_bind, if_neg hne]
    rw [ih (fun r hr => hin r (List.mem_cons_of_mem _ hr))
      (fun hmem => hp' (List.mem_cons_of_mem _ hmem))
      (by rw [← MemMap.nextPartial_of_slubAt hs]; exact hrest) (by omega)
      (fun r hr => by cases hr; exact hrange)]
    congr 2
    rw [List.getLast?_cons]
    cases l₁.getLast? <;> rfl

theorem walk (h : HeapInv sz M hp live slabs part) (c : ℕ) :
    ∀ q ∈ part c, hp.memMap.InRange q ∧ ∃ s, hp.memMap.slubAt q = some s := by
  intro q hq
  have hqc := (h.lists c).listed q hq
  obtain ⟨s, l, hok⟩ := h.slubAt hqc
  exact ⟨h.in_range hqc, s, hok.slub⟩

/-- `remove_from_partial` on a slab that is not on the list panics. -/
theorem removeFromPartial_miss (h : HeapInv sz M hp live slabs part) (hp' : p ∉ part c) :
    hp.removeFromPartial c p = .error .notInPartial :=
  removeLoop_miss (h.walk c) hp' (h.lists c).chain
    (lt_walkLimit ((h.length_le c).trans (by decide)))

/-- **`remove_from_partial`** takes a slab off its cache's list. -/
theorem removeFromPartial_hit (h : HeapInv sz M hp live slabs part) (hmem : p ∈ part c) :
    ∃ hp', hp.removeFromPartial c p = .ok hp' ∧
      HeapInv sz M hp' live slabs (Function.update part c ((part c).erase p)) ∧
      ∀ d, (hp'.caches d).activeSlabPpn = (hp.caches d).activeSlabPpn := by
  obtain ⟨l₁, l₂, hl⟩ := List.append_of_mem hmem
  have hlist := h.lists c
  have hnd := hlist.chain.nodup
  have hwalk := h.walk c
  rw [hl] at hlist hnd hwalk
  have hp₁ : p ∉ l₁ := fun hp₁ =>
    (List.nodup_append.mp hnd).2.2 p hp₁ p List.mem_cons_self rfl
  have herase : (part c).erase p = l₁ ++ l₂ := by
    rw [hl, List.erase_append_right _ hp₁, List.erase_cons_head]
  have hlen : l₁.length ≤ 2 ^ 22 := by
    have := h.length_le c
    rw [hl, List.length_append] at this
    omega
  have hrun : hp.removeFromPartial c p =
      .ok (unlink hp c (hp.memMap.nextPartial p) (l₁.getLast?.or none)) :=
    removeLoop_hit hwalk hp₁ hlist.chain (lt_walkLimit hlen) (by simp)
  rw [herase]
  rcases List.eq_nil_or_concat' l₁ with rfl | ⟨l₀, q, rfl⟩
  · refine ⟨_, hrun, h.setPartial hlist.chain.2 fun r hr => ?_, fun d => ?_⟩
    · exact hlist.listed r (List.mem_cons_of_mem _ hr)
    · by_cases hd : d = c
      · subst hd
        show ((hp.setPartial d _).caches d).activeSlabPpn = _
        rw [Heap.caches_setPartial_self]
      · exact congrArg KmemCache.activeSlabPpn (hp.caches_setPartial_of_ne hd _)
  · have hq : q ∈ l₀ ++ [q] ++ p :: l₂ := by simp
    obtain ⟨hrange, t, ht⟩ := hwalk q hq
    have hqc := hlist.listed q hq
    have hval : unlink hp c (hp.memMap.nextPartial p) ((l₀ ++ [q]).getLast?.or none) =
        hp.setSlub q (t.setNext (hp.memMap.nextPartial p)) := by
      simp [unlink, ht]
    have hother : ∀ d, ∀ r ∈ part d, r ≠ q →
        (hp.memMap.setSlub q (t.setNext (hp.memMap.nextPartial p))).nextPartial r =
          hp.memMap.nextPartial r := fun d r hr hne =>
      MemMap.nextPartial_setSlub_of_ne hrange (h.in_range ((h.lists d).listed r hr)) hne _
    rw [hval] at hrun
    refine ⟨_, hrun, ⟨h.relink hqc ht _, fun d => ?_⟩, fun _ => rfl⟩
    by_cases hd : d = c
    · subst hd
      rw [Function.update_self]
      have hchain := hlist.chain
      rw [List.append_assoc] at hchain hnd ⊢
      refine ⟨hchain.unlink ?_ fun r hr => ?_, fun r hr => hlist.listed r ?_, hlist.active⟩
      · exact (MemMap.nextPartial_setSlub_self _).trans (Slub.next_setNext _ _)
      · refine hother d r (by rw [hl]; simp at hr ⊢; tauto) fun hrq => ?_
        subst hrq
        simp only [List.nodup_append, List.nodup_cons, List.cons_append, List.nil_append,
          List.mem_cons, not_or] at hnd
        rcases List.mem_append.mp hr with hr | hr
        · exact hnd.2.2 r hr r (Or.inl rfl) rfl
        · exact hnd.2.1.1.2 hr
      · simp at hr ⊢
        tauto
    · rw [Function.update_of_ne hd]
      refine (h.lists d).congr rfl (fun r hr => hother d r hr fun hrq => hd ?_) fun _ hp _ => hp
      exact h.cache_unique ((h.lists d).listed r hr) (hrq ▸ hqc)

end HeapInv

/-! ## Release -/

/-- A slab's head after an object is put back. -/
def Slub.giveBack (s : Slub) (ptr : ℕ) : Slub :=
  { s with freelist := VirtAddr.ofUsize ptr, inuse := (s.inuse + (2 ^ 16 - 1)) % 2 ^ 16 }

/-- The heap after an object is back on its slab's free list, before the slab is moved. -/
def Heap.giveBack (hp : Heap) (o : LiveObj) (s : Slub) : Heap :=
  { hp with buddy := { hp.buddy with mem := hp.buddy.mem.store o.ptr s.freelist },
            memMap := hp.memMap.setSlub o.slab (s.giveBack o.ptr) }

/-- **The cases of `free_object`** for a live object. -/
theorem SlabInv.freeObject_eq {free : ℕ → List ℕ} {o : LiveObj}
    (h : SlabInv sz M hp live free slabs) (ho : o ∈ live)
    (hok : SlabOk sz hp live (o.slab, o.cache) s l) :
    hp.freeObject o.cache o.ptr o.slab =
      if s.inuse = 1 then
        if (hp.caches o.cache).activeSlabPpn = some o.slab then
          ((hp.giveBack o s).setActive o.cache none).releaseSlab o.cache o.slab
        else
          (hp.giveBack o s).removeFromPartial o.cache o.slab >>=
            fun h => h.releaseSlab o.cache o.slab
      else if s.freelist = 0 ∧ (hp.caches o.cache).activeSlabPpn ≠ some o.slab then
        .ok (((hp.giveBack o s).setSlub o.slab
          ((s.giveBack o.ptr).setNext (hp.caches o.cache).partialSlabsHead)).setPartial o.cache
            (some o.slab))
      else .ok (hp.giveBack o s) := by
  have hpos := SlabInv.inuse_pos ho hok
  have hpred : (s.inuse + (2 ^ 16 - 1)) % 2 ^ 16 = 0 ↔ s.inuse = 1 := by
    rw [h.inuse_pred ho hok]
    omega
  rw [Heap.freeObject,
    MemMap.getSlub_of_slubAt (h.head_in_range (h.live_slab o ho)) hok.slub, ok_bind]
  dsimp only
  simp only [hpred]
  rfl

/-- The list of partial slabs of a cache is a finite chain without repetition, and all its members
are pages in state `Slab::Slub` of that cache. -/
def PartialListOk (hp : Heap) (c : ℕ) : Prop :=
  ∃ l, Chain hp.memMap.nextPartial (hp.caches c).partialSlabsHead l ∧ l.Nodup ∧
    ∀ p ∈ l, ∃ s, hp.memMap.getSlub p .partialNotSlub = .ok s ∧ s.cache = c

namespace HeapInv

variable {o : LiveObj}

theorem partialListOk (h : HeapInv sz M hp live slabs part) (c : ℕ) : PartialListOk hp c := by
  refine ⟨part c, (h.lists c).chain, (h.lists c).chain.nodup, fun p hp => ?_⟩
  have hpc := (h.lists c).listed p hp
  obtain ⟨s, l, hok⟩ := h.slubAt hpc
  exact ⟨s, MemMap.getSlub_of_slubAt (h.in_range hpc) hok.slub _, hok.cache⟩

theorem live_slab (h : HeapInv sz M hp live slabs part) (ho : o ∈ live) :
    (o.slab, o.cache) ∈ slabs := by
  obtain ⟨free, hs⟩ := h.slab
  exact hs.live_slab o ho

/-- Putting an object back moves no slab. -/
theorem giveBack (h : HeapInv sz M hp live slabs part) (ho : o ∈ live)
    (hok : SlabOk sz hp live (o.slab, o.cache) s l) :
    HeapInv sz M (hp.giveBack o s) (live.erase o) slabs part := by
  obtain ⟨free, hs⟩ := h.slab
  have hnext : (s.giveBack o.ptr).next = s.next := rfl
  exact h.of_setSlub (h.live_slab ho) hok.slub hnext ⟨free, hs.give ho hok⟩

theorem freeObject_eq (h : HeapInv sz M hp live slabs part) (ho : o ∈ live)
    (hok : SlabOk sz hp live (o.slab, o.cache) s l) :
    hp.freeObject o.cache o.ptr o.slab =
      if s.inuse = 1 then
        if (hp.caches o.cache).activeSlabPpn = some o.slab then
          ((hp.giveBack o s).setActive o.cache none).releaseSlab o.cache o.slab
        else
          (hp.giveBack o s).removeFromPartial o.cache o.slab >>=
            fun h => h.releaseSlab o.cache o.slab
      else if s.freelist = 0 ∧ (hp.caches o.cache).activeSlabPpn ≠ some o.slab then
        .ok (((hp.giveBack o s).setSlub o.slab
          ((s.giveBack o.ptr).setNext (hp.caches o.cache).partialSlabsHead)).setPartial o.cache
            (some o.slab))
      else .ok (hp.giveBack o s) := by
  obtain ⟨free, hs⟩ := h.slab
  exact hs.freeObject_eq ho hok

/-- Releasing a slab that no reference of its cache leads to. -/
theorem releaseSlab (h : HeapInv sz M hp live slabs part) (hpc : (p, c) ∈ slabs)
    (hempty : liveOf live p = []) (hpart : p ∉ part c)
    (hactive : (hp.caches c).activeSlabPpn ≠ some p) :
    ∃ hp', hp.releaseSlab c p = .ok hp' ∧ HeapInv sz M hp' live (slabs.erase (p, c)) part := by
  obtain ⟨free, hs⟩ := h.slab
  obtain ⟨hp', free', hrun, hs', hcaches, -, hkeep⟩ := hs.releaseSlab hpc hempty
  refine ⟨hp', hrun, ⟨free', hs'⟩, fun d => (h.lists d).congr (by rw [hcaches]) ?_ ?_⟩
  · intro q hq
    have hqd := (h.lists d).listed q hq
    refine MemMap.nextPartial_congr (hkeep q (hs.head_mem hqd) fun hmem => hpart ?_)
    obtain ⟨rfl, rfl⟩ := Prod.mk.inj (hs.eq_of_head_mem hpc hqd hmem)
    exact hq
  · intro q hq hor
    refine (List.mem_erase_of_ne fun heq => ?_).mpr hq
    obtain ⟨rfl, rfl⟩ := Prod.mk.inj heq
    exact hor.elim hpart hactive

/-- With one object in use and that one put back, no object of the slab is live. -/
theorem liveOf_erase_eq_nil (ho : o ∈ live) (hok : SlabOk sz hp live (o.slab, o.cache) s l)
    (hone : s.inuse = 1) : liveOf (live.erase o) o.slab = [] := by
  have hperm := liveOf_perm (List.perm_cons_erase ho) o.slab
  rw [liveOf_cons_self] at hperm
  have hlen := hperm.length_eq
  rw [← hok.inuse, hone, List.length_cons] at hlen
  exact List.eq_nil_of_length_eq_zero (by omega)

/-- A slab that was full and forgotten goes back to the head of its cache's list. -/
theorem relist (h : HeapInv sz M hp live slabs part) (hpc : (p, c) ∈ slabs)
    (hs : hp.memMap.slubAt p = some s) (hpart : p ∉ part c) :
    HeapInv sz M ((hp.setSlub p (s.setNext (hp.caches c).partialSlabsHead)).setPartial c (some p))
      live slabs (Function.update part c (p :: part c)) := by
  have hother : ∀ d, ∀ q ∈ part d,
      (hp.memMap.setSlub p (s.setNext (hp.caches c).partialSlabsHead)).nextPartial q =
        hp.memMap.nextPartial q := by
    intro d q hq
    have hqd := (h.lists d).listed q hq
    refine MemMap.nextPartial_setSlub_of_ne (h.in_range hpc) (h.in_range hqd) ?_ _
    rintro rfl
    rw [h.cache_unique hpc hqd] at hpart
    exact hpart hq
  have hlinked : HeapInv sz M (hp.setSlub p (s.setNext (hp.caches c).partialSlabsHead)) live slabs
      part :=
    ⟨h.relink hpc hs _, fun d => (h.lists d).congr rfl (hother d) fun _ hp _ => hp⟩
  refine hlinked.setPartial ?_ ?_
  · refine (h.lists c).chain.push ?_ (hother c)
    exact (MemMap.nextPartial_setSlub_self _).trans (Slub.next_setNext _ _)
  · exact List.forall_mem_cons.mpr ⟨hpc, (h.lists c).listed⟩

/-- The slab of an object is where `free_object` expects it: for its last object, the slab is
either active or on the list of partial slabs, but not both; and a full slab that is not active is
not on the list. -/
def FreeOk (hp : Heap) (part : ℕ → List ℕ) (o : LiveObj) (s : Slub) : Prop :=
  (s.inuse = 1 →
    ((hp.caches o.cache).activeSlabPpn = some o.slab ↔ o.slab ∉ part o.cache)) ∧
  (s.inuse ≠ 1 → s.freelist = 0 → (hp.caches o.cache).activeSlabPpn ≠ some o.slab →
    o.slab ∉ part o.cache)

/-- **`free_object`** of a live object keeps the invariant when the slab is where the code expects
it. -/
theorem freeObject_ok (h : HeapInv sz M hp live slabs part) (ho : o ∈ live)
    (hok : SlabOk sz hp live (o.slab, o.cache) s l) (hfree : FreeOk hp part o s) :
    ∃ hp' slabs' part', hp.freeObject o.cache o.ptr o.slab = .ok hp' ∧
      HeapInv sz M hp' (live.erase o) slabs' part' := by
  have hg := h.giveBack ho hok
  have hpc := h.live_slab ho
  rw [h.freeObject_eq ho hok]
  by_cases hone : s.inuse = 1
  · have hempty := liveOf_erase_eq_nil ho hok hone
    rw [if_pos hone]
    by_cases hact : (hp.caches o.cache).activeSlabPpn = some o.slab
    · rw [if_pos hact]
      have hset := hg.setActive (c := o.cache) (o := none) (by simp)
      obtain ⟨hp', hrun, hinv⟩ := hset.releaseSlab hpc hempty ((hfree.1 hone).mp hact) (by
        rw [Heap.caches_setActive_self]
        simp)
      exact ⟨hp', _, _, hrun, hinv⟩
    · rw [if_neg hact]
      have hmem : o.slab ∈ part o.cache := by
        by_contra hmem
        exact hact ((hfree.1 hone).mpr hmem)
      obtain ⟨hp₁, hrun₁, hinv₁, hactive⟩ := hg.removeFromPartial_hit hmem
      obtain ⟨hp', hrun, hinv⟩ := hinv₁.releaseSlab hpc hempty
        (by
          rw [Function.update_self]
          exact fun hin => ((hg.lists o.cache).chain.nodup.mem_erase_iff.mp hin).1 rfl)
        (by
          rw [hactive]
          exact hact)
      refine ⟨hp', _, _, ?_, hinv⟩
      rw [hrun₁]
      exact hrun
  · rw [if_neg hone]
    by_cases hfull : s.freelist = 0 ∧ (hp.caches o.cache).activeSlabPpn ≠ some o.slab
    · rw [if_pos hfull]
      refine ⟨_, _, _, rfl, hg.relist hpc ?_ (hfree.2 hone hfull.1 hfull.2)⟩
      exact MemMap.slubAt_setSlub_self _
    · rw [if_neg hfull]
      exact ⟨_, _, _, rfl, hg⟩

/-! ## Where `free_object` goes wrong -/

/-- The last object of a slab that is active and on the list: the slab goes back to the buddy
allocator and stays on the list. -/
theorem freeObject_stale (h : HeapInv sz M hp live slabs part) (ho : o ∈ live)
    (hok : SlabOk sz hp live (o.slab, o.cache) s l) (hone : s.inuse = 1)
    (hact : (hp.caches o.cache).activeSlabPpn = some o.slab) (hmem : o.slab ∈ part o.cache) :
    ∃ hp', hp.freeObject o.cache o.ptr o.slab = .ok hp' ∧ ¬ PartialListOk hp' o.cache := by
  have hpc := h.live_slab ho
  have hset := (h.giveBack ho hok).setActive (c := o.cache) (o := none) (by simp)
  obtain ⟨free, hs⟩ := hset.slab
  obtain ⟨hp', free', hrun, -, hcaches, hgone, hkeep⟩ :=
    hs.releaseSlab hpc (liveOf_erase_eq_nil ho hok hone)
  refine ⟨hp', ?_, ?_⟩
  · rw [h.freeObject_eq ho hok, if_pos hone, if_pos hact]
    exact hrun
  · rintro ⟨l', hchain, -, hall⟩
    obtain ⟨l₁, l₂, hl⟩ := List.append_of_mem hmem
    have hlist := hset.lists o.cache
    rw [hl] at hlist
    -- the links up to the slab are unchanged, so the list still reaches it
    have hagree : ∀ q ∈ l₁, hp'.memMap.nextPartial q =
        ((hp.giveBack o s).setActive o.cache none).memMap.nextPartial q := by
      intro q hq
      have hqc := hlist.listed q (List.mem_append_left _ hq)
      refine MemMap.nextPartial_congr (hkeep q (hs.head_mem hqc) fun hin => ?_)
      obtain ⟨rfl, -⟩ := Prod.mk.inj (hs.eq_of_head_mem hpc hqc hin)
      exact (List.nodup_append.mp hlist.chain.nodup).2.2 _ hq _ List.mem_cons_self rfl
    rw [hcaches] at hchain
    obtain ⟨t, ht, -⟩ := hall _ (hlist.chain.mem_of_agree hagree hchain)
    rw [MemMap.slubAt_of_getSlub ht] at hgone
    cases hgone

/-- The last object of a slab that is neither active nor on the list: `remove_from_partial`
panics. -/
theorem freeObject_panic (h : HeapInv sz M hp live slabs part) (ho : o ∈ live)
    (hok : SlabOk sz hp live (o.slab, o.cache) s l) (hone : s.inuse = 1)
    (hact : (hp.caches o.cache).activeSlabPpn ≠ some o.slab) (hmem : o.slab ∉ part o.cache) :
    hp.freeObject o.cache o.ptr o.slab = .error .notInPartial := by
  rw [h.freeObject_eq ho hok, if_pos hone, if_neg hact,
    (h.giveBack ho hok).removeFromPartial_miss hmem, error_bind]

/-- An object of a full slab that is not active but on the list: the slab is linked in a second
time, and the list becomes a cycle. -/
theorem freeObject_cycle (h : HeapInv sz M hp live slabs part) (ho : o ∈ live)
    (hok : SlabOk sz hp live (o.slab, o.cache) s l) (hone : s.inuse ≠ 1) (hfull : s.freelist = 0)
    (hact : (hp.caches o.cache).activeSlabPpn ≠ some o.slab) (hmem : o.slab ∈ part o.cache) :
    ∃ hp', hp.freeObject o.cache o.ptr o.slab = .ok hp' ∧ ¬ PartialListOk hp' o.cache := by
  have hg := h.giveBack ho hok
  have hpc := h.live_slab ho
  rw [h.freeObject_eq ho hok, if_neg hone, if_pos ⟨hfull, hact⟩]
  refine ⟨_, rfl, ?_⟩
  rintro ⟨l', hchain, hnd, -⟩
  rw [Heap.caches_setPartial_self] at hchain
  cases l' with
  | nil => cases hchain
  | cons q l' =>
    obtain ⟨hq, hrest⟩ := hchain
    cases hq
    have hlink : ((hp.giveBack o s).memMap.setSlub o.slab
        ((s.giveBack o.ptr).setNext (hp.caches o.cache).partialSlabsHead)).nextPartial o.slab =
        (hp.caches o.cache).partialSlabsHead :=
      (MemMap.nextPartial_setSlub_self _).trans (Slub.next_setNext _ _)
    obtain ⟨l₁, l₂, hl⟩ := List.append_of_mem hmem
    have hlist := hg.lists o.cache
    rw [hl] at hlist
    -- the old list is followed again from its head, up to the slab
    have hagree : ∀ q ∈ l₁, ((hp.giveBack o s).memMap.setSlub o.slab
        ((s.giveBack o.ptr).setNext (hp.caches o.cache).partialSlabsHead)).nextPartial q =
        (hp.giveBack o s).memMap.nextPartial q := by
      intro q hq
      refine MemMap.nextPartial_setSlub_of_ne (hg.in_range hpc)
        (hg.in_range (hlist.listed q (List.mem_append_left _ hq))) ?_ _
      rintro rfl
      exact (List.nodup_append.mp hlist.chain.nodup).2.2 _ hq _ List.mem_cons_self rfl
    have hback : Chain ((hp.giveBack o s).memMap.setSlub o.slab
        ((s.giveBack o.ptr).setNext (hp.caches o.cache).partialSlabsHead)).nextPartial
        (((hp.giveBack o s).memMap.setSlub o.slab
          ((s.giveBack o.ptr).setNext (hp.caches o.cache).partialSlabsHead)).nextPartial o.slab)
        l' := hrest
    rw [hlink] at hback
    exact (List.nodup_cons.mp hnd).1 (hlist.chain.mem_of_agree hagree hback)

end HeapInv

end CharlotteOs
