import CharlotteOs.Mm.SlubRuns

/-!
# Conservation in the slabs of one cache

The list of partial slabs of a cache can lead to pages that are no slabs any more, or twice to one
slab. While no other cache takes pages, this does no harm to what is inside the slabs: a reference
that is stale leads to a page that is free, where the code panics, or that has become a slab of the
same cache again. So what holds of a slab's free list, its live objects and its count holds in every
state that a run reaches.

The invariant asks of the references only that they lead to managed pages, and of the managed pages
that those in state `Slab::Slub` are the slabs.

One page is an exception. The last page below 4 GiB ends where the linear window ends, the end
address of its slab wraps to zero, and the carving loop makes no step.

## Main definitions

* `CacheInv`: the slabs of one cache, under references that may be stale
* `SlubSystem.SlabConserved`: what holds of every slab of the cache
* `SlubSystem.Sound`: what an operation does with live objects and counts

## Main results

* `CacheInv.allocLoop`, `CacheInv.freeObject`: the operations keep the invariant when they return
* `SlubSystem.slabConserved_along`: conservation along every run
* `SlubSystem.slabConserved_top_page`: the slab in the last page below 4 GiB
-/

namespace CharlotteOs

open LinkedChain DyadicTiling FallibleRun BuddySystemFrameAllocator

/-! ## Slabs of one page in `MEM_MAP` -/

namespace Heap

variable {hp hp' : Heap} {c p : ℕ}

/-- A new slab of one page overwrites one entry. -/
theorem memMap_of_allocNewSlab (hlt : (hp.caches c).objectSize < pageSize)
    (h : hp.allocNewSlab c = .ok (some p, hp')) : ∃ page, hp'.memMap = hp.memMap.set p page := by
  unfold allocNewSlab at h
  dsimp only at h
  rw [if_pos hlt] at h
  obtain ⟨⟨ppn, buddy⟩, -, h⟩ := exists_of_bind_eq_ok h
  cases ppn with
  | none => cases h
  | some ppn =>
    obtain ⟨mem, -, h⟩ := exists_of_bind_eq_ok h
    obtain ⟨_, -, h⟩ := exists_of_bind_eq_ok h
    cases h
    exact ⟨_, rfl⟩

/-- The release of a slab of one page overwrites one entry. -/
theorem memMap_of_releaseSlab (hlt : (hp.caches c).objectSize < pageSize)
    (h : hp.releaseSlab c p = .ok hp') : hp'.memMap = hp.memMap.set p ⟨0, .free⟩ := by
  have hpages : Usize.nextPowerOfTwo (max (requiredPages (hp.caches c).objectSize) 1) = 1 := by
    have hle : requiredPages (hp.caches c).objectSize ≤ 1 := by
      rw [requiredPages, Nat.shiftRight_eq_div_pow, two_pow_pageSizeBits]
      simp only [pageSize] at hlt ⊢
      omega
    rw [max_eq_right hle]
    rfl
  unfold releaseSlab at h
  dsimp only at h
  rw [hpages] at h
  obtain ⟨memMap, hfill, h⟩ := exists_of_bind_eq_ok h
  obtain ⟨_, -, h⟩ := exists_of_bind_eq_ok h
  obtain ⟨buddy, -, h⟩ := exists_of_bind_eq_ok h
  cases h
  obtain ⟨_, -, hfill⟩ := exists_of_bind_eq_ok hfill
  cases hfill
  rfl

end Heap

/-! ## The invariant -/

/-- **The slabs of one cache under references that may be stale.** The slabs are those of the
cache `c`. In `MEM_MAP` they are the managed pages that are slab heads, and the pages that are slab
heads of the cache. The active slab, the head of the list and all links lead to managed pages. -/
structure CacheInv (sz : ℕ → ℕ) (M : Set ℕ) (hp : Heap) (live : List LiveObj)
    (slabs : List (ℕ × ℕ)) (c : ℕ) : Prop where
  slab : ∃ free, SlabInv sz M hp live free slabs
  own : ∀ e ∈ slabs, e.2 = c
  only : ∀ q s, hp.memMap.InRange q → hp.memMap.slubAt q = some s → q ∈ M ∨ s.cache = c →
    (q, c) ∈ slabs
  active : ∀ p, (hp.caches c).activeSlabPpn = some p → p ∈ M
  head : ∀ p, (hp.caches c).partialSlabsHead = some p → p ∈ M
  links : ∀ q s p, (q, c) ∈ slabs → hp.memMap.slubAt q = some s → s.next = some p → p ∈ M

namespace CacheInv

variable {sz : ℕ → ℕ} {M : Set ℕ} {hp hp' : Heap} {live live' : List LiveObj}
  {slabs : List (ℕ × ℕ)} {c p q : ℕ} {s s' : Slub} {o : LiveObj}

/-- A managed page that is found to be a slab head is a slab. -/
theorem slubAt (h : CacheInv sz M hp live slabs c) (hpM : p ∈ M)
    (hs : hp.memMap.slubAt p = some s) : (p, c) ∈ slabs ∧ ∃ l, SlabOk sz hp live (p, c) s l := by
  obtain ⟨free, hslab⟩ := h.slab
  have hpc := h.only p s (hslab.in_range p hpM) hs (Or.inl hpM)
  obtain ⟨t, l, hok⟩ := hslab.ok _ hpc
  obtain rfl : t = s := Option.some.inj (hok.slub.symm.trans hs)
  exact ⟨hpc, l, hok⟩

theorem in_range (h : CacheInv sz M hp live slabs c) (hpc : (p, c) ∈ slabs) :
    hp.memMap.InRange p := by
  obtain ⟨free, hslab⟩ := h.slab
  exact hslab.head_in_range hpc

theorem setActive (h : CacheInv sz M hp live slabs c) {o : Option ℕ}
    (ho : ∀ p, o = some p → p ∈ M) : CacheInv sz M (hp.setActive c o) live slabs c where
  slab := by
    obtain ⟨free, hs⟩ := h.slab
    exact ⟨free, hs.congr_caches fun d => hp.objectSize_setActive c d o⟩
  own := h.own
  only := h.only
  active p hp := by
    rw [Heap.caches_setActive_self] at hp
    exact ho p hp
  head p hp := by
    rw [Heap.caches_setActive_self] at hp
    exact h.head p hp
  links := h.links

theorem setPartial (h : CacheInv sz M hp live slabs c) {o : Option ℕ}
    (ho : ∀ p, o = some p → p ∈ M) : CacheInv sz M (hp.setPartial c o) live slabs c where
  slab := by
    obtain ⟨free, hs⟩ := h.slab
    exact ⟨free, hs.congr_caches fun d => hp.objectSize_setPartial c d o⟩
  own := h.own
  only := h.only
  active p hp := by
    rw [Heap.caches_setPartial_self] at hp
    exact h.active p hp
  head p hp := by
    rw [Heap.caches_setPartial_self] at hp
    exact ho p hp
  links := h.links

/-- The head of a slab is overwritten. -/
theorem of_setSlub (h : CacheInv sz M hp live slabs c) (hpc : (p, c) ∈ slabs)
    (hnext : ∀ q, s'.next = some q → q ∈ M) {b : BuddySystemFrameAllocator}
    (hslab : ∃ free, SlabInv sz M ⟨b, hp.memMap.setSlub p s', hp.caches⟩ live' free slabs) :
    CacheInv sz M ⟨b, hp.memMap.setSlub p s', hp.caches⟩ live' slabs c where
  slab := hslab
  own := h.own
  only q s hq hs hor := by
    by_cases hqp : q = p
    · exact hqp ▸ hpc
    · refine h.only q s hq ?_ hor
      rwa [← MemMap.slubAt_setSlub_of_ne (h.in_range hpc) hq hqp s']
  active := h.active
  head := h.head
  links q s r hqc hs hr := by
    by_cases hqp : q = p
    · subst hqp
      rw [MemMap.slubAt_setSlub_self, Option.some.injEq] at hs
      exact hnext r (hs ▸ hr)
    · rw [MemMap.slubAt_setSlub_of_ne (h.in_range hpc) (h.in_range hqc) hqp] at hs
      exact h.links q s r hqc hs hr

/-- A new slab stands at the head of the list. -/
theorem newSlab (h : CacheInv sz M hp live slabs c) (hlt : sz c < pageSize)
    (hrun : hp.allocNewSlab c = .ok (some p, hp'))
    (hnew : SlabInv.NewSlab sz M hp live slabs c p hp') :
    CacheInv sz M hp' live ((p, c) :: slabs) c := by
  obtain ⟨free, hs⟩ := h.slab
  obtain ⟨free', hs'⟩ := hnew.inv
  have hpM : p ∈ M := hs'.head_mem List.mem_cons_self
  rw [← hs.size_eq c] at hlt
  obtain ⟨page, hmap⟩ := Heap.memMap_of_allocNewSlab hlt hrun
  have hsame : ∀ q, hp.memMap.InRange q → q ≠ p → hp'.memMap.slubAt q = hp.memMap.slubAt q := by
    intro q hq hne
    rw [hmap, MemMap.slubAt, MemMap.page_set_of_ne (hs.in_range p hpM) hq hne, MemMap.slubAt]
  refine ⟨⟨free', hs'⟩, ?_, fun q s hq hslub hor => ?_, fun q hq => ?_, fun q hq => ?_,
    fun q s r hqc hslub hr => ?_⟩
  · exact List.forall_mem_cons.mpr ⟨rfl, h.own⟩
  · by_cases hqp : q = p
    · rw [hqp]
      exact List.mem_cons_self
    · have hq : hp.memMap.InRange q := by rwa [hmap, MemMap.inRange_set] at hq
      rw [hsame q hq hqp] at hslub
      exact List.mem_cons_of_mem _ (h.only q s hq hslub hor)
  · rw [hnew.caches, Heap.caches_setPartial_self] at hq
    exact h.active q hq
  · rw [hnew.caches, Heap.caches_setPartial_self] at hq
    cases hq
    exact hpM
  · by_cases hqp : q = p
    · subst hqp
      rw [hnew.slub, Option.some.injEq] at hslub
      rw [← hslub, Heap.newSlub_next] at hr
      exact h.head r hr
    · have hqc : (q, c) ∈ slabs := by
        rcases List.mem_cons.mp hqc with heq | hqc
        · exact absurd (Prod.mk.inj heq).1 hqp
        · exact hqc
      rw [hsame q (h.in_range hqc) hqp] at hslub
      exact h.links q s r hqc hslub hr

/-- A slab without live objects is released, wherever the references lead. -/
theorem releaseSlab (h : CacheInv sz M hp live slabs c) (hlt : sz c < pageSize)
    (hpc : (p, c) ∈ slabs) (hempty : liveOf live p = [])
    (hrun : hp.releaseSlab c p = .ok hp') : CacheInv sz M hp' live (slabs.erase (p, c)) c := by
  obtain ⟨free, hs⟩ := h.slab
  obtain ⟨hp₁, free', hrun₁, hs', hcaches, hnone, -⟩ := hs.releaseSlab hpc hempty
  cases hrun₁.symm.trans hrun
  rw [← hs.size_eq c] at hlt
  have hmap := Heap.memMap_of_releaseSlab hlt hrun
  have hsame : ∀ q, hp.memMap.InRange q → q ≠ p → hp'.memMap.slubAt q = hp.memMap.slubAt q := by
    intro q hq hne
    rw [hmap, MemMap.slubAt, MemMap.page_set_of_ne (h.in_range hpc) hq hne, MemMap.slubAt]
  refine ⟨⟨free', hs'⟩, fun e he => h.own e (List.mem_of_mem_erase he),
    fun q s hq hslub hor => ?_, by rw [hcaches]; exact h.active, by rw [hcaches]; exact h.head,
    fun q s r hqc hslub hr => ?_⟩
  · have hqp : q ≠ p := by
      rintro rfl
      rw [hnone] at hslub
      cases hslub
    have hq : hp.memMap.InRange q := by rwa [hmap, MemMap.inRange_set] at hq
    rw [hsame q hq hqp] at hslub
    exact (List.mem_erase_of_ne fun heq => hqp (Prod.mk.inj heq).1).mpr (h.only q s hq hslub hor)
  · have hqp : q ≠ p := by
      rintro rfl
      rw [hnone] at hslub
      cases hslub
    have hqc := List.mem_of_mem_erase hqc
    rw [hsame q (h.in_range hqc) hqp] at hslub
    exact h.links q s r hqc hslub hr

/-! ## Allocation -/

/-- **The loop of `alloc`** when it returns: null and the same live objects, or an object of the
slab that is active now. -/
theorem allocLoop (hsz : SizeOk M (sz c)) (hlt : sz c < pageSize) :
    ∀ n {hp hp' : Heap} {slabs : List (ℕ × ℕ)} {ptr : ℕ}, CacheInv sz M hp live slabs c →
      Heap.allocLoop c n hp = .ok (ptr, hp') →
      (ptr = 0 ∧ ∃ slabs', CacheInv sz M hp' live slabs' c) ∨
        (ptr ≠ 0 ∧ ∃ p slabs', (hp'.caches c).activeSlabPpn = some p ∧
          CacheInv sz M hp' (⟨c, ptr, p⟩ :: live) slabs' c) := by
  intro n
  induction n with
  | zero =>
    intro hp hp' slabs ptr _ hrun
    cases hrun
  | succ n ih =>
    intro hp hp' slabs ptr h hrun
    rw [Heap.allocLoop] at hrun
    cases ha : (hp.caches c).activeSlabPpn with
    | some p =>
      rw [ha] at hrun
      dsimp only at hrun
      obtain ⟨s, hs, hrun⟩ := exists_of_bind_eq_ok hrun
      have hslub := MemMap.slubAt_of_getSlub hs
      obtain ⟨hpc, l, hok⟩ := h.slubAt (h.active p ha) hslub
      split at hrun
      · exact ih (h.setActive (o := none) (by simp)) hrun
      · rename_i hne
        cases hrun
        obtain ⟨free, hslab⟩ := h.slab
        let taken : Slub := { s with freelist := hp.buddy.mem.load s.freelist,
                                     inuse := (s.inuse + 1) % 2 ^ 16 }
        have hnext : ∀ q, taken.next = some q → q ∈ M := fun q hq => h.links p s q hpc hslub hq
        exact Or.inr ⟨hne, p, slabs, ha, h.of_setSlub hpc hnext ⟨free, hslab.take hpc hok hne⟩⟩
    | none =>
      rw [ha] at hrun
      dsimp only at hrun
      cases hhead : (hp.caches c).partialSlabsHead with
      | some p =>
        rw [hhead] at hrun
        dsimp only at hrun
        obtain ⟨s, hs, hrun⟩ := exists_of_bind_eq_ok hrun
        have hslub := MemMap.slubAt_of_getSlub hs
        have hpM := h.head p hhead
        obtain ⟨hpc, -⟩ := h.slubAt hpM hslub
        refine ih ((h.setPartial fun q hq => h.links p s q hpc hslub hq).setActive fun q hq => ?_)
          hrun
        cases hq
        exact hpM
      | none =>
        rw [hhead] at hrun
        dsimp only at hrun
        obtain ⟨⟨r, hp₁⟩, hnew, hrun⟩ := exists_of_bind_eq_ok hrun
        obtain ⟨free, hslab⟩ := h.slab
        rcases hslab.allocNewSlab hsz with ⟨p, hp₂, hrun₂, hslab₂, -⟩ | ⟨hnone, -⟩
        · cases hrun₂.symm.trans hnew
          have h₁ := h.newSlab hlt hrun₂ hslab₂
          obtain ⟨free₁, hslab₁⟩ := h₁.slab
          refine ih (h₁.setActive fun q hq => ?_) hrun
          cases hq
          exact hslab₁.head_mem List.mem_cons_self
        · cases hnone.symm.trans hnew
          cases hrun
          exact Or.inl ⟨rfl, slabs, h⟩

/-! ## Release -/

/-- What the loop of `remove_from_partial` does when it returns: it changes a link, or the head of
the list. -/
theorem removeLoop {target : ℕ} :
    ∀ n {prev current : Option ℕ}, CacheInv sz M hp live slabs c →
      (∀ p, prev = some p → p ∈ M) → (∀ p, current = some p → p ∈ M) →
      hp.removeLoop c target n prev current = .ok hp' → CacheInv sz M hp' live slabs c := by
  intro n
  induction n with
  | zero =>
    intro prev current _ _ _ hrun
    cases hrun
  | succ n ih =>
    intro prev current h hprev hcurrent hrun
    cases current with
    | none => cases hrun
    | some p =>
      rw [Heap.removeLoop] at hrun
      obtain ⟨s, hs, hrun⟩ := exists_of_bind_eq_ok hrun
      have hslub := MemMap.slubAt_of_getSlub hs
      obtain ⟨hpc, -⟩ := h.slubAt (hcurrent p rfl) hslub
      have hnext : ∀ q, s.next = some q → q ∈ M := fun q hq => h.links p s q hpc hslub hq
      split at hrun
      · cases prev with
        | none =>
          cases hrun
          exact h.setPartial hnext
        | some prevPpn =>
          obtain ⟨page, hpage, hrun⟩ := exists_of_bind_eq_ok hrun
          split at hrun
          · rename_i t ht
            cases hrun
            have hprevSlub : hp.memMap.slubAt prevPpn = some t := by
              rw [MemMap.getPageState] at hpage
              split at hpage
              · cases hpage
                exact ht
              · cases hpage
            obtain ⟨hprevc, -⟩ := h.slubAt (hprev prevPpn rfl) hprevSlub
            obtain ⟨free, hslab⟩ := h.slab
            refine h.of_setSlub hprevc ?_ ⟨free, hslab.relink hprevc hprevSlub s.next⟩
            rw [Slub.next_setNext]
            exact hnext
          · cases hrun
            exact h
      · exact ih h (fun q hq => by cases hq; exact hcurrent p rfl) hnext hrun

/-- **`free_object`** of a live object, when it returns. -/
theorem freeObject (h : CacheInv sz M hp live slabs c) (hlt : sz c < pageSize) {o : LiveObj}
    (ho : o ∈ live) (hrun : hp.freeObject o.cache o.ptr o.slab = .ok hp') :
    (∃ slabs', CacheInv sz M hp' (live.erase o) slabs' c) ∧
      ∃ s, hp.memMap.slubAt o.slab = some s ∧ 0 < s.inuse := by
  obtain ⟨free, hslab⟩ := h.slab
  have hpc := hslab.live_slab o ho
  have hc : o.cache = c := h.own _ hpc
  obtain ⟨s, l, hok⟩ := hslab.ok _ hpc
  refine ⟨?_, s, hok.slub, SlabInv.inuse_pos ho hok⟩
  rw [hslab.freeObject_eq ho hok] at hrun
  have hlinks : ∀ q, (s.giveBack o.ptr).next = some q → q ∈ M := fun q hq =>
    h.links o.slab s q (hc ▸ hpc) hok.slub hq
  have hback : CacheInv sz M (hp.giveBack o s) (live.erase o) slabs c :=
    h.of_setSlub (hc ▸ hpc) hlinks ⟨free, hslab.give ho hok⟩
  rw [hc] at hrun hpc
  split at hrun
  · rename_i hone
    have hempty := HeapInv.liveOf_erase_eq_nil ho hok hone
    split at hrun
    · exact ⟨_, (hback.setActive (o := none) (by simp)).releaseSlab hlt hpc hempty hrun⟩
    · obtain ⟨hp₁, hremove, hrun⟩ := exists_of_bind_eq_ok hrun
      have h₁ := removeLoop _ hback (by simp) hback.head hremove
      exact ⟨_, h₁.releaseSlab hlt hpc hempty hrun⟩
  · split at hrun
    · cases hrun
      have hslub : (hp.giveBack o s).memMap.slubAt o.slab = some (s.giveBack o.ptr) :=
        MemMap.slubAt_setSlub_self _
      obtain ⟨free', hslab'⟩ := hback.slab
      have hlinked := hback.of_setSlub hpc (by rw [Slub.next_setNext]; exact hback.head)
        ⟨free', hslab'.relink hpc hslub (hp.caches c).partialSlabsHead⟩
      refine ⟨slabs, hlinked.setPartial fun q hq => ?_⟩
      cases hq
      exact hslab.head_mem hpc
    · cases hrun
      exact ⟨slabs, hback⟩

/-- A write to a word of a live object. -/
theorem write (h : CacheInv sz M hp live slabs c) (hlt : sz c < pageSize) (hdvd : sz c ∣ pageSize)
    {o : LiveObj} (ho : o ∈ live) {x : ℕ} (hx : x ∈ Set.Ico o.ptr (o.ptr + sz o.cache)) (val : ℕ) :
    CacheInv sz M { hp with buddy := { hp.buddy with mem := hp.buddy.mem.store x val } } live slabs
      c := by
  obtain ⟨free, hslab⟩ := h.slab
  have hc : o.cache = c := h.own _ (hslab.live_slab o ho)
  exact ⟨⟨free, hslab.write ho (hc ▸ hlt) (hc ▸ hdvd) hx val⟩, h.own, h.only, h.active, h.head,
    h.links⟩

/-- The free list of a slab and its live objects, where the size divides the page. -/
theorem conserved (h : CacheInv sz M hp live slabs c) (hlt : sz c < pageSize)
    (hdvd : sz c ∣ pageSize) (htop : topPage ∉ M) (hpc : (p, c) ∈ slabs)
    (hs : hp.memMap.slubAt p = some s) :
    ∃ l, Chain (nextFree hp.buddy.mem) (NonNull.new s.freelist) l ∧ l.Nodup ∧
      (∀ a ∈ l, ∃ j < pageSize / sz c, a = physToVirt (p * pageSize) + j * sz c) ∧
      l.Disjoint (liveOf live p) ∧ s.inuse = (liveOf live p).length ∧
      s.inuse + l.length = pageSize / sz c := by
  obtain ⟨free, hslab⟩ := h.slab
  obtain ⟨t, l, hok⟩ := hslab.ok _ hpc
  obtain rfl : t = s := Option.some.inj (hok.slub.symm.trans hs)
  have hpos := (hslab.size_ok _ hpc).pos
  have hcap : slabCapacity (sz c) = pageSize / sz c := by
    obtain ⟨k, hk⟩ := hdvd
    have hpos : 0 < sz c := hpos
    rw [slabCapacity, if_pos hlt, hk, Nat.mul_div_cancel_left k hpos, Nat.add_sub_assoc hpos,
      Nat.mul_add_div hpos, Nat.div_eq_of_lt (Nat.sub_lt hpos Nat.one_pos), Nat.add_zero]
  have hne : p ≠ topPage := fun heq => htop (heq ▸ hslab.head_mem hpc)
  have hnodup := hok.nodup hpos
  refine ⟨l, hok.chain, (List.nodup_append.mp hnodup).1, fun a ha => ?_,
    List.disjoint_of_nodup_append hnodup, hok.inuse, ?_⟩
  · rw [← hcap]
    exact mem_strided.mp (hok.subset_objects hpos (List.mem_append_left _ ha))
  · have hlen := hok.length_eq
    rw [freshObjects_of_ne (Or.inr hne), objects, length_strided] at hlen
    rw [← hcap, Nat.add_comm]
    exact hlen

/-- A live object is live once. -/
theorem ptr_ne (h : CacheInv sz M hp (o :: live) slabs c) {o' : LiveObj} (ho' : o' ∈ live) :
    o'.ptr ≠ o.ptr := by
  obtain ⟨free, hslab⟩ := h.slab
  have hmem : o ∈ o :: live := List.mem_cons_self
  have hmem' : o' ∈ o :: live := List.mem_cons_of_mem _ ho'
  have he := hslab.live_slab o hmem
  have he' := hslab.live_slab o' hmem'
  intro heq
  have hcell := (hslab.object_mem he (hslab.ptr_mem_objects hmem)).2
  have hcell' := (hslab.object_mem he' (hslab.ptr_mem_objects hmem')).2
  rw [heq] at hcell'
  have hslabs : (o'.slab, o'.cache) = (o.slab, o.cache) := by
    by_contra hne
    exact Set.disjoint_left.mp (hslab.disjoint he' he hne) hcell' hcell
  obtain ⟨s, l, hok⟩ := hslab.ok _ he
  have hnodup := (List.nodup_append.mp (hok.nodup (hslab.size_ok _ he).pos)).2.1
  rw [liveOf_cons_self, List.nodup_cons] at hnodup
  refine hnodup.1 ?_
  rw [← heq, ← (Prod.mk.inj hslabs).1]
  exact mem_liveOf ho'

end CacheInv

/-! ## Runs -/

namespace SlubSystem

variable {t t' : SlubSystem} {op : SlubOp} {M : Set ℕ}

/-- **Conservation in the slabs of the cache `c`**: the free list of each is a finite chain without
repetition through addresses `page_base + j * size` of its page, disjoint from the live objects of
the page, `inuse` is the number of these, and the two together are all objects of the page. -/
def SlabConserved (c size : ℕ) (t : SlubSystem) : Prop :=
  ∀ p s, t.heap.memMap.InRange p → t.heap.memMap.slubAt p = some s → s.cache = c →
    ∃ l, Chain (nextFree t.heap.buddy.mem) (NonNull.new s.freelist) l ∧ l.Nodup ∧
      (∀ a ∈ l, ∃ j < pageSize / size, a = physToVirt (p * pageSize) + j * size) ∧
      l.Disjoint (liveOf t.live p) ∧ s.inuse = (liveOf t.live p).length ∧
      s.inuse + l.length = pageSize / size

/-- What an operation does: an object that `alloc` returns was not live, and the count that
`free_object` decrements is not zero. -/
def Sound (t t' : SlubSystem) : SlubOp → Prop
  | .alloc _ => t'.live = t.live ∨ ∃ o, t'.live = o :: t.live ∧ ∀ o' ∈ t.live, o'.ptr ≠ o.ptr
  | .freeObject o => ∃ s, t.heap.memMap.slubAt o.slab = some s ∧ 0 < s.inuse
  | .write .. => True

/-- Operations of clients of the cache `c` only. -/
def CacheOp (c : ℕ) (t : SlubSystem) : SlubOp → Prop
  | .alloc d => d = c
  | .freeObject o => o ∈ t.live
  | .write ptr _ => ∃ o ∈ t.live, 8 ∣ ptr ∧ ptr ∈ t.bytes o

/-- No page that the buddy allocator holds is a slab, and no page is a slab of a new cache. -/
def NoSlabs (memMap : MemMap) (M : Set ℕ) (c : ℕ) : Prop :=
  ∀ p s, memMap.InRange p → memMap.slubAt p = some s → p ∉ M ∧ s.cache ≠ c

/-- The invariant of runs of one cache. -/
def OneInv (M : Set ℕ) (requestedSize : ℕ → ℕ) (c : ℕ) (t : SlubSystem) : Prop :=
  ∃ slabs, CacheInv (fun c => (KmemCache.new (requestedSize c)).objectSize) M t.heap t.live slabs c

variable {requestedSize : ℕ → ℕ} {c : ℕ}

theorem OneInv.new {buddy : BuddySystemFrameAllocator} {memMap : MemMap} {free : ℕ → List ℕ}
    (hfree : buddy.Inv free M) (hrange : ∀ p ∈ M, memMap.InRange p)
    (hclean : NoSlabs memMap M c) :
    OneInv M requestedSize c (SlubSystem.new buddy memMap requestedSize) := by
  refine ⟨[], ⟨free, ?_, hrange, fun _ => rfl, by simp, by simp, by simp, ?_⟩, by simp,
    fun q s hq hs hor => ?_, ?_, ?_, by simp⟩
  · refine ⟨?_, List.Pairwise.nil, by simp, by simp, hfree.addressable⟩
    rw [List.map_nil, used_nil, Set.sdiff_empty]
    exact hfree
  · simp [SlubSystem.new]
  · obtain ⟨hno, hne⟩ := hclean q s hq hs
    exact (hor.elim hno hne).elim
  · simp [SlubSystem.new, KmemCache.new]
  · simp [SlubSystem.new, KmemCache.new]

theorem OneInv.slabConserved (h : OneInv M requestedSize c t)
    (hlt : (KmemCache.new (requestedSize c)).objectSize < pageSize)
    (hdvd : (KmemCache.new (requestedSize c)).objectSize ∣ pageSize) (htop : topPage ∉ M) :
    t.SlabConserved c (KmemCache.new (requestedSize c)).objectSize := by
  obtain ⟨slabs, hinv⟩ := h
  intro p s hin hs hcache
  exact hinv.conserved hlt hdvd htop (hinv.only p s hin hs (Or.inr hcache)) hs

/-- An operation that returns keeps the invariant and is sound. -/
theorem OneInv.of_step (h : OneInv M requestedSize c t)
    (hsz : SizeOk M (KmemCache.new (requestedSize c)).objectSize)
    (hlt : (KmemCache.new (requestedSize c)).objectSize < pageSize)
    (hdvd : (KmemCache.new (requestedSize c)).objectSize ∣ pageSize) (ha : t.CacheOp c op)
    (hstep : t.step op = .ok t') : OneInv M requestedSize c t' ∧ Sound t t' op := by
  obtain ⟨slabs, hinv⟩ := h
  cases op with
  | alloc d =>
    have hd : d = c := ha
    subst hd
    obtain ⟨⟨ptr, heap⟩, hrun, hstep⟩ := exists_of_bind_eq_ok hstep
    dsimp only at hstep
    rcases hinv.allocLoop hsz hlt walkLimit hrun with ⟨hzero, slabs', hinv'⟩ |
      ⟨hne, p, slabs', hact, hinv'⟩
    · rw [if_pos hzero] at hstep
      cases hstep
      exact ⟨⟨slabs', hinv'⟩, Or.inl rfl⟩
    · rw [if_neg hne, hact] at hstep
      cases hstep
      exact ⟨⟨slabs', hinv'⟩, Or.inr ⟨_, rfl, fun o' ho' => hinv'.ptr_ne ho'⟩⟩
  | freeObject o =>
    obtain ⟨heap, hrun, hstep⟩ := exists_of_bind_eq_ok hstep
    cases hstep
    exact hinv.freeObject hlt ha hrun
  | write ptr val =>
    obtain ⟨o, ho, -, hx⟩ := ha
    cases hstep
    obtain ⟨free, hs⟩ := hinv.slab
    rw [bytes, hs.size_eq] at hx
    exact ⟨⟨slabs, hinv.write hlt hdvd ho hx val⟩, trivial⟩

/-- **Conservation in the slabs of one cache**: from a new cache whose object size divides the page,
over any free pages without the last one below 4 GiB, along every run of the cache's clients, every
state that is reached has all slabs of the cache conserved, `alloc` returns no object that is live
and `free_object` decrements no count of zero. -/
theorem slabConserved_along (requestedSize : ℕ → ℕ) (c : ℕ)
    (hdvd : (KmemCache.new (requestedSize c)).objectSize ∣ pageSize)
    (hle : (KmemCache.new (requestedSize c)).objectSize ≤ 2048)
    (buddy : BuddySystemFrameAllocator) (memMap : MemMap) (M : Set ℕ) (free : ℕ → List ℕ)
    (hfree : buddy.Inv free M) (hrange : ∀ p ∈ M, memMap.InRange p) (hclean : NoSlabs memMap M c)
    (htop : 0xFFFFF ∉ M) (ops : List SlubOp)
    (h : Along step (CacheOp c) (new buddy memMap requestedSize) ops) :
    SlabConserved c (KmemCache.new (requestedSize c)).objectSize (new buddy memMap requestedSize) ∧
    Along step (fun t op => ∀ t', t.step op = .ok t' →
      SlabConserved c (KmemCache.new (requestedSize c)).objectSize t' ∧ Sound t t' op)
      (new buddy memMap requestedSize) ops := by
  have hlt : (KmemCache.new (requestedSize c)).objectSize < pageSize := hle.trans_lt (by decide)
  have hsz : SizeOk M (KmemCache.new (requestedSize c)).objectSize :=
    .of_lt (objectSize_new _).1 (objectSize_new _).2 hlt
  have hstart : OneInv M requestedSize c (new buddy memMap requestedSize) :=
    OneInv.new hfree hrange hclean
  refine ⟨hstart.slabConserved hlt hdvd htop, Along.of_invariant (I := OneInv M requestedSize c)
    (fun t op hI hA => ⟨fun t' ht' => ?_, fun t' ht' => (hI.of_step hsz hlt hdvd hA ht').1⟩)
    hstart h⟩
  obtain ⟨hI', hsound⟩ := hI.of_step hsz hlt hdvd hA ht'
  exact ⟨hI'.slabConserved hlt hdvd htop, hsound⟩

instance (c : ℕ) (t : SlubSystem) : ∀ op, Decidable (t.CacheOp c op)
  | .alloc d => inferInstanceAs (Decidable (d = c))
  | .freeObject o => inferInstanceAs (Decidable (o ∈ t.live))
  | .write ptr _ => inferInstanceAs (Decidable (∃ o ∈ t.live, 8 ∣ ptr ∧
      (o.ptr ≤ ptr ∧ ptr < o.ptr + (t.heap.caches o.cache).objectSize)))

/-- A table without slabs. -/
theorem noSlabs_of_free (len ramStartPpn : ℕ) (M : Set ℕ) (c : ℕ) :
    NoSlabs ⟨fun _ => ⟨0, .free⟩, len, ramStartPpn⟩ M c := fun _ _ _ hs => nomatch hs

/-- Two objects fill a slab, one of them is written to, a third takes another slab, and the first
slab is released while the list still leads to it. -/
theorem slabConserved_along_sample :
    SlabConserved 0 (KmemCache.new 2048).objectSize (new sampleBuddy sampleMap fun _ => 2048) ∧
    Along step (fun t op => ∀ t', t.step op = .ok t' →
      SlabConserved 0 (KmemCache.new 2048).objectSize t' ∧ Sound t t' op)
      (new sampleBuddy sampleMap fun _ => 2048)
      [.alloc 0, .alloc 0, .write (physToVirt (0x80002 * pageSize) + 8) 5, .alloc 0,
        .freeObject (sampleObj 0 0x80002 0), .freeObject (sampleObj 0 0x80002 2048), .alloc 0] := by
  obtain ⟨free, hfree⟩ := sampleBuddy_inv
  exact slabConserved_along (fun _ => 2048) 0 (by decide) (by decide) _ _ _ free hfree
    sampleMap_inRange (noSlabs_of_free _ _ _ _) topPage_notMem_sample _ (by decide +kernel)

/-- **The last page below 4 GiB**: its slab is not carved, since the end address wraps to zero. The
first object is taken from it, and there is no second one. -/
theorem slabConserved_top_page :
    (∃ free, (ofRegion 0xFFFFF 0x100000).Inv free (Set.Ico 0xFFFFF 0x100000)) ∧
    (∀ p ∈ Set.Ico 0xFFFFF 0x100000, MemMap.InRange ⟨fun _ => ⟨0, .free⟩, 1, 0xFFFFF⟩ p) ∧
    NoSlabs ⟨fun _ => ⟨0, .free⟩, 1, 0xFFFFF⟩ (Set.Ico 0xFFFFF 0x100000) 0 ∧
    Along step (CacheOp 0)
      (new (ofRegion 0xFFFFF 0x100000) ⟨fun _ => ⟨0, .free⟩, 1, 0xFFFFF⟩ fun _ => 2048) [.alloc 0] ∧
    ∃ t, exec step
        (new (ofRegion 0xFFFFF 0x100000) ⟨fun _ => ⟨0, .free⟩, 1, 0xFFFFF⟩ fun _ => 2048)
        [.alloc 0] =
          .ok t ∧
      ¬ SlabConserved 0 (KmemCache.new 2048).objectSize t := by
  refine ⟨?_, fun p hp => ?_, noSlabs_of_free _ _ _ _, by decide +kernel, ?_⟩
  · obtain ⟨free, howns⟩ := @Owns.ofRegion 0xFFFFF 0x100000 (by decide) (by decide)
    have hinv := howns.inv
    rw [used_nil, Set.sdiff_empty] at hinv
    exact ⟨free, hinv⟩
  · rw [Set.mem_Ico] at hp
    exact ⟨hp.1, hp.2, hp.2.trans (by decide)⟩
  · obtain ⟨t, hrun, hpart⟩ := exists_of_map_eq_ok
      (x := exec step
        (new (ofRegion 0xFFFFF 0x100000) ⟨fun _ => ⟨0, .free⟩, 1, 0xFFFFF⟩ fun _ => 2048)
        [.alloc 0])
      (f := fun t => (t.heap.memMap.len, t.heap.memMap.ramStartPpn, t.heap.memMap.slubAt 0xFFFFF))
      (a := (1, 0xFFFFF, some ⟨0, 1, 0, false, 0⟩)) (by decide +kernel)
    obtain ⟨hlen, hrest⟩ := Prod.mk.inj hpart
    obtain ⟨hstart, hslub⟩ := Prod.mk.inj hrest
    refine ⟨t, hrun, fun hall => ?_⟩
    have hin : t.heap.memMap.InRange 0xFFFFF := by
      rw [MemMap.InRange, hlen, hstart]
      decide
    obtain ⟨l, hchain, -, -, -, -, hcount⟩ := hall 0xFFFFF _ hin hslub rfl
    cases l with
    | nil => exact absurd hcount (by decide)
    | cons a l => exact absurd hchain.1 (by simp [NonNull.new])

end SlubSystem

end CharlotteOs
