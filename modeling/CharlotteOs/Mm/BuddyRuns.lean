import Mathlib.Data.List.Flatten
import CharlotteOs.Lib.Run
import CharlotteOs.Mm.BuddyUse

/-!
# Whole runs of the buddy allocator

The allocator with its clients: regions are added, blocks are allocated and released, and clients
write to the words of the blocks they hold. The run keeps the regions and the live allocations
next to the allocator, so that the allowed operations and the result can be said of them.

## Main definitions

* `BuddySystem`, `BuddySystem.step`: the allocator, what was added and what is live
* `BuddySystem.Allowed`, `BuddySystem.Separated`: the operations a client may take, and regions
  that touch no other
* `BuddySystem.WellFormed`: lists, alignment, disjointness and cover, said of the memory itself

## Main results

* `BuddySystem.step_spec`: an allowed step succeeds and keeps the invariant
* `BuddySystem.wellFormed_along`: every allowed run is well formed throughout
* `BuddySystem.coalescing_canonical`: with separated regions, the free pages determine the blocks
* `BuddySystem.alloc_complete`: then `alloc` fails only if no aligned run of free pages is long
  enough
-/

namespace CharlotteOs

open LinkedChain DyadicTiling FallibleRun

/-- An operation on the allocator or, last, of a client that holds a block. -/
inductive BuddyOp where
  | addFreeRegion (startPpn endPpn : ℕ)
  | alloc (pages : ℕ)
  | dealloc (ppn pages : ℕ)
  | write (pa val : ℕ)
  deriving DecidableEq, Repr

/-- The allocator with the page ranges that were added to it and the allocations that are live, as
pairs of the page and the number of pages asked for. -/
structure BuddySystem where
  buddy : BuddySystemFrameAllocator
  regions : List (ℕ × ℕ)
  live : List (ℕ × ℕ)

namespace BuddySystem

open BuddySystemFrameAllocator (used used_cons used_nil freeBlocks Owns Coal Addressable Inv)

/-- The allocator as `BuddySystemFrameAllocator::new` leaves it. -/
def new (m : Mem) : BuddySystem := ⟨BuddySystemFrameAllocator.new m, [], []⟩

/-- One operation. -/
def step (t : BuddySystem) : BuddyOp → Except Fault BuddySystem
  | .addFreeRegion startPpn endPpn => do
    let buddy ← t.buddy.addFreeRegion startPpn endPpn
    .ok { t with buddy, regions := (startPpn, endPpn) :: t.regions }
  | .alloc pages => do
    match ← t.buddy.alloc pages with
    | (none, buddy) => .ok { t with buddy }
    | (some ppn, buddy) => .ok { t with buddy, live := (ppn, pages) :: t.live }
  | .dealloc ppn pages => do
    let buddy ← t.buddy.dealloc ppn pages
    .ok { t with buddy, live := t.live.erase (ppn, pages) }
  | .write pa val =>
    .ok { t with buddy := { t.buddy with mem := t.buddy.mem.store (physToVirt pa) val } }

/-- The managed pages. -/
def managed (t : BuddySystem) : Set ℕ := {p | ∃ r ∈ t.regions, p ∈ Set.Ico r.1 r.2}

/-- The block of a live allocation. -/
def liveBlock (e : ℕ × ℕ) : Block := Block.containing (Nat.clog 2 e.2) e.1

/-- The pages of the live allocations. -/
def livePages (t : BuddySystem) : Set ℕ :=
  {p | ∃ e ∈ t.live, e.1 ≤ p ∧ p < e.1 + 2 ^ Nat.clog 2 e.2}

/-- What a client may do: add pages that are not managed, that exclude page `0` and on which
`phys_to_virt` does not overflow; ask for a positive number of pages; release what is live, as it
was allocated; and write to the words of live blocks. -/
def Allowed (t : BuddySystem) : BuddyOp → Prop
  | .addFreeRegion startPpn endPpn =>
    Addressable (Set.Ico startPpn endPpn) ∧ Disjoint (Set.Ico startPpn endPpn) t.managed
  | .alloc pages => 0 < pages ∧ pages < 2 ^ 64
  | .dealloc ppn pages => (ppn, pages) ∈ t.live
  | .write pa _ => 8 ∣ pa ∧ pa / pageSize ∈ t.livePages

/-- A new region has a page that is not managed on either side. -/
def Separated (t : BuddySystem) : BuddyOp → Prop
  | .addFreeRegion startPpn endPpn => startPpn - 1 ∉ t.managed ∧ endPpn ∉ t.managed
  | _ => True

/-! ## The invariant -/

/-- The live allocations are the blocks in use of the managed pages. -/
structure Holds (t : BuddySystem) (free : ℕ → List ℕ) : Prop where
  owns : Owns t.buddy free t.managed (t.live.map liveBlock)
  pages_pos : ∀ e ∈ t.live, 0 < e.2
  pages_lt : ∀ e ∈ t.live, e.2 < 2 ^ 64
  aligned : ∀ e ∈ t.live, 2 ^ Nat.clog 2 e.2 ∣ e.1

variable {t t' : BuddySystem} {free : ℕ → List ℕ} {op : BuddyOp}

theorem managed_cons (t : BuddySystem) (r : ℕ × ℕ) (buddy : BuddySystemFrameAllocator) :
    managed { t with buddy, regions := r :: t.regions } = t.managed ∪ Set.Ico r.1 r.2 := by
  ext p
  simp [managed, or_comm]

namespace Holds

theorem new (m : Mem) : Holds (BuddySystem.new m) fun _ => [] where
  owns := by
    have hempty : managed (BuddySystem.new m) = ∅ := by
      ext p
      simp [managed, BuddySystem.new]
    rw [hempty]
    exact Owns.new m
  pages_pos := by simp [BuddySystem.new]
  pages_lt := by simp [BuddySystem.new]
  aligned := by simp [BuddySystem.new]

theorem liveBlock_base (h : Holds t free) {e : ℕ × ℕ} (he : e ∈ t.live) :
    (liveBlock e).base = e.1 :=
  Block.containing_base (h.aligned e he)

theorem mem_liveBlock (h : Holds t free) {e : ℕ × ℕ} (he : e ∈ t.live) {p : ℕ} :
    p ∈ (liveBlock e).cells ↔ e.1 ≤ p ∧ p < e.1 + 2 ^ Nat.clog 2 e.2 := by
  rw [Block.mem_cells, h.liveBlock_base he]
  rfl

theorem used_eq (h : Holds t free) : used (t.live.map liveBlock) = t.livePages := by
  ext p
  constructor
  · rintro ⟨b, hb, hp⟩
    obtain ⟨e, he, rfl⟩ := List.mem_map.mp hb
    exact ⟨e, he, (h.mem_liveBlock he).mp hp⟩
  · rintro ⟨e, he, hp⟩
    exact ⟨liveBlock e, List.mem_map_of_mem he, (h.mem_liveBlock he).mpr hp⟩

end Holds

/-- **Allowed steps** succeed and keep the invariant, and keep the lists coalesced where regions
are separated. -/
theorem step_spec (h : Holds t free) (ha : t.Allowed op) :
    ∃ t' free', t.step op = .ok t' ∧ Holds t' free' ∧
      (Coal free → t.Separated op → Coal free') := by
  cases op with
  | addFreeRegion startPpn endPpn =>
    obtain ⟨s', free', hs', howns, hcoal⟩ := h.owns.addFreeRegion ha.1 ha.2
    refine ⟨{ t with buddy := s', regions := (startPpn, endPpn) :: t.regions }, free', ?_,
      ⟨?_, h.pages_pos, h.pages_lt, h.aligned⟩, fun hc hsep => hcoal hc hsep.1 hsep.2⟩
    · rw [step, hs']
      rfl
    · rw [managed_cons]
      exact howns
  | alloc pages =>
    rcases h.owns.alloc ha.1 ha.2 with ⟨s', free', r, hs', hr, howns, hcoal, -⟩ | hnone
    · have hdvd : 2 ^ Nat.clog 2 pages ∣ r.base := hr ▸ r.aligned
      have hblock : liveBlock (r.base, pages) = r :=
        Block.ext (Block.containing_base hdvd) hr.symm
      refine ⟨{ t with buddy := s', live := (r.base, pages) :: t.live }, free', ?_,
        ⟨?_, ?_, ?_, ?_⟩, fun hc _ => hcoal hc⟩
      · rw [step, hs']
        rfl
      · rw [List.map_cons, hblock]
        exact howns
      · exact List.forall_mem_cons.mpr ⟨ha.1, h.pages_pos⟩
      · exact List.forall_mem_cons.mpr ⟨ha.2, h.pages_lt⟩
      · exact List.forall_mem_cons.mpr ⟨hdvd, h.aligned⟩
    · refine ⟨t, free, ?_, h, fun hc _ => hc⟩
      rw [step, hnone]
      rfl
  | dealloc ppn pages =>
    have hlive : (ppn, pages) ∈ t.live := ha
    have hperm := (List.perm_cons_erase hlive).map liveBlock
    obtain ⟨s', free', hs', howns, hcoal, -⟩ := h.owns.dealloc hperm (h.pages_pos _ hlive)
      (h.pages_lt _ hlive) rfl
    rw [h.liveBlock_base hlive] at hs'
    refine ⟨{ t with buddy := s', live := t.live.erase (ppn, pages) }, free', ?_, ⟨howns, ?_, ?_,
      ?_⟩, fun hc _ => hcoal hc⟩
    · rw [step, hs']
      rfl
    · exact fun e he => h.pages_pos e (List.mem_of_mem_erase he)
    · exact fun e he => h.pages_lt e (List.mem_of_mem_erase he)
    · exact fun e he => h.aligned e (List.mem_of_mem_erase he)
  | write pa val =>
    obtain ⟨-, hpa⟩ := ha
    have hused : pa / pageSize ∈ used (t.live.map liveBlock) := by rwa [h.used_eq]
    have hlt := h.owns.addressable.lt (h.owns.used_subset hused)
    have hpalt : pa < 2 ^ 32 := by
      change pa / 4096 < 2 ^ 20 at hlt
      omega
    refine ⟨_, free, rfl, ⟨h.owns.congr_mem ?_, h.pages_pos, h.pages_lt, h.aligned⟩,
      fun hc _ => hc⟩
    rw [Mem.store_physToVirt _ _ hpalt]
    intro a hne
    refine Function.update_of_ne ?_ _ _
    rintro rfl
    exact hne fun hF => hF.2 hused

/-- A state that satisfies the invariant steps to one that does. -/
theorem Holds.of_step (h : ∃ free, Holds t free) (ha : t.Allowed op) (hs : t.step op = .ok t') :
    ∃ free', Holds t' free' := by
  obtain ⟨free, h⟩ := h
  obtain ⟨t'', free', hs'', h', -⟩ := step_spec h ha
  cases hs''.symm.trans hs
  exact ⟨free', h'⟩

/-! ## Well-formedness -/

/-- The free blocks on the lists `free` and the live blocks, as pairs of the first page and the
number of pages. -/
def blocks (t : BuddySystem) (free : ℕ → List ℕ) : List (ℕ × ℕ) :=
  (List.range maxOrder).flatMap (fun k => (free k).map (·, 2 ^ k)) ++
    t.live.map fun e => (e.1, 2 ^ Nat.clog 2 e.2)

/-- **Well-formedness** of the allocator with the pages `free k` on list `k`: each list is a
finite chain without repetition, its blocks are aligned to their size, and the free and live
blocks are pairwise disjoint and cover exactly the pages that were added. -/
structure WellFormed (t : BuddySystem) (free : ℕ → List ℕ) : Prop where
  chain : ∀ k < maxOrder,
    Chain (nextOf t.buddy.mem) (t.buddy.freeLists k) ((free k).map (· * pageSize))
  nodup : ∀ k < maxOrder, (free k).Nodup
  aligned : ∀ k < maxOrder, ∀ p ∈ free k, 2 ^ k ∣ p
  disjoint : (t.blocks free).Pairwise fun b c => b.1 + b.2 ≤ c.1 ∨ c.1 + c.2 ≤ b.1
  cover : ∀ p, (∃ r ∈ t.regions, r.1 ≤ p ∧ p < r.2) ↔
    ∃ b ∈ t.blocks free, b.1 ≤ p ∧ p < b.1 + b.2

/-- Blocks that share no page lie one after the other. -/
theorem before_or_after {b c : Block} (h : Disjoint b.cells c.cells) :
    b.base + 2 ^ b.order ≤ c.base ∨ c.base + 2 ^ c.order ≤ b.base := by
  by_contra hcon
  push Not at hcon
  have hmem : max b.base c.base ∈ b.cells ∧ max b.base c.base ∈ c.cells := by
    simp only [Block.mem_cells]
    have := Nat.two_pow_pos b.order
    have := Nat.two_pow_pos c.order
    omega
  exact Set.disjoint_left.mp h hmem.1 hmem.2

theorem mem_blocks (h : Holds t free) {x : ℕ × ℕ} :
    x ∈ t.blocks free ↔
      ∃ b, (b ∈ freeBlocks free ∨ b ∈ t.live.map liveBlock) ∧ x = (b.base, 2 ^ b.order) := by
  simp only [blocks, List.mem_append, List.mem_flatMap, List.mem_range, List.mem_map]
  constructor
  · rintro (⟨k, hk, p, hp, rfl⟩ | ⟨e, he, rfl⟩)
    · obtain ⟨b, hb, rfl, rfl⟩ := h.owns.inv.exists_block hk hp
      exact ⟨b, Or.inl hb, rfl⟩
    · refine ⟨liveBlock e, Or.inr ⟨e, he, rfl⟩, ?_⟩
      rw [h.liveBlock_base he]
      rfl
  · rintro ⟨b, ⟨hk, hb⟩ | ⟨e, he, rfl⟩, rfl⟩
    · exact Or.inl ⟨b.order, hk, b.base, hb, rfl⟩
    · refine Or.inr ⟨e, he, ?_⟩
      rw [h.liveBlock_base he]
      rfl

/-- Blocks are disjoint within one list, between two lists, between live blocks, and between a free
block and a live one. -/
theorem pairwise_blocks (h : Holds t free) :
    (t.blocks free).Pairwise fun b c => b.1 + b.2 ≤ c.1 ∨ c.1 + c.2 ≤ b.1 := by
  have htiles := h.owns.inv.tiles
  have hfree : ∀ j < maxOrder, ∀ k < maxOrder, ∀ p ∈ free j, ∀ q ∈ free k, (p, j) ≠ (q, k) →
      p + 2 ^ j ≤ q ∨ q + 2 ^ k ≤ p := by
    intro j hj k hk p hp q hq hne
    obtain ⟨b, hb, rfl, rfl⟩ := h.owns.inv.exists_block hj hp
    obtain ⟨c, hc, rfl, rfl⟩ := h.owns.inv.exists_block hk hq
    exact before_or_after (htiles.disjoint b hb c hc fun heq => hne (by rw [heq]))
  refine List.pairwise_append.mpr ⟨List.pairwise_flatMap.mpr ⟨?_, ?_⟩, ?_, ?_⟩
  · intro k hk
    rw [List.mem_range] at hk
    refine List.pairwise_map.mpr (List.Pairwise.imp_of_mem ?_ (h.owns.inv.nodup hk))
    exact fun hp hq hne => hfree k hk k hk _ hp _ hq (by simpa using hne)
  · refine List.nodup_range.imp_of_mem fun {j k} hj hk hne x hx y hy => ?_
    rw [List.mem_range] at hj hk
    obtain ⟨p, hp, rfl⟩ := List.mem_map.mp hx
    obtain ⟨q, hq, rfl⟩ := List.mem_map.mp hy
    exact hfree j hj k hk p hp q hq (by simp [hne])
  · have hlive := List.pairwise_map.mp h.owns.disjoint
    refine List.pairwise_map.mpr (hlive.imp_of_mem fun {e e'} he he' hd => ?_)
    have := before_or_after hd
    rwa [h.liveBlock_base he, h.liveBlock_base he'] at this
  · intro x hx y hy
    obtain ⟨k, hk, hx⟩ := List.mem_flatMap.mp hx
    obtain ⟨p, hp, rfl⟩ := List.mem_map.mp hx
    obtain ⟨e, he, rfl⟩ := List.mem_map.mp hy
    obtain ⟨b, hb, rfl, rfl⟩ := h.owns.inv.exists_block (List.mem_range.mp hk) hp
    have hd : Disjoint b.cells (liveBlock e).cells := by
      rw [Set.disjoint_left]
      exact fun p hp hpe => (htiles.subset hb hp).2 ⟨_, List.mem_map_of_mem he, hpe⟩
    have := before_or_after hd
    rwa [h.liveBlock_base he] at this

theorem Holds.wellFormed (h : Holds t free) : WellFormed t free where
  chain := h.owns.inv.chain
  nodup _ hk := h.owns.inv.nodup hk
  aligned := h.owns.inv.aligned
  disjoint := pairwise_blocks h
  cover p := by
    have hcover : p ∈ t.managed ↔ ∃ b, (b ∈ freeBlocks free ∨ b ∈ t.live.map liveBlock) ∧
        p ∈ b.cells := by
      constructor
      · intro hp
        by_cases hu : p ∈ used (t.live.map liveBlock)
        · obtain ⟨b, hb, hpb⟩ := hu
          exact ⟨b, Or.inr hb, hpb⟩
        · obtain ⟨b, hb, hpb⟩ := (h.owns.inv.tiles.cover p).mp ⟨hp, hu⟩
          exact ⟨b, Or.inl hb, hpb⟩
      · rintro ⟨b, hb | hb, hpb⟩
        · exact (h.owns.inv.tiles.subset hb hpb).1
        · exact h.owns.subset b hb hpb
    rw [show (∃ r ∈ t.regions, r.1 ≤ p ∧ p < r.2) ↔ p ∈ t.managed from Iff.rfl, hcover]
    constructor
    · rintro ⟨b, hb, hp⟩
      exact ⟨_, (mem_blocks h).mpr ⟨b, hb, rfl⟩, hp⟩
    · rintro ⟨x, hx, hp⟩
      obtain ⟨b, hb, rfl⟩ := (mem_blocks h).mp hx
      exact ⟨b, hb, hp⟩

/-- **Every allowed run is well formed**: none of its operations panics or loops, and the
allocator is well formed after each of them. -/
theorem wellFormed_along (m : Mem) (ops : List BuddyOp)
    (h : Along step Allowed (new m) ops) :
    Along step (fun t op => ∃ t', t.step op = .ok t' ∧ ∃ free, WellFormed t' free) (new m) ops := by
  refine Along.of_invariant (I := fun t => ∃ free, Holds t free) ?_ ⟨_, Holds.new m⟩ h
  rintro t op ⟨free, hinv⟩ ha
  obtain ⟨t', free', hs', hinv', -⟩ := step_spec hinv ha
  exact ⟨⟨t', hs', free', hinv'.wellFormed⟩, fun t'' hs'' => Holds.of_step ⟨free, hinv⟩ ha hs''⟩

/-- A client that takes three pages, writes to them and gives them back. -/
def sampleClient : List BuddyOp := [.alloc 3, .write (4 * pageSize + 8) 7, .dealloc 4 3]

theorem allowed_sampleRegion (m : Mem) :
    (new m).Allowed (.addFreeRegion 2 8) ∧ (new m).Separated (.addFreeRegion 2 8) := by
  refine ⟨⟨.of_lt fun p hp => ?_, ?_⟩, ?_, ?_⟩
  · rw [Set.mem_Ico] at hp
    omega
  · simp [managed, new]
  · simp [managed, new]
  · simp [managed, new]

theorem allowed_sampleClient {t : BuddySystem}
    (ht : (new fun _ => 0).step (.addFreeRegion 2 8) = .ok t) :
    Along step (fun u op => u.Allowed op ∧ ∀ a b, op ≠ .addFreeRegion a b) t sampleClient := by
  cases ht
  refine ⟨⟨(by decide : 0 < 3 ∧ 3 < 2 ^ 64), by simp⟩, fun t₁ h₁ => ?_⟩
  cases h₁
  refine ⟨⟨⟨by decide, (4, 3), List.mem_singleton_self _, by decide⟩, by simp⟩, fun t₂ h₂ => ?_⟩
  cases h₂
  exact ⟨⟨List.mem_singleton_self _, by simp⟩, fun _ _ => trivial⟩

theorem wellFormed_along_sample :
    Along step (fun t op => ∃ t', t.step op = .ok t' ∧ ∃ free, WellFormed t' free)
      (new fun _ => 0) (.addFreeRegion 2 8 :: sampleClient) := by
  refine wellFormed_along _ _ ⟨(allowed_sampleRegion _).1, fun t ht => ?_⟩
  exact Along.of_invariant (I := fun _ => True) (fun _ _ _ ha => ⟨ha.1, fun _ _ => trivial⟩)
    trivial (allowed_sampleClient ht)

/-! ## Coalescing -/

/-- The invariant of runs whose regions are separated. -/
def Canonical (t : BuddySystem) : Prop := ∃ free, Holds t free ∧ Coal free

theorem Holds.freePages_eq (h : Holds t free) : t.buddy.freePages = t.managed \ t.livePages := by
  rw [h.owns.inv.freePages_eq, h.used_eq]

/-- In a coalesced state no block and its buddy are both free. -/
theorem Canonical.buddy_not_mem (h : Canonical t) {k : ℕ} (hk : k < maxOrder - 1) {a : ℕ}
    (ha : a ∈ t.buddy.onList k) : a ^^^ 2 ^ (k + pageSizeBits) ∉ t.buddy.onList k := by
  obtain ⟨free, hinv, hcoal⟩ := h
  obtain ⟨b, hb, rfl, rfl⟩ := (hinv.owns.inv.mem_onList_iff_block (by omega)).mp ha
  rw [BuddySystemFrameAllocator.addr_xor_size, hinv.owns.inv.mem_onList_iff_block (by omega)]
  rintro ⟨c, hc, hord, hbase⟩
  obtain rfl : c = b.buddy :=
    Block.ext (Nat.eq_of_mul_eq_mul_right (by decide) hbase) hord
  exact hcoal.buddy b hb hk hc

/-- Coalesced states with the same free pages have the same blocks of each order. -/
theorem Canonical.onList_eq (h : Canonical t) (h' : Canonical t')
    (heq : t.buddy.freePages = t'.buddy.freePages) {k : ℕ} (hk : k < maxOrder) :
    t.buddy.onList k = t'.buddy.onList k := by
  obtain ⟨free, hinv, hcoal⟩ := h
  obtain ⟨free', hinv', hcoal'⟩ := h'
  rw [hinv.freePages_eq, hinv'.freePages_eq, ← hinv.used_eq, ← hinv'.used_eq] at heq
  have htiles := hinv'.owns.inv.tiles
  rw [← heq] at htiles
  have hblocks := hinv.owns.inv.tiles.unique htiles hcoal hcoal'
  ext a
  rw [hinv.owns.inv.mem_onList_iff_block hk, hinv'.owns.inv.mem_onList_iff_block hk, hblocks]

theorem Canonical.new (m : Mem) : Canonical (BuddySystem.new m) :=
  ⟨_, Holds.new m, by simp [freeBlocks], by simp [freeBlocks]⟩

theorem Canonical.of_step (h : Canonical t) (ha : t.Allowed op) (hsep : t.Separated op)
    (hs : t.step op = .ok t') : Canonical t' := by
  obtain ⟨free, hinv, hcoal⟩ := h
  obtain ⟨t'', free', hs'', hinv', hcoal'⟩ := step_spec hinv ha
  cases hs''.symm.trans hs
  exact ⟨free', hinv', hcoal' hcoal hsep⟩

theorem Canonical.freePages_eq (h : Canonical t) : t.buddy.freePages = t.managed \ t.livePages := by
  obtain ⟨free, hinv, -⟩ := h
  exact hinv.freePages_eq

/-- Only `add_free_region` changes what is managed. -/
theorem regions_of_step (hop : ∀ a b, op ≠ .addFreeRegion a b) (hs : t.step op = .ok t') :
    t'.regions = t.regions := by
  cases op with
  | addFreeRegion a b => exact absurd rfl (hop a b)
  | alloc pages =>
    rw [step] at hs
    cases hb : t.buddy.alloc pages with
    | error e =>
      rw [hb] at hs
      cases hs
    | ok r =>
      rw [hb] at hs
      obtain ⟨_ | ppn, s'⟩ := r <;> cases hs <;> rfl
  | dealloc ppn pages =>
    rw [step] at hs
    cases hb : t.buddy.dealloc ppn pages with
    | error e =>
      rw [hb] at hs
      cases hs
    | ok s' =>
      rw [hb] at hs
      cases hs
      rfl
  | write pa val =>
    cases hs
    rfl

/-- **Coalescing is canonical**: when regions are separated, no run leaves a block free together
with its buddy. So the free pages determine the blocks of each order, two runs with the same live
pages end with the same blocks, and releasing everything restores the blocks as they were. -/
theorem coalescing_canonical (m m' : Mem) (ops ops' : List BuddyOp) (t t' : BuddySystem)
    (h : Along step (fun t op => t.Allowed op ∧ t.Separated op) (new m) ops)
    (ht : exec step (new m) ops = .ok t)
    (h' : Along step (fun t op => t.Allowed op ∧ t.Separated op) (new m') ops')
    (ht' : exec step (new m') ops' = .ok t') :
    (∀ k < maxOrder - 1, ∀ a ∈ t.buddy.onList k, a ^^^ 2 ^ (k + pageSizeBits) ∉ t.buddy.onList k) ∧
    (t.buddy.freePages = t'.buddy.freePages →
      ∀ k < maxOrder, t.buddy.onList k = t'.buddy.onList k) ∧
    (t.managed = t'.managed → t.livePages = t'.livePages →
      ∀ k < maxOrder, t.buddy.onList k = t'.buddy.onList k) ∧
    (t.live = [] → ∀ ops'' t'',
      Along step (fun u op => u.Allowed op ∧ ∀ a b, op ≠ .addFreeRegion a b) t ops'' →
      exec step t ops'' = .ok t'' → t''.live = [] →
      ∀ k < maxOrder, t''.buddy.onList k = t.buddy.onList k) := by
  have hcan : Canonical t := Along.invariant_exec
    (fun _ _ _ hI hA hs => hI.of_step hA.1 hA.2 hs) (Canonical.new m) h ht
  have hcan' : Canonical t' := Along.invariant_exec
    (fun _ _ _ hI hA hs => hI.of_step hA.1 hA.2 hs) (Canonical.new m') h' ht'
  refine ⟨fun k hk a ha => hcan.buddy_not_mem hk ha, fun heq k hk => hcan.onList_eq hcan' heq hk,
    fun hM hL k hk => hcan.onList_eq hcan' ?_ hk, fun hlive ops'' t'' h'' ht'' hlive'' k hk => ?_⟩
  · rw [hcan.freePages_eq, hcan'.freePages_eq, hM, hL]
  · have hend : Canonical t'' ∧ t''.regions = t.regions := by
      refine Along.invariant_exec (I := fun u => Canonical u ∧ u.regions = t.regions)
        (fun u op u' hI hA hs => ?_) ⟨hcan, rfl⟩ h'' ht''
      have hsep : u.Separated op := by
        cases op with
        | addFreeRegion a b => exact absurd rfl (hA.2 a b)
        | alloc | dealloc | write => trivial
      exact ⟨hI.1.of_step hA.1 hsep hs, (regions_of_step hA.2 hs).trans hI.2⟩
    refine hend.1.onList_eq hcan ?_ hk
    rw [hend.1.freePages_eq, hcan.freePages_eq, managed, managed, livePages, livePages, hlive,
      hlive'', hend.2]

theorem coalescing_canonical_sample :
    ∃ t t', exec step (new fun _ => 0) [.addFreeRegion 2 8] = .ok t ∧
      exec step t sampleClient = .ok t' ∧
      (∀ k < maxOrder - 1, ∀ a ∈ t.buddy.onList k,
        a ^^^ 2 ^ (k + pageSizeBits) ∉ t.buddy.onList k) ∧
      ∀ k < maxOrder, t'.buddy.onList k = t.buddy.onList k := by
  have hrun : Along step (fun t op => t.Allowed op ∧ t.Separated op) (new fun _ => 0)
      [.addFreeRegion 2 8] := ⟨allowed_sampleRegion _, fun _ _ => trivial⟩
  refine ⟨_, _, rfl, rfl, ?_⟩
  obtain ⟨hbuddy, -, -, hrestore⟩ := coalescing_canonical _ _ _ _ _ _ hrun rfl hrun rfl
  exact ⟨hbuddy, hrestore rfl _ _ (allowed_sampleClient rfl) rfl rfl⟩

/-! ## Completeness -/

/-- There is a run of `2 ^ k` free pages that is aligned to its length. -/
def HasRun (F : Set ℕ) (k : ℕ) : Prop := ∃ p, 2 ^ k ∣ p ∧ Set.Ico p (p + 2 ^ k) ⊆ F

/-- **An aligned free run lies in one free block** of a coalesced state, so a list of its order or
above is not empty. -/
theorem Canonical.exists_of_hasRun (hinv : Holds t free) (hcoal : Coal free) {k : ℕ}
    (hk : k < maxOrder) (hrun : HasRun t.buddy.freePages k) :
    ∃ j, k ≤ j ∧ j < maxOrder ∧ free j ≠ [] := by
  obtain ⟨p, hdvd, hsub⟩ := hrun
  rw [hinv.owns.inv.freePages_eq] at hsub
  obtain ⟨c, hc, hpc⟩ := hinv.owns.inv.tiles.exists_superset hcoal ⟨p, k, hdvd⟩
    (Nat.le_sub_one_of_lt hk) (by rwa [Block.cells_eq_Ico])
  exact ⟨c.order, Block.order_le_of_subset hpc, hc.1, List.ne_nil_of_mem hc.2⟩

/-- **`alloc` is complete**: when regions are separated, in every state that a run reaches `alloc`
fails only for lack of an aligned run of free pages that is long enough. Otherwise it takes such a
run out of the free pages, and no other page. -/
theorem alloc_complete (m : Mem) (ops : List BuddyOp) (t : BuddySystem)
    (h : Along step (fun t op => t.Allowed op ∧ t.Separated op) (new m) ops)
    (ht : exec step (new m) ops = .ok t) (n : ℕ) (hn : 1 ≤ n) (hlt : n < 2 ^ 64) :
    ∃ r buddy, t.buddy.alloc n = .ok (r, buddy) ∧
      (r = none ↔ 16 ≤ Nat.clog 2 n ∨ ¬ HasRun t.buddy.freePages (Nat.clog 2 n)) ∧
      (r = none → buddy = t.buddy) ∧
      ∀ p, r = some p → 2 ^ Nat.clog 2 n ∣ p ∧
        Set.Ico p (p + 2 ^ Nat.clog 2 n) ⊆ t.buddy.freePages ∧
        buddy.freePages = t.buddy.freePages \ Set.Ico p (p + 2 ^ Nat.clog 2 n) := by
  obtain ⟨free, hinv, hcoal⟩ : Canonical t := Along.invariant_exec
    (fun _ _ _ hI hA hs => hI.of_step hA.1 hA.2 hs) (Canonical.new m) h ht
  rcases BuddySystemFrameAllocator.alloc_spec hinv.owns.inv hn hlt with
    ⟨s', r, hr, hrlt, ⟨hsub, -, free', hinv', -⟩, hrun⟩ | ⟨hempty, hrun⟩
  · have hcells : r.cells = Set.Ico r.base (r.base + 2 ^ Nat.clog 2 n) := by rw [r.cells_eq_Ico, hr]
    have hdvd : 2 ^ Nat.clog 2 n ∣ r.base := hr ▸ r.aligned
    rw [← hinv.owns.inv.freePages_eq, hcells] at hsub hinv'
    refine ⟨some r.base, s', hrun, iff_of_false nofun ?_, nofun, ?_⟩
    · rintro (hbig | hnot)
      · exact absurd (hr ▸ hrlt) (Nat.not_lt.mpr hbig)
      · exact hnot ⟨r.base, hdvd, hsub⟩
    · rintro p hp
      obtain rfl := Option.some.inj hp
      exact ⟨hdvd, hsub, hinv'.freePages_eq⟩
  · refine ⟨none, t.buddy, hrun, iff_of_true rfl ?_, fun _ => rfl, nofun⟩
    by_contra hcon
    push Not at hcon
    obtain ⟨j, hle, hj, hne⟩ := Canonical.exists_of_hasRun hinv hcoal hcon.1 hcon.2
    exact hne (hempty j hle hj)

/-- Three pages of the six pages 2 to 7: the block of four pages from page 4. -/
theorem alloc_complete_sample :
    ∃ t r buddy, exec step (new fun _ => 0) [.addFreeRegion 2 8] = .ok t ∧
      t.buddy.alloc 3 = .ok (r, buddy) ∧
      (r = none ↔ 16 ≤ Nat.clog 2 3 ∨ ¬ HasRun t.buddy.freePages (Nat.clog 2 3)) := by
  have hrun : Along step (fun t op => t.Allowed op ∧ t.Separated op) (new fun _ => 0)
      [.addFreeRegion 2 8] := ⟨allowed_sampleRegion _, fun _ _ => trivial⟩
  obtain ⟨r, buddy, halloc, hiff, -⟩ := alloc_complete _ _ _ hrun rfl 3 (by decide) (by decide)
  exact ⟨_, r, buddy, rfl, halloc, hiff⟩

end BuddySystem

end CharlotteOs
