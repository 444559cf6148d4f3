import Mathlib.Data.List.Perm.Basic
import CharlotteOs.Mm.BuddySpec

/-!
# The buddy allocator and the blocks in use

A client of the allocator sees the managed pages divided into the blocks it holds and the rest,
which is free. `Owns` is that view. The free pages are what the blocks in use leave, so no page is
lost or handed out twice as long as each operation keeps the view.

## Main definitions

* `onList`, `freePages`: the blocks on the lists and their pages, read off the memory
* `used L`: the pages of the blocks `L`
* `Owns s free M L`: of the managed pages `M`, the blocks `L` are in use and the rest is free

## Main results

* `Owns.alloc`, `Owns.dealloc`, `Owns.addFreeRegion`: the allocator's operations as changes of the
  blocks in use and of the managed pages
* `Owns.congr_mem`: the owners of blocks may write to them
-/

namespace CharlotteOs

open LinkedChain DyadicTiling

namespace BuddySystemFrameAllocator

/-! ## The lists as sets -/

/-- The addresses of the blocks on list `k`. -/
def onList (s : BuddySystemFrameAllocator) (k : ℕ) : Set ℕ :=
  {a | ∃ l, Chain (nextOf s.mem) (s.freeLists k) l ∧ a ∈ l}

/-- The pages of the blocks on the lists. -/
def freePages (s : BuddySystemFrameAllocator) : Set ℕ :=
  {p | ∃ k < maxOrder, ∃ a ∈ s.onList k, a ≤ p * pageSize ∧ p * pageSize < a + 2 ^ k * pageSize}

namespace Inv

variable {s : BuddySystemFrameAllocator} {free : ℕ → List ℕ} {F : Set ℕ} {k a : ℕ}

theorem mem_onList_iff_block (h : Inv s free F) (hk : k < maxOrder) :
    a ∈ s.onList k ↔ ∃ b ∈ freeBlocks free, b.order = k ∧ b.base * pageSize = a := by
  have hchain := h.chain k hk
  constructor
  · rintro ⟨l, hl, ha⟩
    rw [hl.unique hchain] at ha
    obtain ⟨p, hp, rfl⟩ := List.mem_map.mp ha
    obtain ⟨b, hb, rfl, rfl⟩ := h.exists_block hk hp
    exact ⟨b, hb, rfl, rfl⟩
  · rintro ⟨b, hb, rfl, rfl⟩
    exact ⟨_, hchain, List.mem_map.mpr ⟨b.base, hb.2, rfl⟩⟩

/-- The pages on the lists are the free pages. -/
theorem freePages_eq (h : Inv s free F) : s.freePages = F := by
  have hscale : ∀ {b : Block} {p : ℕ}, p ∈ b.cells ↔
      b.base * pageSize ≤ p * pageSize ∧
        p * pageSize < b.base * pageSize + 2 ^ b.order * pageSize := by
    intro b p
    rw [Block.mem_cells, ← add_mul, Nat.mul_le_mul_right_iff (by decide),
      Nat.mul_lt_mul_right (by decide)]
  ext p
  rw [h.tiles.cover p]
  constructor
  · rintro ⟨k, hk, a, ha, hp⟩
    obtain ⟨b, hb, rfl, rfl⟩ := (h.mem_onList_iff_block hk).mp ha
    exact ⟨b, hb, hscale.mpr hp⟩
  · rintro ⟨b, hb, hp⟩
    exact ⟨b.order, hb.1, _, (h.mem_onList_iff_block hb.1).mpr ⟨b, hb, rfl, rfl⟩, hscale.mp hp⟩

/-- Each free page is in exactly one block on the lists. -/
theorem existsUnique_block (h : Inv s free F) {p : ℕ} (hp : p ∈ F) :
    ∃! b : Block, b.order < maxOrder ∧ b.base * pageSize ∈ s.onList b.order ∧ p ∈ b.cells := by
  obtain ⟨b, hb, hpb⟩ := (h.tiles.cover p).mp hp
  refine ⟨b, ⟨hb.1, (h.mem_onList_iff_block hb.1).mpr ⟨b, hb, rfl, rfl⟩, hpb⟩, ?_⟩
  rintro c ⟨hk, hc, hpc⟩
  obtain ⟨d, hd, hord, hbase⟩ := (h.mem_onList_iff_block hk).mp hc
  obtain rfl : d = c := Block.ext (Nat.eq_of_mul_eq_mul_right (by decide) hbase) hord
  exact h.tiles.eq_of_mem hd hb hpc hpb

end Inv

/-! ## Blocks in use -/

/-- The pages of some blocks. -/
def used (L : List Block) : Set ℕ := {p | ∃ b ∈ L, p ∈ b.cells}

variable {s s' : BuddySystemFrameAllocator} {free : ℕ → List ℕ} {M : Set ℕ} {L L' : List Block}
  {b : Block}

theorem mem_used {p : ℕ} : p ∈ used L ↔ ∃ b ∈ L, p ∈ b.cells := Iff.rfl

theorem cells_subset_used (hb : b ∈ L) : b.cells ⊆ used L := fun _ hp => ⟨b, hb, hp⟩

@[simp] theorem used_nil : used [] = ∅ := by
  ext p
  simp [mem_used]

theorem used_cons (b : Block) (L : List Block) : used (b :: L) = b.cells ∪ used L := by
  ext p
  simp [mem_used]

theorem used_perm (h : L.Perm L') : used L = used L' := by
  ext p
  simp only [mem_used, h.mem_iff]

/-- **The client's view**: of the managed pages `M`, the blocks `L` are in use, and the rest is on
the free lists. -/
structure Owns (s : BuddySystemFrameAllocator) (free : ℕ → List ℕ) (M : Set ℕ)
    (L : List Block) : Prop where
  inv : Inv s free (M \ used L)
  disjoint : L.Pairwise fun b c => Disjoint b.cells c.cells
  subset : ∀ b ∈ L, b.cells ⊆ M
  order_lt : ∀ b ∈ L, b.order < maxOrder
  addressable : Addressable M

namespace Owns

/-- A new allocator manages nothing. -/
theorem new (m : Mem) : Owns (BuddySystemFrameAllocator.new m) (fun _ => []) ∅ [] where
  inv := by
    refine ⟨fun k _ => rfl, by simp, ?_, by simp [Addressable]⟩
    have hempty : freeBlocks (fun _ => []) = ∅ := by
      ext b
      simp [freeBlocks]
    rw [hempty, Set.empty_sdiff]
    exact Tiles.empty
  disjoint := List.Pairwise.nil
  subset := by simp
  order_lt := by simp
  addressable := by simp [Addressable]

theorem used_subset (h : Owns s free M L) : used L ⊆ M := by
  rintro p ⟨b, hb, hp⟩
  exact h.subset b hb hp

theorem perm (h : Owns s free M L) (hL : L.Perm L') : Owns s free M L' where
  inv := used_perm hL ▸ h.inv
  disjoint := (hL.pairwise_iff fun {_ _} hd => hd.symm).mp h.disjoint
  subset b hb := h.subset b (hL.mem_iff.mpr hb)
  order_lt b hb := h.order_lt b (hL.mem_iff.mpr hb)
  addressable := h.addressable

/-- Who writes to blocks in use, or outside the managed pages, does not disturb the lists. -/
theorem congr_mem (h : Owns s free M L) {m : Mem} (hm : SameOutside (M \ used L)ᶜ s.mem m) :
    Owns { s with mem := m } free M L :=
  ⟨h.inv.congr_mem hm, h.disjoint, h.subset, h.order_lt, h.addressable⟩

theorem disjoint_used (h : Owns s free M (b :: L)) : Disjoint b.cells (used L) := by
  rw [Set.disjoint_left]
  rintro p hp ⟨c, hc, hpc⟩
  exact Set.disjoint_left.mp ((List.pairwise_cons.mp h.disjoint).1 c hc) hp hpc

/-- **`alloc`** adds a block to those in use, or finds no free block large enough and changes
nothing. -/
theorem alloc (h : Owns s free M L) {n : ℕ} (hn : 0 < n) (hlt : n < 2 ^ 64) :
    (∃ s' free' r, s.alloc n = .ok (some r.base, s') ∧ r.order = Nat.clog 2 n ∧
      Owns s' free' M (r :: L) ∧ (Coal free → Coal free') ∧
      SameOutside (M \ used L) s.mem s'.mem) ∨
    s.alloc n = .ok (none, s) := by
  rcases alloc_spec h.inv hn hlt with ⟨s', r, hr, hk, ⟨hsub, hmem, free', hinv, hcoal⟩, hs'⟩ |
    ⟨-, hnone⟩
  · refine Or.inl ⟨s', free', r, hs', hr, ⟨?_, ?_, ?_, ?_, h.addressable⟩, hcoal, hmem⟩
    · rwa [used_cons, Set.union_comm, ← Set.sdiff_sdiff]
    · refine List.pairwise_cons.mpr ⟨fun c hc => ?_, h.disjoint⟩
      rw [Set.disjoint_left]
      intro p hp hpc
      exact (hsub hp).2 ⟨c, hc, hpc⟩
    · intro c hc
      rcases List.mem_cons.mp hc with rfl | hc
      · exact hsub.trans Set.sdiff_subset
      · exact h.subset c hc
    · intro c hc
      rcases List.mem_cons.mp hc with rfl | hc
      · exact hk
      · exact h.order_lt c hc
  · exact Or.inr hnone

/-- **`dealloc`** takes a block out of those in use. -/
theorem dealloc (h : Owns s free M L) (hL : L.Perm (b :: L')) {n : ℕ} (hn : 0 < n)
    (hlt : n < 2 ^ 64) (hb : b.order = Nat.clog 2 n) :
    ∃ s' free', s.dealloc b.base n = .ok s' ∧ Owns s' free' M L' ∧ (Coal free → Coal free') ∧
      SameOutside (M \ used L') s.mem s'.mem := by
  have h' := h.perm hL
  have hbM : b.cells ⊆ M := h'.subset b (List.mem_cons_self ..)
  have hdis : Disjoint b.cells (M \ used (b :: L')) := by
    rw [used_cons]
    exact Set.disjoint_sdiff_right.mono_left Set.subset_union_left
  obtain ⟨s', ⟨hmem, free', hinv, hcoal⟩, hs'⟩ := dealloc_spec h'.inv hn hlt hb
    (h'.order_lt b (List.mem_cons_self ..)) hdis (h.addressable.mono hbM)
  have hset : M \ used (b :: L') ∪ b.cells = M \ used L' := by
    rw [used_cons, Set.union_comm b.cells, ← Set.sdiff_sdiff,
      Set.sdiff_union_of_subset]
    exact fun p hp => ⟨hbM hp, Set.disjoint_left.mp h'.disjoint_used hp⟩
  rw [hset] at hinv hmem
  refine ⟨s', free', hs', ⟨hinv, (List.pairwise_cons.mp h'.disjoint).2, ?_, ?_, h.addressable⟩,
    hcoal, hmem⟩
  · exact fun c hc => h'.subset c (List.mem_cons_of_mem _ hc)
  · exact fun c hc => h'.order_lt c (List.mem_cons_of_mem _ hc)

/-- **`add_free_region`** manages more pages. Where the new range touches no managed page, the
lists stay coalesced. -/
theorem addFreeRegion (h : Owns s free M L) {startPpn endPpn : ℕ}
    (haddr : Addressable (Set.Ico startPpn endPpn)) (hdis : Disjoint (Set.Ico startPpn endPpn) M) :
    ∃ s' free', s.addFreeRegion startPpn endPpn = .ok s' ∧
      Owns s' free' (M ∪ Set.Ico startPpn endPpn) L ∧
      (Coal free → startPpn - 1 ∉ M → endPpn ∉ M → Coal free') := by
  obtain ⟨s', free', hs', hinv, -, hcoal⟩ :=
    addFreeRegion_spec h.inv haddr (hdis.mono_right Set.sdiff_subset)
  have hset : M \ used L ∪ Set.Ico startPpn endPpn = (M ∪ Set.Ico startPpn endPpn) \ used L := by
    rw [Set.union_sdiff_distrib, (hdis.mono_right h.used_subset).sdiff_eq_left]
  rw [hset] at hinv
  refine ⟨s', free', hs', ⟨hinv, h.disjoint, ?_, h.order_lt, ?_⟩, fun hc hstart hend =>
    hcoal hc (fun hF => hend hF.1) (fun hF => hstart hF.1)⟩
  · exact fun b hb => (h.subset b hb).trans Set.subset_union_left
  · rintro p (hp | hp)
    · exact h.addressable p hp
    · exact haddr p hp

end Owns

/-- A new allocator over cleared memory that has been given one region. -/
def ofRegion (startPpn endPpn : ℕ) : BuddySystemFrameAllocator :=
  ((BuddySystemFrameAllocator.new fun _ => 0).addFreeRegion startPpn endPpn).toOption.getD
    (BuddySystemFrameAllocator.new fun _ => 0)

theorem Owns.ofRegion {startPpn endPpn : ℕ} (hstart : 0 < startPpn) (hend : endPpn ≤ 2 ^ 20) :
    ∃ free, Owns (ofRegion startPpn endPpn) free (Set.Ico startPpn endPpn) [] := by
  have haddr : Addressable (Set.Ico startPpn endPpn) := by
    refine .of_lt fun p hp => ?_
    rw [Set.mem_Ico] at hp
    omega
  obtain ⟨s, free, hs, howns, -⟩ :=
    (Owns.new fun _ => 0).addFreeRegion haddr (Set.disjoint_empty _)
  refine ⟨free, ?_⟩
  rw [BuddySystemFrameAllocator.ofRegion, hs]
  rwa [Set.empty_union] at howns

end BuddySystemFrameAllocator

end CharlotteOs
