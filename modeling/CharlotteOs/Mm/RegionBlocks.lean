import CharlotteOs.Lib.Greedy
import CharlotteOs.Lib.Run
import CharlotteOs.Mm.BuddySpec

/-!
# The blocks of a region

`add_free_region` cuts a range of pages into blocks and puts each of them on its list. The blocks
are a greedy tiling of the range: each is the largest one that its first page, the rest of the range
and the number of lists allow.

This is about the calls of `add_free_block`, for every range and whatever the allocator holds. Where
the lists go through memory that can be addressed, the blocks are on their lists afterwards.

## Main definitions

* `regionBlocks`: the blocks that `add_free_region` adds, in order

## Main results

* `addFreeRegion_eq`: the loop ends, and it has added these blocks
* `regionBlocks_greedy`: they are a greedy tiling of the range
* `exec_addBlock_spec`: blocks that are added are on their lists
* `addFreeRegion_decomposes`: `add_free_region` decomposes its range exactly
-/

namespace CharlotteOs

open FallibleRun DyadicTiling

namespace BuddySystemFrameAllocator

variable {startPpn endPpn : ℕ}

/-- A block of a region is aligned to its size. -/
theorem regionOrder_dvd (current remaining : ℕ) : 2 ^ regionOrder current remaining ∣ current := by
  rcases Nat.eq_zero_or_pos remaining with rfl | hrem
  · have hzero : regionOrder current 0 = 0 := by simp [regionOrder]
    rw [hzero, pow_zero]
    exact one_dvd _
  · exact ((le_regionOrder_iff hrem).mp le_rfl).1

/-- The block that an iteration of the loop of `add_free_region` adds. -/
def regionBlock (current remaining : ℕ) : Block :=
  ⟨current, regionOrder current remaining, regionOrder_dvd current remaining⟩

/-- The blocks that the loop of `add_free_region` adds, with a bound on its iterations. -/
def regionBlocksLoop (endPpn : ℕ) : ℕ → ℕ → List Block
  | 0, _ => []
  | n + 1, current =>
    if current < endPpn then
      regionBlock current (endPpn - current) ::
        regionBlocksLoop endPpn n (current + 2 ^ regionOrder current (endPpn - current))
    else []

/-- **The blocks that `add_free_region` adds**, in order. -/
def regionBlocks (startPpn endPpn : ℕ) : List Block :=
  if endPpn ≤ startPpn then [] else regionBlocksLoop endPpn (endPpn - startPpn) startPpn

/-- A call of `add_free_block` for a block of pages. -/
def addBlock (s : BuddySystemFrameAllocator) (b : Block) : Except Fault BuddySystemFrameAllocator :=
  s.addFreeBlock (PhysAddr.ofPpn b.base) b.order

/-- **The loop adds these blocks**, and its bound is enough, since an iteration moves on by a page
at least. -/
theorem addFreeRegionLoop_eq (s : BuddySystemFrameAllocator) {n current : ℕ}
    (hn : endPpn ≤ current + n) :
    addFreeRegionLoop endPpn n current s = exec addBlock s (regionBlocksLoop endPpn n current) := by
  induction n generalizing current s with
  | zero => rw [addFreeRegionLoop, if_neg (by omega), regionBlocksLoop, exec_nil]
  | succ n ih =>
    rw [addFreeRegionLoop, regionBlocksLoop]
    split
    · have hpos := Nat.two_pow_pos (regionOrder current (endPpn - current))
      have hadd : s.addBlock (regionBlock current (endPpn - current)) =
          s.addFreeBlock (PhysAddr.ofPpn current) (regionOrder current (endPpn - current)) := rfl
      rw [exec, hadd]
      dsimp only
      cases s.addFreeBlock (PhysAddr.ofPpn current) (regionOrder current (endPpn - current)) with
      | error e => rfl
      | ok s₁ =>
        rw [ok_bind]
        exact ih s₁ (by omega)
    · rfl

theorem addFreeRegion_eq (s : BuddySystemFrameAllocator) (startPpn endPpn : ℕ) :
    s.addFreeRegion startPpn endPpn = exec addBlock s (regionBlocks startPpn endPpn) := by
  rw [addFreeRegion, regionBlocks]
  split
  · rfl
  · exact addFreeRegionLoop_eq s (by omega)

/-- The blocks of the loop are a greedy tiling of the rest of the range: of the three bounds the
order is the least, so no larger block is aligned and fits. -/
theorem regionBlocksLoop_greedy {n current : ℕ} (hn : endPpn ≤ current + n) :
    Greedy (maxOrder - 1) endPpn (regionBlocksLoop endPpn n current) current := by
  induction n generalizing current with
  | zero => exact hn
  | succ n ih =>
    rw [regionBlocksLoop]
    split
    case isTrue hlt =>
      have hrem : 0 < endPpn - current := Nat.sub_pos_of_lt hlt
      have hpos := Nat.two_pow_pos (regionOrder current (endPpn - current))
      obtain ⟨-, hfit, hk⟩ := (le_regionOrder_iff (k := regionOrder current _) hrem).mp le_rfl
      refine ⟨rfl, Nat.le_sub_one_of_lt hk, ?_, fun k hk hdvd hle => ?_, ih (by omega)⟩
      · show current + 2 ^ regionOrder current (endPpn - current) ≤ endPpn
        omega
      · exact (le_regionOrder_iff hrem).mpr ⟨hdvd, by omega, Nat.lt_of_le_sub_one (by decide) hk⟩
    case isFalse hlt => exact not_lt.mp hlt

/-- **The blocks of a region** are a greedy tiling of it. -/
theorem regionBlocks_greedy (startPpn endPpn : ℕ) :
    Greedy (maxOrder - 1) endPpn (regionBlocks startPpn endPpn) startPpn := by
  rw [regionBlocks]
  split
  case isTrue hle => exact hle
  case isFalse hlt => exact regionBlocksLoop_greedy (by omega)

/-- A block of an order that there is a list for can be added. -/
theorem exec_addBlock_ok {blocks : List Block} (h : ∀ b ∈ blocks, b.order < maxOrder)
    (s : BuddySystemFrameAllocator) : ∃ s', exec addBlock s blocks = .ok s' := by
  refine Along.exec_ok (Q := fun _ b => b.order < maxOrder) (fun s b hb => ?_) (along_of_forall s h)
  rw [addBlock, addFreeBlock, if_neg (not_le.mpr hb)]
  exact ⟨_, rfl⟩

/-- **Blocks that are added one after the other are on their lists**, beside those that were there.
-/
theorem exec_addBlock_spec {s s' : BuddySystemFrameAllocator} {free : ℕ → List ℕ} {F : Set ℕ}
    {blocks : List Block} (h : Inv s free F) (horder : ∀ b ∈ blocks, b.order < maxOrder)
    (haddr : ∀ b ∈ blocks, Addressable b.cells) (hdis : ∀ b ∈ blocks, Disjoint b.cells F)
    (hpair : blocks.Pairwise fun b c => Disjoint b.cells c.cells)
    (hs' : exec addBlock s blocks = .ok s') :
    ∃ free', Inv s' free' (F ∪ ⋃ b ∈ blocks, b.cells) ∧
      freeBlocks free' = freeBlocks free ∪ {b | b ∈ blocks} := by
  induction blocks generalizing s free F with
  | nil =>
    cases hs'
    exact ⟨free, by simpa using h, by simp⟩
  | cons b blocks ih =>
    obtain ⟨hbpair, hpair⟩ := List.pairwise_cons.mp hpair
    obtain ⟨hb, horder⟩ := List.forall_mem_cons.mp horder
    obtain ⟨hbaddr, haddr⟩ := List.forall_mem_cons.mp haddr
    obtain ⟨hbdis, hdis⟩ := List.forall_mem_cons.mp hdis
    obtain ⟨s₁, hs₁, hrest⟩ := exec_cons_eq_ok hs'
    have hlt := hbaddr.lt b.base_mem_cells
    rw [addBlock, PhysAddr.ofPpn_eq (by omega)] at hs₁
    obtain ⟨s₂, hs₂, hinv, -⟩ := addFreeBlock_spec h hb hbdis hbaddr
    obtain rfl := Except.ok.inj (hs₂.symm.trans hs₁)
    have hdis' : ∀ c ∈ blocks, Disjoint c.cells (F ∪ b.cells) := fun c hc =>
      Set.disjoint_union_right.mpr ⟨hdis c hc, (hbpair c hc).symm⟩
    obtain ⟨free', hinv', hfree'⟩ := ih hinv horder haddr hdis' hpair hrest
    have hcells : (⋃ c ∈ b :: blocks, c.cells) = b.cells ∪ ⋃ c ∈ blocks, c.cells := by
      ext p
      simp
    have hcons : {c | c ∈ b :: blocks} = insert b {c | c ∈ blocks} := by
      ext c
      simp
    refine ⟨free', ?_, ?_⟩
    · rwa [Set.union_assoc, ← hcells] at hinv'
    · rw [hfree', freeBlocks_push free hb, Set.insert_union, ← Set.union_insert, ← hcons]

/-- **`add_free_region` decomposes its range exactly.** Its loop ends, and what it has done is to
add the blocks of `regionBlocks`, one call of `add_free_block` after the other. They are pairwise
disjoint, of orders up to 15 and aligned to their sizes; together they are the pages of the range;
and no two of an order below 15 are buddies. An empty range adds nothing. Where the lists are in
order and the range can be addressed and is not free yet, the blocks are on their lists afterwards,
beside those that were there. -/
theorem addFreeRegion_decomposes (s : BuddySystemFrameAllocator) (startPpn endPpn : ℕ) :
    (∃ s', s.addFreeRegion startPpn endPpn = .ok s' ∧
      exec addBlock s (regionBlocks startPpn endPpn) = .ok s') ∧
    (regionBlocks startPpn endPpn).Pairwise (fun b c => Disjoint b.cells c.cells) ∧
    (∀ b ∈ regionBlocks startPpn endPpn, b.order ≤ 15 ∧ 2 ^ b.order ∣ b.base) ∧
    (⋃ b ∈ regionBlocks startPpn endPpn, b.cells) = Set.Ico startPpn endPpn ∧
    (∀ b ∈ regionBlocks startPpn endPpn, b.order < 15 → b.buddy ∉ regionBlocks startPpn endPpn) ∧
    (endPpn ≤ startPpn →
      regionBlocks startPpn endPpn = [] ∧ s.addFreeRegion startPpn endPpn = .ok s) ∧
    (∀ free F s', Inv s free F → Addressable (Set.Ico startPpn endPpn) →
      Disjoint (Set.Ico startPpn endPpn) F → s.addFreeRegion startPpn endPpn = .ok s' →
      ∃ free', Inv s' free' (F ∪ Set.Ico startPpn endPpn) ∧
        freeBlocks free' = freeBlocks free ∪ {b | b ∈ regionBlocks startPpn endPpn}) := by
  have hgreedy := regionBlocks_greedy startPpn endPpn
  have horder : ∀ b ∈ regionBlocks startPpn endPpn, b.order ≤ 15 := fun b hb =>
    (hgreedy.of_mem hb).2.1
  have hlt : ∀ b ∈ regionBlocks startPpn endPpn, b.order < maxOrder := fun b hb =>
    Nat.lt_succ_of_le (horder b hb)
  have hsub : ∀ b ∈ regionBlocks startPpn endPpn, b.cells ⊆ Set.Ico startPpn endPpn := by
    intro b hb
    rw [← hgreedy.cover]
    exact Set.subset_biUnion_of_mem (u := Block.cells) hb
  refine ⟨?_, hgreedy.disjoint, fun b hb => ⟨horder b hb, b.aligned⟩, hgreedy.cover,
    fun b hb hlt => hgreedy.buddy_notMem hb hlt, fun hle => ⟨if_pos hle, if_pos hle⟩, ?_⟩
  · obtain ⟨s', hs'⟩ := exec_addBlock_ok hlt s
    exact ⟨s', (addFreeRegion_eq s startPpn endPpn).trans hs', hs'⟩
  · intro free F s' hinv haddr hdis hs'
    rw [addFreeRegion_eq] at hs'
    have hspec := exec_addBlock_spec hinv hlt (fun b hb => haddr.mono (hsub b hb))
      (fun b hb => hdis.mono_left (hsub b hb)) hgreedy.disjoint hs'
    rwa [hgreedy.cover] at hspec

end BuddySystemFrameAllocator

end CharlotteOs
