import Mathlib.Data.Finset.Card
import CharlotteOs.Mm.Buddy

/-!
# What the buddy allocator's operations do

The abstract allocator is a tiling of the free pages by dyadic blocks, up to order `15`. `Inv`
says that the sixteen intrusive lists hold exactly the tiles. Each operation of the allocator is
then a few changes to the tiling: `alloc` takes a tile, splits it and keeps the lower half each
time; `dealloc` merges a block with its buddy as long as that is a tile; `add_free_region` tiles
a range of pages.

## Main definitions

* `freeBlocks free`: the tiles that page lists for each order stand for
* `Inv s free F`: the lists of `s` are `free`, and their blocks tile the pages `F`
* `SameOutside P m m'`: memory changed in the pages `P` only

## Main results

* `addFreeBlock_spec`, `tryRemoveFromList_hit`, `tryRemoveFromList_miss`: one block in, one block
  out
* `alloc_spec`, `dealloc_spec`, `addFreeRegion_spec`: the allocator as changes to the tiling, each
  keeping the tiling coalesced
-/

namespace CharlotteOs

open LinkedChain DyadicTiling

/-- The memory changed only in words of the pages `P`. -/
def SameOutside (P : Set ℕ) (m m' : Mem) : Prop := ∀ a, a / pageSize ∉ P → m' a = m a

namespace SameOutside

variable {P Q : Set ℕ} {m m' m'' : Mem}

theorem refl (P : Set ℕ) (m : Mem) : SameOutside P m m := fun _ _ => rfl

theorem trans (h : SameOutside P m m') (h' : SameOutside P m' m'') : SameOutside P m m'' :=
  fun a ha => (h' a ha).trans (h a ha)

theorem mono (h : SameOutside P m m') (hPQ : P ⊆ Q) : SameOutside Q m m' :=
  fun a ha => h a fun hP => ha (hPQ hP)

end SameOutside

theorem nextOf_update_self {m : Mem} {pa v : ℕ} (h : pa < 2 ^ 32) :
    nextOf (Function.update m pa v) pa = NonNull.new v := by
  rw [nextOf, Mem.load_physToVirt _ h, Function.update_self]

theorem nextOf_update_of_ne {m : Mem} {pa a v : ℕ} (ha : a < 2 ^ 32) (hne : a ≠ pa) :
    nextOf (Function.update m pa v) a = nextOf m a := by
  rw [nextOf, nextOf, Mem.load_physToVirt _ ha, Mem.load_physToVirt _ ha,
    Function.update_of_ne hne]

namespace BuddySystemFrameAllocator

/-- The blocks that page lists, one for each order, stand for. -/
def freeBlocks (free : ℕ → List ℕ) : Set Block :=
  {b | b.order < maxOrder ∧ b.base ∈ free b.order}

/-- Pages the allocator can manage: not page `0`, whose address is the null pointer, and such that
`phys_to_virt` does not overflow on them. -/
def Addressable (P : Set ℕ) : Prop := ∀ p ∈ P, 0 < p ∧ p * pageSize + physVirtOffset < 2 ^ 64

namespace Addressable

variable {P Q : Set ℕ} {p : ℕ}

theorem of_lt (h : ∀ p ∈ P, 0 < p ∧ p < 2 ^ 20) : Addressable P := fun p hp => by
  obtain ⟨hpos, hlt⟩ := h p hp
  refine ⟨hpos, ?_⟩
  simp only [pageSize, physVirtOffset]
  omega

theorem pos (h : Addressable P) (hp : p ∈ P) : 0 < p := (h p hp).1

theorem lt (h : Addressable P) (hp : p ∈ P) : p < 2 ^ 20 := by
  have := (h p hp).2
  simp only [pageSize, physVirtOffset] at this
  omega

theorem mono (h : Addressable Q) (hPQ : P ⊆ Q) : Addressable P := fun p hp => h p (hPQ hp)

end Addressable

/-- **The allocator's invariant**: list `k` runs through the blocks at the pages `free k`, and the
blocks of all lists tile the free pages `F`. -/
structure Inv (s : BuddySystemFrameAllocator) (free : ℕ → List ℕ) (F : Set ℕ) : Prop where
  chain : ∀ k < maxOrder, Chain (nextOf s.mem) (s.freeLists k) ((free k).map (· * pageSize))
  aligned : ∀ k < maxOrder, ∀ p ∈ free k, 2 ^ k ∣ p
  tiles : Tiles (freeBlocks free) F
  addressable : Addressable F

/-- No two free blocks below the last order are buddies. -/
abbrev Coal (free : ℕ → List ℕ) : Prop := Coalesced (maxOrder - 1) (freeBlocks free)

variable {s s' : BuddySystemFrameAllocator} {free : ℕ → List ℕ} {F : Set ℕ} {b : Block}

namespace Inv

/-- A page on a list is the base of a tile. -/
theorem exists_block (h : Inv s free F) {k p : ℕ} (hk : k < maxOrder) (hp : p ∈ free k) :
    ∃ b ∈ freeBlocks free, b.base = p ∧ b.order = k :=
  ⟨⟨p, k, h.aligned k hk p hp⟩, ⟨hk, hp⟩, rfl, rfl⟩

theorem mem_of_mem_list (h : Inv s free F) {k p : ℕ} (hk : k < maxOrder) (hp : p ∈ free k) :
    p ∈ F := by
  obtain ⟨b, hb, rfl, -⟩ := h.exists_block hk hp
  exact h.tiles.subset hb b.base_mem_cells

/-- A page is on one list at most. -/
theorem order_unique (h : Inv s free F) {j k p : ℕ} (hj : j < maxOrder) (hk : k < maxOrder)
    (hpj : p ∈ free j) (hpk : p ∈ free k) : j = k := by
  obtain ⟨b, hb, hbp, rfl⟩ := h.exists_block hj hpj
  obtain ⟨c, hc, hcp, rfl⟩ := h.exists_block hk hpk
  have hpb : p ∈ b.cells := hbp ▸ b.base_mem_cells
  have hpc : p ∈ c.cells := hcp ▸ c.base_mem_cells
  rw [h.tiles.eq_of_mem hb hc hpb hpc]

theorem nodup (h : Inv s free F) {k : ℕ} (hk : k < maxOrder) : (free k).Nodup :=
  List.Nodup.of_map _ (h.chain k hk).nodup

theorem length_lt (h : Inv s free F) {k : ℕ} (hk : k < maxOrder) :
    (free k).length ≤ 2 ^ 20 := by
  have hsub : (free k).toFinset ⊆ Finset.range (2 ^ 20) := by
    intro p hp
    rw [Finset.mem_range]
    exact h.addressable.lt (h.mem_of_mem_list hk (List.mem_toFinset.mp hp))
  have hcard := Finset.card_le_card hsub
  rwa [List.toFinset_card_of_nodup (h.nodup hk), Finset.card_range] at hcard

/-- The link words of the lists are the first words of free pages. -/
theorem addr_lt (h : Inv s free F) {k p : ℕ} (hk : k < maxOrder) (hp : p ∈ free k) :
    p * pageSize < 2 ^ 32 := by
  have := h.addressable.lt (h.mem_of_mem_list hk hp)
  show p * 4096 < 2 ^ 32
  omega

/-- The lists notice only writes to the first words of free pages. -/
theorem congr_links (h : Inv s free F) {m : Mem}
    (hm : ∀ p ∈ F, m (p * pageSize) = s.mem (p * pageSize)) : Inv { s with mem := m } free F := by
  refine ⟨fun k hk => (h.chain k hk).congr fun a ha => ?_, h.aligned, h.tiles, h.addressable⟩
  obtain ⟨p, hp, rfl⟩ := List.mem_map.mp ha
  have hlt := h.addr_lt hk hp
  rw [nextOf, nextOf, Mem.load_physToVirt _ hlt, Mem.load_physToVirt _ hlt]
  exact congrArg NonNull.new (hm p (h.mem_of_mem_list hk hp))

/-- The lists do not notice writes outside the free pages. -/
theorem congr_mem (h : Inv s free F) {m : Mem} (hm : SameOutside Fᶜ s.mem m) :
    Inv { s with mem := m } free F := by
  refine h.congr_links fun p hp => hm _ fun hc => hc ?_
  rw [Nat.mul_div_cancel p (by decide)]
  exact hp

end Inv

/-! ## One block in, one block out -/

theorem freeBlocks_push (free : ℕ → List ℕ) (hb : b.order < maxOrder) :
    freeBlocks (Function.update free b.order (b.base :: free b.order)) =
      insert b (freeBlocks free) := by
  ext c
  simp only [freeBlocks, Set.mem_ofPred_eq, Set.mem_insert_iff]
  by_cases hc : c.order = b.order
  · rw [hc, Function.update_self, List.mem_cons]
    constructor
    · rintro ⟨h, hbase | hmem⟩
      · exact Or.inl (Block.ext hbase hc)
      · exact Or.inr ⟨h, hmem⟩
    · rintro (rfl | ⟨h, hmem⟩)
      · exact ⟨hb, Or.inl rfl⟩
      · exact ⟨h, Or.inr hmem⟩
  · rw [Function.update_of_ne hc]
    constructor
    · exact Or.inr
    · rintro (rfl | h)
      · exact absurd rfl hc
      · exact h

theorem freeBlocks_erase {free : ℕ → List ℕ} (hnd : (free b.order).Nodup) :
    freeBlocks (Function.update free b.order ((free b.order).erase b.base)) =
      freeBlocks free \ {b} := by
  ext c
  simp only [freeBlocks, Set.mem_ofPred_eq, Set.mem_sdiff, Set.mem_singleton_iff]
  by_cases hc : c.order = b.order
  · rw [hc, Function.update_self, hnd.mem_erase_iff]
    constructor
    · rintro ⟨h, hne, hmem⟩
      exact ⟨⟨h, hmem⟩, fun hcb => hne (hcb ▸ rfl)⟩
    · rintro ⟨⟨h, hmem⟩, hne⟩
      exact ⟨h, fun hbase => hne (Block.ext hbase hc), hmem⟩
  · rw [Function.update_of_ne hc]
    constructor
    · exact fun h => ⟨h, fun hcb => hc (hcb ▸ rfl)⟩
    · exact fun h => h.1

/-- **`add_free_block`** puts the block on its list and changes nothing but the block's first word.
The links of all other free blocks are kept, since the page of the new one was not free. -/
theorem addFreeBlock_spec (h : Inv s free F) (hb : b.order < maxOrder)
    (hdis : Disjoint b.cells F) (haddr : Addressable b.cells) :
    ∃ s', s.addFreeBlock (b.base * pageSize) b.order = .ok s' ∧
      Inv s' (Function.update free b.order (b.base :: free b.order)) (F ∪ b.cells) ∧
      SameOutside b.cells s.mem s'.mem := by
  have hpos := haddr.pos b.base_mem_cells
  have hlt := haddr.lt b.base_mem_cells
  have hlt32 : b.base * pageSize < 2 ^ 32 := by
    show b.base * 4096 < 2 ^ 32
    omega
  have hnew : NonNull.new (b.base * pageSize) = some (b.base * pageSize) :=
    NonNull.new_of_pos (Nat.mul_pos hpos (by decide))
  refine ⟨⟨Function.update s.freeLists b.order (some (b.base * pageSize)),
    Function.update s.mem (b.base * pageSize) (NonNull.word (s.freeLists b.order))⟩, ?_, ?_, ?_⟩
  · rw [addFreeBlock, if_neg (by omega), hnew, Mem.store_physToVirt _ _ hlt32]
  · have hkeep : ∀ k < maxOrder, ∀ a ∈ (free k).map (· * pageSize),
        nextOf (Function.update s.mem (b.base * pageSize) (NonNull.word (s.freeLists b.order))) a =
          nextOf s.mem a := by
      intro k hk a ha
      obtain ⟨p, hp, rfl⟩ := List.mem_map.mp ha
      refine nextOf_update_of_ne (h.addr_lt hk hp) fun heq => ?_
      have hpb : p = b.base := Nat.eq_of_mul_eq_mul_right (by decide) heq
      exact Set.disjoint_left.mp hdis b.base_mem_cells (hpb ▸ h.mem_of_mem_list hk hp)
    refine ⟨fun k hk => ?_, fun k hk p hp => ?_, ?_, ?_⟩
    · dsimp only
      by_cases hkb : k = b.order
      · subst hkb
        rw [Function.update_self, Function.update_self, List.map_cons]
        refine (h.chain _ hk).push ?_ (hkeep _ hk)
        rw [nextOf_update_self hlt32]
        refine NonNull.new_word fun p hp => ?_
        rw [(h.chain _ hk).start_eq, List.head?_map] at hp
        obtain ⟨q, hq, rfl⟩ := Option.mem_map.mp hp
        have := h.addressable.pos (h.mem_of_mem_list hk (List.mem_of_mem_head? hq))
        exact Nat.mul_pos this (by decide)
      · rw [Function.update_of_ne hkb, Function.update_of_ne hkb]
        exact (h.chain k hk).congr (hkeep k hk)
    · by_cases hkb : k = b.order
      · subst hkb
        rw [Function.update_self] at hp
        rcases List.mem_cons.mp hp with rfl | hp
        · exact b.aligned
        · exact h.aligned _ hk p hp
      · rw [Function.update_of_ne hkb] at hp
        exact h.aligned k hk p hp
    · rw [freeBlocks_push free hb]
      exact h.tiles.insert hdis
    · rintro p (hp | hp)
      · exact h.addressable p hp
      · exact haddr p hp
  · intro a ha
    refine Function.update_of_ne ?_ _ _
    rintro rfl
    rw [Nat.mul_div_cancel _ (by decide)] at ha
    exact ha b.base_mem_cells

/-- Taking the tile `b` off its list: enough is that the other heads, and all words outside that
list's own links, are kept. -/
theorem Inv.erase (h : Inv s free F) (hb : b ∈ freeBlocks free) {heads : ℕ → Option ℕ} {m : Mem}
    (hheads : ∀ k, k ≠ b.order → heads k = s.freeLists k)
    (hm : ∀ a, (∀ p ∈ free b.order, a ≠ p * pageSize) → m a = s.mem a)
    (hchain : Chain (nextOf m) (heads b.order)
      (((free b.order).erase b.base).map (· * pageSize))) :
    Inv ⟨heads, m⟩ (Function.update free b.order ((free b.order).erase b.base)) (F \ b.cells) ∧
      SameOutside F s.mem m := by
  obtain ⟨hk, hmem⟩ := hb
  refine ⟨⟨fun k hk' => ?_, fun k hk' p hp => ?_, ?_, fun p hp => h.addressable p hp.1⟩, ?_⟩
  · dsimp only
    by_cases hkb : k = b.order
    · subst hkb
      rwa [Function.update_self]
    · rw [Function.update_of_ne hkb, hheads k hkb]
      refine (h.chain k hk').congr fun a ha => ?_
      obtain ⟨p, hp, rfl⟩ := List.mem_map.mp ha
      have hlt := h.addr_lt hk' hp
      rw [nextOf, nextOf, Mem.load_physToVirt _ hlt, Mem.load_physToVirt _ hlt, hm]
      intro q hq heq
      have hpq : p = q := Nat.eq_of_mul_eq_mul_right (by decide) heq
      exact hkb (h.order_unique hk' hk hp (hpq ▸ hq))
  · by_cases hkb : k = b.order
    · subst hkb
      rw [Function.update_self] at hp
      exact h.aligned _ hk p (List.mem_of_mem_erase hp)
    · rw [Function.update_of_ne hkb] at hp
      exact h.aligned k hk' p hp
  · rw [freeBlocks_erase (h.nodup hk)]
    exact h.tiles.erase ⟨hk, hmem⟩
  · intro a ha
    refine hm a fun p hp heq => ha ?_
    rw [heq, Nat.mul_div_cancel p (by decide)]
    exact h.mem_of_mem_list hk hp

/-- Taking the first block of a list off it, as `alloc` and `try_remove_from_list` do. -/
theorem Inv.pop (h : Inv s free F) (hb : b.order < maxOrder) {l : List ℕ}
    (hl : free b.order = b.base :: l) :
    Inv
        { freeLists :=
            Function.update s.freeLists b.order (nextOf s.mem (b.base * pageSize))
          mem := s.mem.store (physToVirt (b.base * pageSize)) 0 }
        (Function.update free b.order ((free b.order).erase b.base)) (F \ b.cells) ∧
      SameOutside F s.mem (s.mem.store (physToVirt (b.base * pageSize)) 0) := by
  have hmem : b.base ∈ free b.order := by simp [hl]
  have hlt := h.addr_lt hb hmem
  have hch := h.chain _ hb
  rw [hl, List.map_cons] at hch
  rw [Mem.store_physToVirt _ _ hlt]
  refine h.erase ⟨hb, hmem⟩ (fun k hk => Function.update_of_ne hk _ _)
    (fun a ha => Function.update_of_ne (ha _ hmem) _ _) ?_
  rw [Function.update_self, hl, List.erase_cons_head]
  refine hch.2.congr fun a ha => ?_
  obtain ⟨p, hp, rfl⟩ := List.mem_map.mp ha
  refine nextOf_update_of_ne (h.addr_lt hb (by simp [hl, hp])) fun heq => ?_
  have hnd := h.nodup hb
  rw [hl] at hnd
  rw [Nat.eq_of_mul_eq_mul_right (by decide) heq] at hp
  exact (List.nodup_cons.mp hnd).1 hp

/-- The walk of `try_remove_from_list` past a list that does not hold the address. -/
theorem tryRemoveLoop_miss {pa n cur : ℕ} {rest : List ℕ}
    (hchain : Chain (nextOf s.mem) (nextOf s.mem cur) rest) (hn : rest.length < n)
    (hpa : pa ∉ rest) : s.tryRemoveLoop pa n cur = .ok (false, s) := by
  induction rest generalizing cur n with
  | nil =>
    obtain ⟨n, rfl⟩ : ∃ m, n = m + 1 := ⟨n - 1, by simp at hn; omega⟩
    rw [chain_nil] at hchain
    simp only [tryRemoveLoop, hchain]
  | cons a rest ih =>
    obtain ⟨n, rfl⟩ : ∃ m, n = m + 1 := ⟨n - 1, by simp at hn; omega⟩
    have hne : a ≠ pa := fun h => hpa (h ▸ List.mem_cons_self)
    simp only [tryRemoveLoop, hchain.1, if_neg hne]
    exact ih hchain.2 (by simpa using hn) fun h => hpa (List.mem_cons_of_mem a h)

/-- The walk of `try_remove_from_list` to an address on the list: it unlinks it from the node
before it. -/
theorem tryRemoveLoop_hit {pa n cur : ℕ} {l₁ l₂ : List ℕ}
    (hchain : Chain (nextOf s.mem) (nextOf s.mem cur) (l₁ ++ pa :: l₂))
    (hn : l₁.length < n) (hpa : pa ∉ l₁) :
    ∃ l₀ prev, cur :: l₁ = l₀ ++ [prev] ∧ s.tryRemoveLoop pa n cur = .ok (true,
      { s with
        mem := ((s.mem.store (physToVirt pa) 0).store (physToVirt prev)
          (NonNull.word (nextOf s.mem pa))) }) := by
  induction l₁ generalizing cur n with
  | nil =>
    obtain ⟨n, rfl⟩ : ∃ m, n = m + 1 := ⟨n - 1, by simp at hn; omega⟩
    refine ⟨[], cur, rfl, ?_⟩
    have hnext : nextOf s.mem cur = some pa := hchain.1
    simp only [tryRemoveLoop, hnext, if_true]
  | cons a l₁ ih =>
    obtain ⟨n, rfl⟩ : ∃ m, n = m + 1 := ⟨n - 1, by simp at hn; omega⟩
    have hne : a ≠ pa := fun h => hpa (h ▸ List.mem_cons_self)
    obtain ⟨l₀, prev, hl₀, hrun⟩ :=
      ih hchain.2 (by simpa using hn) fun h => hpa (List.mem_cons_of_mem a h)
    refine ⟨cur :: l₀, prev, by rw [hl₀]; rfl, ?_⟩
    have hnext : nextOf s.mem cur = some a := hchain.1
    simp only [tryRemoveLoop, hnext, if_neg hne]
    exact hrun

/-- `try_remove_from_list` of a block that is not on its list. -/
theorem tryRemoveFromList_miss (h : Inv s free F) (hb : b.order < maxOrder)
    (hmem : b.base ∉ free b.order) :
    s.tryRemoveFromList (b.base * pageSize) b.order = .ok (false, s) := by
  have hch := h.chain _ hb
  have hpa : b.base * pageSize ∉ (free b.order).map (· * pageSize) := by
    rintro hp
    obtain ⟨p, hp, heq⟩ := List.mem_map.mp hp
    exact hmem (Nat.eq_of_mul_eq_mul_right (by decide) heq ▸ hp)
  cases hl : free b.order with
  | nil =>
    rw [hl] at hch
    have hnone : s.freeLists b.order = none := hch
    simp only [tryRemoveFromList, hnone]
  | cons p l =>
    have hlen := h.length_lt hb
    rw [hl, List.map_cons] at hch hpa
    rw [hl, List.length_cons] at hlen
    have hhead : p * pageSize ≠ b.base * pageSize := fun heq => hpa (by simp [heq])
    simp only [tryRemoveFromList, hch.1, if_neg hhead]
    refine tryRemoveLoop_miss hch.2 ?_ fun hp => hpa (List.mem_cons_of_mem _ hp)
    rw [List.length_map]
    exact lt_walkLimit (by omega)

/-- **`try_remove_from_list`** takes a block off its list. The node before it is on the same list,
and the one behind it is free, so its address is not null. -/
theorem tryRemoveFromList_hit (h : Inv s free F) (hb : b ∈ freeBlocks free) :
    ∃ s', s.tryRemoveFromList (b.base * pageSize) b.order = .ok (true, s') ∧
      Inv s' (Function.update free b.order ((free b.order).erase b.base)) (F \ b.cells) ∧
      SameOutside F s.mem s'.mem := by
  obtain ⟨hk, hmem⟩ := hb
  have hch := h.chain _ hk
  have hnd := h.nodup hk
  obtain ⟨l₁, l₂, hl⟩ := List.append_of_mem hmem
  cases l₁ with
  | nil =>
    have hhead : s.freeLists b.order = some (b.base * pageSize) := by
      rw [hl] at hch
      exact hch.1
    exact ⟨_, by simp only [tryRemoveFromList, hhead, if_true], h.pop hk hl⟩
  | cons p l₁ =>
    have hlen := h.length_lt hk
    rw [hl] at hch hnd
    rw [hl, List.length_append, List.length_cons] at hlen
    have hpb : p * pageSize ≠ b.base * pageSize := by
      intro heq
      rw [Nat.eq_of_mul_eq_mul_right (by decide) heq] at hnd
      exact (List.nodup_cons.mp hnd).1 (by simp)
    have hpre : b.base * pageSize ∉ l₁.map (· * pageSize) := by
      intro hp
      obtain ⟨q, hq, heq⟩ := List.mem_map.mp hp
      rw [Nat.eq_of_mul_eq_mul_right (by decide) heq] at hq
      have := (List.nodup_append.mp (List.nodup_cons.mp hnd).2).2.2 b.base hq b.base (by simp)
      exact this rfl
    simp only [List.cons_append, List.map_cons, List.map_append] at hch
    obtain ⟨l₀, prev, hl₀, hrun⟩ := tryRemoveLoop_hit (n := walkLimit) hch.2
      (by rw [List.length_map]; exact lt_walkLimit (by omega)) hpre
    refine ⟨_, by simp only [tryRemoveFromList, hch.1, if_neg hpb]; exact hrun, ?_⟩
    obtain ⟨q, hq, rfl⟩ : ∃ q ∈ p :: l₁, q * pageSize = prev := by
      have : prev ∈ (p :: l₁).map (· * pageSize) := by
        rw [List.map_cons, hl₀]
        simp
      exact List.mem_map.mp this
    have hqmem : q ∈ free b.order := by
      rw [hl]
      exact List.mem_append_left _ hq
    have hltb := h.addr_lt hk hmem
    have hltq := h.addr_lt hk hqmem
    rw [Mem.store_physToVirt _ _ hltb, Mem.store_physToVirt _ _ hltq]
    refine h.erase ⟨hk, hmem⟩ (fun _ _ => rfl) (fun a ha => ?_) ?_
    · rw [Function.update_of_ne (ha q hqmem), Function.update_of_ne (ha _ hmem)]
    · have herase : (free b.order).erase b.base = (p :: l₁) ++ l₂ := by
        rw [hl, List.erase_append_right _ ?_, List.erase_cons_head]
        intro hb
        exact (List.nodup_append.mp hnd).2.2 b.base hb b.base (by simp) rfl
      have hsplit : l₀ ++ q * pageSize :: b.base * pageSize :: l₂.map (· * pageSize) =
          p * pageSize ::
            (l₁.map (· * pageSize) ++ b.base * pageSize :: l₂.map (· * pageSize)) := by
        rw [← List.cons_append, hl₀]
        simp
      have hgoal : ((free b.order).erase b.base).map (· * pageSize) =
          l₀ ++ q * pageSize :: l₂.map (· * pageSize) := by
        rw [herase, List.map_append, List.map_cons, hl₀]
        simp
      rw [hgoal]
      have hwhole : Chain (nextOf s.mem) (s.freeLists b.order)
          (l₀ ++ q * pageSize :: b.base * pageSize :: l₂.map (· * pageSize)) := by
        rw [hsplit]
        exact hch
      refine hwhole.unlink ?_ ?_
      · rw [nextOf_update_self hltq]
        refine NonNull.new_word fun r hr => ?_
        have hafter : Chain (nextOf s.mem) (nextOf s.mem (b.base * pageSize))
            (l₂.map (· * pageSize)) := (Chain.drop_prefix hch.2).2
        rw [hafter.start_eq, List.head?_map] at hr
        obtain ⟨q', hq', rfl⟩ := Option.mem_map.mp hr
        have hq'mem : q' ∈ free b.order := by
          rw [hl]
          simp [List.mem_of_mem_head? hq']
        exact Nat.mul_pos (h.addressable.pos (h.mem_of_mem_list hk hq'mem)) (by decide)
      · intro c hc
        have hmap : (free b.order).map (· * pageSize) =
            l₀ ++ q * pageSize :: b.base * pageSize :: l₂.map (· * pageSize) := by
          rw [hsplit, hl]
          simp
        have hndl := (h.chain _ hk).nodup
        rw [hmap] at hndl
        have hclt : c < 2 ^ 32 := by
          have hcmem : c ∈ (free b.order).map (· * pageSize) := by
            rw [hmap]
            rcases List.mem_append.mp hc with hc | hc <;> simp [hc]
          obtain ⟨r, hr, rfl⟩ := List.mem_map.mp hcmem
          exact h.addr_lt hk hr
        obtain ⟨hcq, hcb⟩ : c ≠ q * pageSize ∧ c ≠ b.base * pageSize := by
          simp only [List.nodup_append, List.nodup_cons, List.mem_cons, not_or] at hndl
          obtain ⟨-, ⟨⟨-, hq⟩, hb, -⟩, hdis⟩ := hndl
          rcases List.mem_append.mp hc with hc | hc
          · exact ⟨hdis c hc _ (Or.inl rfl), hdis c hc _ (Or.inr (Or.inl rfl))⟩
          · refine ⟨?_, ?_⟩ <;> rintro rfl
            · exact hq hc
            · exact hb hc
        rw [nextOf_update_of_ne hclt hcq, nextOf_update_of_ne hclt hcb]

/-! ## Allocation -/

/-- Putting a block back whose buddy is not free keeps the tiling coalesced. -/
theorem Coal.push (h : Coal free) (hb : b.order < maxOrder)
    (hbuddy : b.order < maxOrder - 1 → b.buddy ∉ freeBlocks free) :
    Coal (Function.update free b.order (b.base :: free b.order)) := by
  rw [Coal, freeBlocks_push free hb]
  exact h.insert (Nat.le_sub_one_of_lt hb) hbuddy

theorem Coal.erase (h : Coal free) (hnd : (free b.order).Nodup) :
    Coal (Function.update free b.order ((free b.order).erase b.base)) := by
  rw [Coal, freeBlocks_erase hnd]
  exact Coalesced.erase h b

/-- A block with a page that is not free is not free. -/
theorem Inv.not_mem_of_disjoint (h : Inv s free F) (hb : Disjoint b.cells F) :
    b ∉ freeBlocks free := fun hmem =>
  Set.disjoint_left.mp hb b.base_mem_cells (h.tiles.subset hmem b.base_mem_cells)

/-- **The split loop** keeps the block `r` at the low end of `b` and frees the rest of `b`. -/
theorem splitLoop_spec {r : Block} (h : Inv s free F) (hb : b.order < maxOrder)
    (hdis : Disjoint b.cells F) (haddr : Addressable b.cells) (hbase : r.base = b.base)
    (hle : r.order ≤ b.order) :
    ∃ s' free', splitLoop (b.base * pageSize) r.order b.order s = .ok s' ∧
      Inv s' free' (F ∪ (b.cells \ r.cells)) ∧ (Coal free → Coal free') ∧
      SameOutside b.cells s.mem s'.mem := by
  -- on the order of `b`: free its upper half, then split its lower half
  induction hk : b.order generalizing b s free F with
  | zero =>
    obtain rfl : r = b := Block.ext hbase (by omega)
    refine ⟨s, free, rfl, ?_, id, SameOutside.refl _ _⟩
    rwa [Set.sdiff_self, Set.union_empty]
  | succ k ih =>
    rcases Nat.lt_or_ge r.order (k + 1) with hlt | hge
    · have hpos : 0 < b.order := by omega
      have hhalves := Block.cells_halves hpos
      have hup : b.upper.cells ⊆ b.cells := hhalves ▸ Set.subset_union_right
      have hlow : b.lower.cells ⊆ b.cells := hhalves ▸ Set.subset_union_left
      have hord : b.upper.order = k := by simp [hk]
      have hordl : b.lower.order = k := by simp [hk]
      obtain ⟨s₁, hs₁, hinv₁, hmem₁⟩ := addFreeBlock_spec (b := b.upper) h (by omega)
        (hdis.mono_left hup) (haddr.mono hup)
      have hdis₁ : Disjoint b.lower.cells (F ∪ b.upper.cells) :=
        Set.disjoint_union_right.mpr ⟨hdis.mono_left hlow, b.disjoint_halves⟩
      obtain ⟨s₂, free₂, hs₂, hinv₂, hcoal₂, hmem₂⟩ := ih hinv₁ (by omega) hdis₁
        (haddr.mono hlow) (by simpa using hbase) (by omega) hordl
      have haddr_up : b.base * pageSize + 2 ^ (k + 1 + pageSizeBits) / 2 =
          b.upper.base * pageSize := by
        rw [Block.upper_base, hk, Nat.add_sub_cancel, add_mul, pow_add, pow_succ,
          Nat.mul_right_comm, Nat.mul_div_cancel _ (by decide), two_pow_pageSizeBits]
      refine ⟨s₂, free₂, ?_, ?_, fun hc => hcoal₂ (hc.push (by omega) fun _ => ?_), ?_⟩
      · rw [splitLoop, if_pos hlt]
        dsimp only
        rw [haddr_up, ← hord, hs₁, hord]
        exact hs₂
      · have hr : r.cells ⊆ b.lower.cells :=
          Block.subset_of_mem_cells (by omega) r.base_mem_cells
            (by rw [hbase]; exact b.lower.base_mem_cells)
        have hset : F ∪ b.upper.cells ∪ (b.lower.cells \ r.cells) = F ∪ (b.cells \ r.cells) := by
          have hru : Disjoint b.upper.cells r.cells :=
            (b.disjoint_halves.mono_left hr).symm
          rw [hhalves, Set.union_sdiff_distrib, hru.sdiff_eq_left, Set.union_assoc,
            Set.union_comm b.upper.cells]
        rwa [hset] at hinv₂
      · have hbud : b.upper.buddy = b.lower := by
          rw [← Block.buddy_lower hpos, Block.buddy_buddy]
        rw [hbud]
        exact h.not_mem_of_disjoint (hdis.mono_left hlow)
      · exact (hmem₁.mono hup).trans (hmem₂.mono hlow)
    · obtain rfl : r = b := Block.ext hbase (by omega)
      refine ⟨s, free, ?_, ?_, id, SameOutside.refl _ _⟩
      · rw [splitLoop, if_neg (by omega)]
      · rwa [Set.sdiff_self, Set.union_empty]

/-- What a successful allocation of the block `r` leaves behind. -/
def Allocated (s : BuddySystemFrameAllocator) (free : ℕ → List ℕ) (F : Set ℕ) (r : Block)
    (s' : BuddySystemFrameAllocator) : Prop :=
  r.cells ⊆ F ∧ SameOutside F s.mem s'.mem ∧
    ∃ free', Inv s' free' (F \ r.cells) ∧ (Coal free → Coal free')

/-- The first order from `order` on, of `n`, whose list is not empty, and the first block there. -/
def firstBlock (freeLists : ℕ → Option ℕ) : ℕ → ℕ → Option (ℕ × ℕ)
  | 0, _ => none
  | n + 1, order =>
    match freeLists order with
    | none => firstBlock freeLists n (order + 1)
    | some block => some (order, block)

/-- The allocator without the first block of a list. -/
def unlinkFirst (s : BuddySystemFrameAllocator) (order block : ℕ) : BuddySystemFrameAllocator where
  freeLists := Function.update s.freeLists order (nextOf s.mem block)
  mem := s.mem.store (physToVirt block) 0

/-- The search loop splits the first block that it finds. -/
theorem allocLoop_eq (s : BuddySystemFrameAllocator) (required n order : ℕ) :
    s.allocLoop required n order =
      (firstBlock s.freeLists n order).elim (.ok (none, s)) (fun found =>
        splitLoop found.2 required found.1 (s.unlinkFirst found.1 found.2) >>= fun s' =>
        PhysPageNum.ofPhysAddr found.2 >>= fun ppn => .ok (some ppn, s')) := by
  induction n generalizing order with
  | zero => rfl
  | succ n ih =>
    rw [allocLoop, firstBlock]
    cases s.freeLists order with
    | none => exact ih (order + 1)
    | some block => rfl

/-- What the search loop finds, in terms of the lists. -/
theorem Inv.firstBlock_cases (h : Inv s free F) {n order : ℕ} (hn : order + n = maxOrder) :
    (∃ k p l, order ≤ k ∧ k < maxOrder ∧ free k = p :: l ∧
      firstBlock s.freeLists n order = some (k, p * pageSize)) ∨
    ((∀ k, order ≤ k → k < maxOrder → free k = []) ∧ firstBlock s.freeLists n order = none) := by
  induction n generalizing order with
  | zero => exact Or.inr ⟨fun k hk hk' => by omega, rfl⟩
  | succ n ih =>
    have hk : order < maxOrder := by omega
    have hch := h.chain order hk
    rw [firstBlock]
    cases hl : free order with
    | nil =>
      rw [hl] at hch
      have hnone : s.freeLists order = none := hch
      rw [hnone]
      have hn' : order + 1 + n = maxOrder := by omega
      rcases ih hn' with ⟨k, p, l, hle, hfound⟩ | ⟨hempty, hnone'⟩
      · exact Or.inl ⟨k, p, l, Nat.le_of_succ_le hle, hfound⟩
      · refine Or.inr ⟨fun k hle hlt => ?_, hnone'⟩
        rcases hle.eq_or_lt with rfl | hlt'
        · exact hl
        · exact hempty k hlt' hlt
    | cons p l =>
      rw [hl, List.map_cons] at hch
      rw [hch.1]
      exact Or.inl ⟨order, p, l, le_rfl, hk, hl, rfl⟩

/-- **The search loop** takes a block of the first order from `order` on that has one. -/
theorem allocLoop_spec (h : Inv s free F) {required : ℕ} (n order : ℕ) (hn : order + n = maxOrder)
    (hreq : required ≤ order) :
    (∃ s' r, r.order = required ∧ Allocated s free F r s' ∧
      s.allocLoop required n order = .ok (some r.base, s')) ∨
    ((∀ k, order ≤ k → k < maxOrder → free k = []) ∧
      s.allocLoop required n order = .ok (none, s)) := by
  rw [allocLoop_eq]
  rcases h.firstBlock_cases hn with ⟨k, p, l, hle, hk, hl, hfirst⟩ | ⟨hempty, hnone⟩
  · -- the block `b` is taken off its list, and what is left of it after `r` goes to the lists
    left
    have hp : p ∈ free k := by simp [hl]
    have hreq' : required ≤ k := hreq.trans hle
    let b : Block := ⟨p, k, h.aligned k hk p hp⟩
    let r : Block := ⟨p, required, (Nat.pow_dvd_pow 2 hreq').trans b.aligned⟩
    have hbF : b.cells ⊆ F := h.tiles.subset (b := b) ⟨hk, hp⟩
    have hrb : r.cells ⊆ b.cells :=
      Block.subset_of_mem_cells hreq' r.base_mem_cells b.base_mem_cells
    obtain ⟨hinv₁, hmem₁⟩ := h.pop (b := b) hk hl
    obtain ⟨s₂, free₂, hs₂, hinv₂, hcoal₂, hmem₂⟩ := splitLoop_spec (b := b) (r := r) hinv₁ hk
      Set.disjoint_sdiff_right (h.addressable.mono hbF) rfl hreq'
    refine ⟨s₂, r, rfl, ⟨hrb.trans hbF, ?_, free₂, ?_, fun hc => hcoal₂ ?_⟩, ?_⟩
    · exact hmem₁.trans (hmem₂.mono hbF)
    · have hset : F \ b.cells ∪ (b.cells \ r.cells) = F \ r.cells :=
        Set.sdiff_union_sdiff_cancel hbF hrb
      rwa [hset] at hinv₂
    · exact hc.erase (b := b) (h.nodup hk)
    · have hsplit :
          splitLoop (p * pageSize) required k (s.unlinkFirst k (p * pageSize)) = .ok s₂ := hs₂
      rw [hfirst, Option.elim_some, hsplit, ok_bind, PhysPageNum.ofPhysAddr_mul, ok_bind]
  · right
    rw [hnone]
    exact ⟨hempty, rfl⟩

theorem pagesToOrder_eq {n : ℕ} (hn : 0 < n) (hlt : n < 2 ^ 64) :
    pagesToOrder n = Nat.clog 2 n :=
  Usize.trailingZeros_nextPowerOfTwo hn hlt

/-- **`alloc`** takes a block of the least order that holds the pages, or finds no free block of
that order or above. -/
theorem alloc_spec (h : Inv s free F) {n : ℕ} (hn : 0 < n) (hlt : n < 2 ^ 64) :
    (∃ s' r, r.order = Nat.clog 2 n ∧ r.order < maxOrder ∧ Allocated s free F r s' ∧
      s.alloc n = .ok (some r.base, s')) ∨
    ((∀ k, Nat.clog 2 n ≤ k → k < maxOrder → free k = []) ∧ s.alloc n = .ok (none, s)) := by
  rw [alloc, pagesToOrder_eq hn hlt]
  by_cases hk : maxOrder ≤ Nat.clog 2 n
  · rw [if_pos hk]
    exact Or.inr ⟨fun k hle hlt => by omega, rfl⟩
  · rw [if_neg hk]
    rcases allocLoop_spec h (maxOrder - Nat.clog 2 n) (Nat.clog 2 n) (by omega) le_rfl with
      ⟨s', r, hr, hall, hs'⟩ | hnone
    · exact Or.inl ⟨s', r, hr, by omega, hall, hs'⟩
    · exact Or.inr hnone

/-- The split loop writes to the first words of pages behind the first one. -/
theorem splitLoop_words {p required order : ℕ} (hlt : (p + 2 ^ order) * pageSize ≤ 2 ^ 32)
    (h : splitLoop (p * pageSize) required order s = .ok s') {a : ℕ}
    (ha : a % pageSize = 0 → a = p * pageSize) : s'.mem a = s.mem a := by
  induction order generalizing s with
  | zero =>
    cases h
    rfl
  | succ order ih =>
    rw [splitLoop] at h
    split at h
    · obtain ⟨s₁, hs₁, h⟩ := exists_of_bind_eq_ok h
      have hhalf : 2 ^ (order + 1 + pageSizeBits) / 2 = 2 ^ order * pageSize := by
        rw [pow_add, pow_succ, Nat.mul_right_comm, Nat.mul_div_cancel _ Nat.zero_lt_two,
          two_pow_pageSizeBits]
      have hlow : (p + 2 ^ order) * pageSize ≤ 2 ^ 32 := by
        refine (Nat.mul_le_mul_right pageSize ?_).trans hlt
        rw [pow_succ]
        omega
      rw [ih hlow h]
      unfold addFreeBlock at hs₁
      split at hs₁
      · cases hs₁
      · cases hs₁
        have hpos := Nat.two_pow_pos order
        have hup : (p + 2 ^ order) * pageSize < 2 ^ 32 := by
          refine (Nat.mul_lt_mul_of_pos_right ?_ (by decide)).trans_le hlt
          rw [pow_succ]
          omega
        rw [hhalf, ← add_mul, Mem.store_physToVirt _ _ hup]
        refine Function.update_of_ne ?_ _ _
        rintro rfl
        have := ha (Nat.mul_mod_left _ _)
        simp only [pageSize] at this
        omega
    · cases h
      rfl

/-- The block that the search loop returns, and the split that it ends with. -/
theorem Inv.allocLoop_cases (h : Inv s free F) {required r n order : ℕ} (hn : order + n = maxOrder)
    (hrun : s.allocLoop required n order = .ok (some r, s')) :
    ∃ k, k < maxOrder ∧ r ∈ free k ∧ firstBlock s.freeLists n order = some (k, r * pageSize) ∧
      splitLoop (r * pageSize) required k (s.unlinkFirst k (r * pageSize)) = .ok s' := by
  rw [allocLoop_eq] at hrun
  rcases h.firstBlock_cases hn with ⟨k, p, l, -, hk, hl, hfirst⟩ | ⟨-, hnone⟩
  · rw [hfirst, Option.elim_some] at hrun
    obtain ⟨s₂, hsplit, hrest⟩ := exists_of_bind_eq_ok hrun
    rw [PhysPageNum.ofPhysAddr_mul, ok_bind] at hrest
    cases hrest
    exact ⟨k, hk, by simp [hl], hfirst, hsplit⟩
  · rw [hnone] at hrun
    cases hrun

/-- The search loop clears the first word of the block that it takes, and changes no word but the
first of a page. -/
theorem Inv.allocLoop_words (h : Inv s free F) {required r n order : ℕ} (hn : order + n = maxOrder)
    (hrun : s.allocLoop required n order = .ok (some r, s')) :
    (∀ a, a % pageSize ≠ 0 → s'.mem a = s.mem a) ∧ s'.mem (r * pageSize) = 0 := by
  obtain ⟨k, hk, hr, -, hsplit⟩ := h.allocLoop_cases hn hrun
  let b : Block := ⟨r, k, h.aligned k hk r hr⟩
  have hbF : b.cells ⊆ F := h.tiles.subset (b := b) ⟨hk, hr⟩
  have hlast : r + 2 ^ k - 1 ∈ b.cells := by
    have := Nat.two_pow_pos k
    exact Block.mem_cells.mpr ⟨show r ≤ _ by omega, show _ < r + 2 ^ k by omega⟩
  have hlt := h.addressable.lt (hbF hlast)
  have hend : r + 2 ^ k ≤ 2 ^ 20 := by omega
  have hwords : ∀ a, (a % pageSize = 0 → a = r * pageSize) →
      s'.mem a = Function.update s.mem (r * pageSize) 0 a := by
    intro a ha
    rw [splitLoop_words (Nat.mul_le_mul_right pageSize hend) hsplit ha, unlinkFirst,
      Mem.store_physToVirt _ _ (h.addr_lt hk hr)]
  refine ⟨fun a ha => ?_, ?_⟩
  · rw [hwords a fun hz => absurd hz ha, Function.update_of_ne]
    rintro rfl
    exact ha (Nat.mul_mod_left _ _)
  · rw [hwords _ fun _ => rfl, Function.update_self]

/-- A block is handed out with its first word cleared. -/
theorem Inv.alloc_first_word (h : Inv s free F) {n r : ℕ} (hrun : s.alloc n = .ok (some r, s')) :
    s'.mem (r * pageSize) = 0 := by
  rw [alloc] at hrun
  split at hrun
  case isTrue => cases hrun
  case isFalse hk => exact (h.allocLoop_words (by omega) hrun).2

/-! ## Release -/

/-- Page addresses and block sizes differ from page numbers and block lengths by a shift. -/
theorem addr_xor_size (b : Block) :
    b.base * pageSize ^^^ 2 ^ (b.order + pageSizeBits) = b.buddy.base * pageSize := by
  have := Nat.shiftLeft_xor_distrib (a := b.base) (b := 2 ^ b.order) (i := pageSizeBits)
  rw [Nat.shiftLeft_eq, Nat.shiftLeft_eq, Nat.shiftLeft_eq, ← pow_add] at this
  rw [Block.buddy_base]
  exact this.symm

/-- What putting the block `b` back leaves behind. -/
def Freed (s : BuddySystemFrameAllocator) (free : ℕ → List ℕ) (F : Set ℕ) (b : Block)
    (s' : BuddySystemFrameAllocator) : Prop :=
  SameOutside (F ∪ b.cells) s.mem s'.mem ∧
    ∃ free', Inv s' free' (F ∪ b.cells) ∧ (Coal free → Coal free')

/-- **The merge loop** puts the pages of `b` back, whatever it merges them with. -/
theorem mergeLoop_spec :
    ∀ n {s : BuddySystemFrameAllocator} {free : ℕ → List ℕ} {F : Set ℕ} {b : Block},
      Inv s free F → b.order + n = maxOrder - 1 → Disjoint b.cells F → Addressable b.cells →
      ∃ s', Freed s free F b s' ∧
        mergeLoop n (b.base * pageSize) (2 ^ (b.order + pageSizeBits)) b.order s = .ok s' := by
  intro n
  induction n with
  | zero =>
    intro s free F b h hn hdis haddr
    have hk : b.order < maxOrder := hn.trans_lt (by decide)
    obtain ⟨s', hs', hinv, hmem⟩ := addFreeBlock_spec h hk hdis haddr
    exact ⟨s', ⟨hmem.mono Set.subset_union_right, _, hinv,
      fun hc => hc.push hk fun hlt => absurd hn hlt.ne⟩, hs'⟩
  | succ n ih =>
    intro s free F b h hn hdis haddr
    have hk : b.order < maxOrder := by omega
    by_cases hbud : b.buddy ∈ freeBlocks free
    · -- the buddy leaves its list, and the parent is put back in its place
      have hbudF : b.buddy.cells ⊆ F := h.tiles.subset hbud
      obtain ⟨s₁, hs₁, hinv₁, hmem₁⟩ := tryRemoveFromList_hit h hbud
      have hpar := b.cells_parent
      have hdis₁ : Disjoint b.parent.cells (F \ b.buddy.cells) := by
        rw [hpar]
        exact Set.disjoint_union_left.mpr
          ⟨hdis.mono_right Set.sdiff_subset, Set.disjoint_sdiff_right⟩
      have haddr₁ : Addressable b.parent.cells := by
        rw [hpar]
        rintro p (hp | hp)
        · exact haddr p hp
        · exact h.addressable p (hbudF hp)
      obtain ⟨s₂, ⟨hmem₂, free₂, hinv₂, hcoal₂⟩, hs₂⟩ :=
        ih hinv₁ (by rw [Block.parent_order]; omega) hdis₁ haddr₁
      have hset : F \ b.buddy.cells ∪ b.parent.cells = F ∪ b.cells := by
        rw [hpar, Set.union_comm b.cells, ← Set.union_assoc, Set.sdiff_union_of_subset hbudF]
      rw [hset] at hinv₂ hmem₂
      refine ⟨s₂, ⟨(hmem₁.mono Set.subset_union_left).trans hmem₂, free₂, hinv₂, fun hc =>
        hcoal₂ (hc.erase (b := b.buddy) (h.nodup hbud.1))⟩, ?_⟩
      have hmin : min (b.base * pageSize) (b.buddy.base * pageSize) = b.parent.base * pageSize :=
        (Nat.mul_min_mul_right b.base b.buddy.base pageSize)
      have hsize : 2 ^ (b.order + pageSizeBits) * 2 = 2 ^ (b.parent.order + pageSizeBits) := by
        rw [← pow_succ, Block.parent_order, Nat.add_right_comm]
      rw [mergeLoop]
      dsimp only
      rw [addr_xor_size, show s.tryRemoveFromList (b.buddy.base * pageSize) b.order =
        .ok (true, s₁) from hs₁]
      show mergeLoop n _ _ (b.order + 1) s₁ = _
      rw [hmin, hsize]
      exact hs₂
    · have hmiss := tryRemoveFromList_miss (b := b.buddy) h hk fun hmem => hbud ⟨hk, hmem⟩
      obtain ⟨s', hs', hinv, hmem⟩ := addFreeBlock_spec h hk hdis haddr
      refine ⟨s', ⟨hmem.mono Set.subset_union_right, _, hinv,
        fun hc => hc.push hk fun _ => hbud⟩, ?_⟩
      rw [mergeLoop]
      dsimp only
      rw [addr_xor_size, show s.tryRemoveFromList (b.buddy.base * pageSize) b.order =
        .ok (false, s) from hmiss]
      exact hs'

/-- **`dealloc`** of a block that is not free puts its pages back. -/
theorem dealloc_spec (h : Inv s free F) {n : ℕ} (hn : 0 < n) (hlt : n < 2 ^ 64)
    (hb : b.order = Nat.clog 2 n) (hk : b.order < maxOrder) (hdis : Disjoint b.cells F)
    (haddr : Addressable b.cells) :
    ∃ s', Freed s free F b s' ∧ s.dealloc b.base n = .ok s' := by
  obtain ⟨s', hfreed, hs'⟩ := mergeLoop_spec (maxOrder - 1 - b.order) h (by omega) hdis haddr
  refine ⟨s', hfreed, ?_⟩
  have hbase := haddr.lt b.base_mem_cells
  rw [dealloc, pagesToOrder_eq hn hlt, ← hb, PhysAddr.ofPpn_eq (by omega)]
  exact hs'

/-! ## New regions -/

/-- The order of a block of a region is the largest that its alignment, the rest of the region and
the number of lists allow. -/
theorem le_regionOrder_iff {current remaining k : ℕ} (hrem : 0 < remaining) :
    k ≤ regionOrder current remaining ↔ 2 ^ k ∣ current ∧ 2 ^ k ≤ remaining ∧ k < maxOrder := by
  have hmax : maxOrder = 16 := rfl
  have hlog : k ≤ Nat.log2 remaining ↔ 2 ^ k ≤ remaining := Nat.le_log2 (by omega)
  rw [regionOrder, le_min_iff, le_min_iff, hlog]
  split
  case isTrue hzero =>
    rw [hzero]
    constructor
    · rintro ⟨⟨h₁, h₂⟩, -⟩
      exact ⟨dvd_zero _, h₁, by omega⟩
    · rintro ⟨-, h₁, h₂⟩
      exact ⟨⟨h₁, by omega⟩, by omega⟩
  case isFalse hcur =>
    rw [le_min_iff]
    constructor
    · rintro ⟨⟨h₁, h₂, h₃⟩, -⟩
      exact ⟨(Usize.le_trailingZeros_iff (by omega)).mp h₂, h₁, by omega⟩
    · rintro ⟨h₁, h₂, h₃⟩
      exact ⟨⟨h₂, (Usize.le_trailingZeros_iff (by omega)).mpr h₁, by omega⟩, by omega⟩

/-- What is to the left of `current` while a region up to `endPpn` is being added: a page that is
not free, or a block of the region, which was the largest that fitted there. -/
def LeftEdge (free : ℕ → List ℕ) (F : Set ℕ) (current endPpn : ℕ) : Prop :=
  current - 1 ∉ F ∨ ∃ b ∈ freeBlocks free, b.base + 2 ^ b.order = current ∧
    ∀ k < maxOrder, 2 ^ k ∣ b.base → b.base + 2 ^ k ≤ endPpn → k ≤ b.order

/-- The next block of a region finds its buddy not free: a buddy on the right would start on a
page that is not free yet, and a buddy on the left would have been taken in a block twice its
size. -/
theorem buddy_not_mem_of_leftEdge (h : Inv s free F) {endPpn : ℕ} (hpos : 0 < b.base)
    (hk : b.order < maxOrder - 1) (hle : b.base + 2 ^ b.order ≤ endPpn)
    (hdis : Disjoint (Set.Ico b.base endPpn) F) (hend : endPpn ∉ F)
    (hleft : LeftEdge free F b.base endPpn) : b.buddy ∉ freeBlocks free := by
  intro hmem
  have hsub := h.tiles.subset hmem
  have hpow := Nat.two_pow_pos b.order
  rcases b.base_or_buddy with ⟨-, hbase⟩ | ⟨hdvd, hbase⟩
  · have hF : b.buddy.base ∈ F := hsub b.buddy.base_mem_cells
    rcases hle.eq_or_lt with heq | hlt
    · exact hend (by rwa [← heq, ← hbase])
    · exact Set.disjoint_left.mp hdis ⟨by omega, by omega⟩ hF
  · have hlast : b.base - 1 ∈ b.buddy.cells := by
      rw [Block.mem_cells, Block.buddy_order]
      omega
    rcases hleft with hfree | ⟨c, hc, hcbase, hmax⟩
    · exact hfree (hsub hlast)
    · have hcp := Nat.two_pow_pos c.order
      have hclast : b.base - 1 ∈ c.cells := by
        rw [Block.mem_cells]
        omega
      obtain rfl := h.tiles.eq_of_mem hc hmem hclast hlast
      have hpow' : 2 ^ (b.order + 1) = 2 ^ b.order + 2 ^ b.order := by
        rw [pow_succ, mul_two]
      have := hmax (b.order + 1) (by omega) hdvd (by omega)
      rw [Block.buddy_order] at this
      omega

/-- **The loop of `add_free_region`** tiles the rest of its range. -/
theorem addFreeRegionLoop_spec {endPpn : ℕ} (hend : endPpn ≤ 2 ^ 20) :
    ∀ n {c : ℕ} {s : BuddySystemFrameAllocator} {free : ℕ → List ℕ} {F : Set ℕ},
      Inv s free F → endPpn ≤ c + n → 0 < c → Disjoint (Set.Ico c endPpn) F →
      ∃ s' free', addFreeRegionLoop endPpn n c s = .ok s' ∧
        Inv s' free' (F ∪ Set.Ico c endPpn) ∧ SameOutside (Set.Ico c endPpn) s.mem s'.mem ∧
        (Coal free → endPpn ∉ F → LeftEdge free F c endPpn → Coal free') := by
  intro n
  induction n with
  | zero =>
    intro current s free F h hn hpos hdis
    have hempty : Set.Ico current endPpn = ∅ := Set.Ico_eq_empty (by omega)
    rw [hempty, Set.union_empty, addFreeRegionLoop, if_neg (by omega)]
    exact ⟨s, free, rfl, h, SameOutside.refl _ _, fun hc _ _ => hc⟩
  | succ n ih =>
    intro current s free F h hn hpos hdis
    by_cases hlt : current < endPpn
    · obtain ⟨hdvd, hfit, hk⟩ := (le_regionOrder_iff (k := regionOrder current (endPpn - current))
        (by omega)).mp le_rfl
      let b : Block := ⟨current, regionOrder current (endPpn - current), hdvd⟩
      have hbpow := Nat.two_pow_pos b.order
      have hble : b.base + 2 ^ b.order ≤ endPpn := by
        show current + 2 ^ regionOrder current (endPpn - current) ≤ endPpn
        omega
      have hbsub : b.cells ⊆ Set.Ico current endPpn := by
        rw [b.cells_eq_Ico]
        exact Set.Ico_subset_Ico le_rfl hble
      have hbdis : Disjoint b.cells F := hdis.mono_left hbsub
      have hbaddr : Addressable b.cells := Addressable.of_lt fun p hp => by
        have := hbsub hp
        rw [Set.mem_Ico] at this
        omega
      obtain ⟨s₁, hs₁, hinv₁, hmem₁⟩ := addFreeBlock_spec (b := b) h hk hbdis hbaddr
      have hrest : Disjoint (Set.Ico (current + 2 ^ b.order) endPpn) (F ∪ b.cells) := by
        refine Set.disjoint_union_right.mpr ⟨hdis.mono_left ?_, ?_⟩
        · exact Set.Ico_subset_Ico (by omega) le_rfl
        · rw [Set.disjoint_left]
          rintro p hp hpb
          rw [Set.mem_Ico] at hp
          have hpb' : p < current + 2 ^ b.order := hpb.2
          omega
      obtain ⟨s₂, free₂, hs₂, hinv₂, hmem₂, hcoal₂⟩ :=
        ih (c := current + 2 ^ b.order) hinv₁ (by omega) (by omega) hrest
      have hset : F ∪ b.cells ∪ Set.Ico (current + 2 ^ b.order) endPpn =
          F ∪ Set.Ico current endPpn := by
        rw [Set.union_assoc, b.cells_eq_Ico,
          Set.Ico_union_Ico_eq_Ico (Nat.le_add_right _ _) hble]
      rw [hset] at hinv₂
      refine ⟨s₂, free₂, ?_, hinv₂, ?_, fun hc hendF hleft => hcoal₂ ?_ ?_ ?_⟩
      · rw [addFreeRegionLoop, if_pos hlt]
        dsimp only
        rw [PhysAddr.ofPpn_eq (by omega), show s.addFreeBlock (current * 4096)
          (regionOrder current (endPpn - current)) = .ok s₁ from hs₁]
        exact hs₂
      · refine (hmem₁.mono hbsub).trans (hmem₂.mono ?_)
        exact Set.Ico_subset_Ico (by omega) le_rfl
      · exact hc.push hk fun hk' =>
          buddy_not_mem_of_leftEdge h hpos hk' hble hdis hendF hleft
      · rintro (hF | hF)
        · exact hendF hF
        · exact absurd (hbsub hF).2 (lt_irrefl _)
      · refine Or.inr ⟨b, ?_, rfl, fun k hk' hd hfit' => ?_⟩
        · rw [freeBlocks_push free hk]
          exact Or.inl rfl
        · refine (le_regionOrder_iff (by omega)).mpr ⟨hd, ?_, hk'⟩
          show 2 ^ k ≤ endPpn - current
          have : current + 2 ^ k ≤ endPpn := hfit'
          omega
    · have hempty : Set.Ico current endPpn = ∅ := Set.Ico_eq_empty hlt
      rw [hempty, Set.union_empty, addFreeRegionLoop, if_neg hlt]
      exact ⟨s, free, rfl, h, SameOutside.refl _ _, fun hc _ _ => hc⟩

/-- **`add_free_region`** tiles its range, and coalesces when no free page touches it. -/
theorem addFreeRegion_spec {startPpn endPpn : ℕ} (h : Inv s free F)
    (haddr : Addressable (Set.Ico startPpn endPpn)) (hdis : Disjoint (Set.Ico startPpn endPpn) F) :
    ∃ s' free', s.addFreeRegion startPpn endPpn = .ok s' ∧
      Inv s' free' (F ∪ Set.Ico startPpn endPpn) ∧
      SameOutside (Set.Ico startPpn endPpn) s.mem s'.mem ∧
      (Coal free → endPpn ∉ F → startPpn - 1 ∉ F → Coal free') := by
  rw [addFreeRegion]
  by_cases hle : endPpn ≤ startPpn
  · have hempty : Set.Ico startPpn endPpn = ∅ := Set.Ico_eq_empty (by omega)
    rw [if_pos hle, hempty, Set.union_empty]
    exact ⟨s, free, rfl, h, SameOutside.refl _ _, fun hc _ _ => hc⟩
  · rw [if_neg hle]
    have hpos := haddr.pos (p := startPpn) ⟨le_rfl, by omega⟩
    have hlast := haddr.lt (p := endPpn - 1) ⟨by omega, by omega⟩
    have hend : endPpn ≤ 2 ^ 20 := by omega
    obtain ⟨s', free', hs', hinv, hmem, hcoal⟩ :=
      addFreeRegionLoop_spec hend (endPpn - startPpn) h (by omega) hpos hdis
    exact ⟨s', free', hs', hinv, hmem, fun hc hendF hstart => hcoal hc hendF (Or.inl hstart)⟩

end BuddySystemFrameAllocator

end CharlotteOs
