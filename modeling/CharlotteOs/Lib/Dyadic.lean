import Mathlib.Algebra.Order.Ring.Nat
import Mathlib.Data.Nat.Bitwise
import Mathlib.Data.Set.Lattice
import Mathlib.Order.BourbakiWitt
import Mathlib.Order.CompletePartialOrder
import Mathlib.Order.Interval.Set.LinearOrder
import Mathlib.Tactic.Linarith
import Mathlib.Tactic.Ring

/-!
# Dyadic blocks and their tilings

A dyadic block of order `k` is a run of `2 ^ k` cells that starts at a multiple of `2 ^ k`. Two
blocks are disjoint or nested, and a block and its buddy form their parent. A tiling of a set of
cells is a set of pairwise disjoint blocks that covers it exactly. A tiling in which no block
below the top order has its buddy beside it is the only such tiling of its cells: its blocks are
the maximal blocks inside the set.

## Main definitions

* `Block`: a dyadic block, with its alignment
* `Block.cells`, `Block.buddy`, `Block.parent`, `Block.lower`, `Block.upper`
* `Tiles B P`: the blocks of `B` are pairwise disjoint and cover exactly `P`
* `Coalesced top B`: no block of `B` below the top order has its buddy in `B`

## Main results

* `Block.subset_of_mem_cells`: two blocks that meet are nested
* `Block.cells_halves`, `Block.cells_parent`: splitting and merging
* `Tiles.erase`, `Tiles.insert`: a tiling under removal and insertion of one block
* `Tiles.exists_superset`: in a coalesced tiling every block inside the set is inside one tile
* `Tiles.unique`: the coalesced tiling of a set of cells is unique
-/

namespace DyadicTiling

/-- A dyadic block: `2 ^ order` cells from `base`, which is a multiple of `2 ^ order`. -/
@[ext] structure Block where
  base : ℕ
  order : ℕ
  aligned : 2 ^ order ∣ base

instance : DecidableEq Block := fun b c =>
  decidable_of_iff (b.base = c.base ∧ b.order = c.order) Block.ext_iff.symm

namespace Block

variable {b c : Block} {p : ℕ}

/-- The cells of a block. -/
def cells (b : Block) : Set ℕ := {p | b.base ≤ p ∧ p < b.base + 2 ^ b.order}

@[simp] theorem mem_cells : p ∈ b.cells ↔ b.base ≤ p ∧ p < b.base + 2 ^ b.order := Iff.rfl

theorem cells_eq_Ico (b : Block) : b.cells = Set.Ico b.base (b.base + 2 ^ b.order) := by
  ext p
  rw [mem_cells, Set.mem_Ico]

theorem base_mem_cells (b : Block) : b.base ∈ b.cells :=
  ⟨le_rfl, Nat.lt_add_of_pos_right (Nat.two_pow_pos _)⟩

/-- The block of an order that a cell lies in. -/
def containing (order p : ℕ) : Block where
  base := p / 2 ^ order * 2 ^ order
  order := order
  aligned := Nat.dvd_mul_left _ _

@[simp] theorem containing_order (order p : ℕ) : (containing order p).order = order := rfl

theorem containing_base {order p : ℕ} (h : 2 ^ order ∣ p) : (containing order p).base = p :=
  Nat.div_mul_cancel h

/-- A block of one page. -/
theorem cells_containing_zero (p : ℕ) : (containing 0 p).cells = {p} := by
  ext x
  rw [mem_cells, containing_order, containing_base (by simp), pow_zero, Set.mem_singleton_iff]
  omega

/-- A cell lies in a block of order `k` exactly when its quotient by `2 ^ k` is the block's. -/
theorem mem_cells_iff_div : p ∈ b.cells ↔ p / 2 ^ b.order = b.base / 2 ^ b.order := by
  obtain ⟨q, hq⟩ := b.aligned
  have hpos : 0 < 2 ^ b.order := Nat.two_pow_pos _
  rw [mem_cells, hq, Nat.mul_div_cancel_left _ hpos, Nat.div_eq_iff hpos, mul_comm q]
  omega

/-- Blocks of one order that share a cell are equal. -/
theorem eq_of_mem_cells (ho : b.order = c.order) (hb : p ∈ b.cells) (hc : p ∈ c.cells) :
    b = c := by
  rw [mem_cells_iff_div] at hb hc
  refine Block.ext ?_ ho
  rw [← ho, hb] at hc
  have hdc : 2 ^ b.order ∣ c.base := ho ▸ c.aligned
  exact (Nat.div_left_inj b.aligned hdc).mp hc

/-- Two blocks that meet are nested: the one of smaller order is inside the other. -/
theorem subset_of_mem_cells (ho : b.order ≤ c.order) (hb : p ∈ b.cells) (hc : p ∈ c.cells) :
    b.cells ⊆ c.cells := by
  intro q hq
  rw [mem_cells_iff_div] at hb hc hq ⊢
  have hdvd : 2 ^ c.order = 2 ^ b.order * 2 ^ (c.order - b.order) := by
    rw [← pow_add, Nat.add_sub_cancel' ho]
  rw [hdvd, ← Nat.div_div_eq_div_mul] at hc
  rw [hdvd, ← Nat.div_div_eq_div_mul, hq, ← hb, hc]

/-- Nested blocks of one order are equal. -/
theorem eq_of_subset (ho : b.order = c.order) (h : b.cells ⊆ c.cells) : b = c :=
  eq_of_mem_cells ho b.base_mem_cells (h b.base_mem_cells)

/-- The smaller of two nested blocks has the smaller order. -/
theorem order_le_of_subset (h : b.cells ⊆ c.cells) : b.order ≤ c.order := by
  by_contra hlt
  push Not at hlt
  have hcb := subset_of_mem_cells hlt.le (h b.base_mem_cells) b.base_mem_cells
  have hpow : 2 ^ c.order < 2 ^ b.order := Nat.pow_lt_pow_right (by omega) hlt
  have h₁ := h b.base_mem_cells
  have h₂ : b.base + 2 ^ b.order - 1 ∈ b.cells := by
    have := Nat.two_pow_pos b.order
    constructor <;> omega
  have h₃ := h h₂
  simp only [mem_cells] at h₁ h₃
  have h₄ := hcb c.base_mem_cells
  simp only [mem_cells] at h₄
  omega

/-! ## Halves, buddies and parents -/

/-- The lower half of a block of positive order. -/
def lower (b : Block) : Block where
  base := b.base
  order := b.order - 1
  aligned := (Nat.pow_dvd_pow 2 (Nat.sub_le _ _)).trans b.aligned

/-- The upper half of a block of positive order. -/
def upper (b : Block) : Block where
  base := b.base + 2 ^ (b.order - 1)
  order := b.order - 1
  aligned := Nat.dvd_add ((Nat.pow_dvd_pow 2 (Nat.sub_le _ _)).trans b.aligned) dvd_rfl

@[simp] theorem lower_base (b : Block) : b.lower.base = b.base := rfl

@[simp] theorem lower_order (b : Block) : b.lower.order = b.order - 1 := rfl

@[simp] theorem upper_base (b : Block) : b.upper.base = b.base + 2 ^ (b.order - 1) := rfl

@[simp] theorem upper_order (b : Block) : b.upper.order = b.order - 1 := rfl

/-- A block is its two halves. -/
theorem cells_halves (h : 0 < b.order) : b.cells = b.lower.cells ∪ b.upper.cells := by
  have hpow : 2 ^ b.order = 2 ^ (b.order - 1) + 2 ^ (b.order - 1) := by
    rw [← two_mul, ← pow_succ', Nat.sub_add_cancel h]
  ext p
  simp only [mem_cells, Set.mem_union, lower_base, lower_order, upper_base, upper_order]
  omega

theorem disjoint_halves (b : Block) : Disjoint b.lower.cells b.upper.cells := by
  rw [Set.disjoint_left]
  intro p h₁ h₂
  simp only [mem_cells, lower_base, lower_order, upper_base, upper_order] at h₁ h₂
  omega

/-- Flipping the bit of weight `2 ^ k` in a multiple of `2 ^ k` goes to the neighbour on the
side the quotient's parity says. -/
theorem xor_two_pow {k n : ℕ} (h : 2 ^ k ∣ n) :
    n ^^^ 2 ^ k = if n / 2 ^ k % 2 = 0 then n + 2 ^ k else n - 2 ^ k := by
  obtain ⟨q, rfl⟩ := h
  have hq : 2 ^ k * q / 2 ^ k = q := Nat.mul_div_cancel_left q (Nat.two_pow_pos k)
  have hx : 2 ^ k * q ^^^ 2 ^ k = (q ^^^ 1) * 2 ^ k := by
    have := Nat.shiftLeft_xor_distrib (a := q) (b := 1) (i := k)
    rw [Nat.shiftLeft_eq, Nat.shiftLeft_eq, Nat.shiftLeft_eq, one_mul] at this
    rw [this, mul_comm q]
  rw [hq, hx]
  rcases Nat.even_or_odd q with he | ho
  · rw [Nat.xor_one_of_even he, if_pos (Nat.even_iff.mp he)]
    ring
  · rw [Nat.xor_one_of_odd ho, if_neg (by rw [Nat.odd_iff.mp ho]; decide), Nat.sub_mul, one_mul,
      mul_comm]

/-- The buddy of a block: the other half of its parent. -/
def buddy (b : Block) : Block where
  base := b.base ^^^ 2 ^ b.order
  order := b.order
  aligned := by
    rw [xor_two_pow b.aligned]
    split
    · exact Nat.dvd_add b.aligned dvd_rfl
    · exact Nat.dvd_sub b.aligned dvd_rfl

@[simp] theorem buddy_base (b : Block) : b.buddy.base = b.base ^^^ 2 ^ b.order := rfl

@[simp] theorem buddy_order (b : Block) : b.buddy.order = b.order := rfl

@[simp] theorem buddy_buddy (b : Block) : b.buddy.buddy = b := by
  refine Block.ext ?_ rfl
  simp

/-- A block and its buddy are the two halves of one block, in one order or the other. -/
theorem base_or_buddy (b : Block) :
    (2 ^ (b.order + 1) ∣ b.base ∧ b.buddy.base = b.base + 2 ^ b.order) ∨
      (2 ^ (b.order + 1) ∣ b.buddy.base ∧ b.base = b.buddy.base + 2 ^ b.order) := by
  rw [buddy_base, xor_two_pow b.aligned]
  obtain ⟨q, hq⟩ := b.aligned
  have hpos := Nat.two_pow_pos b.order
  rw [hq, Nat.mul_div_cancel_left q hpos]
  rcases Nat.even_or_odd q with ⟨r, hr⟩ | ⟨r, hr⟩
  · left
    rw [if_pos (by omega)]
    exact ⟨⟨r, by rw [hr]; ring⟩, rfl⟩
  · right
    rw [if_neg (by omega), hr]
    refine ⟨⟨r, ?_⟩, ?_⟩
    · rw [mul_add, mul_one, Nat.add_sub_cancel]
      ring
    · rw [mul_add, mul_one, Nat.add_sub_cancel]

/-- The block that a block and its buddy form together. -/
def parent (b : Block) : Block where
  base := min b.base b.buddy.base
  order := b.order + 1
  aligned := by
    rcases b.base_or_buddy with ⟨h, he⟩ | ⟨h, he⟩
    · have hle : b.base ≤ b.buddy.base := by omega
      rwa [min_eq_left hle]
    · have hle : b.buddy.base ≤ b.base := by omega
      rwa [min_eq_right hle]

@[simp] theorem parent_base (b : Block) : b.parent.base = min b.base b.buddy.base := rfl

@[simp] theorem parent_order (b : Block) : b.parent.order = b.order + 1 := rfl

/-- Merging: a block and its buddy cover their parent exactly. -/
theorem cells_parent (b : Block) : b.parent.cells = b.cells ∪ b.buddy.cells := by
  ext p
  have hpow : 2 ^ (b.order + 1) = 2 ^ b.order + 2 ^ b.order := by ring
  simp only [mem_cells, Set.mem_union, parent_base, parent_order, buddy_order, hpow]
  rcases b.base_or_buddy with ⟨-, he⟩ | ⟨-, he⟩ <;> omega

theorem disjoint_buddy (b : Block) : Disjoint b.cells b.buddy.cells := by
  rw [Set.disjoint_left]
  intro p h₁ h₂
  simp only [mem_cells, buddy_order] at h₁ h₂
  rcases b.base_or_buddy with ⟨-, he⟩ | ⟨-, he⟩ <;> omega

theorem buddy_ne (b : Block) : b.buddy ≠ b := by
  intro h
  have hd := b.disjoint_buddy
  rw [h, disjoint_self] at hd
  exact (Set.eq_empty_iff_forall_notMem.mp hd) b.base b.base_mem_cells

/-- The two halves of a block are buddies. -/
theorem buddy_lower (h : 0 < b.order) : b.lower.buddy = b.upper := by
  refine Block.ext ?_ rfl
  rw [buddy_base, lower_base, lower_order, upper_base, xor_two_pow]
  · obtain ⟨q, hq⟩ := b.aligned
    have hpow : 2 ^ b.order = 2 ^ (b.order - 1) * 2 := by
      rw [← pow_succ, Nat.sub_add_cancel h]
    have hdiv : b.base / 2 ^ (b.order - 1) = 2 * q := by
      rw [hq, hpow, mul_assoc, Nat.mul_div_cancel_left _ (Nat.two_pow_pos _)]
    rw [hdiv, if_pos (by omega)]
  · exact b.lower.aligned

/-- The blocks just above a block of order below the top are its parent's. -/
theorem parent_subset_of_lt (h : b.order < c.order) (hbc : b.cells ⊆ c.cells) :
    b.parent.cells ⊆ c.cells := by
  have hmem : b.base ∈ b.parent.cells := by
    rw [cells_parent]
    exact Or.inl b.base_mem_cells
  exact subset_of_mem_cells (Nat.succ_le_of_lt h) hmem (hbc b.base_mem_cells)

end Block

/-! ## Tilings -/

/-- The blocks of `B` are pairwise disjoint and cover exactly `P`. -/
structure Tiles (B : Set Block) (P : Set ℕ) : Prop where
  disjoint : ∀ b ∈ B, ∀ c ∈ B, b ≠ c → Disjoint b.cells c.cells
  cover : ∀ p, p ∈ P ↔ ∃ b ∈ B, p ∈ b.cells

namespace Tiles

variable {B B' : Set Block} {P : Set ℕ} {b : Block} {top : ℕ}

theorem empty : Tiles ∅ ∅ := ⟨by simp, by simp⟩

theorem subset (h : Tiles B P) (hb : b ∈ B) : b.cells ⊆ P :=
  fun p hp => (h.cover p).mpr ⟨b, hb, hp⟩

theorem eq_of_mem {c : Block} {p : ℕ} (h : Tiles B P) (hb : b ∈ B) (hc : c ∈ B)
    (hpb : p ∈ b.cells) (hpc : p ∈ c.cells) : b = c := by
  by_contra hne
  exact Set.disjoint_left.mp (h.disjoint b hb c hc hne) hpb hpc

/-- Taking one tile out takes exactly its cells out. -/
theorem erase (h : Tiles B P) (hb : b ∈ B) : Tiles (B \ {b}) (P \ b.cells) := by
  refine ⟨fun c hc d hd hcd => h.disjoint c hc.1 d hd.1 hcd, fun p => ?_⟩
  constructor
  · rintro ⟨hp, hpb⟩
    obtain ⟨c, hc, hpc⟩ := (h.cover p).mp hp
    refine ⟨c, ⟨hc, ?_⟩, hpc⟩
    rintro rfl
    exact hpb hpc
  · rintro ⟨c, ⟨hc, hcb⟩, hpc⟩
    refine ⟨h.subset hc hpc, fun hpb => hcb ?_⟩
    exact h.eq_of_mem hc hb hpc hpb

/-- Putting a block on free cells adds exactly its cells. -/
theorem insert (h : Tiles B P) (hb : Disjoint b.cells P) :
    Tiles (Insert.insert b B) (P ∪ b.cells) := by
  have hdis : ∀ c ∈ B, Disjoint b.cells c.cells := fun c hc => hb.mono_right (h.subset hc)
  constructor
  · rintro c (rfl | hc) d (rfl | hd) hcd
    · exact absurd rfl hcd
    · exact hdis d hd
    · exact (hdis c hc).symm
    · exact h.disjoint c hc d hd hcd
  · intro p
    constructor
    · rintro (hp | hp)
      · obtain ⟨c, hc, hpc⟩ := (h.cover p).mp hp
        exact ⟨c, Or.inr hc, hpc⟩
      · exact ⟨b, Or.inl rfl, hp⟩
    · rintro ⟨c, rfl | hc, hpc⟩
      · exact Or.inr hpc
      · exact Or.inl (h.subset hc hpc)

end Tiles

/-- No block of `B` below the top order has its buddy in `B`, and none is above the top order. -/
structure Coalesced (top : ℕ) (B : Set Block) : Prop where
  le_top : ∀ b ∈ B, b.order ≤ top
  buddy : ∀ b ∈ B, b.order < top → b.buddy ∉ B

namespace Coalesced

variable {B : Set Block} {b : Block} {top : ℕ}

theorem erase (h : Coalesced top B) (b : Block) : Coalesced top (B \ {b}) :=
  ⟨fun c hc => h.le_top c hc.1, fun c hc hlt hmem => h.buddy c hc.1 hlt hmem.1⟩

/-- A block whose buddy is absent can be added. -/
theorem insert (h : Coalesced top B) (hle : b.order ≤ top) (hb : b.order < top → b.buddy ∉ B) :
    Coalesced top (Insert.insert b B) := by
  constructor
  · rintro c (rfl | hc)
    · exact hle
    · exact h.le_top c hc
  · rintro c (rfl | hc) hlt (hmem | hmem)
    · exact c.buddy_ne hmem
    · exact hb hlt hmem
    · have hbc : b.buddy = c := by rw [← hmem, Block.buddy_buddy]
      have ho : b.order = c.order := by rw [← hmem, Block.buddy_order]
      exact hb (by omega) (hbc ▸ hc)
    · exact h.buddy c hc hlt hmem

end Coalesced

namespace Tiles

variable {B B' : Set Block} {P : Set ℕ} {top : ℕ}

/-- In a coalesced tiling every block inside the set, up to the top order, is inside one tile. By
induction on the order: if its halves were in two tiles, these would be the halves themselves. -/
theorem exists_superset (h : Tiles B P) (hB : Coalesced top B) (b : Block)
    (hb : b.order ≤ top) (hbP : b.cells ⊆ P) : ∃ c ∈ B, b.cells ⊆ c.cells := by
  induction hk : b.order generalizing b with
  | zero =>
    obtain ⟨c, hc, hpc⟩ := (h.cover b.base).mp (hbP b.base_mem_cells)
    exact ⟨c, hc, Block.subset_of_mem_cells (by omega) b.base_mem_cells hpc⟩
  | succ k ih =>
    have hpos : 0 < b.order := by omega
    have hhalves := Block.cells_halves hpos
    have hlow : b.lower.cells ⊆ b.cells := hhalves ▸ Set.subset_union_left
    have hupp : b.upper.cells ⊆ b.cells := hhalves ▸ Set.subset_union_right
    obtain ⟨c, hc, hlc⟩ := ih b.lower (by simp; omega) (hlow.trans hbP) (by simp; omega)
    obtain ⟨d, hd, hud⟩ := ih b.upper (by simp; omega) (hupp.trans hbP) (by simp; omega)
    have hbase : b.base ∈ b.lower.cells := b.lower.base_mem_cells
    rcases Nat.lt_or_ge k c.order with hkc | hkc
    · exact ⟨c, hc, Block.subset_of_mem_cells (by omega) (hlow hbase) (hlc hbase)⟩
    rcases Nat.lt_or_ge k d.order with hkd | hkd
    · have hmem := b.upper.base_mem_cells
      exact ⟨d, hd, Block.subset_of_mem_cells (by omega) (hupp hmem) (hud hmem)⟩
    have hcl : b.lower = c := by
      have := Block.order_le_of_subset hlc
      simp only [Block.lower_order] at this
      exact Block.eq_of_subset (by simp; omega) hlc
    have hdu : b.upper = d := by
      have := Block.order_le_of_subset hud
      simp only [Block.upper_order] at this
      exact Block.eq_of_subset (by simp; omega) hud
    subst hcl hdu
    refine absurd hd ?_
    rw [← Block.buddy_lower hpos]
    exact hB.buddy _ hc (by simp; omega)

/-- The tiles of a coalesced tiling are the maximal blocks inside the set. -/
theorem mem_iff_maximal (h : Tiles B P) (hB : Coalesced top B) (b : Block) :
    b ∈ B ↔ b.order ≤ top ∧ b.cells ⊆ P ∧ (b.order < top → ¬ b.parent.cells ⊆ P) := by
  constructor
  · intro hb
    refine ⟨hB.le_top b hb, h.subset hb, fun hlt hpar => ?_⟩
    obtain ⟨c, hc, hbc⟩ := h.exists_superset hB b.parent (Nat.succ_le_of_lt hlt) hpar
    have hbb : b.base ∈ b.parent.cells := by
      rw [Block.cells_parent]
      exact Or.inl b.base_mem_cells
    obtain rfl := h.eq_of_mem hb hc b.base_mem_cells (hbc hbb)
    have := Block.order_le_of_subset hbc
    simp at this
  · rintro ⟨hle, hbP, hmax⟩
    obtain ⟨c, hc, hbc⟩ := h.exists_superset hB b hle hbP
    rcases (Block.order_le_of_subset hbc).lt_or_eq with hlt | heq
    · have hlt' : b.order < top := hlt.trans_le (hB.le_top c hc)
      exact absurd ((Block.parent_subset_of_lt hlt hbc).trans (h.subset hc)) (hmax hlt')
    · rwa [Block.eq_of_subset heq hbc]

/-- **The coalesced tiling of a set is unique.** -/
theorem unique (h : Tiles B P) (h' : Tiles B' P) (hB : Coalesced top B)
    (hB' : Coalesced top B') : B = B' := by
  ext b
  rw [h.mem_iff_maximal hB, h'.mem_iff_maximal hB']

end Tiles

end DyadicTiling
