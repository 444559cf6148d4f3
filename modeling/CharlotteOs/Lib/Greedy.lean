import CharlotteOs.Lib.Dyadic

/-!
# Greedy tilings of intervals

An interval of cells is cut into dyadic blocks from its start on. Each block is the largest one that
starts where the block before it ends: its order is at most `top`, and it ends in the interval. The
blocks grow up to the largest ones and shrink again before the end of the interval.

No two of them are buddies. The first of two buddies is aligned to twice its size, and both end in
the interval, so a block of twice the size would have been taken.

## Main definitions

* `Greedy top stop l a`: the blocks of `l` are taken from `a` up to `stop`

## Main results

* `Greedy.disjoint`, `Greedy.cover`: the blocks tile the interval
* `Greedy.buddy_notMem`: no two of them are buddies
-/

namespace DyadicTiling

/-- **A greedy tiling** from `a` up to `stop`: each block starts where the one before it ends, and
is the largest one of an order up to `top` that is aligned there and ends by `stop`. -/
def Greedy (top stop : ℕ) : List Block → ℕ → Prop
  | [], a => stop ≤ a
  | b :: l, a => b.base = a ∧ b.order ≤ top ∧ a + 2 ^ b.order ≤ stop ∧
      (∀ k ≤ top, 2 ^ k ∣ a → a + 2 ^ k ≤ stop → k ≤ b.order) ∧ Greedy top stop l (a + 2 ^ b.order)

namespace Greedy

variable {top stop a : ℕ} {l : List Block} {b : Block}

/-- A block of the tiling lies in the interval, and no larger one would fit there. -/
theorem of_mem (h : Greedy top stop l a) (hb : b ∈ l) :
    a ≤ b.base ∧ b.order ≤ top ∧ b.base + 2 ^ b.order ≤ stop ∧
      ∀ k ≤ top, 2 ^ k ∣ b.base → b.base + 2 ^ k ≤ stop → k ≤ b.order := by
  induction l generalizing a with
  | nil => cases hb
  | cons c l ih =>
    obtain ⟨hbase, horder, hend, hmax, hrest⟩ := h
    rcases List.mem_cons.mp hb with rfl | hb
    · exact ⟨hbase.ge, horder, hbase.symm ▸ hend, hbase.symm ▸ hmax⟩
    · obtain ⟨hle, hinside⟩ := ih hrest hb
      exact ⟨(Nat.le_add_right _ _).trans hle, hinside⟩

/-- The blocks follow each other. -/
theorem pairwise (h : Greedy top stop l a) :
    l.Pairwise fun b c => b.base + 2 ^ b.order ≤ c.base := by
  induction l generalizing a with
  | nil => exact List.Pairwise.nil
  | cons b l ih =>
    obtain ⟨hbase, -, -, -, hrest⟩ := h
    refine List.Pairwise.cons (fun c hc => ?_) (ih hrest)
    rw [hbase]
    exact (hrest.of_mem hc).1

theorem disjoint (h : Greedy top stop l a) : l.Pairwise fun b c => Disjoint b.cells c.cells := by
  refine h.pairwise.imp fun {b c} hle => Set.disjoint_left.mpr fun p hp hp' => ?_
  exact absurd (hp.2.trans_le (hle.trans hp'.1)) (lt_irrefl p)

/-- **The blocks tile the interval.** -/
theorem cover (h : Greedy top stop l a) : ⋃ b ∈ l, b.cells = Set.Ico a stop := by
  induction l generalizing a with
  | nil =>
    rw [Set.Ico_eq_empty (not_lt.mpr h)]
    simp
  | cons b l ih =>
    obtain ⟨rfl, -, hend, -, hrest⟩ := h
    have hunion : ⋃ c ∈ b :: l, c.cells = b.cells ∪ ⋃ c ∈ l, c.cells := by
      ext p
      simp
    rw [hunion, ih hrest, b.cells_eq_Ico, Set.Ico_union_Ico_eq_Ico (Nat.le_add_right _ _) hend]

/-- **No two blocks are buddies**, unless they are as large as they can be: the first of the two
could have been twice as large. -/
theorem buddy_notMem (h : Greedy top stop l a) (hb : b ∈ l) (hlt : b.order < top) :
    b.buddy ∉ l := by
  intro hbuddy
  obtain ⟨-, -, hend, hmax⟩ := h.of_mem hb
  obtain ⟨-, -, hend', hmax'⟩ := h.of_mem hbuddy
  rw [Block.buddy_order] at hend' hmax'
  have hpow : 2 ^ (b.order + 1) = 2 ^ b.order + 2 ^ b.order := by rw [pow_succ, mul_two]
  rcases b.base_or_buddy with ⟨hdvd, hbase⟩ | ⟨hdvd, hbase⟩
  · exact absurd (hmax (b.order + 1) hlt hdvd (by omega)) (Nat.not_succ_le_self _)
  · exact absurd (hmax' (b.order + 1) hlt hdvd (by omega)) (Nat.not_succ_le_self _)

end Greedy

end DyadicTiling
