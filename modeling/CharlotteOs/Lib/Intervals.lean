import Mathlib.Data.List.Flatten
import Mathlib.Data.List.Pairwise
import Mathlib.Data.List.TakeWhile
import Mathlib.Data.Set.Card
import Mathlib.Order.CompletePartialOrder
import Mathlib.Order.Interval.Finset.Nat
import Mathlib.Order.Interval.Set.LinearOrder

/-!
# Sets as sorted lists of intervals

A finite union of half-open intervals of a linear order has a normal form: the list of its
maximal intervals in increasing order, with a gap between each and the next. Removing an interval
cuts each member of the list by itself. Inserting one absorbs the members that it overlaps or
touches, which stand together in the list.

## Main definitions

* `cover l`: the set that a list of intervals denotes
* `Separated l`: the intervals of `l` are nonempty, increasing and have gaps between them
* `cut lo hi a`: what is left of the interval `a` without `[lo, hi)`
* `absorb`, `insert`: the interval `[lo, hi)` together with what it overlaps or touches

## Main results

* `Separated.exists_of_subset`: an interval inside the set is inside one member
* `Separated.unique`: the normal form is unique
* `Separated.ncard_cover`: the number of points of a set of naturals
* `cover_cut`, `Separated.cut`: cutting is set difference and keeps the normal form
* `Separated.insert`: insertion is union and keeps the normal form
-/

namespace IntervalList

variable {α : Type*} [LinearOrder α]

/-- The set that a list of half-open intervals denotes. -/
def cover (l : List (α × α)) : Set α := {x | ∃ a ∈ l, a.1 ≤ x ∧ x < a.2}

/-- Nonempty intervals in increasing order, with a gap between each and the next. -/
structure Separated (l : List (α × α)) : Prop where
  nonempty : ∀ a ∈ l, a.1 < a.2
  gap : l.Pairwise fun a b => a.2 < b.1

variable {l l' : List (α × α)} {a : α × α} {lo hi x : α}

@[simp] theorem cover_nil : cover ([] : List (α × α)) = ∅ := by
  simp [cover]

theorem cover_cons (a : α × α) (l : List (α × α)) : cover (a :: l) = Set.Ico a.1 a.2 ∪ cover l := by
  ext x
  simp [cover]

theorem cover_append (l l' : List (α × α)) : cover (l ++ l') = cover l ∪ cover l' := by
  ext x
  simp only [cover, List.mem_append, or_and_right, exists_or, Set.mem_union, Set.mem_ofPred_eq]

theorem Separated.nil : Separated ([] : List (α × α)) := ⟨by simp, List.Pairwise.nil⟩

theorem separated_cons :
    Separated (a :: l) ↔ a.1 < a.2 ∧ (∀ b ∈ l, a.2 < b.1) ∧ Separated l := by
  constructor
  · intro h
    obtain ⟨hgap, hrest⟩ := List.pairwise_cons.mp h.gap
    exact ⟨h.nonempty a List.mem_cons_self, hgap,
      fun b hb => h.nonempty b (List.mem_cons_of_mem _ hb), hrest⟩
  · rintro ⟨ha, hgap, h⟩
    exact ⟨List.forall_mem_cons.mpr ⟨ha, h.nonempty⟩, List.pairwise_cons.mpr ⟨hgap, h.gap⟩⟩

/-- Different members of a separated list are apart. -/
theorem Separated.lt_or_lt (h : Separated l) {b : α × α} (ha : a ∈ l) (hb : b ∈ l) (hne : a ≠ b) :
    a.2 < b.1 ∨ b.2 < a.1 := by
  have hsymm : Std.Symm fun a b : α × α => a.2 < b.1 ∨ b.2 < a.1 := ⟨fun _ _ => Or.symm⟩
  exact (h.gap.imp fun {a b} hab => (Or.inl hab : a.2 < b.1 ∨ b.2 < a.1)).forall ha hb hne

/-- An interval inside the set of a separated list is inside one of its members, since the point
where a member ends is not in the set. -/
theorem Separated.exists_of_subset (h : Separated l) (hlt : lo < hi)
    (hsub : Set.Ico lo hi ⊆ cover l) : ∃ a ∈ l, a.1 ≤ lo ∧ hi ≤ a.2 := by
  obtain ⟨a, ha, hlow, hin⟩ := hsub ⟨le_rfl, hlt⟩
  refine ⟨a, ha, hlow, not_lt.mp fun hend => ?_⟩
  obtain ⟨b, hb, hb₁, hb₂⟩ := hsub ⟨hin.le, hend⟩
  rcases eq_or_ne a b with rfl | hne
  · exact lt_irrefl _ hb₂
  rcases h.lt_or_lt ha hb hne with hab | hba
  · exact not_le.mpr hab hb₁
  · exact lt_asymm hb₂ (hba.trans (hlow.trans_lt hin))

/-- The first interval of a separated list begins at the least point of its set. -/
theorem Separated.fst_le (h : Separated (a :: l)) (hx : x ∈ cover (a :: l)) : a.1 ≤ x := by
  obtain ⟨ha, hgap, hl⟩ := separated_cons.mp h
  obtain ⟨b, hb, hlow, -⟩ := hx
  rcases List.mem_cons.mp hb with rfl | hb
  · exact hlow
  · exact ha.le.trans ((hgap b hb).le.trans hlow)

/-- The set of a separated list has no point between the end of its first interval and the next. -/
theorem Separated.snd_not_mem (h : Separated (a :: l)) : a.2 ∉ cover (a :: l) := by
  obtain ⟨-, hgap, -⟩ := separated_cons.mp h
  rintro ⟨b, hb, hlow, hhigh⟩
  rcases List.mem_cons.mp hb with rfl | hb
  · exact lt_irrefl _ hhigh
  · exact not_le.mpr (hgap b hb) hlow

theorem Separated.fst_mem (h : Separated (a :: l)) : a.1 ∈ cover (a :: l) :=
  ⟨a, List.mem_cons_self, le_rfl, h.nonempty a List.mem_cons_self⟩

/-- The first intervals of two separated lists for one set end together. -/
theorem Separated.snd_le {b : α × α} (h : Separated (b :: l'))
    (heq : cover (a :: l) = cover (b :: l')) (hfst : a.1 = b.1) : a.2 ≤ b.2 := by
  refine not_lt.mp fun hlt => h.snd_not_mem ?_
  rw [← heq]
  have hb := h.nonempty b List.mem_cons_self
  exact ⟨a, List.mem_cons_self, hfst ▸ hb.le, hlt⟩

/-- **The normal form is unique**: the set gives its first interval, and what is above it the
rest. -/
theorem Separated.unique (h : Separated l) (h' : Separated l') (heq : cover l = cover l') :
    l = l' := by
  induction l generalizing l' with
  | nil =>
    cases l' with
    | nil => rfl
    | cons b l' =>
      have hmem := h'.fst_mem
      rw [← heq, cover_nil] at hmem
      exact hmem.elim
  | cons a l ih =>
    cases l' with
    | nil =>
      have hmem := h.fst_mem
      rw [heq, cover_nil] at hmem
      exact hmem.elim
    | cons b l' =>
      have hfst : a.1 = b.1 :=
        le_antisymm (h.fst_le (heq ▸ h'.fst_mem)) (h'.fst_le (heq ▸ h.fst_mem))
      have hsnd : a.2 = b.2 :=
        le_antisymm (h'.snd_le heq hfst) (h.snd_le heq.symm hfst.symm)
      obtain rfl : a = b := Prod.ext hfst hsnd
      obtain ⟨-, hgap, hl⟩ := separated_cons.mp h
      obtain ⟨-, hgap', hl'⟩ := separated_cons.mp h'
      have habove : ∀ {l : List (α × α)}, (∀ b ∈ l, a.2 < b.1) →
          cover l = cover (a :: l) \ Set.Ico a.1 a.2 := by
        intro l hl
        rw [cover_cons, Set.union_sdiff_left]
        refine (sdiff_eq_left.mpr (Set.disjoint_left.mpr ?_)).symm
        rintro x ⟨b, hb, hlow, -⟩ hx
        exact lt_asymm hx.2 ((hl b hb).trans_le hlow)
      rw [ih hl hl' (by rw [habove hgap, habove hgap', heq])]

/-! ## Removing an interval -/

/-- What is left of an interval on both sides of `[lo, hi)`. -/
def cut (lo hi : α) (a : α × α) : List (α × α) :=
  [(a.1, min a.2 lo), (max a.1 hi, a.2)].filter fun p => p.1 < p.2

theorem mem_cut {p : α × α} : p ∈ cut lo hi a ↔
    (p = (a.1, min a.2 lo) ∨ p = (max a.1 hi, a.2)) ∧ p.1 < p.2 := by
  simp [cut]

theorem cut_of_le (hlow : lo ≤ a.1) (hhigh : a.2 ≤ hi) : cut lo hi a = [] := by
  have hleft : ¬ a.1 < min a.2 lo := not_lt.mpr ((min_le_right _ _).trans hlow)
  have hright : ¬ max a.1 hi < a.2 := not_lt.mpr (hhigh.trans (le_max_right _ _))
  simp [cut, hleft, hright]

theorem cut_head (hlow : lo ≤ a.1) (hin : a.1 ≤ hi) (hhigh : hi < a.2) :
    cut lo hi a = [(hi, a.2)] := by
  have hleft : ¬ a.1 < min a.2 lo := not_lt.mpr ((min_le_right _ _).trans hlow)
  rw [cut, max_eq_right hin]
  simp [hleft, hhigh]

theorem cut_tail (hlow : a.1 < lo) (hin : lo ≤ a.2) (hhigh : a.2 ≤ hi) :
    cut lo hi a = [(a.1, lo)] := by
  have hright : ¬ max a.1 hi < a.2 := not_lt.mpr (hhigh.trans (le_max_right _ _))
  rw [cut, min_eq_right hin]
  simp [hlow, hright]

theorem cut_hole (hlow : a.1 < lo) (hlt : lo ≤ hi) (hhigh : hi < a.2) :
    cut lo hi a = [(a.1, lo), (hi, a.2)] := by
  rw [cut, min_eq_right (hlt.trans hhigh.le), max_eq_right (hlow.le.trans hlt)]
  simp [hlow, hhigh]

theorem cut_of_disjoint (ha : a.1 < a.2) (hlt : lo < hi) (hout : a.2 ≤ lo ∨ hi ≤ a.1) :
    cut lo hi a = [a] := by
  rcases hout with hout | hout
  · have hright : ¬ max a.1 hi < a.2 :=
      not_lt.mpr ((hout.trans hlt.le).trans (le_max_right _ _))
    rw [cut, min_eq_left hout]
    simp [ha, hright]
  · have hleft : ¬ a.1 < min a.2 lo := not_lt.mpr ((min_le_right _ _).trans (hlt.le.trans hout))
    rw [cut, max_eq_left hout]
    simp [ha, hleft]

/-- The pieces lie in the interval. -/
theorem subset_of_mem_cut {p : α × α} (hp : p ∈ cut lo hi a) : a.1 ≤ p.1 ∧ p.2 ≤ a.2 := by
  obtain ⟨rfl | rfl, -⟩ := mem_cut.mp hp
  · exact ⟨le_rfl, min_le_left _ _⟩
  · exact ⟨le_max_left _ _, le_rfl⟩

theorem cover_cut_single (lo hi : α) (a : α × α) :
    cover (cut lo hi a) = Set.Ico a.1 a.2 \ Set.Ico lo hi := by
  ext x
  constructor
  · rintro ⟨p, hp, hx⟩
    obtain ⟨rfl | rfl, -⟩ := mem_cut.mp hp
    · obtain ⟨hlow, hhigh⟩ := hx
      exact ⟨⟨hlow, hhigh.trans_le (min_le_left _ _)⟩,
        fun h => absurd h.1 (not_le.mpr (hhigh.trans_le (min_le_right _ _)))⟩
    · obtain ⟨hlow, hhigh⟩ := hx
      exact ⟨⟨(le_max_left _ _).trans hlow, hhigh⟩,
        fun h => absurd h.2 (not_lt.mpr ((le_max_right _ _).trans hlow))⟩
  · rintro ⟨⟨hlow, hhigh⟩, hout⟩
    rcases lt_or_ge x lo with hx | hx
    · have hmin : x < min a.2 lo := lt_min hhigh hx
      exact ⟨(a.1, min a.2 lo), mem_cut.mpr ⟨Or.inl rfl, hlow.trans_lt hmin⟩, hlow, hmin⟩
    · have hmax : max a.1 hi ≤ x := max_le hlow (not_lt.mp fun h => hout ⟨hx, h⟩)
      exact ⟨(max a.1 hi, a.2), mem_cut.mpr ⟨Or.inr rfl, hmax.trans_lt hhigh⟩, hmax, hhigh⟩

/-- **Cutting is set difference.** -/
theorem cover_cut (lo hi : α) (l : List (α × α)) :
    cover (l.flatMap (cut lo hi)) = cover l \ Set.Ico lo hi := by
  induction l with
  | nil => simp
  | cons a l ih =>
    rw [List.flatMap_cons, cover_append, ih, cover_cut_single, cover_cons,
      Set.union_sdiff_distrib]

/-- **Cutting keeps the normal form.** -/
theorem Separated.cut (h : Separated l) (hlt : lo < hi) :
    Separated (l.flatMap (cut lo hi)) where
  nonempty p hp := by
    obtain ⟨a, -, hp⟩ := List.mem_flatMap.mp hp
    exact (mem_cut.mp hp).2
  gap := by
    refine List.pairwise_flatMap.mpr ⟨fun a _ => List.Pairwise.filter _ ?_, ?_⟩
    · refine List.pairwise_pair.mpr ?_
      exact (min_le_right _ _).trans_lt (hlt.trans_le (le_max_right _ _))
    · refine h.gap.imp fun {a b} hab p hp q hq => ?_
      exact (subset_of_mem_cut hp).2.trans_lt (hab.trans_le (subset_of_mem_cut hq).1)

/-! ## Inserting an interval -/

/-- The interval `[lo, hi)` grown by the first members of a list that begin no later than it ends,
with the rest of the list. -/
def absorb : α → α → List (α × α) → (α × α) × List (α × α)
  | lo, hi, [] => ((lo, hi), [])
  | lo, hi, a :: l =>
    if a.1 ≤ hi then absorb (min lo a.1) (max hi a.2) l else ((lo, hi), a :: l)

/-- The list with an interval inserted: it absorbs what it overlaps or touches. -/
def insert (lo hi : α) (l : List (α × α)) : List (α × α) :=
  let rest := l.dropWhile fun a => a.2 < lo
  l.takeWhile (fun a => a.2 < lo) ++ (absorb lo hi rest).1 :: (absorb lo hi rest).2

/-- Absorbing members that end no earlier than the interval begins only joins them to it. What
stays behind stays separated from the result. -/
theorem absorb_spec (h : Separated l) (hlt : lo < hi) (htouch : ∀ a ∈ l, lo ≤ a.2) :
    Separated ((absorb lo hi l).1 :: (absorb lo hi l).2) ∧
    cover ((absorb lo hi l).1 :: (absorb lo hi l).2) = Set.Ico lo hi ∪ cover l ∧
    ((absorb lo hi l).1.1 = lo ∨ ∃ a ∈ l, (absorb lo hi l).1.1 = a.1) := by
  induction l generalizing lo hi with
  | nil =>
    exact ⟨separated_cons.mpr ⟨hlt, by simp [absorb], Separated.nil⟩, cover_cons _ _, Or.inl rfl⟩
  | cons a l ih =>
    obtain ⟨ha, hgap, hl⟩ := separated_cons.mp h
    rw [absorb]
    split
    case isTrue hle =>
      have hgrown : min lo a.1 < max hi a.2 :=
        (min_le_left _ _).trans_lt (hlt.trans_le (le_max_left _ _))
      obtain ⟨hsep, hcover, hstart⟩ := ih hl hgrown fun b hb =>
        (min_le_right _ _).trans (ha.le.trans ((hgap b hb).le.trans (hl.nonempty b hb).le))
      refine ⟨hsep, ?_, ?_⟩
      · rw [hcover, cover_cons, ← Set.union_assoc]
        congr 1
        exact (Set.Ico_union_Ico' hle (htouch a List.mem_cons_self)).symm
      · rcases hstart with hstart | ⟨b, hb, hstart⟩
        · rcases le_total lo a.1 with hmin | hmin
          · exact Or.inl (hstart.trans (min_eq_left hmin))
          · exact Or.inr ⟨a, List.mem_cons_self, hstart.trans (min_eq_right hmin)⟩
        · exact Or.inr ⟨b, List.mem_cons_of_mem _ hb, hstart⟩
    case isFalse hgt =>
      refine ⟨separated_cons.mpr ⟨hlt, fun b hb => ?_, h⟩, cover_cons _ _, Or.inl rfl⟩
      rcases List.mem_cons.mp hb with rfl | hb
      · exact not_le.mp hgt
      · exact (not_le.mp hgt).trans (ha.trans (hgap b hb))

/-- In a separated list the members that end before a point come first. -/
theorem Separated.le_of_mem_dropWhile (h : Separated l) (ha : a ∈ l.dropWhile fun a => a.2 < lo) :
    lo ≤ a.2 := by
  induction l with
  | nil => simp at ha
  | cons b l ih =>
    obtain ⟨hb, hgap, hl⟩ := separated_cons.mp h
    rw [List.dropWhile_cons] at ha
    split at ha
    · exact ih hl ha
    · rename_i hge
      have hge : lo ≤ b.2 := by simpa using hge
      rcases List.mem_cons.mp ha with rfl | ha
      · exact hge
      · exact hge.trans ((hgap a ha).le.trans (hl.nonempty a ha).le)

theorem Separated.sublist (h : Separated l) (hs : l'.Sublist l) : Separated l' :=
  ⟨fun a ha => h.nonempty a (hs.subset ha), h.gap.sublist hs⟩

/-- **Insertion keeps the normal form and is union.** The grown interval begins after everything
that was passed over. -/
theorem Separated.insert (h : Separated l) (hlt : lo < hi) :
    Separated (insert lo hi l) ∧ cover (IntervalList.insert lo hi l) = cover l ∪ Set.Ico lo hi := by
  have hsplit := List.takeWhile_append_dropWhile (p := fun a : α × α => a.2 < lo) (l := l)
  obtain ⟨hsep, hcover, hstart⟩ := absorb_spec
    (h.sublist (List.dropWhile_sublist fun a => a.2 < lo)) hlt fun a ha => h.le_of_mem_dropWhile ha
  have hbefore : ∀ a ∈ l.takeWhile (fun a => a.2 < lo), a.2 < lo := fun a ha => by
    simpa using List.mem_takeWhile_imp ha
  have hgaps := h.gap
  rw [← hsplit] at hgaps
  obtain ⟨hgap, -, hacross⟩ := List.pairwise_append.mp hgaps
  have hfirst : ∀ a ∈ l.takeWhile (fun a => a.2 < lo),
      a.2 < (absorb lo hi (l.dropWhile fun a => a.2 < lo)).1.1 := by
    intro a ha
    rcases hstart with hstart | ⟨b, hb, hstart⟩
    · rw [hstart]
      exact hbefore a ha
    · rw [hstart]
      exact hacross a ha b hb
  refine ⟨⟨fun a ha => ?_, List.pairwise_append.mpr ⟨hgap, hsep.gap, fun a ha b hb => ?_⟩⟩, ?_⟩
  · rcases List.mem_append.mp ha with ha | ha
    · exact h.nonempty a ((List.takeWhile_sublist _).subset ha)
    · exact hsep.nonempty a ha
  · obtain ⟨hne, hrest, -⟩ := separated_cons.mp hsep
    rcases List.mem_cons.mp hb with rfl | hb
    · exact hfirst a ha
    · exact (hfirst a ha).trans (hne.trans (hrest b hb))
  · rw [IntervalList.insert, cover_append, hcover, Set.union_comm (Set.Ico lo hi),
      ← Set.union_assoc, ← cover_append, hsplit]

/-! ## Counting -/

/-- **The number of points** is the sum of the lengths. -/
theorem Separated.ncard_cover {l : List (ℕ × ℕ)} (h : Separated l) :
    (cover l).Finite ∧ (cover l).ncard = (l.map fun a => a.2 - a.1).sum := by
  induction l with
  | nil =>
    rw [cover_nil]
    exact ⟨Set.finite_empty, Set.ncard_empty ℕ⟩
  | cons a l ih =>
    obtain ⟨-, hgap, hl⟩ := separated_cons.mp h
    obtain ⟨hfinite, hcard⟩ := ih hl
    have hdisjoint : Disjoint (Set.Ico a.1 a.2) (cover l) := by
      rw [Set.disjoint_left]
      rintro x hx ⟨b, hb, hlow, -⟩
      exact lt_asymm hx.2 ((hgap b hb).trans_le hlow)
    rw [cover_cons]
    refine ⟨(Set.finite_Ico _ _).union hfinite, ?_⟩
    rw [Set.ncard_union_eq hdisjoint (Set.finite_Ico _ _) hfinite, hcard, List.map_cons,
      List.sum_cons, ← Finset.coe_Ico, Set.ncard_coe_finset, Nat.card_Ico]

end IntervalList
