import CharlotteOs.Mm.RegionSlots

/-!
# Region arrays are sets of bytes

A region array in normal form is the list of the maximal intervals of its bytes. On such an array
`remove_region` is set difference and `add_region` is union, both keep the normal form and the count
of the bytes, and they panic only for want of a slot. Since the normal form is unique, the array
depends only on the set of bytes that the calls so far denote.

## Main definitions

* `SlotArray.Canonical`, `SlotArray.bytes`: the normal form, and the bytes of an array
* `RegionOp`, `RegionOp.denote`: a call, and what it does to a set of bytes
* `SlotArray.Same`: the same slots are in use

## Main results

* `SlotArray.removeRegion_exact`, `SlotArray.addRegion_exact`: difference and union
* `SlotArray.canonical_run`: calls that denote the same bytes give the same array
-/

namespace CharlotteOs

open IntervalList FallibleRun

/-! ## Panics -/

namespace RegionArray

/-- A region goes beyond the removed range on both sides. -/
def Hole (lo hi : ℕ) (r : MemRegion) : Prop := r.base < lo ∧ hi < r.base + r.size

/-- **The loop of `remove_region` panics** exactly when a region has to be split and there is no
slot for its second half. -/
theorem removeLoop_error_iff {lo hi : ℕ} (hlt : lo < hi) {l : List MemRegion} {count : ℕ}
    (hsep : Separated (l.map MemRegion.interval)) (hl : ∀ r ∈ l, r.base + r.size < 2 ^ 64) :
    (∃ e, removeLoop lo hi count l = .error e) ↔ maxRegions ≤ count ∧ ∃ r ∈ l, Hole lo hi r := by
  induction l generalizing count with
  | nil => simp [removeLoop]
  | cons r l ih =>
    rw [List.map_cons] at hsep
    obtain ⟨-, hgap, hsep⟩ := separated_cons.mp hsep
    have hend := MemRegion.end_eq (hl r List.mem_cons_self)
    have ih : ∀ {count}, (∃ e, removeLoop lo hi count l = .error e) ↔
        maxRegions ≤ count ∧ ∃ r ∈ l, Hole lo hi r :=
      ih hsep fun r hr => hl r (List.mem_cons_of_mem _ hr)
    have hbind : ∀ {count} {f : List MemRegion → List MemRegion},
        (∃ e, (do let rest ← removeLoop lo hi count l; .ok (f rest)) = Except.error e) ↔
          ∃ e, removeLoop lo hi count l = .error e := by
      intro count f
      cases removeLoop lo hi count l with
      | error e => exact ⟨fun _ => ⟨e, rfl⟩, fun _ => ⟨e, rfl⟩⟩
      | ok rest =>
        refine iff_of_false ?_ ?_
        · rintro ⟨_, h⟩
          cases h
        · rintro ⟨_, h⟩
          cases h
    -- a region that meets the removed range is the only one with a part above it
    have honly : lo < r.base + r.size → ¬ ∃ r ∈ l, Hole lo hi r := by
      rintro hmeet ⟨r', hr', hlow, -⟩
      have hlt : r.base + r.size < r'.base := hgap _ (List.mem_map_of_mem hr')
      omega
    rw [removeLoop, hend]
    simp only [List.mem_cons, exists_eq_or_imp]
    split
    case isFalse hout =>
      have hno : ¬ Hole lo hi r := by
        rintro ⟨hlow, hhigh⟩
        exact hout ⟨by omega, by omega⟩
      rw [hbind, ih, or_iff_right hno]
    case isTrue hmeet =>
      have hrest := honly hmeet.1
      have hnone : ∀ {count'}, ¬ Hole lo hi r → ((maxRegions ≤ count' ∧ ∃ r ∈ l, Hole lo hi r) ↔
          maxRegions ≤ count ∧ (Hole lo hi r ∨ ∃ r ∈ l, Hole lo hi r)) := fun hno =>
        iff_of_false (fun h => hrest h.2) fun h => h.2.elim hno hrest
      split
      case isTrue hcover =>
        rw [ih]
        exact hnone fun hhole => Nat.not_lt.mpr hcover.1 hhole.1
      split
      case isTrue hhead =>
        rw [hbind, ih]
        exact hnone fun hhole => Nat.not_lt.mpr hhead.1 hhole.1
      split
      case isTrue htail =>
        rw [hbind, ih]
        exact hnone fun hhole => Nat.not_lt.mpr htail.2 hhole.2
      have hhole : Hole lo hi r := ⟨by omega, by omega⟩
      split
      case isTrue hfull => exact iff_of_true ⟨_, rfl⟩ ⟨hfull, .inl hhole⟩
      case isFalse hroom =>
        rw [hbind, ih]
        exact iff_of_false (fun h => hrest h.2) fun h => hroom h.1

/-- How many regions are left behind the merged ones. -/
theorem mergeLoop_length_le (lo hi : ℕ) (l : List MemRegion) :
    (mergeLoop lo hi l).2.2.length ≤ l.length := by
  induction l generalizing lo hi with
  | nil => exact le_rfl
  | cons r l ih =>
    rw [mergeLoop]
    split
    · exact (ih _ _).trans (Nat.le_succ _)
    · exact le_rfl

/-- Nothing is merged exactly when the first region begins behind the end. -/
theorem mergeLoop_length_eq_iff (lo hi : ℕ) (l : List MemRegion) :
    l.length = (mergeLoop lo hi l).2.2.length ↔ ∀ r ∈ l.head?, hi < r.base := by
  cases l with
  | nil => simp [mergeLoop]
  | cons r l =>
    rw [mergeLoop]
    simp only [List.head?_cons, Option.mem_some_iff, forall_eq']
    split
    case isTrue hreach =>
      have hle := mergeLoop_length_le (min lo r.base) (max hi r.end_) l
      rw [List.length_cons]
      omega
    case isFalse hout => exact iff_of_true rfl (Nat.lt_of_not_le hout)

/-- The first region that does not end before the new range begins decides whether any region
touches it. -/
theorem head_dropWhile_iff {a : RegionArray} (h : Canonical a) {base endAddr : ℕ} :
    (∀ r ∈ (a.regions.dropWhile fun r => r.end_ < base).head?, endAddr < r.base) ↔
      ∀ r ∈ a.regions, r.base + r.size < base ∨ endAddr < r.base := by
  have hsplit := List.takeWhile_append_dropWhile (p := fun r : MemRegion => r.end_ < base)
    (l := a.regions)
  have hgap : (a.regions.dropWhile fun r => r.end_ < base).Pairwise
      fun r r' => r.base + r.size < r'.base :=
    (List.pairwise_map.mp h.separated.gap).sublist (List.dropWhile_sublist _)
  constructor
  · intro hhead r hr
    rw [← hsplit, List.mem_append] at hr
    rcases hr with hr | hr
    · have hend := List.mem_takeWhile_imp hr
      rw [decide_eq_true_iff, MemRegion.end_eq (h.lt r ((List.takeWhile_sublist _).subset hr))]
        at hend
      exact .inl hend
    · right
      cases hrest : a.regions.dropWhile fun r => r.end_ < base with
      | nil =>
        rw [hrest] at hr
        cases hr
      | cons r' rest =>
        rw [hrest] at hr hhead hgap
        have hfirst := hhead r' rfl
        rcases List.mem_cons.mp hr with rfl | hr
        · exact hfirst
        · have := (List.pairwise_cons.mp hgap).1 r hr
          omega
  · intro hall r hr
    have hmem : r ∈ a.regions := (List.dropWhile_sublist _).subset (List.mem_of_mem_head? hr)
    have hend : ¬ r.base + r.size < base := by
      have hnot := List.head?_dropWhile_not (fun r : MemRegion => decide (r.end_ < base)) a.regions
      rw [Option.mem_def.mp hr] at hnot
      rw [← MemRegion.end_eq (h.lt r hmem)]
      simpa using hnot
    exact (hall r hmem).resolve_left hend

/-- **`add_region` panics** exactly when the new range is apart from every region and there is no
slot for it. -/
theorem addRegion_error_iff {a : RegionArray} (h : Canonical a) {base size : ℕ} (hsize : 0 < size)
    (hlt : base + size < 2 ^ 64) :
    (∃ e, a.addRegion base size = .error e) ↔ maxRegions ≤ a.regions.length ∧
      ∀ r ∈ a.regions, r.base + r.size < base ∨ base + size < r.base := by
  rw [addRegion, if_neg hsize.ne', Nat.mod_eq_of_lt hlt]
  dsimp only
  split
  case isTrue hfull =>
    rw [mergeLoop_length_eq_iff, head_dropWhile_iff h, and_comm] at hfull
    exact iff_of_true ⟨_, rfl⟩ hfull
  case isFalse hroom =>
    rw [mergeLoop_length_eq_iff, head_dropWhile_iff h, and_comm] at hroom
    refine iff_of_false ?_ hroom
    rintro ⟨e, he⟩
    cases he

/-- **`remove_region` panics** exactly when a region goes beyond the removed range on both sides and
there is no slot for its second half. -/
theorem removeRegion_error_iff {a : RegionArray} (h : Canonical a) {base size : ℕ}
    (hsize : 0 < size) (hlt : base + size < 2 ^ 64) :
    (∃ e, a.removeRegion base size = .error e) ↔ maxRegions ≤ a.regions.length ∧
      ∃ r ∈ a.regions, Hole base (base + size) r := by
  rw [removeRegion, if_neg hsize.ne', Nat.mod_eq_of_lt hlt,
    ← removeLoop_error_iff (Nat.lt_add_of_pos_right hsize) h.separated h.lt]
  cases removeLoop base (base + size) a.regions.length a.regions with
  | error e => exact iff_of_true ⟨e, rfl⟩ ⟨e, rfl⟩
  | ok l =>
    refine iff_of_false ?_ ?_
    · rintro ⟨_, h⟩
      cases h
    · rintro ⟨_, h⟩
      cases h

end RegionArray

/-! ## The normal form -/

theorem MemRegion.interval_injective : Function.Injective MemRegion.interval := by
  rintro ⟨base, size⟩ ⟨base', size'⟩ h
  simp only [MemRegion.interval, Prod.mk.injEq] at h
  obtain ⟨rfl, hend⟩ := h
  rw [Nat.add_left_cancel hend]

namespace SlotArray

/-- **The normal form**: the regions in use are nonempty, increasing and apart from each other, and
they do not overflow. -/
structure Canonical (a : SlotArray) : Prop where
  count_le : a.count ≤ maxRegions
  separated : Separated (a.live.map MemRegion.interval)
  lt : ∀ r ∈ a.live, r.base + r.size < 2 ^ 64

/-- The bytes of an array. -/
def bytes (a : SlotArray) : Set ℕ := cover (a.live.map MemRegion.interval)

variable {a a' : SlotArray} {b b' : RegionArray}

/-- The regions in use with their number of bytes. -/
def array (a : SlotArray) : RegionArray := RegionArray.updateTotal a.live

theorem Canonical.array (h : a.Canonical) : a.array.Canonical := ⟨h.separated, h.lt, rfl⟩

theorem Canonical.full_iff (h : a.Canonical) :
    maxRegions ≤ a.array.regions.length ↔ a.count = maxRegions := by
  have hcount := (used_live h.count_le).count_eq
  have hle := h.count_le
  show maxRegions ≤ a.live.length ↔ _
  omega

/-- An array that matches one in normal form is in normal form and has the same bytes. -/
theorem Used.canonical (h : Used a b.regions) (hb : b.Canonical) :
    a.Canonical ∧ a.bytes = b.bytes := by
  have hlive := h.live_eq
  refine ⟨⟨h.count_eq ▸ h.length_le, ?_, ?_⟩, ?_⟩
  · rw [hlive]
    exact hb.separated
  · rw [hlive]
    exact hb.lt
  · rw [bytes, hlive]
    rfl

/-- The sizes of an array in normal form add up to the number of its bytes, which is a word. -/
theorem Canonical.sum_eq (h : a.Canonical) :
    (a.live.map MemRegion.size).sum = a.bytes.ncard ∧ a.bytes.ncard < 2 ^ 64 := by
  obtain ⟨-, hcard⟩ := h.separated.ncard_cover
  constructor
  · rw [bytes, hcard, List.map_map]
    congr 1
    refine List.map_congr_left fun r _ => ?_
    show r.size = r.base + r.size - r.base
    rw [Nat.add_sub_cancel_left]
  · have hsub : a.bytes ⊆ Set.Iio (2 ^ 64 - 1) := fun x hx => by
      have := h.array.bytes_lt hx
      rw [Set.mem_Iio]
      omega
    have hle := Set.ncard_le_ncard hsub (Set.finite_Iio _)
    rw [← Finset.coe_Iio, Set.ncard_coe_finset, Nat.card_Iio] at hle
    omega

/-- The result of an operation that matches one on arrays of regions. -/
theorem exact_of_matches {x : Except Fault SlotArray} {y : Except Fault RegionArray}
    (hmatch : MatchesArray x y) {S : Set ℕ}
    (hspec : ∀ b, y = .ok b → b.Canonical ∧ b.bytes = S) :
    ((∃ e, x = .error e) ↔ ∃ e, y = .error e) ∧
      ∀ a', x = .ok a' → a'.Canonical ∧ a'.bytes = S ∧ a'.totalSize = a'.bytes.ncard := by
  cases y with
  | error e =>
    change x = .error e at hmatch
    rw [hmatch]
    refine ⟨iff_of_true ⟨e, rfl⟩ ⟨e, rfl⟩, fun a' ha' => ?_⟩
    cases ha'
  | ok b =>
    obtain ⟨a, rfl, hused, htotal⟩ := hmatch
    obtain ⟨hcanon, hbytes⟩ := hspec b rfl
    obtain ⟨hcanon', hbytes'⟩ := hused.canonical hcanon
    refine ⟨iff_of_false (by rintro ⟨_, h⟩; cases h) (by rintro ⟨_, h⟩; cases h), fun a' ha' => ?_⟩
    cases ha'
    refine ⟨hcanon', hbytes'.trans hbytes, ?_⟩
    obtain ⟨hsum, hlt⟩ := hcanon'.sum_eq
    rw [htotal, hcanon.total, ← hused.live_eq, hsum, Nat.mod_eq_of_lt hlt]

end SlotArray

/-! ## Calls -/

/-- A call on a region array. -/
inductive RegionOp where
  | add (base size : ℕ)
  | remove (base size : ℕ)
  deriving DecidableEq, Repr

namespace RegionOp

/-- The size that is asked for. -/
def size : RegionOp → ℕ
  | add _ size => size
  | remove _ size => size

/-- The end of the range is an address. -/
def InRange : RegionOp → Prop
  | add base size => base + size < 2 ^ 64
  | remove base size => base + size < 2 ^ 64

/-- What a call does to a set of bytes. -/
def denote (S : Set ℕ) : RegionOp → Set ℕ
  | add base size => S ∪ Set.Ico base (base + size)
  | remove base size => S \ Set.Ico base (base + size)

/-- All slots are in use, and the call needs one more: for a range that is apart from every region,
or for the second half of a region that goes beyond the range on both sides. -/
def Stuck (a : SlotArray) : RegionOp → Prop
  | add base size => 0 < size ∧ a.count = maxRegions ∧
      ∀ r ∈ a.live, r.base + r.size < base ∨ base + size < r.base
  | remove base size => 0 < size ∧ a.count = maxRegions ∧
      ∃ r ∈ a.live, r.base < base ∧ base + size < r.base + r.size

/-- The second of two equal calls denotes nothing more. -/
theorem denote_denote (S : Set ℕ) (op : RegionOp) : op.denote (op.denote S) = op.denote S := by
  cases op with
  | add base size => exact Set.union_eq_self_of_subset_right Set.subset_union_right
  | remove base size => exact Set.sdiff_sdiff.trans (congrArg (S \ ·) (Set.union_self _))

end RegionOp

namespace SlotArray

variable {a a' : SlotArray} {S : Set ℕ}

/-- A call. -/
def step (a : SlotArray) : RegionOp → Except Fault SlotArray
  | .add base size => a.addRegion base size
  | .remove base size => a.removeRegion base size

/-- A call with the size zero returns at once. -/
theorem step_of_size_eq_zero (a : SlotArray) {op : RegionOp} (h : op.size = 0) :
    a.step op = .ok a ∧ op.denote S = S := by
  cases op with
  | add base size =>
    obtain rfl : size = 0 := h
    rw [step, addRegion, if_pos rfl, RegionOp.denote, Nat.add_zero, Set.Ico_self, Set.union_empty]
    exact ⟨rfl, rfl⟩
  | remove base size =>
    obtain rfl : size = 0 := h
    rw [step, removeRegion, if_pos rfl, RegionOp.denote, Nat.add_zero, Set.Ico_self,
      Set.sdiff_empty]
    exact ⟨rfl, rfl⟩

theorem size_pos_of_stuck {op : RegionOp} (h : op.Stuck a) : 0 < op.size := by
  cases op with
  | add base size => exact h.1
  | remove base size => exact h.1

/-- **A call is exact**: it panics only for want of a slot, and otherwise it does to the bytes of
the array what it denotes and counts them. A call with the size zero does not count. -/
theorem step_exact (h : a.Canonical) (op : RegionOp) (hin : op.InRange) :
    ((∃ e, a.step op = .error e) ↔ op.Stuck a) ∧
    ∀ a', a.step op = .ok a' → a'.Canonical ∧ a'.bytes = op.denote a.bytes ∧
      (0 < op.size ∨ a.totalSize = a.bytes.ncard → a'.totalSize = a'.bytes.ncard) := by
  rcases Nat.eq_zero_or_pos op.size with hzero | hpos
  · obtain ⟨hstep, hdenote⟩ := step_of_size_eq_zero (S := a.bytes) a hzero
    rw [hstep, hdenote]
    refine ⟨iff_of_false ?_ fun hstuck => ?_, fun a' ha' => ?_⟩
    · rintro ⟨_, he⟩
      cases he
    · exact (size_pos_of_stuck hstuck).ne' hzero
    · cases ha'
      exact ⟨h, rfl, fun htotal => htotal.resolve_left hzero.not_gt⟩
  have hlist : ((∃ e, a.step op = .error e) ↔ op.Stuck a) ∧ ∀ a', a.step op = .ok a' →
      a'.Canonical ∧ a'.bytes = op.denote a.bytes ∧ a'.totalSize = a'.bytes.ncard := by
    have hused := used_live h.count_le
    cases op with
    | add base size =>
      obtain ⟨herror, hok⟩ := exact_of_matches (addRegion_matches hused hpos.ne')
        fun b hb => RegionArray.addRegion_spec h.array hin hb
      refine ⟨(herror.trans (RegionArray.addRegion_error_iff h.array hpos hin)).trans ?_, hok⟩
      rw [h.full_iff]
      exact (and_iff_right hpos).symm
    | remove base size =>
      obtain ⟨herror, hok⟩ := exact_of_matches (removeRegion_matches hused hpos.ne')
        fun b hb => RegionArray.removeRegion_spec h.array hin hb
      refine ⟨(herror.trans (RegionArray.removeRegion_error_iff h.array hpos hin)).trans ?_, hok⟩
      rw [h.full_iff]
      exact (and_iff_right hpos).symm
  refine ⟨hlist.1, fun a' ha' => ?_⟩
  obtain ⟨hcanon, hbytes, htotal⟩ := hlist.2 a' ha'
  exact ⟨hcanon, hbytes, fun _ => htotal⟩

/-! ## Runs -/

/-- An array in normal form with the bytes `S`, which it counts. -/
structure Represents (a : SlotArray) (S : Set ℕ) : Prop where
  canonical : a.Canonical
  bytes_eq : a.bytes = S
  total_eq : a.totalSize = a.bytes.ncard

/-- The same slots are in use, with the same regions and the same count of bytes. -/
structure Same (a a' : SlotArray) : Prop where
  count_eq : a.count = a'.count
  live_eq : a.live = a'.live
  total_eq : a.totalSize = a'.totalSize

theorem Represents.new : Represents .new ∅ := by
  have hbytes : SlotArray.new.bytes = ∅ := cover_nil
  refine ⟨⟨Nat.zero_le _, Separated.nil, ?_⟩, hbytes, ?_⟩
  · rintro r ⟨⟩
  · rw [hbytes, Set.ncard_empty]
    rfl

/-- **The normal form is unique.** -/
theorem Represents.same (h : a.Represents S) (h' : a'.Represents S) : Same a a' := by
  have hbytes : a.bytes = a'.bytes := h.bytes_eq.trans h'.bytes_eq.symm
  have hlive : a.live = a'.live := List.map_injective_iff.mpr MemRegion.interval_injective
    (h.canonical.separated.unique h'.canonical.separated hbytes)
  refine ⟨?_, hlive, ?_⟩
  · rw [(used_live h.canonical.count_le).count_eq, hlive,
      (used_live h'.canonical.count_le).count_eq]
  · rw [h.total_eq, hbytes, h'.total_eq]

theorem Represents.step (h : a.Represents S) {op : RegionOp} (hin : op.InRange)
    (hstep : a.step op = .ok a') : a'.Represents (op.denote S) := by
  obtain ⟨hcanon, hbytes, htotal⟩ := (step_exact h.canonical op hin).2 a' hstep
  exact ⟨hcanon, by rw [hbytes, h.bytes_eq], htotal (.inr h.total_eq)⟩

/-- What a sequence of calls on an empty array denotes. -/
def denotes (ops : List RegionOp) : Set ℕ := ops.foldl RegionOp.denote ∅

/-- **Run lemma**: the array after a run has the bytes that the calls denote. -/
theorem Represents.run (h : a.Represents S) {ops : List RegionOp} (hin : ∀ op ∈ ops, op.InRange)
    (hrun : exec SlotArray.step a ops = .ok a') : a'.Represents (ops.foldl RegionOp.denote S) := by
  induction ops generalizing a S with
  | nil =>
    cases hrun
    exact h
  | cons op ops ih =>
    obtain ⟨b, hstep, hrest⟩ := exec_cons_eq_ok hrun
    exact ih (h.step (hin op List.mem_cons_self) hstep)
      (fun op' hop' => hin op' (List.mem_cons_of_mem _ hop')) hrest

/-- Two pages with a gap of one page between them. -/
def twoPages : List RegionOp := [.add 0x1000 0x1000, .add 0x3000 0x1000]

theorem twoPages_run : ∃ a, exec step .new twoPages = .ok a ∧ a.Represents (denotes twoPages) ∧
    a.live = [⟨0x1000, 0x1000⟩, ⟨0x3000, 0x1000⟩] := by
  obtain ⟨a, ha, hlive⟩ := exists_of_map_eq_ok (show (exec step .new twoPages).map SlotArray.live =
    .ok [⟨0x1000, 0x1000⟩, ⟨0x3000, 0x1000⟩] by decide +kernel)
  refine ⟨a, ha, Represents.new.run ?_ ha, hlive⟩
  simp [twoPages, RegionOp.InRange]

/-- **`remove_region` is set difference.** It panics exactly when a region goes beyond the removed
range on both sides and all slots are in use. The count of the bytes is right afterwards, and a call
that removes nothing leaves it as it is. -/
theorem removeRegion_exact (a : SlotArray) (h : a.Canonical) (rmBase rmSize : ℕ)
    (hlt : rmBase + rmSize < 2 ^ 64) :
    ((∃ e, a.removeRegion rmBase rmSize = .error e) ↔ 0 < rmSize ∧ a.count = maxRegions ∧
      ∃ r ∈ a.live, r.base < rmBase ∧ rmBase + rmSize < r.base + r.size) ∧
    ∀ a', a.removeRegion rmBase rmSize = .ok a' → a'.Canonical ∧
      a'.bytes = a.bytes \ Set.Ico rmBase (rmBase + rmSize) ∧
      (0 < rmSize ∨ a.totalSize = a.bytes.ncard → a'.totalSize = a'.bytes.ncard) :=
  step_exact h (.remove rmBase rmSize) hlt

/-- A hole in the first page. -/
theorem removeRegion_exact_hole : ∃ a, exec step .new twoPages = .ok a ∧
    ∃ a', a.removeRegion 0x1400 0x400 = .ok a' ∧ a'.Canonical ∧
      a'.bytes = a.bytes \ Set.Ico 0x1400 0x1800 ∧ a'.totalSize = a'.bytes.ncard := by
  obtain ⟨a, ha, hrep, hlive⟩ := twoPages_run
  obtain ⟨herror, hok⟩ := removeRegion_exact a hrep.canonical 0x1400 0x400 (by decide)
  refine ⟨a, ha, ?_⟩
  cases hrun : a.removeRegion 0x1400 0x400 with
  | error e =>
    obtain ⟨-, hfull, -⟩ := herror.mp ⟨e, hrun⟩
    rw [(used_live hrep.canonical.count_le).count_eq, hlive] at hfull
    cases hfull
  | ok a' =>
    obtain ⟨hcanon, hbytes, htotal⟩ := hok a' hrun
    exact ⟨a', rfl, hcanon, hbytes, htotal (.inl (by decide))⟩

/-- **`add_region` is union.** It panics exactly when the new range is apart from every region and
all slots are in use. The count of the bytes is right afterwards, and a call that adds nothing
leaves it as it is. -/
theorem addRegion_exact (a : SlotArray) (h : a.Canonical) (base size : ℕ)
    (hlt : base + size < 2 ^ 64) :
    ((∃ e, a.addRegion base size = .error e) ↔ 0 < size ∧ a.count = maxRegions ∧
      ∀ r ∈ a.live, r.base + r.size < base ∨ base + size < r.base) ∧
    ∀ a', a.addRegion base size = .ok a' → a'.Canonical ∧
      a'.bytes = a.bytes ∪ Set.Ico base (base + size) ∧
      (0 < size ∨ a.totalSize = a.bytes.ncard → a'.totalSize = a'.bytes.ncard) :=
  step_exact h (.add base size) hlt

/-- The gap is closed. -/
theorem addRegion_exact_gap : ∃ a, exec step .new twoPages = .ok a ∧
    ∃ a', a.addRegion 0x2000 0x1000 = .ok a' ∧ a'.Canonical ∧
      a'.bytes = a.bytes ∪ Set.Ico 0x2000 0x3000 ∧ a'.totalSize = a'.bytes.ncard := by
  obtain ⟨a, ha, hrep, hlive⟩ := twoPages_run
  obtain ⟨herror, hok⟩ := addRegion_exact a hrep.canonical 0x2000 0x1000 (by decide)
  refine ⟨a, ha, ?_⟩
  cases hrun : a.addRegion 0x2000 0x1000 with
  | error e =>
    obtain ⟨-, hfull, -⟩ := herror.mp ⟨e, hrun⟩
    rw [(used_live hrep.canonical.count_le).count_eq, hlive] at hfull
    cases hfull
  | ok a' =>
    obtain ⟨hcanon, hbytes, htotal⟩ := hok a' hrun
    exact ⟨a', rfl, hcanon, hbytes, htotal (.inl (by decide))⟩

/-- After a call, the same call needs no slot. -/
theorem not_stuck {op : RegionOp} (h : a.bytes = op.denote S) : ¬ op.Stuck a := by
  cases op with
  | add base size =>
    rintro ⟨hpos, -, hapart⟩
    have hmem : base ∈ a.bytes := h ▸ .inr ⟨le_rfl, Nat.lt_add_of_pos_right hpos⟩
    obtain ⟨r, hr, hle, hlt⟩ := RegionArray.mem_bytes.mp (show base ∈ a.array.bytes from hmem)
    have := hapart r hr
    omega
  | remove base size =>
    rintro ⟨hpos, -, r, hr, hlow, hhigh⟩
    have hmem : base ∈ a.bytes :=
      RegionArray.mem_bytes.mpr (show ∃ r ∈ a.array.regions, _ from ⟨r, hr, hlow.le, by omega⟩)
    rw [h] at hmem
    exact hmem.2 ⟨le_rfl, Nat.lt_add_of_pos_right hpos⟩

/-- **Repeating a call** changes nothing. -/
theorem Represents.again (h : a.Represents S) {op : RegionOp} (hin : op.InRange)
    (hstep : a.step op = .ok a') : ∃ a'', a'.step op = .ok a'' ∧ Same a' a'' := by
  have h' := h.step hin hstep
  cases hagain : a'.step op with
  | error e =>
    exact absurd ((step_exact h'.canonical op hin).1.mp ⟨e, hagain⟩) (not_stuck h'.bytes_eq)
  | ok a'' =>
    refine ⟨a'', rfl, h'.same ?_⟩
    rw [← RegionOp.denote_denote]
    exact h'.step hin hagain

/-- The union of ranges does not depend on their order. -/
theorem denotes_perm {ops ops' : List RegionOp} (h : ops.Perm ops')
    (hadd : ∀ op ∈ ops, ∃ base size, op = .add base size) : denotes ops = denotes ops' := by
  refine h.foldl_eq' (fun op hop op' hop' S => ?_) ∅
  obtain ⟨base, size, rfl⟩ := hadd op hop
  obtain ⟨base', size', rfl⟩ := hadd op' hop'
  exact Set.union_right_comm _ _ _

/-- **Region arrays are canonical.** Runs of calls in range on an empty array that denote the same
bytes give the same array. In particular the order of calls of `add_region` does not matter, and
repeating the last call changes nothing. -/
theorem canonical_run (ops ops' : List RegionOp) (hin : ∀ op ∈ ops, op.InRange)
    (hin' : ∀ op ∈ ops', op.InRange) :
    (∀ a a', exec step .new ops = .ok a → exec step .new ops' = .ok a' →
      denotes ops = denotes ops' → Same a a') ∧
    (∀ a a', exec step .new ops = .ok a → exec step .new ops' = .ok a' →
      ops.Perm ops' → (∀ op ∈ ops, ∃ base size, op = .add base size) → Same a a') ∧
    ∀ front op a, ops = front ++ [op] → exec step .new ops = .ok a →
      ∃ a', exec step .new (ops ++ [op]) = .ok a' ∧ Same a a' := by
  have hsame : ∀ a a', exec step .new ops = .ok a → exec step .new ops' = .ok a' →
      denotes ops = denotes ops' → Same a a' := by
    intro a a' hrun hrun' hdenotes
    have h := Represents.new.run hin hrun
    have h' := Represents.new.run hin' hrun'
    rw [← denotes, hdenotes] at h
    exact h.same h'
  refine ⟨hsame, ?_, ?_⟩
  · intro a a' hrun hrun' hperm hadd
    exact hsame a a' hrun hrun' (denotes_perm hperm hadd)
  · rintro front op a rfl hrun
    obtain ⟨b, hb, hstep⟩ := exists_of_bind_eq_ok (exec_append _ front [op] ▸ hrun)
    rw [exec_singleton] at hstep
    have hfront := Represents.new.run (fun op' hop' => hin op' (List.mem_append_left _ hop')) hb
    obtain ⟨a', hagain, hsame⟩ := hfront.again (hin op (List.mem_append_right _ (by simp))) hstep
    refine ⟨a', ?_, hsame⟩
    rw [exec_append_of_ok hrun, exec_singleton, hagain]

/-- Three pages, added at once or in parts. -/
theorem canonical_run_pages : ∃ a a', exec step .new (twoPages ++ [.add 0x2000 0x1000]) = .ok a ∧
    exec step .new [.add 0x1000 0x3000] = .ok a' ∧ Same a a' := by
  obtain ⟨a, ha, -⟩ := exists_of_map_eq_ok
    (show (exec step .new (twoPages ++ [.add 0x2000 0x1000])).map SlotArray.count = .ok 1
      by decide +kernel)
  obtain ⟨a', ha', -⟩ := exists_of_map_eq_ok
    (show (exec step .new [.add 0x1000 0x3000]).map SlotArray.count = .ok 1 by decide +kernel)
  refine ⟨a, a', ha, ha', (canonical_run _ _ ?_ ?_).1 a a' ha ha' ?_⟩
  · simp [twoPages, RegionOp.InRange]
  · simp [RegionOp.InRange]
  · ext x
    simp [denotes, twoPages, RegionOp.denote]
    omega

/-- The last bytes of the address space. -/
def lastBytes : RegionOp := .add (2 ^ 64 - 16) 16

/-- **At the end of the address space** the normal form is lost: the end of the region wraps to
zero, so the same call does not find it and takes a second slot. -/
theorem lastBytes_again : ∃ a a', exec step .new [lastBytes] = .ok a ∧
    exec step .new [lastBytes, lastBytes] = .ok a' ∧
    denotes [lastBytes] = denotes [lastBytes, lastBytes] ∧ a.count = 1 ∧ a'.count = 2 ∧
    ¬ Same a a' := by
  obtain ⟨a, ha, hcount⟩ := exists_of_map_eq_ok
    (show (exec step .new [lastBytes]).map SlotArray.count = .ok 1 by decide +kernel)
  obtain ⟨a', ha', hcount'⟩ := exists_of_map_eq_ok
    (show (exec step .new [lastBytes, lastBytes]).map SlotArray.count = .ok 2 by decide +kernel)
  refine ⟨a, a', ha, ha', (RegionOp.denote_denote ∅ lastBytes).symm, hcount, hcount',
    fun hsame => ?_⟩
  have := hsame.count_eq
  omega

end SlotArray

end CharlotteOs
