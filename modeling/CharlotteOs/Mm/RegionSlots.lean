import CharlotteOs.Lib.Run
import CharlotteOs.Lib.Slots
import CharlotteOs.Mm.Memblock

/-!
# Region arrays, slot by slot

`src/mm/memblock.rs`: a `RegionArray` has 128 slots, and `count` of them are in use. `add_region`
and `remove_region` scan these with an index and move slots with `copy_within` while they do so. A
`SlotArray` is that array with all its slots. Here its operations are shown to do to the slots in
use what the operations of `RegionArray` do to a list.

## Main definitions

* `SlotArray`, `SlotArray.addRegion`, `SlotArray.removeRegion`
* `SlotArray.Used a l`: the slots in use are those of the list `l`
* `Matches`: an operation on slots does what one on lists does

## Main results

* `Used.get`, `Used.set`, `Used.delete`, `Used.insert`: accesses and moves of slots
* `addRegion_matches`, `removeRegion_matches`: the operations are those on lists, with their faults
-/

namespace CharlotteOs

/-- `RegionArray` with all its slots. -/
structure SlotArray where
  slots : List MemRegion
  count : ℕ
  totalSize : ℕ
  length_eq : slots.length = maxRegions
  deriving DecidableEq, Repr

namespace SlotArray

/-- `RegionArray::new`. -/
def new : SlotArray := ⟨List.replicate maxRegions ⟨0, 0⟩, 0, 0, List.length_replicate⟩

/-- `regions[i]`. -/
def get (a : SlotArray) (i : ℕ) : Except Fault MemRegion :=
  match a.slots[i]? with
  | some r => .ok r
  | none => .error .indexOutOfBounds

/-- A store to `regions[i]`. -/
def set (a : SlotArray) (i : ℕ) (r : MemRegion) : Except Fault SlotArray :=
  if i < maxRegions then
    .ok { a with slots := a.slots.set i r, length_eq := by rw [List.length_set, a.length_eq] }
  else .error .indexOutOfBounds

/-- `regions.copy_within(start..stop, dest)`. -/
def copyWithin (a : SlotArray) (start stop dest : ℕ) : Except Fault SlotArray :=
  if h : start ≤ stop ∧ stop ≤ maxRegions ∧ dest + (stop - start) ≤ maxRegions then
    .ok { a with
      slots := Slots.copyWithin a.slots start stop dest
      length_eq := by
        rw [Slots.length_copyWithin (a.length_eq ▸ h.2.1) (a.length_eq ▸ h.2.2), a.length_eq] }
  else .error .indexOutOfBounds

/-- `update_total`. -/
def updateTotal (a : SlotArray) : Except Fault SlotArray :=
  if a.count ≤ maxRegions then
    .ok { a with totalSize := ((a.slots.take a.count).map MemRegion.size).sum % 2 ^ 64 }
  else .error .indexOutOfBounds

/-- The first loop of `add_region`, with the number of times that its condition may be tested. -/
def findInsert (a : SlotArray) (base : ℕ) : ℕ → ℕ → Except Fault ℕ
  | 0, _ => .error .endless
  | fuel + 1, insertIdx =>
    if insertIdx < a.count then do
      let reg ← a.get insertIdx
      if reg.end_ < base then a.findInsert base fuel (insertIdx + 1) else .ok insertIdx
    else .ok insertIdx

/-- The second loop of `add_region`. -/
def mergeLoop (a : SlotArray) : ℕ → ℕ → ℕ → ℕ → Except Fault (ℕ × ℕ × ℕ)
  | 0, _, _, _ => .error .endless
  | fuel + 1, i, mergedBase, mergedEnd =>
    if i < a.count then do
      let reg ← a.get i
      if reg.base ≤ mergedEnd then
        a.mergeLoop fuel (i + 1) (min mergedBase reg.base) (max mergedEnd reg.end_)
      else .ok (i, mergedBase, mergedEnd)
    else .ok (i, mergedBase, mergedEnd)

/-- `add_region`. -/
def addRegion (a : SlotArray) (base size : ℕ) : Except Fault SlotArray :=
  if size = 0 then .ok a
  else do
    let endAddr := (base + size) % 2 ^ 64
    let insertIdx ← a.findInsert base (a.count + 1) 0
    let (i, mergedBase, mergedEnd) ← a.mergeLoop (a.count + 1) insertIdx base endAddr
    let mergeCount := i - insertIdx
    let a ← if mergeCount = 0 then
        if a.count < maxRegions then do
          let a ← a.copyWithin insertIdx a.count (insertIdx + 1)
          .ok { a with count := a.count + 1 }
        else .error .regionArrayFull
      else
        let shift := mergeCount - 1
        if 0 < shift then do
          let a ← a.copyWithin i a.count (i - shift)
          .ok { a with count := a.count - shift }
        else .ok a
    let a ← a.set insertIdx ⟨mergedBase, (mergedEnd + (2 ^ 64 - mergedBase)) % 2 ^ 64⟩
    a.updateTotal

/-- The loop of `remove_region`, with the number of times that its condition may be tested. -/
def removeLoop (rmBase rmEnd : ℕ) : ℕ → SlotArray → ℕ → Except Fault SlotArray
  | 0, _, _ => .error .endless
  | fuel + 1, a, i =>
    if i < a.count then do
      let reg ← a.get i
      let regBase := reg.base
      let regEnd := reg.end_
      if rmBase < regEnd ∧ regBase < rmEnd then
        if rmBase ≤ regBase ∧ regEnd ≤ rmEnd then do
          let a ← a.copyWithin (i + 1) a.count i
          -- the next region is at the same index now
          removeLoop rmBase rmEnd fuel { a with count := a.count - 1 } i
        else if rmBase ≤ regBase ∧ rmEnd < regEnd then do
          let a ← a.set i ⟨rmEnd, regEnd - rmEnd⟩
          removeLoop rmBase rmEnd fuel a (i + 1)
        else if regBase < rmBase ∧ regEnd ≤ rmEnd then do
          let a ← a.set i ⟨regBase, rmBase - regBase⟩
          removeLoop rmBase rmEnd fuel a (i + 1)
        else if a.count < maxRegions then do
          let a ← a.set i ⟨regBase, rmBase - regBase⟩
          let a ← a.copyWithin (i + 1) a.count (i + 2)
          let a ← a.set (i + 1) ⟨rmEnd, regEnd - rmEnd⟩
          -- the second half is passed over
          removeLoop rmBase rmEnd fuel { a with count := a.count + 1 } (i + 2)
        else .error .regionArrayFullHole
      else removeLoop rmBase rmEnd fuel a (i + 1)
    else .ok a

/-- `remove_region`. -/
def removeRegion (a : SlotArray) (rmBase rmSize : ℕ) : Except Fault SlotArray :=
  if rmSize = 0 then .ok a
  else do
    let a ← removeLoop rmBase ((rmBase + rmSize) % 2 ^ 64) (a.count + 1) a 0
    a.updateTotal

/-! ## The slots in use -/

/-- The regions in use, `regions[0..count]`. -/
def live (a : SlotArray) : List MemRegion := a.slots.take a.count

/-- **The slots in use** are those of a list. -/
def Used (a : SlotArray) (l : List MemRegion) : Prop :=
  ∃ spare, a.slots = l ++ spare ∧ a.count = l.length

variable {a : SlotArray} {l front rest : List MemRegion} {r r' : MemRegion}

theorem used_live (h : a.count ≤ maxRegions) : Used a a.live := by
  refine ⟨a.slots.drop a.count, (List.take_append_drop _ _).symm, ?_⟩
  rw [live, List.length_take, a.length_eq, Nat.min_eq_left h]

theorem Used.live_eq (h : Used a l) : a.live = l := by
  obtain ⟨spare, hslots, hcount⟩ := h
  rw [live, hslots, hcount, List.take_left]

theorem Used.count_eq (h : Used a l) : a.count = l.length := by
  obtain ⟨-, -, hcount⟩ := h
  exact hcount

theorem Used.length_le (h : Used a l) : l.length ≤ maxRegions := by
  obtain ⟨spare, hslots, -⟩ := h
  rw [← a.length_eq, hslots, List.length_append]
  exact Nat.le_add_right _ _

/-- A slot in use is read. -/
theorem Used.get (h : Used a (front ++ r :: rest)) : a.get front.length = .ok r := by
  obtain ⟨spare, hslots, -⟩ := h
  rw [SlotArray.get, hslots, List.append_assoc, List.getElem?_append_right le_rfl, Nat.sub_self]
  rfl

/-- A slot in use is written. -/
theorem Used.set (h : Used a (front ++ r :: rest)) (r' : MemRegion) :
    ∃ a', a.set front.length r' = .ok a' ∧ Used a' (front ++ r' :: rest) := by
  have hlt : front.length < maxRegions := by
    have hle := h.length_le
    rw [List.length_append, List.length_cons] at hle
    omega
  obtain ⟨spare, hslots, hcount⟩ := h
  rw [SlotArray.set, if_pos hlt]
  refine ⟨_, rfl, spare, ?_, ?_⟩
  · dsimp only
    rw [hslots, List.append_assoc, List.set_append_right _ _ le_rfl, Nat.sub_self,
      List.append_assoc]
    rfl
  · dsimp only
    rw [hcount, List.length_append, List.length_append, List.length_cons, List.length_cons]

theorem count_set {a a' : SlotArray} {i : ℕ} (h : a.set i r = .ok a') : a'.count = a.count := by
  rw [SlotArray.set] at h
  split at h
  · cases h
    rfl
  · cases h

/-- A store does not depend on the count. -/
theorem set_count (a : SlotArray) (n i : ℕ) (r : MemRegion) :
    ({ a with count := n } : SlotArray).set i r =
      (a.set i r).map fun a => { a with count := n } := by
  simp only [SlotArray.set]
  split <;> rfl

/-- Slots in use are taken out. -/
theorem Used.delete (mid : List MemRegion) (h : Used a (front ++ (mid ++ rest))) :
    ∃ a', a.copyWithin (front.length + mid.length) a.count front.length = .ok a' ∧
      a'.count = a.count ∧ Used { a' with count := a.count - mid.length } (front ++ rest) := by
  have hle := h.length_le
  obtain ⟨spare, hslots, hcount⟩ := h
  have hstop : a.count = front.length + mid.length + rest.length := by
    rw [hcount, List.length_append, List.length_append, Nat.add_assoc]
  obtain ⟨spare', hmove⟩ := Slots.copyWithin_down front mid rest spare
  rw [copyWithin, dif_pos ⟨by omega, by omega, by omega⟩]
  refine ⟨_, rfl, rfl, spare', ?_, ?_⟩
  · dsimp only
    rw [hslots, hstop, List.append_assoc, List.append_assoc, hmove, List.append_assoc]
  · dsimp only
    rw [hstop, List.length_append]
    omega

/-- Room is made for a slot. -/
theorem Used.insert (h : Used a (front ++ rest)) (hroom : a.count < maxRegions) :
    ∃ a', a.copyWithin front.length a.count (front.length + 1) = .ok a' ∧ a'.count = a.count ∧
      ∃ c, Used { a' with count := a.count + 1 } (front ++ c :: rest) := by
  obtain ⟨spare, hslots, hcount⟩ := h
  have hstop : a.count = front.length + rest.length := by rw [hcount, List.length_append]
  have hspare : spare ≠ [] := by
    rintro rfl
    have hlength := a.length_eq
    rw [hslots, List.append_nil, ← hcount] at hlength
    exact hroom.ne hlength
  obtain ⟨b, spare, rfl⟩ := List.exists_cons_of_ne_nil hspare
  obtain ⟨c, hmove⟩ := Slots.copyWithin_up front rest b spare
  rw [copyWithin, dif_pos ⟨by omega, by omega, by omega⟩]
  refine ⟨_, rfl, rfl, c, spare, ?_, ?_⟩
  · dsimp only
    rw [hslots, hstop, List.append_assoc, hmove, List.append_assoc]
  · dsimp only
    rw [hstop, List.length_append, List.length_cons]
    omega

/-! ## The operations -/

/-- An operation on slots does what one on lists does. -/
def Matches (x : Except Fault SlotArray) (y : Except Fault (List MemRegion)) : Prop :=
  match y with
  | .error e => x = .error e
  | .ok l => ∃ a, x = .ok a ∧ Used a l

/-- **The loop of `remove_region`** from an index on does to the slots in use behind it what the
loop over a list does. A slot is taken out, or shortened with room made for its second half, and the
loop goes on behind what takes its place. -/
theorem removeLoop_matches (lo hi : ℕ) {fuel : ℕ} (h : Used a (front ++ rest))
    (hfuel : rest.length < fuel) :
    Matches (removeLoop lo hi fuel a front.length)
      ((RegionArray.removeLoop lo hi (front ++ rest).length rest).map (front ++ ·)) := by
  induction rest generalizing front a fuel with
  | nil =>
    obtain ⟨fuel, rfl⟩ := Nat.exists_eq_succ_of_ne_zero (Nat.ne_of_gt hfuel)
    rw [removeLoop, if_neg (by rw [h.count_eq, List.append_nil]; exact lt_irrefl _)]
    exact ⟨a, rfl, h⟩
  | cons r rest ih =>
    obtain ⟨fuel, rfl⟩ := Nat.exists_eq_succ_of_ne_zero (Nat.ne_of_gt (Nat.zero_lt_of_lt hfuel))
    have hfuel : rest.length < fuel := Nat.lt_of_succ_lt_succ hfuel
    have hcount := h.count_eq
    rw [List.length_append, List.length_cons] at hcount
    have hnext : ∀ (new : List MemRegion) (a' : SlotArray) (n count : ℕ), new.length = n →
        count = front.length + n + rest.length → Used a' (front ++ (new ++ rest)) →
        Matches (removeLoop lo hi fuel a' (front.length + n))
          ((do let rest' ← RegionArray.removeLoop lo hi count rest
               .ok (new ++ rest')).map (front ++ ·)) := by
      rintro new a' _ _ rfl rfl h'
      rw [← List.append_assoc] at h'
      have hih := ih h' hfuel
      simp only [List.length_append] at hih
      cases hrest : RegionArray.removeLoop lo hi (front.length + new.length + rest.length) rest with
      | error e =>
        rw [hrest] at hih
        exact hih
      | ok rest' =>
        rw [hrest] at hih
        change Matches _ (.ok (front ++ (new ++ rest')))
        rw [← List.append_assoc]
        exact hih
    rw [removeLoop, if_pos (by omega), h.get, ok_bind, RegionArray.removeLoop, List.length_append,
      List.length_cons]
    dsimp only
    split
    · split
      · obtain ⟨a', hmove, hcount', h'⟩ := Used.delete [r] h
        rw [List.length_singleton] at hmove h'
        rw [hmove, ok_bind, hcount']
        have hih := ih h' hfuel
        rwa [List.length_append] at hih
      · split
        · obtain ⟨a', hset, h'⟩ := h.set ⟨hi, r.end_ - hi⟩
          rw [hset, ok_bind]
          exact hnext [_] a' 1 _ rfl (by omega) h'
        · split
          · obtain ⟨a', hset, h'⟩ := h.set ⟨r.base, lo - r.base⟩
            rw [hset, ok_bind]
            exact hnext [_] a' 1 _ rfl (by omega) h'
          · by_cases hfull : maxRegions ≤ a.count
            · rw [if_neg (Nat.not_lt.mpr hfull), if_pos (hcount ▸ hfull)]
              rfl
            · rw [if_pos (Nat.lt_of_not_le hfull), if_neg (hcount ▸ hfull)]
              obtain ⟨a₁, hset₁, h₁⟩ := h.set ⟨r.base, lo - r.base⟩
              have hcount₁ : a₁.count = a.count := by
                rw [h₁.count_eq, h.count_eq, List.length_append, List.length_append]
                rfl
              rw [List.append_cons] at h₁
              obtain ⟨a₂, hmove, hcount₂, c, h₂⟩ := h₁.insert (hcount₁ ▸ Nat.lt_of_not_le hfull)
              obtain ⟨a₃', hset₃', h₃⟩ := h₂.set ⟨hi, r.end_ - hi⟩
              rw [set_count] at hset₃'
              obtain ⟨a₃, hset₃, rfl⟩ := FallibleRun.exists_of_map_eq_ok hset₃'
              have hcount₃ : a₃.count = a₁.count := (count_set hset₃).trans hcount₂
              rw [List.length_append, List.length_singleton] at hmove hset₃
              rw [hset₁, ok_bind, hmove, ok_bind, hset₃, ok_bind, hcount₃]
              rw [List.append_assoc] at h₃
              exact hnext [_, _] _ 2 _ rfl (by omega) h₃
    · exact hnext [r] a 1 _ rfl (by omega) h

theorem Used.updateTotal (h : Used a l) : ∃ a', a.updateTotal = .ok a' ∧ Used a' l ∧
    a'.totalSize = (l.map MemRegion.size).sum % 2 ^ 64 := by
  have hlive := h.live_eq
  rw [live] at hlive
  rw [SlotArray.updateTotal, if_pos (h.count_eq ▸ h.length_le), hlive]
  exact ⟨_, rfl, h, rfl⟩

/-- An operation on slots does what one on arrays of regions does, and it counts the bytes. -/
def MatchesArray (x : Except Fault SlotArray) (y : Except Fault RegionArray) : Prop :=
  match y with
  | .error e => x = .error e
  | .ok b => ∃ a, x = .ok a ∧ Used a b.regions ∧ a.totalSize = b.totalSize % 2 ^ 64

/-- **`remove_region`** on slots. -/
theorem removeRegion_matches {rmBase rmSize total : ℕ} (h : Used a l) (hsize : rmSize ≠ 0) :
    MatchesArray (a.removeRegion rmBase rmSize)
      (RegionArray.removeRegion ⟨l, total⟩ rmBase rmSize) := by
  have hloop := removeLoop_matches rmBase ((rmBase + rmSize) % 2 ^ 64)
    (show Used a ([] ++ l) from h) (Nat.lt_succ_self _)
  rw [List.length_nil, List.nil_append] at hloop
  rw [removeRegion, if_neg hsize, RegionArray.removeRegion, if_neg hsize, h.count_eq]
  cases hlist : RegionArray.removeLoop rmBase ((rmBase + rmSize) % 2 ^ 64) l.length l with
  | error e =>
    rw [hlist] at hloop
    change _ = Except.error e at hloop
    rw [hloop]
    rfl
  | ok l' =>
    rw [hlist] at hloop
    obtain ⟨a', hrun, h'⟩ := hloop
    obtain ⟨a'', htotal, h'', hsum⟩ := h'.updateTotal
    rw [hrun, ok_bind]
    exact ⟨a'', htotal, h'', hsum⟩

/-- The first loop of `add_region` passes over the regions that end before the new one. -/
theorem findInsert_eq (base : ℕ) {fuel : ℕ} (h : Used a (front ++ rest))
    (hfuel : rest.length < fuel) :
    a.findInsert base fuel front.length =
      .ok (front.length + (rest.takeWhile fun r => r.end_ < base).length) := by
  induction rest generalizing front fuel with
  | nil =>
    obtain ⟨fuel, rfl⟩ := Nat.exists_eq_succ_of_ne_zero (Nat.ne_of_gt hfuel)
    rw [findInsert, if_neg (by rw [h.count_eq, List.append_nil]; exact lt_irrefl _)]
    rfl
  | cons r rest ih =>
    obtain ⟨fuel, rfl⟩ := Nat.exists_eq_succ_of_ne_zero (Nat.ne_of_gt (Nat.zero_lt_of_lt hfuel))
    have hcount := h.count_eq
    rw [List.length_append, List.length_cons] at hcount
    rw [findInsert, if_pos (by omega), h.get, ok_bind, List.takeWhile_cons]
    by_cases hend : r.end_ < base
    · rw [List.append_cons] at h
      have hih := ih h (Nat.lt_of_succ_lt_succ hfuel)
      rw [List.length_append, List.length_singleton] at hih
      rw [if_pos hend, if_pos (decide_eq_true hend), hih, List.length_cons, Nat.add_assoc,
        Nat.add_comm 1]
    · rw [if_neg hend, if_neg (by rw [decide_eq_true_iff]; exact hend)]
      rfl

/-- The second loop of `add_region` passes over the regions that are merged. -/
theorem mergeLoop_eq (lo hi : ℕ) {fuel : ℕ} (h : Used a (front ++ rest))
    (hfuel : rest.length < fuel) :
    ∃ merged, rest = merged ++ (RegionArray.mergeLoop lo hi rest).2.2 ∧
      a.mergeLoop fuel front.length lo hi = .ok (front.length + merged.length,
        (RegionArray.mergeLoop lo hi rest).1, (RegionArray.mergeLoop lo hi rest).2.1) := by
  induction rest generalizing front fuel lo hi with
  | nil =>
    obtain ⟨fuel, rfl⟩ := Nat.exists_eq_succ_of_ne_zero (Nat.ne_of_gt hfuel)
    rw [mergeLoop, if_neg (by rw [h.count_eq, List.append_nil]; exact lt_irrefl _)]
    exact ⟨[], rfl, rfl⟩
  | cons r rest ih =>
    obtain ⟨fuel, rfl⟩ := Nat.exists_eq_succ_of_ne_zero (Nat.ne_of_gt (Nat.zero_lt_of_lt hfuel))
    have hcount := h.count_eq
    rw [List.length_append, List.length_cons] at hcount
    rw [mergeLoop, if_pos (by omega), h.get, ok_bind, RegionArray.mergeLoop]
    by_cases hreach : r.base ≤ hi
    · rw [List.append_cons] at h
      obtain ⟨merged, hrest, hrun⟩ := ih (min lo r.base) (max hi r.end_) h
        (Nat.lt_of_succ_lt_succ hfuel)
      rw [List.length_append, List.length_singleton] at hrun
      rw [if_pos hreach, if_pos hreach, hrun]
      exact ⟨r :: merged, congrArg (r :: ·) hrest, by rw [List.length_cons, Nat.add_assoc,
        Nat.add_comm 1]⟩
    · rw [if_neg hreach, if_neg hreach]
      exact ⟨[], rfl, rfl⟩

/-- **`add_region`** on slots. -/
theorem addRegion_matches {base size total : ℕ} (h : Used a l) (hsize : size ≠ 0) :
    MatchesArray (a.addRegion base size) (RegionArray.addRegion ⟨l, total⟩ base size) := by
  have hfind := findInsert_eq base (show Used a ([] ++ l) from h) (Nat.lt_succ_self _)
  have hsplit := List.takeWhile_append_dropWhile (p := fun r : MemRegion => r.end_ < base) (l := l)
  rw [addRegion, if_neg hsize, RegionArray.addRegion, if_neg hsize, h.count_eq]
  dsimp only
  rw [List.length_nil, Nat.zero_add] at hfind
  generalize l.takeWhile (fun r => r.end_ < base) = before at *
  generalize l.dropWhile (fun r => r.end_ < base) = rest at *
  subst hsplit
  obtain ⟨merged, hrest, hmerge⟩ := mergeLoop_eq base ((base + size) % 2 ^ 64) h
    (show rest.length < (before ++ rest).length + 1 by rw [List.length_append]; omega)
  generalize RegionArray.mergeLoop base ((base + size) % 2 ^ 64) rest = m at *
  obtain ⟨lo, hi, after⟩ := m
  dsimp only at hrest hmerge ⊢
  subst hrest
  rw [hfind, ok_bind, hmerge, ok_bind]
  dsimp only
  rw [Nat.add_sub_cancel_left]
  generalize (hi + (2 ^ 64 - lo)) % 2 ^ 64 = width
  -- what is left to do once the slot for the region is there
  have hstore : ∀ (a' : SlotArray) (c : MemRegion), Used a' (before ++ c :: after) →
      MatchesArray (do let a ← a'.set before.length ⟨lo, width⟩
                       a.updateTotal)
        (.ok (RegionArray.updateTotal (before ++ ⟨lo, width⟩ :: after))) := by
    intro a' c h'
    obtain ⟨a₁, hset, h₁⟩ := h'.set ⟨lo, width⟩
    obtain ⟨a₂, htotal, h₂, hsum⟩ := h₁.updateTotal
    rw [hset, ok_bind]
    exact ⟨a₂, htotal, h₂, hsum⟩
  cases merged with
  | nil =>
    rw [List.nil_append] at h ⊢
    rw [List.length_nil, if_pos rfl]
    by_cases hfull : maxRegions ≤ (before ++ after).length
    · rw [if_neg (Nat.not_lt.mpr hfull), if_pos ⟨rfl, hfull⟩]
      rfl
    · have hroom : a.count < maxRegions := h.count_eq ▸ Nat.lt_of_not_le hfull
      obtain ⟨a', hmove, hcount, c, h'⟩ := h.insert hroom
      rw [if_pos (Nat.lt_of_not_le hfull), if_neg fun hand => hfull hand.2, ← h.count_eq, hmove]
      simp only [ok_bind, hcount]
      exact hstore _ c h'
  | cons r merged =>
    have hmerged : ¬ ((r :: merged ++ after).length = after.length ∧
        maxRegions ≤ (before ++ (r :: merged ++ after)).length) := by
      rintro ⟨hlength, -⟩
      rw [List.length_append, List.length_cons] at hlength
      omega
    rw [if_neg hmerged, List.length_cons, if_neg (Nat.succ_ne_zero _), Nat.add_sub_cancel]
    by_cases hshift : 0 < merged.length
    · -- the first of the merged regions gives its slot, and the others are taken out
      have hcount := h.count_eq
      rw [List.cons_append, List.append_cons] at h
      obtain ⟨a', hmove, hcount', h'⟩ := h.delete _
      rw [List.length_append, List.length_singleton] at hmove
      have hsource : before.length + (merged.length + 1) = before.length + 1 + merged.length := by
        omega
      rw [if_pos hshift, ← hcount, hsource, Nat.add_sub_cancel, hmove]
      simp only [ok_bind, hcount']
      rw [List.append_assoc] at h'
      exact hstore _ r h'
    · obtain rfl : merged = [] := List.eq_nil_of_length_eq_zero (Nat.eq_zero_of_not_pos hshift)
      exact hstore a r h

end SlotArray

end CharlotteOs
