import Mathlib.Data.List.Basic
import Mathlib.Logic.Function.Basic
import Mathlib.Data.Nat.ModEq
import CharlotteOs.Fault

/-!
# The ring buffer

`src/data_struct/ring_buf.rs`: a queue of at most `N` items in an array of `N` slots, with the
slots of the first item and of the next one to come. A slot that was never written is `none`.

## Main definitions

* `RingBuffer`, `RingBuffer.push`, `RingBuffer.pop`
* `RingBuffer.contents`, `RingBuffer.Holds rb l`: the items in the buffer, and that they are those
  of the list `l`, in order

## Main results

* `Holds.push`, `Holds.pop`: the buffer is a queue of at most `N` items, and no slot outside the
  array or never written is read
-/

namespace CharlotteOs

/-- `RingBuffer`. The slots of `buffer` are those below `N`. -/
structure RingBuffer (α : Type) (N : ℕ) where
  buffer : ℕ → Option α
  head : ℕ
  tail : ℕ
  len : ℕ

namespace RingBuffer

variable {α : Type} {N : ℕ}

/-- `RingBuffer::new`. -/
def new : RingBuffer α N := ⟨fun _ => none, 0, 0, 0⟩

/-- `(i + 1) % N`. -/
def next (N i : ℕ) : Except Fault ℕ :=
  if N = 0 then .error .remainderByZero else .ok ((i + 1) % N)

/-- `push`, which gives the item back if there is no room. -/
def push (rb : RingBuffer α N) (item : α) : Except Fault (Except α Unit × RingBuffer α N) :=
  if rb.len = N then .ok (.error item, rb)
  else if N ≤ rb.tail then .error .indexOutOfBounds
  else do
    let buffer := Function.update rb.buffer rb.tail (some item)
    let tail ← next N rb.tail
    .ok (.ok (), ⟨buffer, rb.head, tail, rb.len + 1⟩)

/-- `pop`. -/
def pop (rb : RingBuffer α N) : Except Fault (Option α × RingBuffer α N) :=
  if rb.len = 0 then .ok (none, rb)
  else do
    let head ← next N rb.head
    if N ≤ rb.head then .error .indexOutOfBounds
    else
      match rb.buffer rb.head with
      | none => .error .uninitRead
      | some value => .ok (some value, ⟨rb.buffer, head, rb.tail, rb.len - 1⟩)

/-- Nothing changes if there is nothing to take. -/
theorem eq_of_pop_none {rb rb' : RingBuffer α N} (h : rb.pop = .ok (none, rb')) : rb' = rb := by
  rw [pop] at h
  split at h
  · exact (Prod.mk.inj (Except.ok.inj h)).2.symm
  · obtain ⟨head, -, h⟩ := exists_of_bind_eq_ok h
    split at h
    · cases h
    · cases hslot : rb.buffer rb.head <;> rw [hslot] at h <;> cases h

/-- `is_empty`. -/
def isEmpty (rb : RingBuffer α N) : Bool := rb.len == 0

/-- `is_full`. -/
def isFull (rb : RingBuffer α N) : Bool := rb.len == N

/-- The items in the buffer, from the first to the last. -/
def contents (rb : RingBuffer α N) : List α :=
  (List.range rb.len).filterMap fun i => rb.buffer ((rb.head + i) % N)

/-- **The items of the buffer** are those of `l`: the `i`th is in the `i`th slot from the head on,
around the end of the array. -/
structure Holds (rb : RingBuffer α N) (l : List α) : Prop where
  len : rb.len = l.length
  length_le : l.length ≤ N
  head_lt : 0 < N → rb.head < N
  tail : 0 < N → rb.tail = (rb.head + l.length) % N
  slot : ∀ i (hi : i < l.length), rb.buffer ((rb.head + i) % N) = some l[i]

namespace Holds

variable {rb : RingBuffer α N} {l : List α} {a : α}

theorem new : Holds (RingBuffer.new : RingBuffer α N) [] where
  len := rfl
  length_le := Nat.zero_le N
  head_lt h := h
  tail _ := (Nat.zero_mod N).symm
  slot i hi := absurd hi (Nat.not_lt_zero i)

theorem isEmpty (h : Holds rb l) : rb.isEmpty = true ↔ l = [] := by
  rw [RingBuffer.isEmpty, h.len, beq_iff_eq, List.length_eq_zero_iff]

/-- The list that the buffer holds is what can be read out of its slots. -/
theorem contents_eq (h : Holds rb l) : rb.contents = l := by
  have hread : ∀ (l : List α) (f : ℕ → Option α), (∀ i (hi : i < l.length), f i = some l[i]) →
      (List.range l.length).filterMap f = l := by
    intro l
    induction l with
    | nil => exact fun _ _ => rfl
    | cons a l ih =>
      intro f hf
      rw [List.length_cons, List.range_succ_eq_map,
        List.filterMap_cons_some (hf 0 (Nat.succ_pos _)), List.filterMap_map,
        ih (f ∘ Nat.succ) fun i hi => hf (i + 1) (Nat.succ_lt_succ hi)]
      rfl
  rw [contents, h.len]
  exact hread l _ h.slot

/-- Two slots less than a turn apart are different. -/
theorem slot_ne {head i j : ℕ} (hij : i < j) (hj : j < N) : (head + j) % N ≠ (head + i) % N := by
  intro heq
  have hmod : j ≡ i [MOD N] := Nat.ModEq.add_left_cancel' head heq
  rw [Nat.ModEq, Nat.mod_eq_of_lt hj, Nat.mod_eq_of_lt (hij.trans hj)] at hmod
  exact hij.ne' hmod

theorem tail_lt (h : Holds rb l) (hN : 0 < N) : rb.tail < N := by
  rw [h.tail hN]
  exact Nat.mod_lt _ hN

/-- `push` on a buffer that is not full writes the slot of the next item. -/
theorem push_eq (h : Holds rb l) (hlt : l.length < N) (a : α) :
    rb.push a = .ok
      (.ok (),
        ⟨Function.update rb.buffer rb.tail (some a), rb.head, (rb.tail + 1) % N, rb.len + 1⟩) := by
  have hN : 0 < N := Nat.zero_lt_of_lt hlt
  rw [RingBuffer.push, if_neg (by rw [h.len]; exact hlt.ne), if_neg (Nat.not_le.mpr (h.tail_lt hN)),
    next, if_neg hN.ne', ok_bind]

/-- **`push`** puts the item last, or gives it back from a full buffer. -/
theorem push (h : Holds rb l) (a : α) :
    (l.length < N ∧ ∃ rb', rb.push a = .ok (.ok (), rb') ∧ Holds rb' (l ++ [a])) ∨
      (l.length = N ∧ rb.push a = .ok (.error a, rb)) := by
  rcases h.length_le.lt_or_eq with hlt | heq
  · have hN : 0 < N := Nat.zero_lt_of_lt hlt
    refine Or.inl
      ⟨hlt, _, h.push_eq hlt a, ?_, ?_, fun _ => h.head_lt hN, fun _ => ?_, fun i hi => ?_⟩
    · rw [List.length_append, h.len]
      rfl
    · rw [List.length_append]
      exact hlt
    · rw [List.length_append, h.tail hN, List.length_singleton, Nat.mod_add_mod, add_assoc]
    · rw [List.length_append, List.length_singleton] at hi
      show Function.update rb.buffer rb.tail (some a) ((rb.head + i) % N) = _
      rcases Nat.lt_succ_iff_lt_or_eq.mp hi with hi' | rfl
      · rw [Function.update_of_ne (by rw [h.tail hN]; exact (slot_ne hi' hlt).symm), h.slot i hi',
          List.getElem_append_left]
      · rw [h.tail hN, Function.update_self]
        simp
  · refine Or.inr ⟨heq, ?_⟩
    rw [RingBuffer.push, if_pos (h.len.trans heq)]

theorem pop_nil (h : Holds rb []) : rb.pop = .ok (none, rb) := by
  rw [RingBuffer.pop, if_pos (show rb.len = 0 from h.len)]

/-- `pop` reads the slot of the first item. -/
theorem pop_eq (h : Holds rb (a :: l)) :
    rb.pop = .ok (some a, ⟨rb.buffer, (rb.head + 1) % N, rb.tail, rb.len - 1⟩) := by
  have hN : 0 < N := Nat.zero_lt_of_lt h.length_le
  have hhead := h.head_lt hN
  have hslot : rb.buffer rb.head = some a := by
    have h0 := h.slot 0 (Nat.succ_pos _)
    rwa [add_zero, Nat.mod_eq_of_lt hhead] at h0
  rw [RingBuffer.pop, if_neg (by rw [h.len]; exact Nat.succ_ne_zero _), next, if_neg hN.ne',
    ok_bind, if_neg (Nat.not_le.mpr hhead), hslot]

/-- **`pop`** takes the first item. -/
theorem pop (h : Holds rb (a :: l)) : ∃ rb', rb.pop = .ok (some a, rb') ∧ Holds rb' l := by
  have hN : 0 < N := Nat.zero_lt_of_lt h.length_le
  refine ⟨_, h.pop_eq, ?_, ?_, fun _ => Nat.mod_lt _ hN, fun _ => ?_, fun i hi => ?_⟩
  · show rb.len - 1 = l.length
    rw [h.len]
    rfl
  · exact (Nat.le_succ _).trans h.length_le
  · show rb.tail = _
    rw [h.tail hN, Nat.mod_add_mod, List.length_cons, add_assoc, add_comm l.length]
  · have hnext := h.slot (i + 1) (Nat.succ_lt_succ hi)
    rw [List.getElem_cons_succ] at hnext
    show rb.buffer (((rb.head + 1) % N + i) % N) = _
    rw [Nat.mod_add_mod, add_assoc, add_comm 1, hnext]

end Holds

end RingBuffer

end CharlotteOs
