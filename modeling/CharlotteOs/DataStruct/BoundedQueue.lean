import CharlotteOs.DataStruct.RingBuf
import CharlotteOs.Lib.Refinement

/-!
# The ring buffer is a bounded queue

`RingBuffer` answers every sequence of calls as a list does that holds at most `N` items. `head`,
`tail` and `len` are kept beside each other and go around the array independently; they agree since
`tail` is always `len` slots after `head`.

A slot keeps its bits when its item is taken. Which slots have an item that was pushed and not
popped yet is remembered beside the buffer, and `pop` reads only those.

## Main definitions

* `RingOp`, `RingAnswer`: the calls and what they return
* `BoundedQueue.step`: a list that holds at most `N` items
* `TrackedRing`: the buffer with its slots in use
* `TrackedRing.Sound`: what a call may touch, and that its sums stay in the array

## Main results

* `TrackedRing.simulates`: the buffer simulates the list
* `TrackedRing.refines_boundedQueue`: every sequence of calls is answered as by the list
-/

namespace CharlotteOs

open FallibleRun DataRefinement

/-! ## The queue -/

/-- A call of a method of `RingBuffer`. -/
inductive RingOp (α : Type)
  | push (item : α)
  | pop
  | len
  | isEmpty
  | isFull
  deriving DecidableEq, Repr

/-- What a call returns. -/
inductive RingAnswer (α : Type)
  | pushed (result : Except α Unit)
  | popped (item : Option α)
  | len (n : ℕ)
  | isEmpty (b : Bool)
  | isFull (b : Bool)

/-- **A queue of at most `N` items**, as a list: an item goes to the back if there is room, and the
first one is taken. -/
def BoundedQueue.step {α : Type} (N : ℕ) (l : List α) : RingOp α → RingAnswer α × List α
  | .push item =>
    if l.length < N then (.pushed (.ok ()), l ++ [item]) else (.pushed (.error item), l)
  | .pop => (.popped l.head?, l.tail)
  | .len => (.len l.length, l)
  | .isEmpty => (.isEmpty l.isEmpty, l)
  | .isFull => (.isFull (l.length == N), l)

/-! ## The buffer with its slots in use -/

/-- A ring buffer, with the slots that a `push` has written and no `pop` has read since. -/
structure TrackedRing (α : Type) (N : ℕ) where
  rb : RingBuffer α N
  live : ℕ → Bool

namespace TrackedRing

variable {α : Type} {N : ℕ}

/-- The buffer at first, without items. -/
def new : TrackedRing α N := ⟨RingBuffer.new, fun _ => false⟩

/-- A call. `push` writes the slot at `tail`, and `pop` moves the item at `head` out. -/
def step (t : TrackedRing α N) : RingOp α → Except Fault (RingAnswer α × TrackedRing α N)
  | .push item => do
    let (result, rb) ← t.rb.push item
    match result with
    | .ok () => .ok (.pushed result, ⟨rb, Function.update t.live t.rb.tail true⟩)
    | .error _ => .ok (.pushed result, ⟨rb, t.live⟩)
  | .pop => do
    let (item, rb) ← t.rb.pop
    match item with
    | some _ => .ok (.popped item, ⟨rb, Function.update t.live t.rb.head false⟩)
    | none => .ok (.popped item, ⟨rb, t.live⟩)
  | .len => .ok (.len t.rb.len, t)
  | .isEmpty => .ok (.isEmpty t.rb.isEmpty, t)
  | .isFull => .ok (.isFull t.rb.isFull, t)

/-- **A call touches what it may.** A `push` without room gives the item back and changes nothing;
another one writes a slot that is not in use. A `pop` reads a slot that is in use, if any. The slots
are in the array, and no sum is above `N`, so none is too large for a word. -/
def Sound (t : TrackedRing α N) : RingOp α → Prop
  | .push item =>
    (t.rb.len = N ∧ t.rb.push item = .ok (.error item, t.rb)) ∨
      (t.rb.tail < N ∧ t.live t.rb.tail = false ∧ t.rb.tail + 1 ≤ N ∧ t.rb.len + 1 ≤ N)
  | .pop =>
    (t.rb.len = 0 ∧ t.rb.pop = .ok (none, t.rb)) ∨
      (t.rb.head < N ∧ t.live t.rb.head = true ∧ t.rb.head + 1 ≤ N ∧ 1 ≤ t.rb.len)
  | .len | .isEmpty | .isFull => True

/-- **The buffer holds a list**, and the slots in use are those of its items. -/
structure Holds (t : TrackedRing α N) (l : List α) : Prop where
  rb : t.rb.Holds l
  live : ∀ x, t.live x = true ↔ ∃ i < l.length, (t.rb.head + i) % N = x

namespace Holds

variable {t : TrackedRing α N} {l : List α} {a : α}

theorem new : Holds (TrackedRing.new : TrackedRing α N) [] where
  rb := RingBuffer.Holds.new
  live x := iff_of_false (by simp [TrackedRing.new]) fun ⟨i, hi, _⟩ => absurd hi (Nat.not_lt_zero i)

/-- The slot of the next item is not in use. -/
theorem live_tail (h : Holds t l) (hlt : l.length < N) : t.live t.rb.tail = false := by
  rw [← Bool.not_eq_true, h.live]
  rintro ⟨i, hi, heq⟩
  rw [h.rb.tail (Nat.zero_lt_of_lt hlt)] at heq
  exact RingBuffer.Holds.slot_ne hi hlt heq.symm

/-- The slot of the first item is in use. -/
theorem live_head (h : Holds t (a :: l)) : t.live t.rb.head = true := by
  have hhead := h.rb.head_lt (Nat.zero_lt_of_lt h.rb.length_le)
  exact (h.live _).mpr ⟨0, Nat.succ_pos _, Nat.mod_eq_of_lt hhead⟩

/-- An item is put last. -/
theorem push (h : Holds t l) (hlt : l.length < N) (a : α) :
    ∃ t', t.step (.push a) = .ok (.pushed (.ok ()), t') ∧ Holds t' (l ++ [a]) := by
  obtain ⟨-, rb', hpush, hholds⟩ | ⟨hfull, -⟩ := h.rb.push a
  · refine ⟨⟨rb', Function.update t.live t.rb.tail true⟩, by rw [step, hpush, ok_bind], hholds,
      fun x => ?_⟩
    rw [h.rb.push_eq hlt a] at hpush
    cases hpush
    dsimp only
    rw [List.length_append, List.length_singleton]
    by_cases hx : x = t.rb.tail
    · subst hx
      rw [Function.update_self]
      exact iff_of_true rfl ⟨l.length, Nat.lt_succ_self _, (h.rb.tail (Nat.zero_lt_of_lt hlt)).symm⟩
    · rw [Function.update_of_ne hx, h.live]
      refine exists_congr fun i => ?_
      rw [Nat.lt_succ_iff_lt_or_eq, or_and_right, iff_self_or]
      rintro ⟨rfl, rfl⟩
      exact absurd (h.rb.tail (Nat.zero_lt_of_lt hlt)).symm hx
  · exact absurd hfull hlt.ne

/-- The first item is taken. -/
theorem pop (h : Holds t (a :: l)) :
    ∃ t', t.step .pop = .ok (.popped (some a), t') ∧ Holds t' l := by
  obtain ⟨rb', hpop, hholds⟩ := h.rb.pop
  refine ⟨⟨rb', Function.update t.live t.rb.head false⟩, by rw [step, hpop, ok_bind], hholds,
    fun x => ?_⟩
  have hhead := h.rb.head_lt (Nat.zero_lt_of_lt h.rb.length_le)
  rw [h.rb.pop_eq] at hpop
  cases hpop
  have hshift : ∀ i, ((t.rb.head + 1) % N + i) % N = (t.rb.head + (i + 1)) % N := fun i => by
    rw [Nat.mod_add_mod, add_assoc, add_comm 1]
  simp only [hshift]
  by_cases hx : x = t.rb.head
  · subst hx
    rw [Function.update_self]
    refine iff_of_false Bool.false_ne_true ?_
    rintro ⟨i, hi, heq⟩
    have hne : (t.rb.head + (i + 1)) % N ≠ (t.rb.head + 0) % N :=
      RingBuffer.Holds.slot_ne (Nat.succ_pos i) ((Nat.succ_lt_succ hi).trans_le h.rb.length_le)
    rw [add_zero, Nat.mod_eq_of_lt hhead] at hne
    exact hne heq
  · rw [Function.update_of_ne hx, h.live]
    constructor
    · rintro ⟨i, hi, heq⟩
      cases i with
      | zero => exact absurd (heq.symm.trans (Nat.mod_eq_of_lt hhead)) hx
      | succ i => exact ⟨i, Nat.lt_of_succ_lt_succ hi, heq⟩
    · rintro ⟨i, hi, heq⟩
      exact ⟨i + 1, Nat.succ_lt_succ hi, heq⟩

theorem sound (h : Holds t l) (op : RingOp α) : t.Sound op := by
  cases op with
  | push item =>
    obtain ⟨hlt, -⟩ | ⟨hfull, hpush⟩ := h.rb.push item
    · have htail := h.rb.tail_lt (Nat.zero_lt_of_lt hlt)
      exact .inr ⟨htail, h.live_tail hlt, htail, h.rb.len ▸ hlt⟩
    · exact .inl ⟨h.rb.len.trans hfull, hpush⟩
  | pop =>
    cases l with
    | nil => exact .inl ⟨h.rb.len, h.rb.pop_nil⟩
    | cons a l =>
      have hhead := h.rb.head_lt (Nat.zero_lt_of_lt h.rb.length_le)
      exact .inr ⟨hhead, h.live_head, hhead, h.rb.len ▸ Nat.succ_pos _⟩
  | len | isEmpty | isFull => trivial

end Holds

/-- **The buffer simulates the list**: one call. -/
theorem simulates : Simulates (step (α := α) (N := N)) (BoundedQueue.step N) Holds := by
  intro t l op h
  cases op with
  | push item =>
    rw [BoundedQueue.step]
    split
    · rename_i hlt
      exact h.push hlt item
    · rename_i hroom
      obtain ⟨hlt, -⟩ | ⟨-, hpush⟩ := h.rb.push item
      · exact absurd hlt hroom
      · exact ⟨t, by rw [step, hpush, ok_bind], h⟩
  | pop =>
    cases l with
    | nil => exact ⟨t, by rw [step, h.rb.pop_nil, ok_bind]; rfl, h⟩
    | cons a l => exact h.pop
  | len => exact ⟨t, by rw [step, h.rb.len]; rfl, h⟩
  | isEmpty =>
    refine ⟨t, ?_, h⟩
    have hempty : t.rb.isEmpty = l.isEmpty := by
      rw [Bool.eq_iff_iff, h.rb.isEmpty, List.isEmpty_iff]
    rw [step, hempty]
    rfl
  | isFull =>
    refine ⟨t, ?_, h⟩
    rw [step, RingBuffer.isFull, h.rb.len]
    rfl

/-- **The ring buffer refines a bounded queue.** For every capacity, zero included, every type of
items and every sequence of calls from `new` on, all calls return what the list of at most `N` items
returns. A `push` that fails gives its item back and changes nothing, `pop` reads only slots that
were written by a `push` and not yet popped, and the indices stay in the array. -/
theorem refines_boundedQueue (α : Type) (N : ℕ) (calls : List (RingOp α)) :
    (∃ t, answers step (new : TrackedRing α N) calls =
      .ok ((specAnswers (BoundedQueue.step N) [] calls).1, t)) ∧
    Along (forget step) Sound (new : TrackedRing α N) calls := by
  constructor
  · obtain ⟨t, ht, -⟩ := simulates.answers Holds.new calls
    exact ⟨t, ht⟩
  · exact simulates.along (fun _ _ op h => h.sound op) Holds.new calls

end TrackedRing

end CharlotteOs
