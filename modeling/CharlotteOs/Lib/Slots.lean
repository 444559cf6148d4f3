import Mathlib.Data.List.Basic
import Mathlib.Tactic.Common

/-!
# Arrays with a used part

An array of slots whose first ones are in use is a list, and what is in use is a part that it begins
with. Slots are moved by copying a range of them to another place, as `memmove` does. Taking a slot
out and making room for one are such moves.

## Main definitions

* `copyWithin l start stop dest`: the slots from `start` to `stop` copied to `dest`

## Main results

* `length_copyWithin`: the array keeps its length
* `copyWithin_down`, `copyWithin_up`: slots are taken out, and room is made for one
-/

namespace Slots

variable {α : Type} {l : List α} {start stop dest : ℕ}

/-- The slots from `start` to `stop` copied to `dest`. -/
def copyWithin (l : List α) (start stop dest : ℕ) : List α :=
  l.take dest ++ (l.drop start).take (stop - start) ++ l.drop (dest + (stop - start))

theorem length_copyWithin (hstop : stop ≤ l.length) (hdest : dest + (stop - start) ≤ l.length) :
    (copyWithin l start stop dest).length = l.length := by
  simp only [copyWithin, List.length_append, List.length_take, List.length_drop]
  omega

/-- **Slots are taken out**: what is behind them is copied down. -/
theorem copyWithin_down (front mid rest spare : List α) :
    ∃ spare', copyWithin (front ++ (mid ++ (rest ++ spare))) (front.length + mid.length)
      (front.length + mid.length + rest.length) front.length = front ++ (rest ++ spare') := by
  refine ⟨(front ++ (mid ++ (rest ++ spare))).drop (front.length + rest.length), ?_⟩
  have hdrop : (front ++ (mid ++ (rest ++ spare))).drop (front.length + mid.length) =
      rest ++ spare := by
    rw [← List.append_assoc, ← List.length_append, List.drop_left]
  rw [copyWithin, List.take_left, hdrop, Nat.add_sub_cancel_left, List.take_left, List.append_assoc]

/-- **Room is made** for a slot: what is behind it is copied up, if there is a spare slot. -/
theorem copyWithin_up (front rest : List α) (b : α) (spare : List α) :
    ∃ c, copyWithin (front ++ (rest ++ b :: spare)) front.length (front.length + rest.length)
      (front.length + 1) = front ++ (c :: rest ++ spare) := by
  obtain ⟨c, tail, hfirst⟩ := List.exists_cons_of_ne_nil (List.append_ne_nil_of_right_ne_nil rest
    (List.cons_ne_nil b spare))
  have htake : (front ++ (rest ++ b :: spare)).take (front.length + 1) = front ++ [c] := by
    rw [hfirst, List.take_length_add_append, List.take_succ_cons, List.take_zero]
  have hdrop : (front ++ (rest ++ b :: spare)).drop (front.length + 1 + rest.length) = spare := by
    rw [Nat.add_assoc, List.drop_length_add_append, Nat.add_comm, List.drop_length_add_append]
    rfl
  refine ⟨c, ?_⟩
  rw [copyWithin, Nat.add_sub_cancel_left, htake, hdrop, List.drop_left, List.take_left,
    List.append_assoc, List.append_assoc]
  rfl

end Slots
