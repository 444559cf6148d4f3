import Mathlib.Data.Nat.Bitwise
import Mathlib.Data.Nat.Log
import Mathlib.Tactic.Ring

/-!
# Bit operations of a 64-bit unsigned word

The operations of the machine word that an allocator uses, as functions of natural numbers:
rounding up to a power of two, counting trailing zeros, and clearing low bits with a mask. Each
comes with the arithmetic it stands for.

## Main definitions

* `nextPowerOfTwo n`: the least power of two that is at least `n`, `0` when it is `2 ^ 64`
* `trailingZeros n`: the number of low zero bits, `64` for the word `0`
* `notWord n`: the bitwise complement

## Main results

* `le_trailingZeros_iff`: `k ≤ trailingZeros n` exactly when `2 ^ k` divides `n`
* `trailingZeros_nextPowerOfTwo`: the two together are the ceiling of the binary logarithm
* `and_notWord_two_pow`: masking with `!(2 ^ k - 1)` rounds down to a multiple of `2 ^ k`
-/

namespace Usize

/-- The least power of two that is at least `n`. The addition that ends its computation wraps:
the result is `0` when that power is `2 ^ 64`. -/
def nextPowerOfTwo (n : ℕ) : ℕ :=
  if n ≤ 1 then 1 else 2 ^ (Nat.log2 (n - 1) + 1) % 2 ^ 64

/-- The number of low zero bits among the first `width`. -/
def countTrailing : ℕ → ℕ → ℕ
  | 0, _ => 0
  | width + 1, n => if n % 2 = 1 then 0 else 1 + countTrailing width (n / 2)

/-- The number of low zero bits of a word: `64` for `0`. -/
def trailingZeros (n : ℕ) : ℕ := countTrailing 64 n

/-- The bitwise complement of a word. -/
def notWord (n : ℕ) : ℕ := 2 ^ 64 - 1 - n

theorem two_pow_countTrailing_dvd (width n : ℕ) : 2 ^ countTrailing width n ∣ n := by
  induction width generalizing n with
  | zero => simp [countTrailing]
  | succ width ih =>
    rw [countTrailing]
    split
    · simp
    · obtain ⟨q, hq⟩ := ih (n / 2)
      refine ⟨q, ?_⟩
      rw [add_comm, pow_succ, mul_right_comm, ← hq]
      omega

theorem le_countTrailing {width n k : ℕ} (hk : k ≤ width) (h : 2 ^ k ∣ n) :
    k ≤ countTrailing width n := by
  induction width generalizing n k with
  | zero => omega
  | succ width ih =>
    cases k with
    | zero => omega
    | succ k =>
      obtain ⟨q, rfl⟩ := h
      have heven : 2 ^ (k + 1) * q = 2 * (2 ^ k * q) := by ring
      rw [countTrailing, heven, if_neg (by omega), Nat.mul_div_cancel_left _ (by omega)]
      have := ih (n := 2 ^ k * q) (by omega) (dvd_mul_right _ _)
      omega

theorem two_pow_trailingZeros_dvd (n : ℕ) : 2 ^ trailingZeros n ∣ n :=
  two_pow_countTrailing_dvd 64 n

theorem le_trailingZeros_iff {n k : ℕ} (hk : k ≤ 64) : k ≤ trailingZeros n ↔ 2 ^ k ∣ n :=
  ⟨fun h => (Nat.pow_dvd_pow 2 h).trans (two_pow_trailingZeros_dvd n), le_countTrailing hk⟩

theorem trailingZeros_two_pow {k : ℕ} (hk : k ≤ 64) : trailingZeros (2 ^ k % 2 ^ 64) = k := by
  rcases hk.lt_or_eq with hlt | rfl
  · have hpow : 2 ^ k < 2 ^ 64 := Nat.pow_lt_pow_right (by omega) hlt
    rw [Nat.mod_eq_of_lt hpow]
    refine le_antisymm ?_ ((le_trailingZeros_iff hk).mpr dvd_rfl)
    exact (Nat.pow_dvd_pow_iff_le_right (by omega)).mp (two_pow_trailingZeros_dvd _)
  · rfl

theorem clog_le_of_lt {n : ℕ} (hlt : n < 2 ^ 64) : Nat.clog 2 n ≤ 64 :=
  Nat.clog_le_of_le_pow hlt.le

/-- Rounding up to a power of two, with the wrap. -/
theorem nextPowerOfTwo_eq_mod {n : ℕ} (hn : 0 < n) :
    nextPowerOfTwo n = 2 ^ Nat.clog 2 n % 2 ^ 64 := by
  rw [nextPowerOfTwo]
  split
  · have : n = 1 := by omega
    subst this
    rfl
  · have hne : n - 1 ≠ 0 := by omega
    have hclog : Nat.clog 2 n = Nat.log2 (n - 1) + 1 := by
      refine le_antisymm ?_ ?_
      · rw [Nat.clog_le_iff_le_pow (by omega)]
        have := Nat.lt_log2_self (n := n - 1)
        omega
      · rw [Nat.succ_le_iff, Nat.lt_clog_iff_pow_lt (by omega)]
        have := Nat.log2_self_le hne
        omega
    rw [hclog]

theorem nextPowerOfTwo_eq {n : ℕ} (hn : 0 < n) (hle : n ≤ 2 ^ 63) :
    nextPowerOfTwo n = 2 ^ Nat.clog 2 n := by
  rw [nextPowerOfTwo_eq_mod hn]
  refine Nat.mod_eq_of_lt (Nat.pow_lt_pow_right (by omega) ?_)
  exact (Nat.clog_le_of_le_pow hle).trans_lt (by omega)

/-- Rounding up to a power of two and counting its zeros is the ceiling of the logarithm, also
where the rounding wraps. -/
theorem trailingZeros_nextPowerOfTwo {n : ℕ} (hn : 0 < n) (hlt : n < 2 ^ 64) :
    trailingZeros (nextPowerOfTwo n) = Nat.clog 2 n := by
  rw [nextPowerOfTwo_eq_mod hn, trailingZeros_two_pow (clog_le_of_lt hlt)]

/-- Clearing the low `k` bits rounds down to a multiple of `2 ^ k`. -/
theorem and_notWord_two_pow {n k : ℕ} (hn : n < 2 ^ 64) (hk : k ≤ 64) :
    n &&& notWord (2 ^ k - 1) = n / 2 ^ k * 2 ^ k := by
  have hpow : 2 ^ k ≤ 2 ^ 64 := Nat.pow_le_pow_right (by omega) hk
  have hpos : 0 < 2 ^ k := Nat.two_pow_pos k
  apply Nat.eq_of_testBit_eq
  intro i
  have hnot : (notWord (2 ^ k - 1)).testBit i = (decide (i < 64) && !decide (i < k)) := by
    have hsucc : notWord (2 ^ k - 1) = 2 ^ 64 - (2 ^ k - 1 + 1) := by
      rw [notWord]
      omega
    rw [hsucc, Nat.testBit_two_pow_sub_succ (by omega), Nat.testBit_two_pow_sub_one]
  rw [Nat.testBit_and, hnot, mul_comm, Nat.testBit_two_pow_mul, Nat.testBit_div_two_pow]
  by_cases hik : i < k
  · simp [hik]
  · have hki : k ≤ i := by omega
    by_cases hi : i < 64
    · simp [hik, hki, hi]
    · have hzero : n.testBit i = false :=
        Nat.testBit_lt_two_pow (hn.trans_le (Nat.pow_le_pow_right (by omega) (by omega)))
      simp [hki, hzero]

end Usize
