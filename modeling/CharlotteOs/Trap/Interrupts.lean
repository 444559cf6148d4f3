import Mathlib.Data.BitVec

/-!
# The status register

`src/trap/interrupts/mod.rs`: kernel code turns interrupts off and on through the bit `SIE` of
`sstatus`. The hart itself writes the register when it takes a trap and when it executes `sret`:
`SPIE` and `SPP` keep the interrupt bit and the privilege of the code that was left.

## Main definitions

* `readAndDisableSupervisorInterrupts`, `restoreInterrupts`: the two halves of a critical section
* `Sstatus.takeTrap`, `Sstatus.sret`: what the hart does to the register
-/

namespace CharlotteOs

/-- The register `sstatus`. -/
abbrev Sstatus := BitVec 64

namespace Sstatus

/-- `SSTATUS_SIE_MASK`: supervisor interrupts are on. -/
abbrev sieMask : Sstatus := BitVec.twoPow 64 1

/-- The mask of `SPIE`: interrupts were on before the trap. -/
abbrev spieMask : Sstatus := BitVec.twoPow 64 5

/-- The mask of `SPP`: the trap came from supervisor mode. -/
abbrev sppMask : Sstatus := BitVec.twoPow 64 8

/-- The bit `SIE`. -/
def sie (s : Sstatus) : Bool := s.getLsbD 1

/-- The bit `SPIE`. -/
def spie (s : Sstatus) : Bool := s.getLsbD 5

/-- The bit `SPP`. -/
def spp (s : Sstatus) : Bool := s.getLsbD 8

/-- The register with the bits of a mask set or cleared (`csrs`, `csrc`). -/
def assign (s mask : Sstatus) (value : Bool) : Sstatus :=
  if value then s ||| mask else s &&& ~~~mask

theorem getLsbD_assign (s : Sstatus) (i j : ℕ) (hj : j < 64) (value : Bool) :
    (s.assign (BitVec.twoPow 64 i) value).getLsbD j = if i = j then value else s.getLsbD j := by
  unfold assign
  by_cases hij : i = j
  · cases value <;> simp [hij, hj]
  · have hji : ¬ j = i := fun h => hij h.symm
    cases value <;> simp [hij, hji, hj]

/-- A trap is taken from supervisor mode, or from user mode: interrupts go off. -/
def takeTrap (s : Sstatus) (fromSupervisor : Bool) : Sstatus :=
  ((s.assign spieMask s.sie).assign sppMask fromSupervisor).assign sieMask false

/-- `sret`: interrupts are as they were before the trap. -/
def sret (s : Sstatus) : Sstatus :=
  ((s.assign sieMask s.spie).assign spieMask true).assign sppMask false

@[simp] theorem sie_takeTrap (s : Sstatus) (b : Bool) : (s.takeTrap b).sie = false := by
  simp only [takeTrap, sie, getLsbD_assign, Nat.reduceLT, reduceIte, Nat.reduceEqDiff]

@[simp] theorem spie_takeTrap (s : Sstatus) (b : Bool) : (s.takeTrap b).spie = s.sie := by
  simp only [takeTrap, spie, getLsbD_assign, Nat.reduceLT, reduceIte, Nat.reduceEqDiff]

@[simp] theorem sie_sret (s : Sstatus) : s.sret.sie = s.spie := by
  simp only [sret, sie, getLsbD_assign, Nat.reduceLT, reduceIte, Nat.reduceEqDiff]

end Sstatus

open Sstatus

/-- `read_and_disable_supervisor_interrupts`: the old value, and the register with `SIE` cleared
(`csrrci rd, sstatus, 2`). -/
def readAndDisableSupervisorInterrupts (sstatus : Sstatus) : Sstatus × Sstatus :=
  (sstatus, sstatus.assign sieMask false)

/-- `restore_interrupts`: `SIE` is set if it was set in the saved value, and left alone
otherwise. -/
def restoreInterrupts (savedStatus sstatus : Sstatus) : Sstatus :=
  if savedStatus &&& sieMask ≠ 0 then sstatus.assign sieMask true else sstatus

@[simp] theorem sie_disable (s : Sstatus) :
    (readAndDisableSupervisorInterrupts s).2.sie = false := by
  simp only [readAndDisableSupervisorInterrupts, sie, getLsbD_assign, Nat.reduceLT, reduceIte]

@[simp] theorem spie_disable (s : Sstatus) :
    (readAndDisableSupervisorInterrupts s).2.spie = s.spie := by
  simp only [readAndDisableSupervisorInterrupts, spie, getLsbD_assign, Nat.reduceLT, reduceIte,
    Nat.reduceEqDiff]

theorem and_sieMask_ne_zero (s : Sstatus) : s &&& sieMask ≠ 0 ↔ s.sie = true := by
  rw [BitVec.and_twoPow, sie]
  cases s.getLsbD 1 with
  | false => simp
  | true => simp only [if_true, ne_eq, iff_true]; decide

theorem restoreInterrupts_of_off {saved : Sstatus} (h : saved.sie = false) (s : Sstatus) :
    restoreInterrupts saved s = s := by
  refine if_neg fun hne => ?_
  rw [and_sieMask_ne_zero, h] at hne
  cases hne

theorem sie_restoreInterrupts_of_on {saved : Sstatus} (h : saved.sie = true) (s : Sstatus) :
    (restoreInterrupts saved s).sie = true := by
  rw [restoreInterrupts, if_pos ((and_sieMask_ne_zero saved).2 h)]
  simp only [sie, getLsbD_assign, Nat.reduceLT, reduceIte]

end CharlotteOs
