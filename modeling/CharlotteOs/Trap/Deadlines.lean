import CharlotteOs.Task.SchedulerRuns
import CharlotteOs.Trap.KernelSpec
import Mathlib.Data.Multiset.ZeroCons

/-!
# Wake-up times

`sleep`, and `uart_read` with a timeout, block the task that calls them and put a wake-up time into
`blocked_queue`: the clock plus the number of milliseconds in `a0` times `ONE_MS_CYCLES`, computed
in a `usize`. Nothing bounds `a0`, and the release build wraps.

A wake-up time is read off the heap before and after the trap, and compared with the clock and with
the wake-up times of the calls that the task could have made instead for a shorter time. Both are in
order exactly if the computation for `a0` does not wrap: the first request whose time wraps is due
before one that is shorter by a millisecond.

## Main definitions

* `Kernel.Timed`: the calls that block until a time
* `Kernel.Registers`: the wake-up time that a call puts into the heap
* `Kernel.DeadlinesInOrder`: no wake-up time is before the clock or before that of a shorter request

## Main results

* `KernelInv.registers_iff`: the calls that register a wake-up time, and the time
* `Kernel.deadlinesInOrder_iff`: when the wake-up times are in order
-/

namespace CharlotteOs

open DyadicTiling BuddySystemFrameAllocator FallibleRun Scheduler

/-! ## The computation -/

theorem oneMsCycles_eq : oneMsCycles = 10000 := rfl

theorem afterMs_lt (now ms : ℕ) : afterMs now ms < 2 ^ 64 := Nat.mod_lt _ (by decide)

theorem afterMs_of_lt {now ms : ℕ} (h : now + ms * oneMsCycles < 2 ^ 64) :
    afterMs now ms = now + ms * oneMsCycles := Nat.mod_eq_of_lt h

/-- The time after the first wrap. -/
theorem afterMs_of_le {now ms : ℕ} (h : 2 ^ 64 ≤ now + ms * oneMsCycles)
    (hlt : now + ms * oneMsCycles < 2 ^ 65) :
    afterMs now ms = now + ms * oneMsCycles - 2 ^ 64 := by
  rw [afterMs]
  omega

/-- Without a wrap the times are after now, and in the order of the requests. -/
theorem afterMs_mono {now ms ms' : ℕ} (hle : ms ≤ ms') (h : now + ms' * oneMsCycles < 2 ^ 64) :
    now ≤ afterMs now ms ∧ afterMs now ms ≤ afterMs now ms' := by
  have hcycles : ms * oneMsCycles ≤ ms' * oneMsCycles := Nat.mul_le_mul_right _ hle
  have hadd : now + ms * oneMsCycles ≤ now + ms' * oneMsCycles := Nat.add_le_add_left hcycles now
  rw [afterMs_of_lt h, afterMs_of_lt (hadd.trans_lt h)]
  exact ⟨Nat.le_add_right _ _, hadd⟩

/-- **The first request that wraps** is due before now, or before the request that is shorter by
one, and that is not the request for no time. -/
theorem exists_wrap {now ms : ℕ} (h : 2 ^ 64 ≤ now + ms * oneMsCycles) :
    ∃ less more, less ≤ more ∧ more ≤ ms ∧ (ms ≠ 0 → less ≠ 0) ∧
      (afterMs now less < now ∨ afterMs now more < afterMs now less) := by
  by_cases hnow : 2 ^ 64 ≤ now
  · exact ⟨ms, ms, le_rfl, le_rfl, id, Or.inl ((afterMs_lt now ms).trans_le hnow)⟩
  · obtain ⟨room, hroom⟩ : ∃ room, room = (2 ^ 64 - 1 - now) / oneMsCycles := ⟨_, rfl⟩
    rw [oneMsCycles_eq] at h hroom
    have hfits : now + room * 10000 < 2 ^ 64 := by omega
    have hsucc : now + (room + 1) * oneMsCycles = now + room * 10000 + 10000 := by
      rw [oneMsCycles_eq, Nat.succ_mul, Nat.add_assoc]
    have hlast : afterMs now room = now + room * 10000 := afterMs_of_lt hfits
    have hnext : afterMs now (room + 1) = now + room * 10000 + 10000 - 2 ^ 64 := by
      rw [← hsucc]
      exact afterMs_of_le (by rw [hsucc]; omega) (by rw [hsucc]; omega)
    have hlt : room + 1 ≤ ms := by omega
    -- a `uart_read` for no time does not block, so `0` must not be the shorter request
    by_cases hzero : room = 0
    · refine ⟨room + 1, room + 1, le_rfl, hlt, fun _ => room.succ_ne_zero, Or.inl ?_⟩
      omega
    · refine ⟨room, room + 1, room.le_succ, hlt, fun _ => hzero, Or.inr ?_⟩
      omega

/-! ## What a call registers -/

namespace Scheduler

/-- What is put into a heap can be told from the heap before and after. -/
theorem pushEntry_inj {e e' : SleepEntry} {l : List SleepEntry}
    (h : pushEntry e l = pushEntry e' l) : e = e' := by
  have hperm : (e :: l).Perm (e' :: l) :=
    (perm_pushEntry e l).symm.trans (h ▸ perm_pushEntry e' l)
  exact (Multiset.cons_inj_left (l : Multiset SleepEntry)).mp (Multiset.coe_eq_coe.mpr hperm)

theorem pushEntry_ne (e : SleepEntry) (l : List SleepEntry) : pushEntry e l ≠ l := by
  intro h
  have hlength := (perm_pushEntry e l).length_eq
  rw [h, List.length_cons] at hlength
  exact Nat.succ_ne_self _ hlength.symm

end Scheduler

/-- The wake-up time that goes into the heap with a step. -/
def WaitLabel.entry : WaitLabel → Option SleepEntry
  | .sleep id wakeTime | .wait id (some wakeTime) => some ⟨wakeTime, id⟩
  | _ => none

/-- The heap after a step that is not a tick. -/
theorem WaitStep.heap_eq {w w' : WaitState} {label : WaitLabel} (h : WaitStep w label w')
    (htick : ∀ now, label ≠ .tick now) :
    w'.heap = label.entry.elim w.heap fun e => pushEntry e w.heap := by
  cases h with
  | tick => exact absurd rfl (htick _)
  | @wait id wakeTime ctx _ _ _ =>
    cases wakeTime with
    | none | some _ => rfl
  | quiet | deliver | store | drop | take | sleep => rfl

namespace Kernel

/-- The calls that block the task until a time: `sleep`, and a `uart_read` that finds no byte and
has a timeout other than `0` and `usize::MAX`. -/
def Timed (k : Kernel) (regs : TaskContext) : Prop :=
  regs.a7 = 17 ∨
    regs.a7 = 27 ∧ k.uart.receiveBuffer.contents = [] ∧ regs.a0 ≠ 0 ∧ regs.a0 < usizeMax

instance (k : Kernel) (regs : TaskContext) : Decidable (k.Timed regs) :=
  inferInstanceAs (Decidable (_ ∨ _))

/-- The system call that the current task makes with these registers returns, and has put the
wake-up time into `blocked_queue` for the task. -/
def Registers (k : Kernel) (regs : TaskContext) (io : Inputs) (wakeTime : ℕ) : Prop :=
  ∃ k' id, k.step (.trap regs 8 io) = .ok k' ∧ k.scheduler.currentTaskId = some id ∧
    k'.scheduler.blockedQueue = pushEntry ⟨wakeTime, id⟩ k.scheduler.blockedQueue

/-- **Deadlines are in order**: for every request up to the one in `a0`, the wake-up time that the
call registers is not before the clock, and not after that of a longer request. -/
def DeadlinesInOrder (k : Kernel) (regs : TaskContext) (io : Inputs) : Prop :=
  ∀ less more wakeTime wakeTime', less ≤ more → more ≤ regs.a0 →
    k.Registers { regs with a0 := less } io wakeTime →
    k.Registers { regs with a0 := more } io wakeTime' →
    io.time ≤ wakeTime ∧ wakeTime ≤ wakeTime'

variable {k : Kernel} {regs : TaskContext} {io : Inputs}

theorem callLabel_ne_tick (c now now' : ℕ) : k.callLabel c regs now ≠ .tick now' := by
  rw [callLabel]
  intro h
  split at h
  · cases h
  · split at h
    · cases h
    · split at h <;> cases h
  · cases h

theorem entry_callLabel (c now : ℕ) : (k.callLabel c regs now).entry =
    if k.Timed regs then some ⟨afterMs now regs.a0, c⟩ else none := by
  rw [callLabel]
  split
  case h_1 hcall => exact (if_pos (Or.inl hcall)).symm
  case h_3 hsleep hread =>
    exact (if_neg fun h => h.elim hsleep fun h => hread h.1).symm
  case h_2 hcall =>
    have hsleep : regs.a7 ≠ 17 := by simp [hcall]
    split
    case h_1 byte bytes hbytes =>
      refine (if_neg fun h => ?_).symm
      rcases h with h | ⟨-, hnil, -⟩
      · exact hsleep h
      · rw [hbytes] at hnil
        cases hnil
    case h_2 hbytes =>
      by_cases hzero : regs.a0 = 0
      · rw [if_pos hzero]
        refine (if_neg fun h => ?_).symm
        rcases h with h | ⟨-, -, hne, -⟩
        · exact hsleep h
        · exact hne hzero
      · rw [if_neg hzero]
        by_cases hmax : regs.a0 < usizeMax
        · have htimed : k.Timed regs := Or.inr ⟨hcall, hbytes, hzero, hmax⟩
          rw [if_pos hmax, if_pos htimed]
          rfl
        · rw [if_neg hmax]
          refine (if_neg fun h => ?_).symm
          rcases h with h | ⟨-, -, -, hlt⟩
          · exact hsleep h
          · exact hmax hlt

/-- A shorter request is timed as well, unless it is for no time. -/
theorem Timed.of_le (h : k.Timed regs) {ms : ℕ} (hle : ms ≤ regs.a0) (hne : regs.a0 ≠ 0 → ms ≠ 0) :
    k.Timed { regs with a0 := ms } := by
  rcases h with h | ⟨hcall, hbytes, hzero, hmax⟩
  · exact Or.inl h
  · exact Or.inr ⟨hcall, hbytes, hne hzero, hle.trans_lt hmax⟩

/-- Whether a call may be made does not depend on its request. -/
theorem Allowed.request {scause : ℕ} (h : k.Allowed (.trap regs scause io)) (ms : ℕ) :
    k.Allowed (.trap { regs with a0 := ms } scause io) := h

end Kernel

namespace KernelInv

variable {M : Set ℕ} {L₀ : List Block} {k : Kernel} {q : RunQueue} {regs : TaskContext}
  {io : Inputs}

/-- **What is registered**: a call registers a wake-up time if it is timed, and the time is the
clock plus the request. -/
theorem registers_iff (h : KernelInv M L₀ k q) (hallowed : k.Allowed (.trap regs 8 io))
    {wakeTime : ℕ} :
    k.Registers regs io wakeTime ↔ k.Timed regs ∧ wakeTime = afterMs io.time regs.a0 := by
  obtain ⟨-, k', -, -, hk', -, hstep, -⟩ := h.trap hallowed
  obtain ⟨c, hc⟩ := Option.ne_none_iff_exists'.mp (hallowed rfl).1
  have hlabel : k.label (.trap regs 8 io) = k.callLabel c regs io.time := by
    have hcause : Kernel.parseTrapCause 8 = .userEcall := rfl
    simp only [Kernel.label, hcause, hc]
  have hheap : k'.scheduler.blockedQueue =
      (k.callLabel c regs io.time).entry.elim k.scheduler.blockedQueue
        fun e => pushEntry e k.scheduler.blockedQueue :=
    (hlabel ▸ hstep).heap_eq (Kernel.callLabel_ne_tick c io.time)
  rw [Kernel.entry_callLabel] at hheap
  constructor
  · rintro ⟨k'', id, hk'', hid, hpush⟩
    cases hk''.symm.trans hk'
    cases hid.symm.trans hc
    by_cases htimed : k.Timed regs
    · rw [if_pos htimed] at hheap
      have hentry := pushEntry_inj (hpush.symm.trans hheap)
      exact ⟨htimed, congrArg SleepEntry.wakeTime hentry⟩
    · rw [if_neg htimed] at hheap
      exact absurd (hpush.symm.trans hheap) (pushEntry_ne _ _)
  · rintro ⟨htimed, rfl⟩
    rw [if_pos htimed] at hheap
    exact ⟨k', c, hk', hc, hheap⟩

/-- The wake-up times of a timed call are in order if and only if the time for its own request does
not wrap: a call could have been made with each of two requests that are out of order. -/
theorem deadlines (h : KernelInv M L₀ k q) (hallowed : k.Allowed (.trap regs 8 io))
    (htimed : k.Timed regs) :
    k.DeadlinesInOrder regs io ↔ io.time + regs.a0 * oneMsCycles < 2 ^ 64 := by
  constructor
  · intro horder
    by_contra hwrap
    obtain ⟨less, more, hle, hmore, hne, hbad⟩ := exists_wrap (Nat.not_lt.mp hwrap)
    have hless : k.Timed { regs with a0 := less } := htimed.of_le (hle.trans hmore) hne
    have hmore' : k.Timed { regs with a0 := more } :=
      htimed.of_le hmore fun hzero hm => hne hzero (Nat.le_zero.mp (hm ▸ hle))
    obtain ⟨hnow, hlonger⟩ := horder less more _ _ hle hmore
      ((h.registers_iff (hallowed.request less)).mpr ⟨hless, rfl⟩)
      ((h.registers_iff (hallowed.request more)).mpr ⟨hmore', rfl⟩)
    rcases hbad with hbad | hbad
    · exact absurd hnow (Nat.not_le.mpr hbad)
    · exact absurd hlonger (Nat.not_le.mpr hbad)
  · intro hfits less more wakeTime wakeTime' hle hmore hless hmore'
    obtain ⟨-, rfl⟩ := (h.registers_iff (hallowed.request less)).mp hless
    obtain ⟨-, rfl⟩ := (h.registers_iff (hallowed.request more)).mp hmore'
    have hcycles : more * oneMsCycles ≤ regs.a0 * oneMsCycles := Nat.mul_le_mul_right _ hmore
    exact afterMs_mono hle ((Nat.add_le_add_left hcycles io.time).trans_lt hfits)

end KernelInv

namespace Kernel

/-- **When deadlines are in order.** In every state that a run from boot reaches, `sleep` and a
`uart_read` with a timeout return and register a wake-up time. For every clock and every request,
the wake-up times up to that request are not before the clock and in the order of the requests if
and only if the clock plus the request, in cycles, is below `2 ^ 64`. -/
theorem deadlinesInOrder_iff {M : Set ℕ} {L₀ : List Block} {free : ℕ → List ℕ}
    {buddy buddy' : BuddySystemFrameAllocator} {trampoline : ℕ} {entry : ℕ × ℕ} {s : Scheduler}
    (howns : Owns buddy free M L₀)
    (hinit : Scheduler.new.init buddy trampoline entry = .ok (.ok (), s, buddy')) (ier : ℕ)
    (ctx : TaskContext) (events : List Event)
    (hevents : Along step Allowed (boot s buddy' ier ctx) events) {k : Kernel}
    (hk : exec step (boot s buddy' ier ctx) events = .ok k) (regs : TaskContext) (io : Inputs)
    (hallowed : k.Allowed (.trap regs 8 io)) (htimed : k.Timed regs) :
    (∃ wakeTime, k.Registers regs io wakeTime) ∧
      (k.DeadlinesInOrder regs io ↔ io.time + regs.a0 * oneMsCycles < 2 ^ 64) := by
  obtain ⟨q, hinv⟩ := (KernelInv.boot howns hinit ier ctx).1.exec hevents hk
  exact ⟨⟨_, (hinv.registers_iff hallowed).mpr ⟨htimed, rfl⟩⟩, hinv.deadlines hallowed htimed⟩

/-- The kernel after boot. -/
def deadlineBoot : Kernel :=
  boot SchedSystem.sample.scheduler SchedSystem.sample.buddy 0 TaskContext.zero

/-- The registers of a call with a request. -/
def request (call ms : ℕ) : TaskContext := { TaskContext.zero with a7 := call, a0 := ms }

/-- A task that calls `uart_read` with a timeout of an hour has a wake-up time, and every shorter
timeout has an earlier one. -/
theorem deadlinesInOrder_hour :
    ∃ k, exec step deadlineBoot [.spawn 0 (1, 1) 4096 1, .runScheduler] = .ok k ∧
      (∃ wakeTime, k.Registers (request 27 3600000) ⟨50000, 0, 0, 0⟩ wakeTime) ∧
      k.DeadlinesInOrder (request 27 3600000) ⟨50000, 0, 0, 0⟩ := by
  obtain ⟨free, howns⟩ := @Owns.ofRegion 0x80000 0x80008 (by decide) (by decide)
  obtain ⟨k, hk, hstate⟩ := exists_of_map_eq_ok
    (x := exec step deadlineBoot [.spawn 0 (1, 1) 4096 1, .runScheduler])
    (f := fun k => (decide (k.Allowed (.trap (request 27 3600000) 8 ⟨50000, 0, 0, 0⟩)),
      decide (k.Timed (request 27 3600000))))
    (a := (true, true)) (by decide +kernel)
  obtain ⟨hallowed, htimed⟩ := Prod.mk.inj hstate
  obtain ⟨hreg, hiff⟩ := deadlinesInOrder_iff howns SchedSystem.sample_init 0 TaskContext.zero
    [.spawn 0 (1, 1) 4096 1, .runScheduler] (by decide +kernel) hk (request 27 3600000)
    ⟨50000, 0, 0, 0⟩ (of_decide_eq_true hallowed) (of_decide_eq_true htimed)
  exact ⟨k, hk, hreg, hiff.mpr (by decide)⟩

/-- The heap that a call leaves. -/
def heapAfter (k : Kernel) (call ms time : ℕ) : Option (List SleepEntry) :=
  ((k.step (.call call ms time)).map fun k' => k'.scheduler.blockedQueue).toOption

theorem registers_of_heap {k : Kernel} {call ms time id wakeTime : ℕ}
    (hid : k.scheduler.currentTaskId = some id) (hheap : k.scheduler.blockedQueue = [])
    (h : k.heapAfter call ms time = some [⟨wakeTime, id⟩]) :
    k.Registers (request call ms) ⟨time, 0, 0, 0⟩ wakeTime := by
  rw [heapAfter] at h
  cases hk' : k.step (.call call ms time) with
  | error e =>
    rw [hk'] at h
    cases h
  | ok k' =>
    rw [hk'] at h
    refine ⟨k', id, hk', hid, ?_⟩
    rw [hheap]
    exact Option.some.inj h

/-- At the time `1616` a task asks for `1844674407370955` ms, by `sleep` and by `uart_read`, and
gets the wake-up time `0`. At the time `0`, a request for `1844674407370956` ms gets an earlier one
than a request for one millisecond. -/
theorem deadline_wraps :
    ∃ k, exec step deadlineBoot [.spawn 0 (1, 1) 4096 1, .runScheduler] = .ok k ∧
      ∀ call ∈ [17, 27],
        (k.Allowed (.trap (request call 1844674407370955) 8 ⟨1616, 0, 0, 0⟩) ∧
          k.Timed (request call 1844674407370955) ∧
          k.Registers (request call 1844674407370955) ⟨1616, 0, 0, 0⟩ 0) ∧
        k.Registers (request call 1) ⟨0, 0, 0, 0⟩ 10000 ∧
        k.Registers (request call 1844674407370956) ⟨0, 0, 0, 0⟩ 8384 ∧
        ¬ k.DeadlinesInOrder (request call 1844674407370956) ⟨0, 0, 0, 0⟩ := by
  obtain ⟨k, hk, hstate⟩ := exists_of_map_eq_ok
    (x := exec step deadlineBoot [.spawn 0 (1, 1) 4096 1, .runScheduler])
    (f := fun k => ((k.scheduler.currentTaskId, k.scheduler.blockedQueue,
      k.uart.receiveBuffer.contents), decide (∀ call ∈ ([17, 27] : List ℕ),
        k.heapAfter call 1844674407370955 1616 = some [⟨0, 1⟩] ∧
        k.heapAfter call 1 0 = some [⟨10000, 1⟩] ∧
        k.heapAfter call 1844674407370956 0 = some [⟨8384, 1⟩])))
    (a := ((some 1, [], []), true)) (by decide +kernel)
  obtain ⟨hstate, hcalls⟩ := Prod.mk.inj hstate
  obtain ⟨hid, hstate⟩ := Prod.mk.inj hstate
  obtain ⟨hheap, hbytes⟩ := Prod.mk.inj hstate
  have hcalls := of_decide_eq_true hcalls
  refine ⟨k, hk, fun call hcall => ?_⟩
  obtain ⟨hearly, hshort, hlong⟩ := hcalls call hcall
  have hone := registers_of_heap hid hheap hshort
  have hmany := registers_of_heap hid hheap hlong
  have hnumber : call = 17 ∨ call = 27 := by simpa using hcall
  refine ⟨⟨fun _ => ⟨by simp [hid], by simp [hid], ?_⟩, ?_, registers_of_heap hid hheap hearly⟩,
    hone, hmany, fun horder => ?_⟩
  · show call ≠ 10
    rcases hnumber with rfl | rfl
    · decide
    · decide
  · rcases hnumber with rfl | rfl
    · exact Or.inl rfl
    · exact Or.inr ⟨rfl, hbytes, by decide, by decide⟩
  · have hle := (horder 1 1844674407370956 _ _ (by decide) le_rfl hone hmany).2
    exact absurd hle (by decide)

end Kernel

end CharlotteOs
