import CharlotteOs.Task.SchedulerRuns
import CharlotteOs.Trap.KernelSpec

/-!
# Wake-ups before their time

A task that blocks through `set_current_task_sleep` has a blocked period that ends at the time
given, one that blocks through `block_current_task` has one without end. The runs below keep the
periods beside the kernel. An entry of `blocked_queue` outlives the period it was made for when a
received byte ends that period, and then ends a later period of the same task early. Where no
task blocks with such an entry left, `finish_sleep` ends no period before its time.

## Main definitions

* `WakeSystem`: the kernel, the blocked periods and the clock
* `WakeSystem.NoStaleEntry`: a task that blocks has no earlier wake-up time left
* `WakeSystem.NoEarlyWake`: `finish_sleep` wakes no task before the end of its period

## Main results

* `WakeSystem.noEarlyWake_along`: no early wake-up in runs in which no task blocks with an earlier
  wake-up time left
-/

namespace CharlotteOs

open DyadicTiling FallibleRun BuddySystemFrameAllocator Kernel

/-- The kernel, the end of each task's last blocked period, and the time of the last trap. -/
structure WakeSystem where
  kernel : Kernel
  period : ℕ → Option ℕ
  clock : ℕ

namespace WakeSystem

/-- The time of an event, for events that read the clock. -/
def eventTime (t : WakeSystem) : Event → ℕ
  | .trap _ _ io => io.time
  | .runScheduler | .spawn .. => t.clock

/-- One event. A task that blocks begins a new period. -/
def step (t : WakeSystem) (e : Event) : Except Fault WakeSystem := do
  let kernel ← t.kernel.step e
  .ok ⟨kernel, (t.kernel.label e).period t.period, t.eventTime e⟩

/-- The events from boot on, with times that do not go back. -/
def Allowed (t : WakeSystem) (e : Event) : Prop := t.kernel.Allowed e ∧ t.clock ≤ t.eventTime e

instance (t : WakeSystem) (e : Event) : Decidable (t.Allowed e) :=
  inferInstanceAs (Decidable (_ ∧ _))

/-- **The condition**: a task that blocks until a time has no earlier wake-up time in
`blocked_queue`, and one that blocks without end has none. -/
def NoStaleEntry (t : WakeSystem) (e : Event) : Prop := t.kernel.wait.NoStaleWake (t.kernel.label e)

instance (t : WakeSystem) (e : Event) : Decidable (t.NoStaleEntry e) :=
  inferInstanceAs (Decidable (t.kernel.wait.NoStaleWake _))

/-- **No early wake-up**: a blocked task that `finish_sleep` makes ready has reached the end of its
period. -/
def NoEarlyWake (t : WakeSystem) : Event → Prop
  | .trap regs scause io => parseTrapCause scause = .supervisorTimerInterrupt →
      ∀ k₁ s', t.kernel.storeContext regs t.kernel.sscratch = .ok k₁ →
        k₁.scheduler.finishSleep io.time = .ok s' →
        ∀ id, k₁.scheduler.status id = some .blocked → s'.status id ≠ some .blocked →
          ∃ wakeTime, t.period id = some wakeTime ∧ wakeTime ≤ io.time
  | .runScheduler | .spawn .. => True

/-- The invariant: the kernel's, and the wake-up times agree with the periods. -/
def Inv (M : Set ℕ) (L₀ : List Block) (t : WakeSystem) : Prop :=
  (∃ q, KernelInv M L₀ t.kernel q) ∧ t.kernel.wait.Timely t.period

variable {M : Set ℕ} {L₀ : List Block} {t : WakeSystem}

/-- Where the wake-up times agree with the periods, there is no early wake-up. -/
theorem Inv.noEarlyWake (h : t.Inv M L₀) (e : Event) : t.NoEarlyWake e := by
  obtain ⟨⟨q, hinv⟩, htimely⟩ := h
  cases e with
  | runScheduler | spawn => trivial
  | trap regs scause io =>
    intro _ k₁ s' hk₁ hs' id hid hwoken
    obtain ⟨k₂, hk₂, hinv₁, hwait₁, -⟩ := hinv.store regs
    rw [hk₁] at hk₂
    cases hk₂
    obtain ⟨s₂, q₂, hs₂, hinv₂, -, -, hnot, hor, hheap, -⟩ := hinv₁.sched.finishSleep io.time
    rw [hs'] at hs₂
    cases hs₂
    obtain ⟨tcb, ht, hst⟩ := Scheduler.exists_of_status hid
    have hblocked : k₁.wait.blocked id = some tcb.context :=
      Scheduler.blocked_eq_some.mpr ⟨tcb, ht, hst, rfl⟩
    have htick : WaitStep k₁.wait (.tick io.time) ⟨s'.blocked, s'.blockedQueue, _, _⟩ :=
      .tick hnot hor hheap
    rw [← hwait₁] at htimely
    refine htick.period_le_of_woken htimely ?_ (Scheduler.blocked_eq_none hwoken)
    rw [hblocked]
    rfl

/-- One event whose task, if it blocks, has no earlier wake-up time left. -/
theorem Inv.step (h : t.Inv M L₀) {e : Event} (hallowed : t.Allowed e) (hstale : t.NoStaleEntry e)
    {t' : WakeSystem} (ht' : t.step e = .ok t') : t'.Inv M L₀ := by
  obtain ⟨⟨q, hinv⟩, htimely⟩ := h
  obtain ⟨k', q', hk', hinv', hstep⟩ := hinv.step hallowed.1
  rw [WakeSystem.step, hk', ok_bind] at ht'
  cases ht'
  exact ⟨⟨q', hinv'⟩, hstep.timely htimely hstale⟩

/-- **No early wake-up.** In every run from boot in which no task blocks with an earlier wake-up
time left, `finish_sleep` wakes no task before the end of its blocked period, and no task whose
period has no end. -/
theorem noEarlyWake_along {free : ℕ → List ℕ} {buddy buddy' : BuddySystemFrameAllocator}
    {trampoline : ℕ} {entry : ℕ × ℕ} {s : Scheduler} (howns : Owns buddy free M L₀)
    (hinit : Scheduler.new.init buddy trampoline entry = .ok (.ok (), s, buddy')) (ier : ℕ)
    (ctx : TaskContext) (period : ℕ → Option ℕ) (clock : ℕ) (events : List Event)
    (hevents : Along step (fun t e => t.Allowed e ∧ t.NoStaleEntry e)
      ⟨Kernel.boot s buddy' ier ctx, period, clock⟩ events) :
    Along step NoEarlyWake ⟨Kernel.boot s buddy' ier ctx, period, clock⟩ events := by
  obtain ⟨hinv, hwait⟩ := KernelInv.boot howns hinit ier ctx
  refine Along.of_invariant (I := Inv M L₀) (fun t e ht hop => ?_) ⟨⟨_, hinv⟩, ?_⟩ hevents
  · exact ⟨ht.noEarlyWake e, fun t' ht' => ht.step hop.1 hop.2 ht'⟩
  · intro id hid
    rw [hwait] at hid
    cases hid

/-- The kernel after boot, before any task has blocked. -/
def sample : WakeSystem :=
  ⟨Kernel.boot SchedSystem.sample.scheduler SchedSystem.sample.buddy 0 TaskContext.zero,
    fun _ => none, 0⟩

/-- A task sleeps for 10 ms and is woken by the tick at the end of that time. -/
theorem noEarlyWake_along_sample : Along step NoEarlyWake sample
    [.spawn 0 (1, 1) 4096 1, .runScheduler, .call 17 10 0, .tick 50000, .tick 100000] := by
  obtain ⟨free, howns⟩ := @Owns.ofRegion 0x80000 0x80008 (by decide) (by decide)
  exact noEarlyWake_along howns SchedSystem.sample_init 0 TaskContext.zero (fun _ => none) 0 _
    (by decide +kernel)

/-- What `finish_sleep` makes of task `1` at a tick: its status before and after. -/
def wokenStatus (t : WakeSystem) (now : ℕ) : Option (Option TaskStatus × Option TaskStatus) :=
  match t.kernel.storeContext TaskContext.zero t.kernel.sscratch with
  | .error _ => none
  | .ok k₁ =>
    match k₁.scheduler.finishSleep now with
    | .error _ => none
    | .ok s' => some (k₁.scheduler.status 1, s'.status 1)

/-- A task reads with a timeout of 10 ms, gets a byte at once and then sleeps for a second. The
entry of the read is still in `blocked_queue` and wakes it at the end of the 10 ms. -/
theorem noEarlyWake_stale :
    Along step Allowed sample
      [.spawn 0 (1, 1) 4096 1, .runScheduler, .call 27 10 0, .receive 65 10000, .tick 50000,
        .call 17 1000 60000, .tick 100000] ∧
    ¬ Along step NoEarlyWake sample
      [.spawn 0 (1, 1) 4096 1, .runScheduler, .call 27 10 0, .receive 65 10000, .tick 50000,
        .call 17 1000 60000, .tick 100000] := by
  refine ⟨by decide +kernel, fun hall => ?_⟩
  obtain ⟨t, ht, hstate⟩ := exists_of_map_eq_ok
    (x := exec step sample [.spawn 0 (1, 1) 4096 1, .runScheduler, .call 27 10 0,
      .receive 65 10000, .tick 50000, .call 17 1000 60000])
    (f := fun t => (t.period 1, t.wokenStatus 100000))
    (a := (some 10060000, some (some .blocked, some .ready))) (by decide +kernel)
  obtain ⟨hperiod, hwoken⟩ := Prod.ext_iff.mp hstate
  have hrest : Along step NoEarlyWake t [.tick 100000] := Along.of_append hall ht
  unfold wokenStatus at hwoken
  dsimp only at hwoken
  split at hwoken
  · cases hwoken
  · rename_i k₁ hk₁
    split at hwoken
    · cases hwoken
    · rename_i s' hs'
      obtain ⟨hblocked, hready⟩ := Prod.ext_iff.mp (Option.some.inj hwoken)
      obtain ⟨wakeTime, hwake, hle⟩ := hrest.1 (by decide +kernel) k₁ s' hk₁ hs' 1 hblocked (by
        rw [show s'.status 1 = some .ready from hready]
        simp)
      rw [show t.period 1 = some 10060000 from hperiod] at hwake
      cases hwake
      revert hle
      decide

end WakeSystem

end CharlotteOs
