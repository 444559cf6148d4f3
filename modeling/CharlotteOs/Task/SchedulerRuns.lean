import CharlotteOs.Lib.Run
import CharlotteOs.Task.SchedulerSpec

/-!
# Runs of the scheduler

After `init` the scheduler is used through the operations below, in any order. The tasks that stop
or exit are running ones other than the idle task, since only they execute the system calls for
it, and a task that exits is left at once: `exit_current_task` is always followed by
`prepare_next_task`.

## Main definitions

* `SchedOp`, `SchedSystem`, `SchedSystem.step`: the operations and what they do
* `Scheduler.Consistent`: the queues, the current task and the slots agree with the statuses

## Main results

* `SchedSystem.consistent_along`: after `init` every operation returns and leaves a consistent
  scheduler
-/

namespace CharlotteOs

open DyadicTiling FallibleRun BuddySystemFrameAllocator

/-- **The queues and the current task agree with the statuses** of the tasks, each task is in its
own slot, and the idle task can run. -/
structure Scheduler.Consistent (s : Scheduler) : Prop where
  ready_nodup : s.readyQueue.Nodup
  mem_ready : ∀ id, id ∈ s.readyQueue ↔ s.status id = some .ready
  current : ∀ id, s.currentTaskId = some id ↔ s.status id = some .running
  taskId : ∀ id tcb, s.task id = some tcb → tcb.taskId = id
  idle : s.currentTaskId = some 0 ∨ 0 ∈ s.readyQueue
  zombies_nodup : s.zombieQueue.Nodup
  mem_zombies : ∀ id, id ∈ s.zombieQueue ↔ s.status id = some .terminated

/-- A scheduler that keeps a run queue whose running task is the current one is consistent. -/
theorem SchedInv.consistent {M : Set ℕ} {L₀ : List Block} {s : Scheduler}
    {buddy : BuddySystemFrameAllocator} {q : RunQueue} (h : SchedInv M L₀ s buddy q)
    (hcur : s.currentTaskId = q.running) : s.Consistent where
  ready_nodup := h.ready ▸ q.ready_nodup
  mem_ready id := by
    rw [h.ready, h.status]
    exact q.mem_ready id
  current id := by
    rw [hcur, h.status]
    exact q.running_iff id
  taskId id tcb ht := (h.tasks id tcb ht).1
  idle := by
    rw [hcur, h.ready]
    exact q.idle
  zombies_nodup := h.zombies ▸ q.zombies_nodup
  mem_zombies id := by
    rw [h.zombies, h.status]
    exact q.mem_zombies id

/-- The operations on the scheduler. `exit` is `exit_current_task` and then `prepare_next_task`. -/
inductive SchedOp
  | spawn (trampoline : ℕ) (entry : ℕ × ℕ) (stackSize priority : ℕ)
  | prepareNextTask
  | setCurrentTaskSleep (wakeTime : ℕ)
  | blockCurrentTask
  | finishSleep (currentMtime : ℕ)
  | wakeUpTaskWithResult (taskId result : ℕ)
  | exit
  deriving DecidableEq, Repr

/-- The scheduler, the allocator of its stacks, and whether a task has been dispatched yet. -/
structure SchedSystem where
  scheduler : Scheduler
  buddy : BuddySystemFrameAllocator
  dispatched : Bool

namespace SchedSystem

/-- One operation. -/
def step (t : SchedSystem) : SchedOp → Except Fault SchedSystem
  | .spawn trampoline entry stackSize priority => do
    let (_, scheduler, buddy) ←
      t.scheduler.spawn t.buddy trampoline entry stackSize priority
    .ok { t with scheduler, buddy }
  | .prepareNextTask => do
    let (scheduler, buddy) ← t.scheduler.prepareNextTask t.buddy
    .ok ⟨scheduler, buddy, true⟩
  | .setCurrentTaskSleep wakeTime => do
    let scheduler ← t.scheduler.setCurrentTaskSleep wakeTime
    .ok { t with scheduler, dispatched := true }
  | .blockCurrentTask => do
    let scheduler ← t.scheduler.blockCurrentTask
    .ok { t with scheduler, dispatched := true }
  | .finishSleep currentMtime => do
    let scheduler ← t.scheduler.finishSleep currentMtime
    .ok { t with scheduler }
  | .wakeUpTaskWithResult taskId result => do
    let scheduler ← t.scheduler.wakeUpTaskWithResult taskId result
    .ok { t with scheduler }
  | .exit => do
    let scheduler ← t.scheduler.exitCurrentTask
    let (scheduler, buddy) ← scheduler.prepareNextTask t.buddy
    .ok ⟨scheduler, buddy, true⟩

/-- A task other than the idle one is current. -/
def UserCurrent (t : SchedSystem) : Prop :=
  t.scheduler.currentTaskId ≠ none ∧ t.scheduler.currentTaskId ≠ some 0

instance (t : SchedSystem) : Decidable t.UserCurrent := inferInstanceAs (Decidable (_ ∧ _))

/-- What the callers of the operations see to. -/
def Allowed (t : SchedSystem) : SchedOp → Prop
  | .setCurrentTaskSleep _ | .blockCurrentTask | .exit => t.UserCurrent
  | .wakeUpTaskWithResult taskId _ => taskId < t.scheduler.taskList.length
  | .spawn .. | .prepareNextTask | .finishSleep _ => True

instance (t : SchedSystem) : ∀ op, Decidable (t.Allowed op)
  | .setCurrentTaskSleep _ | .blockCurrentTask | .exit => inferInstanceAs (Decidable t.UserCurrent)
  | .wakeUpTaskWithResult .. => inferInstanceAs (Decidable (_ < _))
  | .spawn .. | .prepareNextTask | .finishSleep _ => inferInstanceAs (Decidable True)

/-- The invariant of the runs: the scheduler keeps a run queue, the current task is the one that
runs, and there is one from the first dispatch on. -/
def Inv (M : Set ℕ) (L₀ : List Block) (t : SchedSystem) : Prop :=
  ∃ q, SchedInv M L₀ t.scheduler t.buddy q ∧ t.scheduler.currentTaskId = q.running ∧
    (t.dispatched → q.running.isSome)

variable {M : Set ℕ} {L₀ : List Block} {t : SchedSystem}

theorem UserCurrent.exists (h : t.UserCurrent) :
    ∃ c, t.scheduler.currentTaskId = some c ∧ c ≠ 0 := by
  obtain ⟨c, hc⟩ := Option.ne_none_iff_exists'.mp h.1
  refine ⟨c, hc, fun h0 => h.2 ?_⟩
  rw [hc, h0]

/-- **One operation** that its caller may use returns and keeps the invariant. -/
theorem step_inv {op : SchedOp} (h : t.Inv M L₀) (hop : t.Allowed op) :
    ∃ t', t.step op = .ok t' ∧ t'.Inv M L₀ := by
  obtain ⟨q, hinv, hcur, hdisp⟩ := h
  cases op with
  | spawn trampoline entry stackSize priority =>
    rcases hinv.spawn trampoline stackSize priority entry with
      ⟨s', buddy', q', hs', hinv', hcur', hrun', -, -⟩ | herror
    · refine ⟨{ t with scheduler := s', buddy := buddy' }, ?_, q', hinv', ?_, ?_⟩
      · rw [step, hs', ok_bind]
      · exact (hcur'.trans hcur).trans hrun'.symm
      · exact hrun' ▸ hdisp
    · refine ⟨t, ?_, q, hinv, hcur, hdisp⟩
      rw [step, herror, ok_bind]
  | prepareNextTask =>
    obtain ⟨s', buddy', q', hs', hinv', hcur', hsome, -, -⟩ :=
      hinv.prepareNextTask (Or.inr hcur) (hinv.current_lt hcur)
    refine ⟨⟨s', buddy', true⟩, ?_, q', hinv', hcur', fun _ => hsome⟩
    rw [step, hs', ok_bind]
  | setCurrentTaskSleep wakeTime =>
    obtain ⟨c, hc, hzero⟩ := UserCurrent.exists hop
    obtain ⟨s', q', -, hs', hinv', hcur', hsome, -⟩ :=
      hinv.setCurrentTaskSleep hcur hc hzero wakeTime
    refine ⟨{ t with scheduler := s', dispatched := true }, ?_, q', hinv', hcur', fun _ => hsome⟩
    rw [step, hs', ok_bind]
  | blockCurrentTask =>
    obtain ⟨c, hc, hzero⟩ := UserCurrent.exists hop
    obtain ⟨s', q', -, hs', hinv', hcur', hsome, -⟩ := hinv.blockCurrentTask hcur hc hzero
    refine ⟨{ t with scheduler := s', dispatched := true }, ?_, q', hinv', hcur', fun _ => hsome⟩
    rw [step, hs', ok_bind]
  | finishSleep currentMtime =>
    obtain ⟨s', q', hs', hinv', hcur', hrun', -⟩ := hinv.finishSleep currentMtime
    refine ⟨{ t with scheduler := s' }, ?_, q', hinv', ?_, ?_⟩
    · rw [step, hs', ok_bind]
    · exact (hcur'.trans hcur).trans hrun'.symm
    · exact hrun' ▸ hdisp
  | wakeUpTaskWithResult taskId result =>
    obtain ⟨s', q', hs', hinv', hcur', hrun', -⟩ :=
      hinv.wake hop fun context => { context with a0 := result }
    refine ⟨{ t with scheduler := s' }, ?_, q', hinv', ?_, ?_⟩
    · rw [step, Scheduler.wakeUpTaskWithResult, hs', ok_bind]
    · exact (hcur'.trans hcur).trans hrun'.symm
    · exact hrun' ▸ hdisp
  | exit =>
    obtain ⟨c, hc, hzero⟩ := UserCurrent.exists hop
    obtain ⟨s₁, s', buddy', q', hs₁, -, -, hs', hinv', hcur', hsome, -⟩ :=
      hinv.exit hcur (hcur.symm.trans hc) hzero
    refine ⟨⟨s', buddy', true⟩, ?_, q', hinv', hcur', fun _ => hsome⟩
    rw [step, hs₁, ok_bind, hs', ok_bind]

/-- **The scheduler stays consistent.** After a successful `init`, every operation returns, so none
of its panics is reached, and leaves a consistent scheduler, in which some task is current from the
first dispatch on. -/
theorem consistent_along {M : Set ℕ} {L₀ : List Block} {free : ℕ → List ℕ}
    {buddy buddy' : BuddySystemFrameAllocator} {trampoline : ℕ} {entry : ℕ × ℕ} {s : Scheduler}
    (howns : Owns buddy free M L₀)
    (hinit : Scheduler.new.init buddy trampoline entry = .ok (.ok (), s, buddy'))
    (ops : List SchedOp) (hops : Along step Allowed ⟨s, buddy', false⟩ ops) :
    s.Consistent ∧
      Along step (fun t op => ∃ t', t.step op = .ok t' ∧ t'.scheduler.Consistent ∧
        (t'.dispatched → t'.scheduler.currentTaskId.isSome)) ⟨s, buddy', false⟩ ops := by
  obtain ⟨hinv, hcur, -⟩ := SchedInv.init howns hinit
  refine ⟨hinv.consistent hcur, Along.of_invariant (I := Inv M L₀) ?_
    ⟨RunQueue.initial, hinv, hcur, by simp⟩ hops⟩
  intro t op ht hop
  obtain ⟨t', ht', hinv'⟩ := step_inv ht hop
  refine ⟨?_, fun u hu => ?_⟩
  · obtain ⟨q, hq, hqcur, hqdisp⟩ := hinv'
    exact ⟨t', ht', hq.consistent hqcur, fun hd => hqcur ▸ hqdisp hd⟩
  · rw [ht'] at hu
    cases hu
    exact hinv'

/-- A scheduler after `init`, with eight free pages before it. -/
def sample : SchedSystem :=
  match Scheduler.new.init (ofRegion 0x80000 0x80008) 0 (0, 0) with
  | .ok (_, scheduler, buddy) => ⟨scheduler, buddy, false⟩
  | .error _ => ⟨Scheduler.new, ofRegion 0x80000 0x80008, false⟩

theorem sample_init : Scheduler.new.init (ofRegion 0x80000 0x80008) 0 (0, 0) =
    .ok (.ok (), sample.scheduler, sample.buddy) := by
  have hok : (Scheduler.new.init (ofRegion 0x80000 0x80008) 0 (0, 0)).map (·.1.toBool) =
      .ok true := by decide +kernel
  obtain ⟨⟨r, s, buddy⟩, hr, hbool⟩ := exists_of_map_eq_ok hok
  cases r with
  | error e => cases hbool
  | ok u =>
    unfold sample
    rw [hr]

/-- A task is spawned, sleeps, is woken, exits and is reaped. -/
theorem consistent_along_sample :
    sample.scheduler.Consistent ∧
      Along step (fun t op => ∃ t', t.step op = .ok t' ∧ t'.scheduler.Consistent ∧
        (t'.dispatched → t'.scheduler.currentTaskId.isSome)) sample
        [.spawn 0 (1, 1) 4096 1, .prepareNextTask, .setCurrentTaskSleep 5, .finishSleep 7,
          .wakeUpTaskWithResult 1 65, .prepareNextTask, .exit, .prepareNextTask] := by
  obtain ⟨free, howns⟩ := @Owns.ofRegion 0x80000 0x80008 (by decide) (by decide)
  exact consistent_along howns sample_init _ (by decide +kernel)

end SchedSystem

end CharlotteOs
