import CharlotteOs.Task.Fifo
import CharlotteOs.Trap.Deadlines
import CharlotteOs.Trap.ReaderOrder
import CharlotteOs.Trap.SchedTrace

/-!
# How long a task can oversleep

A task that sleeps, or reads with a timeout, is woken by the first tick of the timer at or after its
wake-up time, and then waits for the tasks that are before it in line. Each tick sets the next one
by `set_next_timer_tick`, from a clock that it reads once more. So the delay is bounded by how late
the hart takes the interrupts of the timer, how long a tick takes until it reads the clock again,
and how many tasks there are.

The timer is kept beside the kernel. A state in which a task is still owed the hart by a time has
the task asleep with its wake-up time in the heap, or at some place in line; each event keeps the
debt or pays it, and happens before that time.

## Main definitions

* `TimerSystem`: the kernel and the time at which the timer fires
* `TimerSystem.Prompt`: no event comes later after the timer than the margins allow
* `Margins.latest`: the time by which a task that sleeps runs again
* `TimerSystem.Owed`: the task runs again by some time

## Main results

* `KernelInv.line_step`: what an event does to the line of tasks
* `TimerSystem.Owed.step`: each event keeps the debt or pays it
* `TimerSystem.runs_by_latest`: a task that blocks until a time runs again by the latest time
-/

namespace CharlotteOs

open DyadicTiling FallibleRun BuddySystemFrameAllocator Kernel Scheduler

/-! ## The line of tasks -/

/-- An interrupt of the timer. -/
def Event.isTick : Event → Bool
  | .trap _ scause _ => parseTrapCause scause = .supervisorTimerInterrupt
  | .runScheduler | .spawn .. => false

/-- **What happens to the line**: it gets longer at its end, and unless the event is no tick its
head then runs. -/
def LineStep (s s' : Scheduler) (tick : Bool) : Prop :=
  ∃ l, (s'.currentTaskId = some ((s.waiting ++ l).headD 0) ∧ s'.waiting = (s.waiting ++ l).tail) ∨
    tick = false ∧ s'.waiting = s.waiting ++ l

namespace SchedSystem

variable {M : Set ℕ} {L₀ : List Block} {t t' : SchedSystem} {op : SchedOp}

/-- One operation of the scheduler. -/
theorem lineStep (h : t.Inv M L₀) (hheap : HeapOrdered t.scheduler.blockedQueue)
    (hop : t.Allowed op) (ht' : t.step op = .ok t') :
    LineStep t.scheduler t'.scheduler op.isDispatch := by
  by_cases hd : op.isDispatch = true
  · have hline := step_line h hop hd ht'
    cases op with
    | prepareNextTask => exact ⟨_, Or.inl hline⟩
    | spawn | setCurrentTaskSleep | blockCurrentTask | exit | finishSleep | wakeUpTaskWithResult =>
      refine ⟨[], Or.inl ?_⟩
      rw [List.append_nil]
      exact hline
  · rw [Bool.not_eq_true] at hd
    obtain ⟨l, hl⟩ := step_waiting h hheap hd ht'
    exact ⟨l, Or.inr ⟨hd, hl⟩⟩

/-- A tick: the tasks that `finish_sleep` wakes get in line, and the head of the line runs. -/
theorem lineStep_tick {now : ℕ} (h : t.Inv M L₀) (hheap : HeapOrdered t.scheduler.blockedQueue)
    (ht' : exec step t [.finishSleep now, .prepareNextTask] = .ok t') :
    LineStep t.scheduler t'.scheduler true := by
  obtain ⟨t₁, ht₁, ht'⟩ := exec_cons_eq_ok ht'
  rw [exec_singleton] at ht'
  have hfinish : t.Allowed (.finishSleep now) := trivial
  have hnext : t₁.Allowed .prepareNextTask := trivial
  obtain ⟨t₂, ht₂, hinv₁⟩ := step_inv h hfinish
  cases ht₂.symm.trans ht₁
  obtain ⟨l, hl⟩ := step_waiting h hheap rfl ht₁
  have hline := step_line hinv₁ hnext rfl ht'
  rw [SchedOp.line, hl, List.append_assoc] at hline
  exact ⟨_, Or.inl hline⟩

end SchedSystem

namespace Kernel

variable {k : Kernel} {e : Event}

/-- A tick is two operations of the scheduler, and another event is at most one. -/
theorem schedOps_cases (k : Kernel) (e : Event) :
    (e.isTick = true ∧ ∃ now, k.schedOps e = [.finishSleep now, .prepareNextTask]) ∨
      e.isTick = false ∧ (k.schedOps e = [] ∨ ∃ op, k.schedOps e = [op]) := by
  cases e with
  | runScheduler => exact Or.inr ⟨rfl, Or.inr ⟨_, rfl⟩⟩
  | spawn => exact Or.inr ⟨rfl, Or.inr ⟨_, rfl⟩⟩
  | trap regs scause io =>
    rw [schedOps, Event.isTick]
    cases parseTrapCause scause with
    | supervisorTimerInterrupt => exact Or.inl ⟨rfl, _, rfl⟩
    | unknownInterrupt | unknownException => exact Or.inr ⟨rfl, Or.inl rfl⟩
    | supervisorExternalInterrupt =>
      refine Or.inr ⟨rfl, ?_⟩
      dsimp only [receiveOps]
      split
      · split <;> simp
      · exact Or.inl rfl
    | userEcall =>
      refine Or.inr ⟨rfl, ?_⟩
      dsimp only [callOps]
      split
      · simp
      · simp
      · simp
      · split
        · simp
        · split <;> simp
      · simp

theorem label_ne_tick (h : e.isTick = false) (now : ℕ) : k.label e ≠ .tick now := by
  cases e with
  | runScheduler => simp [label]
  | spawn => simp [label]
  | trap regs scause io =>
    simp only [Event.isTick, decide_eq_false_iff_not] at h
    rw [label]
    cases hcause : parseTrapCause scause with
    | supervisorTimerInterrupt => exact absurd hcause h
    | unknownInterrupt | unknownException => simp
    | supervisorExternalInterrupt =>
      dsimp only
      split
      · rename_i byte hbyte
        rcases receiveLabel_cases k byte with ⟨id, hlabel⟩ | hlabel | hlabel <;> simp [hlabel]
      · simp
    | userEcall =>
      dsimp only
      split
      · exact callLabel_ne_tick _ _ _
      · simp

end Kernel

namespace KernelInv

variable {M : Set ℕ} {L₀ : List Block} {k k' : Kernel} {q : RunQueue} {e : Event} {id : ℕ}

/-- **What an event does to the line of tasks**, and the heap stays in order. The line of the kernel
is that of the system that has made the operations. -/
theorem line_step (h : KernelInv M L₀ k q) (hheap : HeapOrdered k.scheduler.blockedQueue)
    (hallowed : k.Allowed e) (hk' : k.step e = .ok k') :
    LineStep k.scheduler k'.scheduler e.isTick ∧ HeapOrdered k'.scheduler.blockedQueue := by
  obtain ⟨t', ht', halong, hagrees⟩ := h.sched_step hallowed hk'
  have hordered : HeapOrdered t'.scheduler.blockedQueue := by
    refine (Along.invariant_exec (I := fun t => t.Inv M L₀ ∧ HeapOrdered t.scheduler.blockedQueue)
      ?_ ⟨h.schedSystem, hheap⟩ halong ht').2
    rintro t op t' ⟨hinv, hheap⟩ hop ht'
    obtain ⟨t'', ht'', hinv'⟩ := SchedSystem.step_inv hinv hop
    cases ht''.symm.trans ht'
    exact ⟨hinv', SchedSystem.step_heapOrdered hinv hop hheap ht'⟩
  have hwaiting : k'.scheduler.waiting = t'.scheduler.waiting := by
    rw [waiting, waiting, hagrees.ready]
  suffices hline : LineStep k.scheduler t'.scheduler e.isTick by
    rw [LineStep, ← hagrees.current, ← hwaiting] at hline
    exact ⟨hline, hagrees.heap ▸ hordered⟩
  rcases schedOps_cases k e with ⟨htick, now, hops⟩ | ⟨htick, hops | ⟨op, hops⟩⟩
  · rw [htick]
    rw [hops] at ht'
    exact SchedSystem.lineStep_tick h.schedSystem hheap ht'
  · rw [hops, exec_nil] at ht'
    cases ht'
    exact ⟨[], Or.inr ⟨htick, (List.append_nil _).symm⟩⟩
  · rw [hops] at halong
    rw [hops, exec_singleton] at ht'
    obtain ⟨l, hrun | hkeep⟩ := SchedSystem.lineStep h.schedSystem hheap halong.1 ht'
    · exact ⟨l, Or.inl hrun⟩
    · exact ⟨l, Or.inr ⟨htick, hkeep.2⟩⟩

/-- A task that is there, other than the idle task, is blocked, runs or is in line. -/
theorem mem_waiting (h : KernelInv M L₀ k q) {regs : TaskContext}
    (hsaved : k.scheduler.saved id = some regs) (hblocked : k.scheduler.blocked id = none)
    (hid : id ≠ 0) (hcur : k.scheduler.currentTaskId ≠ some id) : id ∈ k.scheduler.waiting := by
  obtain ⟨tcb, ht, hsome⟩ := Option.bind_eq_some_iff.mp hsaved
  have hstatus := status_of_task ht
  have hready : k.scheduler.status id = some .ready := by
    cases hst : tcb.status with
    | ready => rw [hstatus, hst]
    | running =>
      rw [hst, h.sched.status, ← q.running_iff] at hstatus
      exact absurd (h.current.trans hstatus) hcur
    | blocked =>
      have hctx := blocked_eq_some.mpr ⟨tcb, ht, hst, rfl⟩
      rw [hblocked] at hctx
      cases hctx
    | terminated =>
      rw [if_pos hst] at hsome
      cases hsome
  rw [waiting, List.mem_filter, h.sched.ready, q.mem_ready, ← h.sched.status]
  exact ⟨hready, decide_eq_true hid⟩

/-- There are not more tasks in line than slots. -/
theorem length_waiting_le (h : KernelInv M L₀ k q) :
    k.scheduler.waiting.length ≤ k.scheduler.taskList.length := by
  have hnodup : k.scheduler.waiting.Nodup := List.Nodup.filter _ (h.sched.ready ▸ q.ready_nodup)
  have hsubset : k.scheduler.waiting ⊆ List.range k.scheduler.taskList.length := by
    intro id hmem
    have hready := (List.mem_filter.mp hmem).1
    rw [h.sched.ready, q.mem_ready, ← h.sched.status] at hready
    obtain ⟨tcb, ht, -⟩ := exists_of_status hready
    exact List.mem_range.mpr (lt_of_task ht)
  have hle := (List.subperm_of_subset hnodup hsubset).length_le
  rwa [List.length_range] at hle

end KernelInv

/-- A step that puts a wake-up time into the heap blocks the task. -/
theorem WaitStep.blocked_of_entry {w w' : WaitState} {label : WaitLabel} {e : SleepEntry}
    (h : WaitStep w label w') (he : label.entry = some e) :
    ∃ ctx, w'.blocked e.taskId = some ctx := by
  cases h with
  | @sleep id wakeTime ctx hid hcall =>
    cases he
    exact ⟨ctx, Function.update_self ..⟩
  | @wait id wakeTime ctx hid hbytes hcall =>
    cases wakeTime with
    | none => cases he
    | some wakeTime =>
      cases he
      exact ⟨ctx, Function.update_self ..⟩
  | quiet | tick | deliver | store | drop | take => cases he

/-! ## The timer -/

/-- `TEN_MS_CYCLES`. -/
abbrev tenMsCycles : ℕ := 10_000_000 / 100

/-- `set_next_timer_tick`: the time it sets, from the clock that it reads. -/
def setNextTimerTick (currentTime : ℕ) : ℕ := (currentTime + tenMsCycles) % 2 ^ 64

/-- An event, and the clock that `set_next_timer_tick` reads in it. -/
structure TimedEvent where
  event : Event
  setAt : ℕ

/-- The event happens by a time. -/
def TimedEvent.By (D : ℕ) : TimedEvent → Prop
  | ⟨.trap _ _ io, _⟩ => io.time ≤ D
  | ⟨.runScheduler, _⟩ | ⟨.spawn .., _⟩ => True

instance (D : ℕ) : ∀ x, Decidable (TimedEvent.By D x)
  | ⟨.trap .., _⟩ => inferInstanceAs (Decidable (_ ≤ _))
  | ⟨.runScheduler, _⟩ | ⟨.spawn .., _⟩ => inferInstanceAs (Decidable True)

/-- The kernel, and the time at which the timer fires. -/
structure TimerSystem where
  kernel : Kernel
  timer : ℕ

/-- **The margins**: how late the hart takes an interrupt of the timer, how long a tick takes until
it sets the timer, and how many slots the list of tasks has. -/
structure Margins where
  lateness : ℕ
  handling : ℕ
  slots : ℕ

namespace Margins

/-- The time from one tick to the next. -/
def round (b : Margins) : ℕ := tenMsCycles + b.handling + b.lateness

/-- **The latest time** at which a task runs again that sleeps until `wakeTime`: the first tick
after that time can come a round later, and each task in line can keep the hart for a round. -/
def latest (b : Margins) (timer wakeTime : ℕ) : ℕ :=
  max timer (wakeTime + b.handling + tenMsCycles) + b.lateness + b.slots * b.round

end Margins

namespace TimerSystem

/-- One event. A tick sets the timer. -/
def step (t : TimerSystem) (x : TimedEvent) : Except Fault TimerSystem := do
  let kernel ← t.kernel.step x.event
  .ok ⟨kernel, if x.event.isTick then setNextTimerTick x.setAt else t.timer⟩

def Allowed (t : TimerSystem) (x : TimedEvent) : Prop := t.kernel.Allowed x.event

instance (t : TimerSystem) (x : TimedEvent) : Decidable (t.Allowed x) :=
  inferInstanceAs (Decidable (t.kernel.Allowed _))

/-- **Interrupts of the timer are taken in time**: no trap comes later after the timer has fired
than the margins say, and a tick sets the timer soon after it has read the clock. -/
def Prompt (b : Margins) (t : TimerSystem) : TimedEvent → Prop
  | ⟨.trap _ scause io, setAt⟩ => io.time ≤ t.timer + b.lateness ∧
      (parseTrapCause scause = .supervisorTimerInterrupt → setAt ≤ io.time + b.handling)
  | ⟨.runScheduler, _⟩ | ⟨.spawn .., _⟩ => True

instance (b : Margins) (t : TimerSystem) : ∀ x, Decidable (t.Prompt b x)
  | ⟨.trap .., _⟩ => inferInstanceAs (Decidable (_ ∧ (_ → _)))
  | ⟨.runScheduler, _⟩ | ⟨.spawn .., _⟩ => inferInstanceAs (Decidable True)

/-- The event leaves no more slots in the list of tasks than the margins say. -/
def Fits (b : Margins) (t : TimerSystem) (x : TimedEvent) : Prop :=
  ∀ t' ∈ (t.step x).toOption, t'.kernel.scheduler.taskList.length ≤ b.slots

instance (b : Margins) (t : TimerSystem) (x : TimedEvent) : Decidable (t.Fits b x) :=
  inferInstanceAs (Decidable (∀ t' ∈ _, _))

/-- The invariant: the kernel's, and the heap is in order. -/
def Inv (M : Set ℕ) (L₀ : List Block) (t : TimerSystem) : Prop :=
  (∃ q, KernelInv M L₀ t.kernel q) ∧ HeapOrdered t.kernel.scheduler.blockedQueue

/-- A task is in line, at a place from which it gets the hart by `D`. -/
def InLine (b : Margins) (id D : ℕ) (t : TimerSystem) : Prop :=
  ∃ l₁ l₂, t.kernel.scheduler.waiting = l₁ ++ id :: l₂ ∧
    t.timer + b.lateness + l₁.length * b.round ≤ D

/-- A task is blocked, with a wake-up time after which it gets the hart by `D`. -/
def Asleep (b : Margins) (id D : ℕ) (t : TimerSystem) : Prop :=
  ∃ wakeTime ctx, t.kernel.scheduler.blocked id = some ctx ∧
    ⟨wakeTime, id⟩ ∈ t.kernel.scheduler.blockedQueue ∧ b.latest t.timer wakeTime ≤ D

/-- **A task is owed the hart** by `D`. -/
def Owed (b : Margins) (id D : ℕ) (t : TimerSystem) : Prop := t.Asleep b id D ∨ t.InLine b id D

variable {M : Set ℕ} {L₀ : List Block} {b : Margins} {t t' : TimerSystem} {x : TimedEvent}
  {id D : ℕ}

theorem step_cases (h : t.step x = .ok t') : t.kernel.step x.event = .ok t'.kernel ∧
    t'.timer = if x.event.isTick then setNextTimerTick x.setAt else t.timer := by
  obtain ⟨k, hk, h⟩ := exists_of_bind_eq_ok h
  cases h
  exact ⟨hk, rfl⟩

theorem Inv.step (h : t.Inv M L₀) (hallowed : t.Allowed x) :
    ∃ t', t.step x = .ok t' ∧ t'.Inv M L₀ := by
  obtain ⟨⟨q, hinv⟩, hheap⟩ := h
  obtain ⟨k', q', hk', hinv', -⟩ := hinv.step hallowed
  obtain ⟨-, hheap'⟩ := hinv.line_step hheap hallowed hk'
  refine ⟨⟨k', if x.event.isTick then setNextTimerTick x.setAt else t.timer⟩, ?_, ⟨q', hinv'⟩,
    hheap'⟩
  rw [TimerSystem.step, hk', ok_bind]

theorem Inv.of_step (h : t.Inv M L₀) (hallowed : t.Allowed x) (ht' : t.step x = .ok t') :
    t'.Inv M L₀ := by
  obtain ⟨t'', ht'', hinv'⟩ := h.step hallowed
  cases ht''.symm.trans ht'
  exact hinv'

/-- Allowed runs return. -/
theorem Inv.exec_ok (h : t.Inv M L₀) {xs : List TimedEvent}
    (hxs : Along TimerSystem.step Allowed t xs) :
    ∃ t', exec TimerSystem.step t xs = .ok t' := by
  refine Along.exec_ok (Q := fun t x => ∃ t', t.step x = .ok t') (fun _ _ h => h) ?_
  refine Along.of_invariant (I := Inv M L₀) ?_ h hxs
  intro t x hinv hallowed
  obtain ⟨t', ht', -⟩ := hinv.step hallowed
  exact ⟨⟨t', ht'⟩, fun _ => hinv.of_step hallowed⟩

/-- At boot the heap is empty. -/
theorem Inv.boot {free : ℕ → List ℕ} {buddy buddy' : BuddySystemFrameAllocator} {trampoline : ℕ}
    {entry : ℕ × ℕ} {s : Scheduler} (howns : Owns buddy free M L₀)
    (hinit : Scheduler.new.init buddy trampoline entry = .ok (.ok (), s, buddy')) (ier : ℕ)
    (ctx : TaskContext) (timer : ℕ) : Inv M L₀ ⟨Kernel.boot s buddy' ier ctx, timer⟩ := by
  obtain ⟨hboot, hwait⟩ := KernelInv.boot howns hinit ier ctx
  have hnil : (Kernel.boot s buddy' ier ctx).scheduler.blockedQueue = [] :=
    congrArg WaitState.heap hwait
  refine ⟨⟨_, hboot⟩, ?_⟩
  dsimp only
  rw [hnil]
  exact List.Pairwise.nil

/-- A tick sets the timer at most so long after the clock that it has read first. -/
theorem Prompt.timer_le {regs : TaskContext} {scause : ℕ} {io : Inputs} {setAt : ℕ}
    (h : t.Prompt b ⟨.trap regs scause io, setAt⟩)
    (htick : parseTrapCause scause = .supervisorTimerInterrupt) :
    setNextTimerTick setAt ≤ io.time + b.handling + tenMsCycles := by
  have hset : setAt ≤ io.time + b.handling := h.2 htick
  have hmod : setNextTimerTick setAt ≤ setAt + tenMsCycles := Nat.mod_le _ _
  omega

/-- The timer moves by a round at most. -/
theorem Prompt.timer_step (h : t.Prompt b x) (ht' : t.step x = .ok t') :
    t'.timer ≤ t.timer + b.round := by
  obtain ⟨-, htimer⟩ := step_cases ht'
  obtain ⟨e, setAt⟩ := x
  cases e with
  | runScheduler | spawn => exact htimer.le.trans (Nat.le_add_right _ _)
  | trap regs scause io =>
    by_cases htick : parseTrapCause scause = .supervisorTimerInterrupt
    · have hle := h.timer_le htick
      have hlate := h.1
      have hset : (Event.trap regs scause io).isTick = true := decide_eq_true htick
      dsimp only at htimer
      rw [htimer, if_pos hset, Margins.round]
      omega
    · rw [htimer, if_neg (by simp [Event.isTick, htick])]
      exact Nat.le_add_right _ _

/-- **In line**: each dispatch brings a task one place forward, and takes at most a round. -/
theorem InLine.step (h : t.InLine b id D) (hinv : t.Inv M L₀) (hallowed : t.Allowed x)
    (hprompt : t.Prompt b x) (ht' : t.step x = .ok t') :
    t'.kernel.scheduler.currentTaskId = some id ∨ t'.InLine b id D := by
  obtain ⟨l₁, l₂, hline, hD⟩ := h
  obtain ⟨⟨q, hinv⟩, hheap⟩ := hinv
  obtain ⟨hk', htimer⟩ := step_cases ht'
  obtain ⟨⟨l, hstep⟩, -⟩ := hinv.line_step hheap hallowed hk'
  rw [hline, List.append_assoc, List.cons_append] at hstep
  rcases hstep with ⟨hcur, htail⟩ | ⟨htick, hkeep⟩
  · cases l₁ with
    | nil => exact Or.inl hcur
    | cons y l₁ =>
      refine Or.inr ⟨l₁, l₂ ++ l, htail, ?_⟩
      have hround := hprompt.timer_step ht'
      rw [List.length_cons, Nat.succ_mul] at hD
      omega
  · rw [if_neg (by simp [htick])] at htimer
    refine Or.inr ⟨l₁, l₂ ++ l, hkeep, ?_⟩
    rwa [htimer]

/-- A task that has been woken is in line, and there are not more tasks before it than slots. -/
theorem InLine.of_awake {k : Kernel} {q : RunQueue} {timer : ℕ} (hinv : KernelInv M L₀ k q)
    {regs : TaskContext} (hsaved : k.scheduler.saved id = some regs)
    (hblocked : k.scheduler.blocked id = none) (hid : id ≠ 0)
    (hcur : k.scheduler.currentTaskId ≠ some id) (hfits : k.scheduler.taskList.length ≤ b.slots)
    (hD : timer + b.lateness + (b.slots - 1) * b.round ≤ D) : InLine b id D ⟨k, timer⟩ := by
  obtain ⟨l₁, l₂, hline⟩ := List.append_of_mem (hinv.mem_waiting hsaved hblocked hid hcur)
  refine ⟨l₁, l₂, hline, ?_⟩
  have hlength := hinv.length_waiting_le
  rw [hline, List.length_append, List.length_cons] at hlength
  have hplace : l₁.length * b.round ≤ (b.slots - 1) * b.round :=
    Nat.mul_le_mul_right _ (by omega)
  dsimp only
  omega

/-- A task that is still blocked after an event has its wake-up time still in the heap, and that
time has not come with the event: a tick at that time or after it would have woken the task. -/
theorem mem_heap_of_blocked {k k' : Kernel} {q : RunQueue} {e : Event} {wakeTime : ℕ}
    (hinv : KernelInv M L₀ k q) (hheap : HeapOrdered k.scheduler.blockedQueue)
    (hallowed : k.Allowed e) (hk' : k.step e = .ok k') (hblocked : k'.scheduler.blocked id ≠ none)
    (hmem : ⟨wakeTime, id⟩ ∈ k.scheduler.blockedQueue) :
    ⟨wakeTime, id⟩ ∈ k'.scheduler.blockedQueue ∧
      ∀ regs scause io, e = .trap regs scause io →
        parseTrapCause scause = .supervisorTimerInterrupt → io.time < wakeTime := by
  by_cases htick : e.isTick = true
  · cases e with
    | runScheduler | spawn => cases htick
    | trap regs scause io =>
      have hcause : parseTrapCause scause = .supervisorTimerInterrupt := of_decide_eq_true htick
      have hwait := hinv.wait_tick hheap hcause hk'
      have hblocked' : k'.scheduler.blocked id =
          if Due k.scheduler.blockedQueue io.time id then none else k.scheduler.blocked id :=
        congrFun (congrArg WaitState.blocked hwait) id
      have hheap' : k'.scheduler.blockedQueue =
          k.scheduler.blockedQueue.filter (io.time < ·.wakeTime) := congrArg WaitState.heap hwait
      have hlt : io.time < wakeTime := by
        by_contra hle
        have hdue : Due k.scheduler.blockedQueue io.time id := ⟨_, hmem, rfl, Nat.not_lt.mp hle⟩
        rw [if_pos hdue] at hblocked'
        exact hblocked hblocked'
      refine ⟨?_, ?_⟩
      · rw [hheap']
        exact List.mem_filter.mpr ⟨hmem, decide_eq_true hlt⟩
      · intro regs' scause' io' heq _
        cases heq
        exact hlt
  · rw [Bool.not_eq_true] at htick
    obtain ⟨k₁, -, hk₁, -, hstep⟩ := hinv.step hallowed
    cases hk₁.symm.trans hk'
    have hheap' : k'.scheduler.blockedQueue = (k.label e).entry.elim k.scheduler.blockedQueue
        fun entry => pushEntry entry k.scheduler.blockedQueue := hstep.heap_eq (label_ne_tick htick)
    refine ⟨?_, ?_⟩
    · rw [hheap']
      cases (k.label e).entry with
      | none => exact hmem
      | some entry => exact mem_pushEntry.mpr (Or.inr hmem)
    · rintro regs scause io rfl hcause
      rw [Event.isTick, hcause] at htick
      cases htick

/-- **Asleep**: an event leaves a task asleep, or it runs or gets in line. -/
theorem Asleep.step (h : t.Asleep b id D) (hid : id ≠ 0) (hinv : t.Inv M L₀)
    (hallowed : t.Allowed x) (hprompt : t.Prompt b x) (hfits : t.Fits b x)
    (ht' : t.step x = .ok t') :
    t'.kernel.scheduler.currentTaskId = some id ∨ t'.Owed b id D := by
  obtain ⟨wakeTime, ctx, hblocked, hmem, hD⟩ := h
  obtain ⟨⟨q, hinv⟩, hheap⟩ := hinv
  obtain ⟨hk', htimer⟩ := step_cases ht'
  obtain ⟨k', q', hk₁, hinv', -⟩ := hinv.step hallowed
  cases hk₁.symm.trans hk'
  have hround := hprompt.timer_step ht'
  have hslots : t'.kernel.scheduler.taskList.length ≤ b.slots := by
    refine hfits t' ?_
    rw [ht']
    rfl
  rw [Margins.latest] at hD
  have hne : t.kernel.scheduler.currentTaskId ≠ some id := by
    intro hcur
    have hnone : t.kernel.scheduler.blocked id = none := hinv.blocked_current hcur
    rw [hblocked] at hnone
    cases hnone
  obtain ⟨tcb, ht, hst, -⟩ := blocked_eq_some.mp hblocked
  have hsaved := saved_of_task ht (by simp [hst])
  obtain ⟨regs, hsaved'⟩ : ∃ regs, t'.kernel.scheduler.saved id = some regs := by
    rcases hinv.saved_other hallowed hk' hne hsaved with hkeep | ⟨byte, -, -, hdeliver⟩
    · exact ⟨_, hkeep⟩
    · exact ⟨_, hdeliver⟩
  cases hblocked' : t'.kernel.scheduler.blocked id with
  | none =>
    by_cases hcur : t'.kernel.scheduler.currentTaskId = some id
    · exact Or.inl hcur
    · refine Or.inr (Or.inr (InLine.of_awake hinv' hsaved' hblocked' hid hcur hslots ?_))
      -- a slot is that of the task itself, so there is a round for the tick
      have hpos : b.slots = b.slots - 1 + 1 := by
        have hlt := lt_of_task (Option.bind_eq_some_iff.mp hsaved').choose_spec.1
        omega
      rw [hpos, Nat.succ_mul] at hD
      omega
  | some ctx' =>
    obtain ⟨hmem', hlt⟩ := mem_heap_of_blocked hinv hheap hallowed hk' (by simp [hblocked']) hmem
    refine Or.inr (Or.inl ⟨wakeTime, ctx', hblocked', hmem', ?_⟩)
    suffices hle : t'.timer ≤ max t.timer (wakeTime + b.handling + tenMsCycles) by
      rw [Margins.latest]
      omega
    rw [htimer]
    split
    · rename_i htick
      obtain ⟨e, setAt⟩ := x
      cases e with
      | runScheduler | spawn => cases htick
      | trap regs scause io =>
        have hcause : parseTrapCause scause = .supervisorTimerInterrupt := of_decide_eq_true htick
        have hset := hprompt.timer_le hcause
        have hbefore := hlt _ _ _ rfl hcause
        dsimp only
        omega
    · exact le_max_left _ _

/-- **Each event keeps the debt or pays it**, and happens before it is due. -/
theorem Owed.step (h : t.Owed b id D) (hid : id ≠ 0) (hinv : t.Inv M L₀) (hallowed : t.Allowed x)
    (hprompt : t.Prompt b x) (hfits : t.Fits b x) (ht' : t.step x = .ok t') :
    x.By D ∧ (t'.kernel.scheduler.currentTaskId = some id ∨ t'.Owed b id D) := by
  constructor
  · have hdue : t.timer + b.lateness ≤ D := by
      rcases h with ⟨wakeTime, ctx, -, -, hD⟩ | ⟨l₁, l₂, -, hD⟩
      · rw [Margins.latest] at hD
        omega
      · omega
    obtain ⟨e, setAt⟩ := x
    cases e with
    | runScheduler | spawn => trivial
    | trap regs scause io => exact hprompt.1.trans hdue
  · rcases h with h | h
    · exact h.step hid hinv hallowed hprompt hfits ht'
    · exact (h.step hinv hallowed hprompt ht').imp_right Or.inr

/-- **A debt is paid in time**, or the run is over before that time. -/
theorem Owed.exec (h : t.Owed b id D) (hid : id ≠ 0) (hinv : t.Inv M L₀) {xs : List TimedEvent}
    (hxs : Along TimerSystem.step (fun t x => t.Allowed x ∧ t.Prompt b x ∧ t.Fits b x) t xs) :
    (∃ xs₁ xs₂ t', xs = xs₁ ++ xs₂ ∧ (∀ x ∈ xs₁, x.By D) ∧
      FallibleRun.exec TimerSystem.step t xs₁ = .ok t' ∧
      t'.kernel.scheduler.currentTaskId = some id) ∨ ∀ x ∈ xs, x.By D := by
  obtain ⟨t', ht'⟩ := hinv.exec_ok (hxs.mono fun _ _ h => h.1)
  have hstep : ∀ t x t', Inv M L₀ t ∧ t.Owed b id D → t.Allowed x ∧ t.Prompt b x ∧ t.Fits b x →
      t.step x = .ok t' → x.By D ∧ (t'.kernel.scheduler.currentTaskId = some id ∨
        Inv M L₀ t' ∧ t'.Owed b id D) := by
    rintro t x t' ⟨hinv, howed⟩ ⟨hallowed, hprompt, hfits⟩ ht'
    obtain ⟨hby, hpaid | howed'⟩ := howed.step hid hinv hallowed hprompt hfits ht'
    · exact ⟨hby, Or.inl hpaid⟩
    · exact ⟨hby, Or.inr ⟨hinv.of_step hallowed ht', howed'⟩⟩
  exact exec_until hstep ⟨hinv, h⟩ hxs ht'

/-! ## From boot -/

/-- A task that makes a call which blocks it until a time is asleep. -/
theorem Asleep.of_timed {regs : TaskContext} {io : Inputs} {setAt : ℕ} (hinv : t.Inv M L₀)
    (hallowed : t.Allowed ⟨.trap regs 8 io, setAt⟩)
    (hcur : t.kernel.scheduler.currentTaskId = some id) (htimed : t.kernel.Timed regs)
    (ht' : t.step ⟨.trap regs 8 io, setAt⟩ = .ok t') :
    t'.Asleep b id (b.latest t.timer (afterMs io.time regs.a0)) := by
  obtain ⟨⟨q, hinv⟩, -⟩ := hinv
  obtain ⟨hk', htimer⟩ := step_cases ht'
  obtain ⟨k', q', hk₁, -, hstep⟩ := hinv.step hallowed
  cases hk₁.symm.trans hk'
  have hlabel : t.kernel.label (.trap regs 8 io) = t.kernel.callLabel id regs io.time := by
    have hcause : parseTrapCause 8 = .userEcall := rfl
    simp only [label, hcause, hcur]
  have hentry : (t.kernel.callLabel id regs io.time).entry =
      some ⟨afterMs io.time regs.a0, id⟩ := by
    rw [entry_callLabel, if_pos htimed]
  rw [hlabel] at hstep
  have hheap := hstep.heap_eq (callLabel_ne_tick _ _)
  rw [hentry] at hheap
  obtain ⟨ctx, hblocked⟩ := hstep.blocked_of_entry hentry
  refine ⟨afterMs io.time regs.a0, ctx, hblocked, ?_, ?_⟩
  · show _ ∈ t'.kernel.wait.heap
    rw [hheap]
    exact mem_pushEntry.mpr (Or.inl rfl)
  · have htimer : t'.timer = t.timer := htimer
    rw [htimer]

/-- **A task that blocks until a time runs again by the latest time.** From boot on, let the hart
take interrupts within the margins. When a task calls `sleep`, or `uart_read` with a timeout, and
there is an event after the latest time for its wake-up time, then it has run again before any event
after that time. -/
theorem runs_by_latest (b : Margins) {free : ℕ → List ℕ} {buddy buddy' : BuddySystemFrameAllocator}
    {trampoline : ℕ} {entry : ℕ × ℕ} {s : Scheduler} (howns : Owns buddy free M L₀)
    (hinit : Scheduler.new.init buddy trampoline entry = .ok (.ok (), s, buddy')) (ier : ℕ)
    (ctx : TaskContext) (bootTime : ℕ) (before : List TimedEvent) (t : TimerSystem)
    (hbefore : Along step Allowed ⟨Kernel.boot s buddy' ier ctx, setNextTimerTick bootTime⟩ before)
    (ht : exec step ⟨Kernel.boot s buddy' ier ctx, setNextTimerTick bootTime⟩ before = .ok t)
    (id : ℕ) (hcur : t.kernel.scheduler.currentTaskId = some id) (regs : TaskContext) (io : Inputs)
    (htimed : t.kernel.Timed regs) (setAt : ℕ) (later : List TimedEvent)
    (hlater : Along step (fun t x => t.Allowed x ∧ t.Prompt b x ∧ t.Fits b x) t
      (⟨.trap regs 8 io, setAt⟩ :: later))
    (hlate : ∃ x ∈ later, ¬ x.By (b.latest t.timer (afterMs io.time regs.a0))) :
    ∃ t₁ later₁ later₂ t₂, t.step ⟨.trap regs 8 io, setAt⟩ = .ok t₁ ∧ later = later₁ ++ later₂ ∧
      (∀ x ∈ later₁, x.By (b.latest t.timer (afterMs io.time regs.a0))) ∧
      exec step t₁ later₁ = .ok t₂ ∧ t₂.kernel.scheduler.currentTaskId = some id := by
  have hinv := Along.invariant_exec (fun _ _ _ h => h.of_step)
    (Inv.boot howns hinit ier ctx (setNextTimerTick bootTime)) hbefore ht
  obtain ⟨⟨hallowed, -, -⟩, hrest⟩ := along_cons.mp hlater
  have hid : id ≠ 0 := by
    rintro rfl
    exact (hallowed rfl).2.1 hcur
  obtain ⟨t₁, ht₁, hinv₁⟩ := hinv.step hallowed
  -- the task is asleep now, and owed the hart until it gets it
  have howed : t₁.Owed b id (b.latest t.timer (afterMs io.time regs.a0)) :=
    Or.inl (Asleep.of_timed hinv hallowed hcur htimed ht₁)
  rcases howed.exec hid hinv₁ (hrest t₁ ht₁) with
    ⟨later₁, later₂, t₂, heq, hby, ht₂, hserved⟩ | hall
  · exact ⟨t₁, later₁, later₂, t₂, ht₁, heq, hby, ht₂, hserved⟩
  · obtain ⟨x, hx, hnot⟩ := hlate
    exact absurd (hall x hx) hnot

/-- Interrupts of the timer are taken within 0.1 ms, a tick sets the timer within 0.05 ms, and there
are three slots. -/
def sampleMargins : Margins := ⟨1000, 500, 3⟩

/-- The kernel after boot. -/
def sample : TimerSystem :=
  ⟨Kernel.boot SchedSystem.sample.scheduler SchedSystem.sample.buddy 0 TaskContext.zero,
    setNextTimerTick 0⟩

/-- Two tasks are spawned and the first of them runs. -/
def sampleBefore : List TimedEvent :=
  [⟨.spawn 0 (1, 1) 4096 1, 0⟩, ⟨.spawn 0 (2, 1) 4096 1, 0⟩, ⟨.runScheduler, 0⟩]

/-- Ticks, one after the other. -/
def sampleLater : List TimedEvent :=
  [⟨.tick 100100, 100200⟩, ⟨.tick 200300, 200400⟩, ⟨.tick 300500, 300600⟩, ⟨.tick 400700, 400800⟩,
    ⟨.tick 500900, 501000⟩, ⟨.tick 601100, 601200⟩]

/-- The first task sleeps for 10 ms at the time `20000`, and runs again by `526000`. -/
theorem runs_by_latest_sample : ∃ t t₁ later₁ later₂ t₂,
    exec step sample sampleBefore = .ok t ∧ t.step ⟨.call 17 10 20000, 0⟩ = .ok t₁ ∧
    sampleLater = later₁ ++ later₂ ∧ (∀ x ∈ later₁, x.By 526000) ∧ exec step t₁ later₁ = .ok t₂ ∧
    t₂.kernel.scheduler.currentTaskId = some 1 := by
  obtain ⟨free, howns⟩ := @Owns.ofRegion 0x80000 0x80008 (by decide) (by decide)
  obtain ⟨t, ht, hdata⟩ := exists_of_map_eq_ok (x := exec step sample sampleBefore)
    (f := fun t => (t.kernel.scheduler.currentTaskId, t.timer, decide (Along step
      (fun t x => t.Allowed x ∧ t.Prompt sampleMargins x ∧ t.Fits sampleMargins x) t
        (⟨.call 17 10 20000, 0⟩ :: sampleLater))))
    (a := (some 1, 100000, true)) (by decide +kernel)
  simp only [Prod.mk.injEq, decide_eq_true_eq] at hdata
  obtain ⟨hcur, htimer, hlater⟩ := hdata
  have hlatest : sampleMargins.latest t.timer (afterMs 20000 10) = 526000 := by
    rw [htimer]
    decide
  have hserved := runs_by_latest sampleMargins howns SchedSystem.sample_init 0 TaskContext.zero 0
    sampleBefore t (by decide +kernel) ht 1 hcur _ _ (Or.inl rfl) 0 sampleLater hlater
    ⟨⟨.tick 601100, 601200⟩, by simp [sampleLater], by
      show ¬ TimedEvent.By (sampleMargins.latest t.timer (afterMs 20000 10)) _
      rw [hlatest]
      decide⟩
  obtain ⟨t₁, later₁, later₂, t₂, ht₁, heq, hby, ht₂, hid⟩ := hserved
  have hby : ∀ x ∈ later₁, x.By (sampleMargins.latest t.timer (afterMs 20000 10)) := hby
  rw [hlatest] at hby
  exact ⟨t, t₁, later₁, later₂, t₂, ht, ht₁, heq, hby, ht₂, hid⟩

end TimerSystem

end CharlotteOs
