import CharlotteOs.Lib.Run
import CharlotteOs.Task.SchedulerSpec
import CharlotteOs.Trap.Kernel
import CharlotteOs.Trap.Waiting

/-!
# What traps do

From boot on, the kernel takes traps, and tasks are spawned. Between these the scheduler keeps a
run queue whose running task is the one that `sscratch` points to. Each of these events returns,
and what it does to the tasks that wait is one step of `WaitStep`.

## Main definitions

* `Event`, `Kernel.step`: the events, and what they do
* `Kernel.Allowed`: who executes system calls
* `Kernel.wait`, `Kernel.label`: the waiting tasks, and what an event does to them
* `KernelInv`: the kernel between two events

## Main results

* `KernelInv.step`: every allowed event returns, keeps the invariant and is a step of the waiting
  tasks
-/

namespace CharlotteOs

open DyadicTiling BuddySystemFrameAllocator FallibleRun Scheduler

/-- What happens to the kernel: the first dispatch, a new task, or a trap with the registers it
finds. -/
inductive Event
  | runScheduler
  | spawn (trampoline : ℕ) (entry : ℕ × ℕ) (stackSize priority : ℕ)
  | trap (regs : TaskContext) (scause : ℕ) (io : Inputs)
  deriving DecidableEq, Repr

namespace Event

/-- A system call with an argument, by a task whose other registers are zero. -/
def call (a7 a0 time : ℕ) : Event :=
  .trap { TaskContext.zero with a7 := a7, a0 := a0 } 8 ⟨time, 0, 0, 0⟩

/-- An interrupt of the timer. -/
def tick (time : ℕ) : Event := .trap TaskContext.zero (2 ^ 63 + 5) ⟨time, 0, 0, 0⟩

/-- An interrupt of the UART with a byte. -/
def receive (byte time : ℕ) : Event := .trap TaskContext.zero (2 ^ 63 + 9) ⟨time, 10, 0b0100, byte⟩

end Event

/-- The byte that an interrupt receives. A byte that is no ASCII character is ignored. -/
def Inputs.received (io : Inputs) : Option ℕ :=
  if io.irq = 10 ∧ io.isr &&& 0x01 ≠ 1 ∧ io.isr &&& 0b1110 = 0b0100 ∧ io.rhr < 0x80 then some io.rhr
  else none

namespace Kernel

/-- One event. -/
def step (k : Kernel) : Event → Except Fault Kernel
  | .runScheduler => do
    let (_, k) ← k.runScheduler
    .ok k
  | .spawn trampoline entry stackSize priority => do
    let (_, scheduler, buddy) ← k.scheduler.spawn k.buddy trampoline entry stackSize priority
    .ok { k with scheduler, buddy }
  | .trap regs scause io => do
    let (_, k) ← k.trapEntry regs scause io
    .ok k

/-- System calls are made by a task other than the idle task, which has no `ecall`. A shutdown ends
the run. -/
def Allowed (k : Kernel) : Event → Prop
  | .trap regs scause _ => parseTrapCause scause = .userEcall →
      k.scheduler.currentTaskId ≠ none ∧ k.scheduler.currentTaskId ≠ some 0 ∧ regs.a7 ≠ 10
  | .runScheduler | .spawn .. => True

instance (k : Kernel) : ∀ e, Decidable (k.Allowed e)
  | .trap .. => inferInstanceAs (Decidable (_ → _))
  | .runScheduler | .spawn .. => inferInstanceAs (Decidable True)

/-- The kernel when boot is over: the scheduler after `init`, no bytes, no readers. -/
def boot (scheduler : Scheduler) (buddy : BuddySystemFrameAllocator) (ier : ℕ)
    (initContext : TaskContext) : Kernel :=
  ⟨scheduler, buddy, UartService.new, ier, [], none, initContext⟩

/-- The waiting tasks. -/
def wait (k : Kernel) : WaitState where
  blocked := k.scheduler.blocked
  heap := k.scheduler.blockedQueue
  readers := k.uart.waitQueue
  bytes := k.uart.receiveBuffer.contents

/-- What a received byte does. -/
def receiveLabel (k : Kernel) (byte : ℕ) : WaitLabel :=
  match k.uart.waitQueue.getLast? with
  | some id => .deliver id byte
  | none => if k.uart.receiveBuffer.contents.length < 4096 then .store byte else .drop byte

/-- What the system call of a task does. -/
def callLabel (k : Kernel) (id : ℕ) (regs : TaskContext) (now : ℕ) : WaitLabel :=
  match regs.a7 with
  | 17 => .sleep id (afterMs now regs.a0)
  | 27 =>
    match k.uart.receiveBuffer.contents with
    | byte :: _ => .take id byte
    | [] =>
      if regs.a0 = 0 then .quiet
      else .wait id (if regs.a0 < usizeMax then some (afterMs now regs.a0) else none)
  | _ => .quiet

/-- **What an event does to the waiting tasks.** -/
def label (k : Kernel) : Event → WaitLabel
  | .trap regs scause io =>
    match parseTrapCause scause with
    | .supervisorTimerInterrupt => .tick io.time
    | .supervisorExternalInterrupt =>
      match io.received with
      | some byte => k.receiveLabel byte
      | none => .quiet
    | .userEcall =>
      match k.scheduler.currentTaskId with
      | some id => k.callLabel id regs io.time
      | none => .quiet
    | .unknownInterrupt | .unknownException => .quiet
  | .runScheduler | .spawn .. => .quiet

/-- What a received byte can do. -/
theorem receiveLabel_cases (k : Kernel) (byte : ℕ) :
    (∃ id, k.receiveLabel byte = .deliver id byte) ∨ k.receiveLabel byte = .store byte ∨
      k.receiveLabel byte = .drop byte := by
  rw [receiveLabel]
  split
  · exact Or.inl ⟨_, rfl⟩
  · split
    · exact Or.inr (Or.inl rfl)
    · exact Or.inr (Or.inr rfl)

/-- What a system call can do. -/
theorem callLabel_cases (k : Kernel) (id : ℕ) (regs : TaskContext) (now : ℕ) :
    k.callLabel id regs now = .quiet ∨ (∃ wakeTime, k.callLabel id regs now = .sleep id wakeTime) ∨
      (∃ byte, k.callLabel id regs now = .take id byte) ∨
      ∃ wakeTime, k.callLabel id regs now = .wait id wakeTime := by
  rw [callLabel]
  split
  · exact Or.inr (Or.inl ⟨_, rfl⟩)
  · split
    · exact Or.inr (Or.inr (Or.inl ⟨_, rfl⟩))
    · split
      · exact Or.inl rfl
      · exact Or.inr (Or.inr (Or.inr ⟨_, rfl⟩))
  · exact Or.inl rfl

/-- **What an event can do**: nothing, or it is a tick, a received byte or a system call. -/
theorem label_cases (k : Kernel) (e : Event) :
    k.label e = .quiet ∨ ∃ regs scause io, e = .trap regs scause io ∧
      ((parseTrapCause scause = .supervisorTimerInterrupt ∧ k.label e = .tick io.time) ∨
        (∃ byte, parseTrapCause scause = .supervisorExternalInterrupt ∧ io.received = some byte ∧
          k.label e = k.receiveLabel byte) ∨
        ∃ id, parseTrapCause scause = .userEcall ∧ k.scheduler.currentTaskId = some id ∧
          k.label e = k.callLabel id regs io.time) := by
  cases e with
  | runScheduler | spawn => exact Or.inl rfl
  | trap regs scause io =>
    rw [label]
    split
    · exact Or.inr ⟨regs, scause, io, rfl, Or.inl ⟨‹_›, rfl⟩⟩
    · split
      · exact Or.inr ⟨regs, scause, io, rfl, Or.inr (Or.inl ⟨_, ‹_›, ‹_›, rfl⟩)⟩
      · exact Or.inl rfl
    · split
      · exact Or.inr ⟨regs, scause, io, rfl, Or.inr (Or.inr ⟨_, ‹_›, ‹_›, rfl⟩)⟩
      · exact Or.inl rfl
    · exact Or.inl rfl
    · exact Or.inl rfl

/-- What a received or read byte does to the tasks, seen from the kernel `k₁` in which the trap has
saved the registers: a byte changes one task or none. -/
def Results (k₁ k' : Kernel) (regs : TaskContext) : WaitLabel → Prop
  | .deliver id byte => k'.scheduler.task = Function.update k₁.scheduler.task id
      ((k₁.scheduler.task id).map (·.wake fun context => { context with a0 := byte }))
  | .store _ | .drop _ => k'.scheduler.task = k₁.scheduler.task
  | .take id byte => k'.scheduler.task = Function.update k₁.scheduler.task id
      ((k₁.scheduler.task id).map fun tcb =>
        { tcb with context := { regs.skipEcall with a0 := readResult byte } })
  | _ => True

end Kernel

/-! ## The kernel between two events -/

/-- The buffers are queues, and who is in the wait queue has a slot. -/
structure Kernel.UartOk (k : Kernel) : Prop where
  received : k.uart.receiveBuffer.Holds k.uart.receiveBuffer.contents
  transmitted : ∃ l, k.uart.transmitBuffer.Holds l
  waiting : ∀ id ∈ k.uart.waitQueue, id < k.scheduler.taskList.length

/-- **The kernel between two events**: the scheduler keeps the run queue `q`, and the task that
runs is the current one, whose context `sscratch` points to. -/
structure KernelInv (M : Set ℕ) (L₀ : List Block) (k : Kernel) (q : RunQueue) : Prop where
  sched : SchedInv M L₀ k.scheduler k.buddy q
  current : k.scheduler.currentTaskId = q.running
  sscratch : k.sscratch = k.scheduler.currentTaskId
  uart : k.UartOk

namespace Kernel

variable {M : Set ℕ} {L₀ : List Block} {k : Kernel} {q : RunQueue} {c : ℕ} {tcb : TaskControlBlock}

theorem loadContext_some (ht : k.scheduler.task c = some tcb) :
    k.loadContext (some c) = .ok tcb.context := by
  rw [loadContext, task_eq_some.mp ht]

theorem storeContext_some (ht : k.scheduler.task c = some tcb) (ctx : TaskContext) :
    k.storeContext ctx (some c) =
      .ok { k with scheduler := k.scheduler.setTcb c { tcb with context := ctx } } := by
  rw [storeContext, task_eq_some.mp ht]

/-- What is kept where only the scheduler changes, and no task is blocked or woken. -/
theorem wait_eq_of_sameBlocked {k' : Kernel} (h : SameBlocked k.scheduler k'.scheduler)
    (huart : k'.uart = k.uart) : k'.wait = k.wait := by
  rw [wait, wait, h.blocked, h.heap, huart]

theorem UartOk.of_length {k' : Kernel} (h : k.UartOk) (huart : k'.uart = k.uart)
    (hlen : k.scheduler.taskList.length ≤ k'.scheduler.taskList.length) : k'.UartOk where
  received := huart ▸ h.received
  transmitted := huart ▸ h.transmitted
  waiting id hid := (h.waiting id (huart ▸ hid)).trans_le hlen

/-- A switch to the task that runs. -/
theorem switchTo_spec (h : SchedInv M L₀ k.scheduler k.buddy q)
    (hcur : k.scheduler.currentTaskId = q.running) (hsome : q.running.isSome) (huart : k.UartOk) :
    ∃ pc k', k.switchTo = .ok (pc, k') ∧ KernelInv M L₀ k' q ∧ k'.wait = k.wait ∧
      k'.scheduler = k.scheduler := by
  obtain ⟨c, hc⟩ := Option.isSome_iff_exists.mp hsome
  have hstatus := q.status_running hc
  rw [← h.status] at hstatus
  obtain ⟨tcb, ht, -⟩ := exists_of_status hstatus
  refine ⟨tcb.context.sepc, { k with sscratch := k.scheduler.currentTaskId }, ?_,
    ⟨h, hcur, rfl, huart.received, huart.transmitted, huart.waiting⟩, rfl, rfl⟩
  rw [switchTo, hcur, hc, loadContext_some ht, ok_bind]

/-- `prepare_next_task` and the switch to the task it chooses. -/
theorem scheduleOnInterrupt_spec (h : SchedInv M L₀ k.scheduler k.buddy q)
    (hcur : q.running = none ∨ k.scheduler.currentTaskId = q.running)
    (hlt : ∀ c, k.scheduler.currentTaskId = some c → c < k.scheduler.taskList.length)
    (huart : k.UartOk) :
    ∃ pc k' q', k.scheduleOnInterrupt = .ok (pc, k') ∧ KernelInv M L₀ k' q' ∧ k'.wait = k.wait := by
  obtain ⟨s', buddy', q', hs', hinv', hcur', hsome, hsame, hlen⟩ := h.prepareNextTask hcur hlt
  obtain ⟨pc, k', hk', hinv, hwait, -⟩ :=
    switchTo_spec (k := { k with scheduler := s', buddy := buddy' }) hinv' hcur' hsome
      (huart.of_length rfl hlen.ge)
  refine ⟨pc, k', q', ?_, hinv, hwait.trans (wait_eq_of_sameBlocked hsame rfl)⟩
  rw [scheduleOnInterrupt, hs', ok_bind]
  exact hk'

end Kernel

namespace KernelInv

open Kernel

variable {M : Set ℕ} {L₀ : List Block} {k : Kernel} {q : RunQueue} {c : ℕ} {tcb : TaskControlBlock}

/-- **Boot** leaves the idle task ready and no task waiting. -/
theorem boot {free : ℕ → List ℕ} {buddy buddy' : BuddySystemFrameAllocator} {trampoline : ℕ}
    {entry : ℕ × ℕ} {s : Scheduler} (howns : Owns buddy free M L₀)
    (hinit : Scheduler.new.init buddy trampoline entry = .ok (.ok (), s, buddy')) (ier : ℕ)
    (ctx : TaskContext) :
    KernelInv M L₀ (Kernel.boot s buddy' ier ctx) RunQueue.initial ∧
      (Kernel.boot s buddy' ier ctx).wait = ⟨fun _ => none, [], [], []⟩ := by
  obtain ⟨hinv, hcur, hheap⟩ := SchedInv.init howns hinit
  refine ⟨⟨hinv, hcur, hcur.symm, .new, ⟨[], .new⟩, fun id hid => nomatch hid⟩, ?_⟩
  have hblocked : s.blocked = fun _ => none := by
    funext id
    refine blocked_eq_none ?_
    rw [hinv.status]
    show Function.update (fun _ => none) 0 (some TaskStatus.ready) id ≠ _
    by_cases hid : id = 0
    · rw [hid, Function.update_self]
      simp
    · rw [Function.update_of_ne hid]
      simp
  show WaitState.mk s.blocked s.blockedQueue [] _ = _
  rw [hblocked, hheap]
  rfl

/-- The slot of the current task. -/
theorem exists_task (h : KernelInv M L₀ k q) (hc : k.scheduler.currentTaskId = some c) :
    ∃ tcb, k.scheduler.task c = some tcb ∧ tcb.status = .running := by
  have hstatus := q.status_running (h.current.symm.trans hc)
  rw [← h.sched.status] at hstatus
  exact exists_of_status hstatus

/-- The context of the current task can be loaded. -/
theorem exists_load (h : KernelInv M L₀ k q) : ∃ ctx, k.loadContext k.sscratch = .ok ctx := by
  cases hc : k.scheduler.currentTaskId with
  | none =>
    rw [h.sscratch, hc]
    exact ⟨_, rfl⟩
  | some c =>
    obtain ⟨tcb, ht, -⟩ := h.exists_task hc
    rw [h.sscratch, hc]
    exact ⟨_, loadContext_some ht⟩

/-- **A store to the current context** changes that and nothing else. -/
theorem store (h : KernelInv M L₀ k q) (ctx : TaskContext) :
    ∃ k', k.storeContext ctx k.sscratch = .ok k' ∧ KernelInv M L₀ k' q ∧ k'.wait = k.wait ∧
      k'.loadContext k'.sscratch = .ok ctx ∧ k'.uart = k.uart ∧
      k'.scheduler.currentTaskId = k.scheduler.currentTaskId ∧
      ∀ c, k.scheduler.currentTaskId = some c → k'.scheduler.task =
        Function.update k.scheduler.task c
          ((k.scheduler.task c).map fun tcb => { tcb with context := ctx }) := by
  cases hc : k.scheduler.currentTaskId with
  | none =>
    have hscratch : k.sscratch = none := h.sscratch.trans hc
    refine ⟨{ k with initContext := ctx }, ?_, ⟨h.sched, h.current, h.sscratch, h.uart.received,
      h.uart.transmitted, h.uart.waiting⟩, rfl, ?_, rfl, hc, fun c hc' => nomatch hc'⟩
    · conv_lhs => rw [hscratch]
      rfl
    · show Kernel.loadContext _ k.sscratch = _
      rw [hscratch]
      rfl
  | some c =>
    obtain ⟨tcb, ht, hrunning⟩ := h.exists_task hc
    have hscratch : k.sscratch = some c := h.sscratch.trans hc
    have htask := task_setTcb (lt_of_task ht) { tcb with context := ctx }
    obtain ⟨hsched, hsame⟩ := h.sched.setContext ht (by simp [hrunning]) ctx
    have hlen : (k.scheduler.setTcb c { tcb with context := ctx }).taskList.length =
        k.scheduler.taskList.length := List.length_set
    refine ⟨{ k with scheduler := k.scheduler.setTcb c { tcb with context := ctx } }, ?_,
      ⟨hsched, h.current, h.sscratch, h.uart.of_length rfl hlen.ge⟩,
      wait_eq_of_sameBlocked hsame rfl, ?_, rfl, hc, fun c' hc' => ?_⟩
    · conv_lhs => rw [hscratch]
      exact storeContext_some ht ctx
    · show Kernel.loadContext _ k.sscratch = _
      rw [hscratch]
      have htask' : (k.scheduler.setTcb c { tcb with context := ctx }).task c =
          some { tcb with context := ctx } := by
        rw [htask, Function.update_self]
      exact loadContext_some (k := { k with scheduler := _ }) htask'
    · cases hc'
      rw [ht]
      exact htask

/-- The current task blocks. -/
theorem blockUntil (h : KernelInv M L₀ k q) (hc : k.scheduler.currentTaskId = some c)
    (hzero : c ≠ 0) {ctx : TaskContext} (hctx : k.loadContext k.sscratch = .ok ctx)
    (wakeTime : Option ℕ) :
    ∃ pc k' q', k.blockUntil wakeTime = .ok (pc, k') ∧ KernelInv M L₀ k' q' ∧
      k'.wait = { k.wait with
        blocked := Function.update k.wait.blocked c (some ctx)
        heap := pushWake c wakeTime k.wait.heap } := by
  have hload : ∀ tcb, k.scheduler.task c = some tcb → tcb.context = ctx := by
    intro tcb ht
    rw [h.sscratch, hc, loadContext_some ht] at hctx
    exact Except.ok.inj hctx
  cases wakeTime with
  | none =>
    obtain ⟨s', q', tcb, hs', hinv', hcur', hsome, ht, hblocked, hheap, hlen⟩ :=
      h.sched.blockCurrentTask h.current hc hzero
    obtain ⟨pc, k', hk', hinv, hwait, -⟩ := switchTo_spec (k := { k with scheduler := s' }) hinv'
      hcur' hsome (h.uart.of_length rfl hlen.ge)
    refine ⟨pc, k', q', ?_, hinv, hwait.trans ?_⟩
    · rw [Kernel.blockUntil, hs', ok_bind]
      exact hk'
    · rw [wait, wait, hblocked, hheap, hload tcb ht]
      rfl
  | some t =>
    obtain ⟨s', q', tcb, hs', hinv', hcur', hsome, ht, hblocked, hheap, hlen⟩ :=
      h.sched.setCurrentTaskSleep h.current hc hzero t
    obtain ⟨pc, k', hk', hinv, hwait, -⟩ := switchTo_spec (k := { k with scheduler := s' }) hinv'
      hcur' hsome (h.uart.of_length rfl hlen.ge)
    refine ⟨pc, k', q', ?_, hinv, hwait.trans ?_⟩
    · rw [Kernel.blockUntil, hs', ok_bind]
      exact hk'
    · rw [wait, wait, hblocked, hheap, hload tcb ht]
      rfl

/-- Only the UART service changes. -/
theorem setUart (h : KernelInv M L₀ k q) {u : UartService}
    (hu : Kernel.UartOk { k with uart := u }) :
    KernelInv M L₀ { k with uart := u } q :=
  ⟨h.sched, h.current, h.sscratch, hu⟩

/-- The current task is not blocked. -/
theorem blocked_current (h : KernelInv M L₀ k q) (hc : k.scheduler.currentTaskId = some c) :
    k.wait.blocked c = none := by
  obtain ⟨tcb, ht, hrunning⟩ := h.exists_task hc
  exact blocked_eq_none (by simp [status_of_task ht, hrunning])

/-! ## Interrupts of the UART -/

theorem sendDataLoop (n : ℕ) (h : KernelInv M L₀ k q) :
    ∃ k', sendDataLoop n k = .ok k' ∧ KernelInv M L₀ k' q ∧ k'.wait = k.wait ∧
      k'.sscratch = k.sscratch := by
  induction n generalizing k with
  | zero => exact ⟨k, rfl, h, rfl, rfl⟩
  | succ n ih =>
    obtain ⟨l, hl⟩ := h.uart.transmitted
    rw [Kernel.sendDataLoop]
    cases l with
    | nil =>
      rw [hl.pop_nil, ok_bind]
      exact ⟨k, rfl, h, rfl, rfl⟩
    | cons a l =>
      obtain ⟨rb', hpop, hl'⟩ := hl.pop
      rw [hpop, ok_bind]
      exact ih (k := { k with uart := { k.uart with transmitBuffer := rb' }, thr := k.thr ++ [a] })
        ⟨h.sched, h.current, h.sscratch, h.uart.received, ⟨l, hl'⟩, h.uart.waiting⟩

theorem sendData (h : KernelInv M L₀ k q) :
    ∃ k', k.sendData = .ok k' ∧ KernelInv M L₀ k' q ∧ k'.wait = k.wait ∧
      k'.sscratch = k.sscratch := by
  obtain ⟨k', hk', hinv, hwait, hscratch⟩ := h.sendDataLoop uartFifoCapacity
  rw [Kernel.sendData, hk', ok_bind]
  split
  · exact ⟨_, rfl, ⟨hinv.sched, hinv.current, hinv.sscratch, hinv.uart.received,
      hinv.uart.transmitted, hinv.uart.waiting⟩, hwait, hscratch⟩
  · exact ⟨k', rfl, hinv, hwait, hscratch⟩

/-- **A received byte** goes to the last reader of the queue, to the buffer, or is dropped. -/
theorem receive (h : KernelInv M L₀ k q) {byte : ℕ} (hbyte : byte < 0x80) (regs : TaskContext) :
    ∃ k' q', k.receive byte = .ok k' ∧ KernelInv M L₀ k' q' ∧
      WaitStep k.wait (k.receiveLabel byte) k'.wait ∧
      Results k k' regs (k.receiveLabel byte) ∧ k'.sscratch = k.sscratch := by
  rw [Kernel.receive, if_neg (Nat.not_le.mpr hbyte), receiveLabel]
  cases hlast : k.uart.waitQueue.getLast? with
  | some id =>
    obtain ⟨readers, hreaders⟩ := List.getLast?_eq_some_iff.mp hlast
    have hmem : id ∈ k.uart.waitQueue := by
      rw [hreaders]
      simp
    obtain ⟨s', q', hs', hinv', hcur', hrun', htask, hblocked, hheap, hlen⟩ :=
      h.sched.wake (h.uart.waiting id hmem) fun context => { context with a0 := byte }
    have hs' : k.scheduler.wakeUpTaskWithResult id byte = .ok s' := hs'
    dsimp only
    rw [hs', ok_bind, hreaders, List.dropLast_concat]
    refine ⟨_, q', rfl, ⟨hinv', ?_, ?_, h.uart.received, h.uart.transmitted, fun id' hid' => ?_⟩,
      ?_, htask, rfl⟩
    · exact (hcur'.trans h.current).trans hrun'.symm
    · exact h.sscratch.trans hcur'.symm
    · rw [hlen]
      exact h.uart.waiting id' (hreaders ▸ List.mem_append_left _ hid')
    · show WaitStep k.wait _ ⟨s'.blocked, s'.blockedQueue, readers, _⟩
      rw [hblocked, hheap]
      exact .deliver hreaders
  | none =>
    have hnil : k.uart.waitQueue = [] := List.getLast?_eq_none_iff.mp hlast
    rcases h.uart.received.push byte with ⟨hroom, rb', hpush, hrb'⟩ | ⟨hfull, hpush⟩
    · dsimp only
      rw [hpush, ok_bind, if_pos hroom]
      have hcontents := hrb'.contents_eq
      refine ⟨_, q, rfl, h.setUart ⟨hcontents.symm ▸ hrb', h.uart.transmitted, h.uart.waiting⟩, ?_,
        rfl, rfl⟩
      show WaitStep k.wait _ ⟨_, _, _, rb'.contents⟩
      rw [hcontents]
      exact .store hbyte hnil hroom
    · dsimp only
      rw [hpush, ok_bind, if_neg (by rw [hfull]; exact lt_irrefl _)]
      exact ⟨_, q, rfl, h, .drop hnil hfull, rfl, rfl⟩

/-- An event that does nothing to the waiting tasks. -/
theorem quiet {k' : Kernel} {label : WaitLabel} (regs : TaskContext) (hwait : k'.wait = k.wait)
    (hlabel : label = .quiet) : WaitStep k.wait label k'.wait ∧ Results k k' regs label := by
  rw [hwait, hlabel]
  exact ⟨.quiet, trivial⟩

/-- **The interrupt of the PLIC.** -/
theorem plicHandler (h : KernelInv M L₀ k q) (io : Inputs) (regs : TaskContext) {label : WaitLabel}
    (hlabel : label = match io.received with
      | some byte => k.receiveLabel byte
      | none => .quiet) :
    ∃ k' q', k.plicHandler io = .ok k' ∧ KernelInv M L₀ k' q' ∧ WaitStep k.wait label k'.wait ∧
      Results k k' regs label ∧ k'.sscratch = k.sscratch := by
  by_cases hrec : io.irq = 10 ∧ io.isr &&& 0x01 ≠ 1 ∧ io.isr &&& 0b1110 = 0b0100 ∧ io.rhr < 0x80
  · have hsome : io.received = some io.rhr := if_pos hrec
    obtain ⟨hirq, hpending, hcause, hbyte⟩ := hrec
    rw [hsome] at hlabel
    rw [hlabel, Kernel.plicHandler, if_pos hirq, uartInterruptHandler, if_neg hpending, hcause]
    exact h.receive hbyte regs
  · have hnone : io.received = none := if_neg hrec
    rw [hnone] at hlabel
    obtain ⟨k', hk', hinv, hwait, hscratch⟩ : ∃ k', k.plicHandler io = .ok k' ∧
        KernelInv M L₀ k' q ∧ k'.wait = k.wait ∧ k'.sscratch = k.sscratch := by
      rw [Kernel.plicHandler]
      split
      · rename_i hirq
        rw [uartInterruptHandler]
        split
        · exact ⟨k, rfl, h, rfl, rfl⟩
        · rename_i hpending
          split
          · exact h.sendData
          · rename_i hcause
            refine ⟨k, ?_, h, rfl, rfl⟩
            rw [Kernel.receive, if_pos]
            exact Nat.not_lt.mp fun hbyte => hrec ⟨hirq, hpending, hcause, hbyte⟩
          · exact ⟨k, rfl, h, rfl, rfl⟩
      · exact ⟨k, rfl, h, rfl, rfl⟩
    obtain ⟨hstep, hresults⟩ := quiet regs hwait hlabel
    exact ⟨k', q, hk', hinv, hstep, hresults, hscratch⟩

/-! ## System calls -/

/-- The task that made the call goes on at once. -/
theorem returnWith (h : KernelInv M L₀ k q) (ctx : TaskContext) (result : ℕ) :
    ∃ k', k.returnWith k.sscratch ctx result = .ok (ctx.sepc, k') ∧ KernelInv M L₀ k' q ∧
      k'.wait = k.wait ∧ ∀ c, k.scheduler.currentTaskId = some c → k'.scheduler.task =
        Function.update k.scheduler.task c
          ((k.scheduler.task c).map fun tcb =>
            { tcb with context := { ctx with a0 := result } }) := by
  obtain ⟨k', hk', hinv, hwait, -, -, -, htask⟩ := h.store { ctx with a0 := result }
  refine ⟨k', ?_, hinv, hwait, htask⟩
  rw [Kernel.returnWith, hk', ok_bind]

theorem schedule (h : KernelInv M L₀ k q) :
    ∃ pc k' q', k.schedule k.sscratch = .ok (pc, k') ∧ KernelInv M L₀ k' q' ∧ k'.wait = k.wait := by
  obtain ⟨ctx, hctx⟩ := h.exists_load
  obtain ⟨k₁, hk₁, hinv₁, hwait₁, -, -, -, -⟩ := h.store ctx.skipEcall
  obtain ⟨pc, k', q', hk', hinv, hwait⟩ := scheduleOnInterrupt_spec hinv₁.sched
    (Or.inr hinv₁.current) (hinv₁.sched.current_lt hinv₁.current) hinv₁.uart
  refine ⟨pc, k', q', ?_, hinv, hwait.trans hwait₁⟩
  rw [Kernel.schedule, hctx, ok_bind, hk₁, ok_bind]
  exact hk'

/-- A task exits. Its slot and its context are still there when the next task is chosen. -/
theorem exit (h : KernelInv M L₀ k q) (hc : k.scheduler.currentTaskId = some c) (hzero : c ≠ 0)
    {p : Option ℕ} (hp : p = some c) :
    ∃ pc k' q', (k.exitCurrentTask >>= fun k₁ => k₁.schedule p) = .ok (pc, k') ∧
      KernelInv M L₀ k' q' ∧ k'.wait = k.wait := by
  have hrun : q.running = some c := h.current.symm.trans hc
  obtain ⟨s₁, hs₁, hinv₁, hcur₁, hsame₁, hlen₁⟩ := h.sched.exitCurrentTask h.current hrun hzero
  have hstatus : s₁.status c = some .terminated := by
    rw [hinv₁.status]
    exact Function.update_self ..
  obtain ⟨tcb, ht, hst⟩ := exists_of_status hstatus
  obtain ⟨hinv₂, hsame₂⟩ := hinv₁.setContext ht (by simp [hst]) tcb.context.skipEcall
  have hlen₂ : (s₁.setTcb c { tcb with context := tcb.context.skipEcall }).taskList.length =
      s₁.taskList.length := List.length_set
  obtain ⟨pc, k', q', hk', hinv, hwait⟩ := scheduleOnInterrupt_spec
    (k := { k with scheduler := s₁.setTcb c { tcb with context := tcb.context.skipEcall } })
    hinv₂ (Or.inl rfl) (fun c' hc' => by
      have hc' : s₁.currentTaskId = some c' := hc'
      rw [hcur₁, Option.some.injEq] at hc'
      rw [← hc', hlen₂]
      exact lt_of_task ht)
    (h.uart.of_length rfl (hlen₂.trans hlen₁).ge)
  refine ⟨pc, k', q', ?_, hinv, hwait.trans (wait_eq_of_sameBlocked (hsame₁.trans hsame₂) rfl)⟩
  rw [Kernel.exitCurrentTask, hs₁, ok_bind, ok_bind, Kernel.schedule, hp,
    loadContext_some (k := { k with scheduler := s₁ }) ht, ok_bind,
    storeContext_some (k := { k with scheduler := s₁ }) ht, ok_bind]
  exact hk'

theorem sleep (h : KernelInv M L₀ k q) (hc : k.scheduler.currentTaskId = some c) (hzero : c ≠ 0)
    {regs : TaskContext} (hload : k.loadContext k.sscratch = .ok regs) (hcall : regs.a7 = 17)
    (now : ℕ) :
    ∃ pc k' q', k.sleep k.sscratch now = .ok (pc, k') ∧ KernelInv M L₀ k' q' ∧
      WaitStep k.wait (.sleep c (afterMs now regs.a0)) k'.wait := by
  obtain ⟨k₁, hk₁, hinv₁, hwait₁, hload₁, -, hcur₁, -⟩ := h.store regs.skipEcall
  obtain ⟨pc, k', q', hk', hinv, hwait⟩ :=
    hinv₁.blockUntil (hcur₁.trans hc) hzero hload₁ (some (afterMs now regs.a0))
  refine ⟨pc, k', q', ?_, hinv, ?_⟩
  · rw [Kernel.sleep, hload, ok_bind, hk₁, ok_bind]
    exact hk'
  · rw [hwait, hwait₁]
    exact .sleep (h.blocked_current hc) hcall

/-- **`uart_read`** takes a byte from the buffer, returns without one, or blocks the task. -/
theorem uartRead (h : KernelInv M L₀ k q) (hc : k.scheduler.currentTaskId = some c) (hzero : c ≠ 0)
    {regs : TaskContext} (hload : k.loadContext k.sscratch = .ok regs) (hcall : regs.a7 = 27)
    (now : ℕ) :
    ∃ pc k' q', k.uartRead k.sscratch now = .ok (pc, k') ∧ KernelInv M L₀ k' q' ∧
      WaitStep k.wait (k.callLabel c regs now) k'.wait ∧
      Results k k' regs (k.callLabel c regs now) := by
  rw [Kernel.uartRead, hload, ok_bind, callLabel, hcall]
  dsimp only
  cases hcontents : k.uart.receiveBuffer.contents with
  | cons byte bytes =>
    have hholds := h.uart.received
    rw [hcontents] at hholds
    obtain ⟨rb', hpop, hrb'⟩ := hholds.pop
    have hbytes := hrb'.contents_eq
    have hinv₁ := h.setUart (u := { k.uart with receiveBuffer := rb' })
      ⟨hbytes.symm ▸ hrb', h.uart.transmitted, h.uart.waiting⟩
    obtain ⟨k', hk', hinv, hwait, htask⟩ := hinv₁.returnWith regs.skipEcall (readResult byte)
    rw [hpop, ok_bind]
    refine ⟨_, k', q, hk', hinv, ?_, htask c hc⟩
    rw [hwait]
    show WaitStep k.wait _ ⟨_, _, _, rb'.contents⟩
    rw [hbytes]
    exact .take hcontents
  | nil =>
    have hholds := h.uart.received
    rw [hcontents] at hholds
    rw [hholds.pop_nil, ok_bind]
    dsimp only
    by_cases htimeout : regs.a0 = 0
    · obtain ⟨k', hk', hinv, hwait, -⟩ := h.returnWith regs.skipEcall usizeMax
      rw [if_pos htimeout, if_pos htimeout]
      exact ⟨_, k', q, hk', hinv, quiet regs hwait rfl⟩
    · have hempty : k.uart.receiveBuffer.isEmpty = true := hholds.isEmpty.mpr rfl
      have hinv₁ := h.setUart (u := { k.uart with waitQueue := k.uart.waitQueue ++ [c] })
        ⟨h.uart.received, h.uart.transmitted, fun id hid => by
          rcases List.mem_append.mp hid with hid | hid
          · exact h.uart.waiting id hid
          · rw [List.mem_singleton.mp hid]
            exact h.sched.current_lt h.current c hc⟩
      obtain ⟨k₂, hk₂, hinv₂, hwait₂, hload₂, -, hcur₂, -⟩ :=
        hinv₁.store { regs.skipEcall with a0 := usizeMax }
      obtain ⟨pc, k', q', hk', hinv, hwait⟩ := hinv₂.blockUntil (hcur₂.trans hc) hzero hload₂
        (if regs.a0 < usizeMax then some (afterMs now regs.a0) else none)
      rw [if_neg htimeout, if_neg htimeout, getCurrentTaskId, hc]
      dsimp only
      rw [ok_bind, hempty, Bool.not_true, if_neg Bool.false_ne_true]
      have hk₂ : Kernel.storeContext { k with uart := _ } _ k.sscratch = .ok k₂ := hk₂
      rw [hk₂, ok_bind, ← apply_ite k₂.blockUntil]
      refine ⟨pc, k', q', hk', hinv, ?_, trivial⟩
      rw [hwait, hwait₂]
      exact .wait (h.blocked_current hc) hcontents hcall

theorem returnTo (h : KernelInv M L₀ k q) : ∃ pc, k.returnTo k.sscratch = .ok (pc, k) := by
  obtain ⟨ctx, hctx⟩ := h.exists_load
  refine ⟨ctx.sepc, ?_⟩
  rw [Kernel.returnTo, hctx, ok_bind]

theorem callLabel_of_ne {regs : TaskContext} {now : ℕ} (h17 : regs.a7 ≠ 17) (h27 : regs.a7 ≠ 27) :
    k.callLabel c regs now = .quiet := by
  rw [callLabel]
  split
  · exact absurd ‹_› h17
  · exact absurd ‹_› h27
  · rfl

/-- **A system call** of a task other than the idle task. -/
theorem ecall (h : KernelInv M L₀ k q) (hc : k.scheduler.currentTaskId = some c) (hzero : c ≠ 0)
    {regs : TaskContext} (hload : k.loadContext k.sscratch = .ok regs) (hcall : regs.a7 ≠ 10)
    (now : ℕ) :
    ∃ pc k' q', k.ecall k.sscratch now = .ok (pc, k') ∧ KernelInv M L₀ k' q' ∧
      WaitStep k.wait (k.callLabel c regs now) k'.wait ∧
      Results k k' regs (k.callLabel c regs now) := by
  by_cases h17 : regs.a7 = 17
  · obtain ⟨pc, k', q', hk', hinv, hstep⟩ := h.sleep hc hzero hload h17 now
    rw [Kernel.ecall, hload, ok_bind, callLabel, h17]
    exact ⟨pc, k', q', hk', hinv, hstep, trivial⟩
  by_cases h27 : regs.a7 = 27
  · rw [Kernel.ecall, hload, ok_bind, h27]
    exact h.uartRead hc hzero hload h27 now
  obtain ⟨pc, k', q', hk', hinv, hwait⟩ : ∃ pc k' q', k.ecall k.sscratch now = .ok (pc, k') ∧
      KernelInv M L₀ k' q' ∧ k'.wait = k.wait := by
    rw [Kernel.ecall, hload, ok_bind]
    split
    · obtain ⟨k', hk', hinv, hwait, -⟩ := h.returnWith regs.skipEcall 0
      refine ⟨regs.skipEcall.sepc, k', q, ?_, hinv, hwait⟩
      rw [uartWriteByte, hload, ok_bind]
      exact hk'
    · exact h.schedule
    · exact h.exit hc hzero (h.sscratch.trans hc)
    · exact absurd ‹_› hcall
    · exact absurd ‹_› h17
    · exact absurd ‹_› h27
    · obtain ⟨pc, hpc⟩ := h.returnTo
      exact ⟨pc, k, q, hpc, h, rfl⟩
  exact ⟨pc, k', q', hk', hinv, quiet regs hwait (callLabel_of_ne h17 h27)⟩

/-! ## Events -/

/-- The timer wakes the tasks whose time has come, and the next task runs. -/
theorem timer (h : KernelInv M L₀ k q) (now : ℕ) :
    ∃ pc k' q', (k.scheduler.finishSleep now >>= fun scheduler =>
        scheduleOnInterrupt { k with scheduler }) = .ok (pc, k') ∧
      KernelInv M L₀ k' q' ∧ WaitStep k.wait (.tick now) k'.wait := by
  obtain ⟨s₁, q₁, hs₁, hinv₁, hcur₁, hrun₁, hnot, hor, hheap, hlen⟩ := h.sched.finishSleep now
  have hcurrent : s₁.currentTaskId = q₁.running := (hcur₁.trans h.current).trans hrun₁.symm
  obtain ⟨pc, k', q', hk', hinv, hwait⟩ :=
    scheduleOnInterrupt_spec (k := { k with scheduler := s₁ })
    hinv₁ (Or.inr hcurrent) (hinv₁.current_lt hcurrent) (h.uart.of_length rfl hlen.ge)
  refine ⟨pc, k', q', ?_, hinv, ?_⟩
  · rw [hs₁, ok_bind]
    exact hk'
  · rw [hwait]
    exact .tick hnot hor hheap

/-- **A trap** returns. -/
theorem trap (h : KernelInv M L₀ k q) {regs : TaskContext} {scause : ℕ} {io : Inputs}
    (hallowed : k.Allowed (.trap regs scause io)) :
    ∃ k₁ k' q', k.storeContext regs k.sscratch = .ok k₁ ∧ k.step (.trap regs scause io) = .ok k' ∧
      KernelInv M L₀ k' q' ∧ WaitStep k.wait (k.label (.trap regs scause io)) k'.wait ∧
      Results k₁ k' regs (k.label (.trap regs scause io)) := by
  obtain ⟨k₁, hk₁, hinv₁, hwait₁, hload₁, huart₁, hcur₁, -⟩ := h.store regs
  have hhandler : ∃ pc k' q', k₁.trapHandler k₁.sscratch scause io = .ok (pc, k') ∧
      KernelInv M L₀ k' q' ∧ WaitStep k₁.wait (k.label (.trap regs scause io)) k'.wait ∧
      Results k₁ k' regs (k.label (.trap regs scause io)) := by
    rw [trapHandler, label]
    cases hcause : parseTrapCause scause with
    | supervisorTimerInterrupt =>
      obtain ⟨pc, k', q', hk', hinv, hstep⟩ := hinv₁.timer io.time
      exact ⟨pc, k', q', hk', hinv, hstep, trivial⟩
    | supervisorExternalInterrupt =>
      have hlabel : k.receiveLabel = k₁.receiveLabel := by
        funext byte
        rw [receiveLabel, receiveLabel, huart₁]
      obtain ⟨k', q', hk', hinv, hstep, hresults, hscratch⟩ := hinv₁.plicHandler io regs rfl
      obtain ⟨pc, hpc⟩ := hinv.returnTo
      dsimp only
      rw [hlabel, hk', ok_bind, ← hscratch]
      exact ⟨pc, k', q', hpc, hinv, hstep, hresults⟩
    | userEcall =>
      obtain ⟨hsome, hzero, hcall⟩ := hallowed hcause
      obtain ⟨c, hc⟩ := Option.ne_none_iff_exists'.mp hsome
      have hne : c ≠ 0 := fun h0 => hzero (by rw [hc, h0])
      have hlabel : k.callLabel c regs io.time = k₁.callLabel c regs io.time := by
        rw [callLabel, callLabel, huart₁]
      dsimp only
      rw [hc]
      dsimp only
      rw [hlabel]
      exact hinv₁.ecall (hcur₁.trans hc) hne hload₁ hcall io.time
    | unknownInterrupt | unknownException =>
      obtain ⟨pc, hpc⟩ := hinv₁.returnTo
      exact ⟨pc, k₁, q, hpc, hinv₁, .quiet, trivial⟩
  obtain ⟨pc, k', q', hk', hinv, hstep, hresults⟩ := hhandler
  obtain ⟨ctx, hctx⟩ := hinv.exists_load
  refine ⟨k₁, k', q', hk₁, ?_, hinv, hwait₁ ▸ hstep, hresults⟩
  rw [Kernel.step, trapEntry, hk₁, ok_bind, hk', ok_bind]
  dsimp only
  rw [hctx, ok_bind, ok_bind]

/-- **Every allowed event** returns, keeps the invariant, and does to the waiting tasks what its
label says. -/
theorem step (h : KernelInv M L₀ k q) {e : Event} (hallowed : k.Allowed e) :
    ∃ k' q', k.step e = .ok k' ∧ KernelInv M L₀ k' q' ∧ WaitStep k.wait (k.label e) k'.wait := by
  cases e with
  | runScheduler =>
    obtain ⟨pc, k', q', hk', hinv, hwait⟩ := scheduleOnInterrupt_spec h.sched (Or.inr h.current)
      (h.sched.current_lt h.current) h.uart
    obtain ⟨ctx, hctx⟩ := hinv.exists_load
    refine ⟨k', q', ?_, hinv, ?_⟩
    · rw [Kernel.step, runScheduler, hk', ok_bind]
      dsimp only
      rw [hctx, ok_bind, ok_bind]
    · rw [hwait]
      exact .quiet
  | spawn trampoline entry stackSize priority =>
    rcases h.sched.spawn trampoline stackSize priority entry with
      ⟨s', buddy', q', hs', hinv', hcur', hrun', hsame, hlen⟩ | herror
    · have hwait : Kernel.wait { k with scheduler := s', buddy := buddy' } = k.wait :=
        wait_eq_of_sameBlocked hsame rfl
      refine ⟨{ k with scheduler := s', buddy := buddy' }, q', ?_,
        ⟨hinv', ?_, h.sscratch.trans hcur'.symm, h.uart.of_length rfl hlen⟩, ?_⟩
      · rw [Kernel.step, hs', ok_bind]
      · exact (hcur'.trans h.current).trans hrun'.symm
      · rw [hwait]
        exact .quiet
    · refine ⟨k, q, ?_, h, .quiet⟩
      rw [Kernel.step, herror, ok_bind]
  | trap regs scause io =>
    obtain ⟨-, k', q', -, hk', hinv, hstep, -⟩ := h.trap hallowed
    exact ⟨k', q', hk', hinv, hstep⟩

/-- A run keeps the invariant. -/
theorem exec {k' : Kernel} (h : KernelInv M L₀ k q) {events : List Event}
    (hevents : Along Kernel.step Kernel.Allowed k events)
    (hk' : FallibleRun.exec Kernel.step k events = .ok k') : ∃ q', KernelInv M L₀ k' q' := by
  refine Along.invariant_exec (I := fun k => ∃ q, KernelInv M L₀ k q) ?_ ⟨q, h⟩ hevents hk'
  rintro k e k' ⟨q, hinv⟩ hallowed hk'
  obtain ⟨k'', q', hk'', hinv', -⟩ := hinv.step hallowed
  cases hk'.symm.trans hk''
  exact ⟨q', hinv'⟩

end KernelInv

end CharlotteOs
