import CharlotteOs.Lib.Trace
import CharlotteOs.Task.Bare
import CharlotteOs.Trap.SavedRegs

/-!
# Traps are operations of the scheduler

What a trap does to the scheduler is one or two of its operations, in between stores to the
registers of the current task, which the scheduler does not look at. So a run of the kernel is a run
of the scheduler, with the operations that the system calls and interrupts stand for, and what holds
of all runs of the scheduler holds of the kernel.

## Main definitions

* `Kernel.schedOps`: the operations that an event stands for
* `Kernel.Does`: the scheduler goes from one kernel to the other by operations, up to registers

## Main results

* `KernelInv.does_step`, `KernelInv.sched_step`: every event does its operations
* `Kernel.sched_run`: every run of the kernel is a run of the scheduler
-/

namespace CharlotteOs

open DyadicTiling FallibleRun BuddySystemFrameAllocator Scheduler

namespace Kernel

/-- The operations that a received byte stands for. -/
def receiveOps (k : Kernel) (byte : ℕ) : List SchedOp :=
  match k.uart.waitQueue.getLast? with
  | some id => [.wakeUpTaskWithResult id byte]
  | none => []

/-- The operation that stops the current task, for a time or without end. -/
def stopOp : Option ℕ → SchedOp
  | some wakeTime => .setCurrentTaskSleep wakeTime
  | none => .blockCurrentTask

/-- The operations that a system call stands for. -/
def callOps (k : Kernel) (regs : TaskContext) (now : ℕ) : List SchedOp :=
  match regs.a7 with
  | 7 => [.prepareNextTask]
  | 9 => [.exit]
  | 17 => [stopOp (some (afterMs now regs.a0))]
  | 27 =>
    match k.uart.receiveBuffer.contents with
    | _ :: _ => []
    | [] =>
      if regs.a0 = 0 then []
      else [stopOp (if regs.a0 < usizeMax then some (afterMs now regs.a0) else none)]
  | _ => []

/-- **The operations that an event stands for.** -/
def schedOps (k : Kernel) : Event → List SchedOp
  | .runScheduler => [.prepareNextTask]
  | .spawn trampoline entry stackSize priority => [.spawn trampoline entry stackSize priority]
  | .trap regs scause io =>
    match parseTrapCause scause with
    | .supervisorTimerInterrupt => [.finishSleep io.time, .prepareNextTask]
    | .supervisorExternalInterrupt =>
      match io.received with
      | some byte => k.receiveOps byte
      | none => []
    | .userEcall => k.callOps regs io.time
    | .unknownInterrupt | .unknownException => []

/-- **The scheduler of `k` goes to that of `k'` by operations**, up to registers. -/
def Does (ops : List SchedOp) (k k' : Kernel) : Prop :=
  ∀ t : SchedSystem, k.scheduler.Agrees t.scheduler → k.buddy = t.buddy →
    ∃ t', exec SchedSystem.step t ops = .ok t' ∧ k'.scheduler.Agrees t'.scheduler ∧
      k'.buddy = t'.buddy

variable {k k' k₁ : Kernel} {ops ops' : List SchedOp} {op : SchedOp} {pc : ℕ} {ctx : TaskContext}
  {p : Option ℕ}

theorem Does.trans (h : Does ops k k₁) (h' : Does ops' k₁ k') : Does (ops ++ ops') k k' := by
  intro t hagrees hbuddy
  obtain ⟨t₁, ht₁, hagrees₁, hbuddy₁⟩ := h t hagrees hbuddy
  obtain ⟨t', ht', hagrees', hbuddy'⟩ := h' t₁ hagrees₁ hbuddy₁
  exact ⟨t', (exec_append_of_ok ht₁ _).trans ht', hagrees', hbuddy'⟩

/-- Only registers change, or nothing that the scheduler has. -/
theorem Does.nothing (h : k.scheduler.Agrees k'.scheduler) (hbuddy : k'.buddy = k.buddy) :
    Does [] k k' :=
  fun t hagrees ht => ⟨t, rfl, h.symm.trans hagrees, hbuddy.trans ht⟩

theorem Does.of_same (h : k'.scheduler = k.scheduler) (hbuddy : k'.buddy = k.buddy) :
    Does [] k k' :=
  .nothing (h ▸ .refl _) hbuddy

/-- One operation. -/
theorem Does.of_step (h : ∀ d, ∃ d', SchedSystem.step ⟨k.scheduler, k.buddy, d⟩ op =
    .ok ⟨k'.scheduler, k'.buddy, d'⟩) : Does [op] k k' := by
  intro t hagrees hbuddy
  obtain ⟨d', hstep⟩ := h t.dispatched
  have ht : SchedSystem.Agrees ⟨k.scheduler, k.buddy, t.dispatched⟩ t := ⟨hagrees, hbuddy, rfl⟩
  obtain ⟨t', ht', hagrees'⟩ := ht.step hstep
  exact ⟨t', (exec_singleton t op).trans ht', hagrees'.scheduler, hagrees'.buddy⟩

/-! ## The pieces of the handlers -/

/-- A store of registers. -/
theorem does_storeContext (h : k.storeContext ctx p = .ok k') : Does [] k k' := by
  cases p with
  | none =>
    cases h
    exact .of_same rfl rfl
  | some id =>
    unfold storeContext at h
    dsimp only at h
    split at h
    · rename_i tcb hslot
      cases h
      refine .nothing ⟨rfl, rfl, ?_, rfl, rfl⟩ rfl
      have hget : (k.scheduler.taskList.map (Option.map TaskControlBlock.bare))[id]? =
          some (some tcb.bare) := by
        rw [List.getElem?_map, hslot]
        rfl
      obtain ⟨hlt, hget⟩ := List.getElem?_eq_some_iff.mp hget
      show _ = (k.scheduler.taskList.set id _).map _
      rw [List.map_set]
      show _ = List.set _ id (some tcb.bare)
      rw [← hget, List.set_getElem_self]
    · cases h

theorem does_switchTo (h : k.switchTo = .ok (pc, k')) : Does [] k k' := by
  obtain ⟨ctx, -, h⟩ := exists_of_bind_eq_ok h
  cases h
  exact .of_same rfl rfl

theorem does_scheduleOnInterrupt (h : k.scheduleOnInterrupt = .ok (pc, k')) :
    Does [.prepareNextTask] k k' := by
  obtain ⟨⟨s, buddy⟩, hs, h⟩ := exists_of_bind_eq_ok h
  have hnext : Does [.prepareNextTask] k { k with scheduler := s, buddy } := by
    refine .of_step fun d => ⟨true, ?_⟩
    rw [SchedSystem.step, hs, ok_bind]
  exact hnext.trans (does_switchTo h)

theorem does_blockUntil {wakeTime : Option ℕ} (h : k.blockUntil wakeTime = .ok (pc, k')) :
    Does [stopOp wakeTime] k k' := by
  cases wakeTime with
  | none =>
    obtain ⟨s, hs, h⟩ := exists_of_bind_eq_ok h
    have hstop : Does [.blockCurrentTask] k { k with scheduler := s } := by
      refine .of_step fun d => ⟨true, ?_⟩
      rw [SchedSystem.step, hs, ok_bind]
    exact hstop.trans (does_switchTo h)
  | some w =>
    obtain ⟨s, hs, h⟩ := exists_of_bind_eq_ok h
    have hstop : Does [.setCurrentTaskSleep w] k { k with scheduler := s } := by
      refine .of_step fun d => ⟨true, ?_⟩
      rw [SchedSystem.step, hs, ok_bind]
    exact hstop.trans (does_switchTo h)

theorem does_returnWith {result : ℕ} (h : k.returnWith p ctx result = .ok (pc, k')) :
    Does [] k k' := by
  obtain ⟨k₁, hk₁, h⟩ := exists_of_bind_eq_ok h
  cases h
  exact does_storeContext hk₁

theorem does_returnTo (h : k.returnTo p = .ok (pc, k')) : Does [] k k' := by
  obtain ⟨ctx, -, h⟩ := exists_of_bind_eq_ok h
  cases h
  exact .of_same rfl rfl

theorem does_schedule (h : k.schedule p = .ok (pc, k')) : Does [.prepareNextTask] k k' := by
  obtain ⟨ctx, -, h⟩ := exists_of_bind_eq_ok h
  obtain ⟨k₁, hk₁, h⟩ := exists_of_bind_eq_ok h
  exact (does_storeContext hk₁).trans (does_scheduleOnInterrupt h)

theorem does_sleep {now : ℕ} (hload : k.loadContext p = .ok ctx)
    (h : k.sleep p now = .ok (pc, k')) : Does [stopOp (some (afterMs now ctx.a0))] k k' := by
  rw [Kernel.sleep, hload, ok_bind] at h
  obtain ⟨k₁, hk₁, h⟩ := exists_of_bind_eq_ok h
  exact (does_storeContext hk₁).trans (does_blockUntil h)

/-- `exit_current_task`, and then `schedule`, which writes to the registers of the task that has
exited. -/
theorem does_exit (h : (k.exitCurrentTask >>= fun k₁ => k₁.schedule p) = .ok (pc, k')) :
    Does [.exit] k k' := by
  obtain ⟨k₁, hk₁, h⟩ := exists_of_bind_eq_ok h
  obtain ⟨s₁, hs₁, hk₁⟩ := exists_of_bind_eq_ok hk₁
  cases hk₁
  obtain ⟨ctx, -, h⟩ := exists_of_bind_eq_ok h
  obtain ⟨k₂, hk₂, h⟩ := exists_of_bind_eq_ok h
  obtain ⟨⟨s, buddy⟩, hs, h⟩ := exists_of_bind_eq_ok h
  intro t hagrees hbuddy
  obtain ⟨t₁, ht₁, hagrees₁⟩ := hagrees.exitCurrentTask hs₁
  -- the store is seen by a system that has made the first half of the operation
  obtain ⟨t₂, ht₂, hagrees₂, hbuddy₂⟩ :=
    does_storeContext hk₂ ⟨t₁, t.buddy, t.dispatched⟩ hagrees₁ hbuddy
  cases ht₂
  obtain ⟨s', hs', hagrees'⟩ := hagrees₂.prepareNextTask hs
  obtain ⟨t', ht', hdone⟩ := does_switchTo h ⟨s', buddy, true⟩ hagrees' rfl
  cases ht'
  refine ⟨⟨s', buddy, true⟩, ?_, hdone⟩
  rw [exec_singleton, SchedSystem.step, ht₁, ok_bind]
  rw [hbuddy₂] at hs'
  rw [hs', ok_bind]

/-- Bytes are sent without the scheduler. -/
theorem scheduler_sendDataLoop : ∀ n {k : Kernel}, sendDataLoop n k = .ok k' →
    k'.scheduler = k.scheduler ∧ k'.buddy = k.buddy := by
  intro n
  induction n with
  | zero =>
    intro k h
    cases h
    exact ⟨rfl, rfl⟩
  | succ n ih =>
    intro k h
    obtain ⟨⟨c, rb⟩, -, h⟩ := exists_of_bind_eq_ok h
    cases c with
    | none =>
      cases h
      exact ⟨rfl, rfl⟩
    | some c =>
      have hk := ih h
      exact hk

theorem does_receive {byte : ℕ} (hbyte : byte < 0x80) (h : k.receive byte = .ok k') :
    Does (k.receiveOps byte) k k' := by
  rw [receive, if_neg (Nat.not_le.mpr hbyte)] at h
  rw [receiveOps]
  cases hlast : k.uart.waitQueue.getLast? with
  | some id =>
    rw [hlast] at h
    obtain ⟨s, hs, h⟩ := exists_of_bind_eq_ok h
    cases h
    refine .of_step fun d => ⟨d, ?_⟩
    rw [SchedSystem.step, hs, ok_bind]
  | none =>
    rw [hlast] at h
    obtain ⟨⟨_, receiveBuffer⟩, -, h⟩ := exists_of_bind_eq_ok h
    cases h
    exact .of_same rfl rfl

/-- **The interrupt of the PLIC.** -/
theorem does_plicHandler {io : Inputs} (h : k.plicHandler io = .ok k') :
    Does (match io.received with
      | some byte => k.receiveOps byte
      | none => []) k k' := by
  by_cases hrec : io.irq = 10 ∧ io.isr &&& 0x01 ≠ 1 ∧ io.isr &&& 0b1110 = 0b0100 ∧ io.rhr < 0x80
  · have hsome : io.received = some io.rhr := if_pos hrec
    obtain ⟨hirq, hpending, hcause, hbyte⟩ := hrec
    rw [plicHandler, if_pos hirq, uartInterruptHandler, if_neg hpending, hcause] at h
    rw [hsome]
    exact does_receive hbyte h
  · have hnone : io.received = none := if_neg hrec
    rw [hnone]
    rw [plicHandler, uartInterruptHandler] at h
    split at h
    · rename_i hirq
      split at h
      · cases h
        exact .of_same rfl rfl
      · rename_i hpending
        split at h
        · obtain ⟨k₁, hk₁, h⟩ := exists_of_bind_eq_ok h
          obtain ⟨hs₁, hbuddy₁⟩ := scheduler_sendDataLoop _ hk₁
          split at h <;> cases h <;> exact .of_same hs₁ hbuddy₁
        · rename_i hcause
          rw [receive, if_pos (Nat.not_lt.mp fun hbyte => hrec ⟨hirq, hpending, hcause, hbyte⟩)]
            at h
          cases h
          exact .of_same rfl rfl
        · cases h
          exact .of_same rfl rfl
    · cases h
      exact .of_same rfl rfl

end Kernel

namespace KernelInv

open Kernel

variable {M : Set ℕ} {L₀ : List Block} {k k' : Kernel} {q : RunQueue} {pc c : ℕ}
  {regs : TaskContext}

/-! ## Events -/

/-- **`uart_read`** stops its task where there is no byte and it may wait. -/
theorem does_uartRead (h : KernelInv M L₀ k q) {now : ℕ} (hcall : regs.a7 = 27)
    (hload : k.loadContext k.sscratch = .ok regs) (hk' : k.uartRead k.sscratch now = .ok (pc, k')) :
    Does (k.callOps regs now) k k' := by
  rw [Kernel.uartRead, hload, ok_bind] at hk'
  rw [callOps, hcall]
  dsimp only at hk' ⊢
  have hholds := h.uart.received
  cases hcontents : k.uart.receiveBuffer.contents with
  | cons byte bytes =>
    rw [hcontents] at hholds
    obtain ⟨rb', hpop, -⟩ := hholds.pop
    rw [hpop, ok_bind] at hk'
    have hdoes := does_returnWith hk'
    exact hdoes
  | nil =>
    rw [hcontents] at hholds
    rw [hholds.pop_nil, ok_bind] at hk'
    dsimp only at hk' ⊢
    split at hk'
    · rename_i htimeout
      rw [if_pos htimeout]
      exact does_returnWith hk'
    · rename_i htimeout
      rw [if_neg htimeout]
      obtain ⟨id, -, hk'⟩ := exists_of_bind_eq_ok hk'
      have hempty : k.uart.receiveBuffer.isEmpty = true := hholds.isEmpty.mpr rfl
      rw [hempty, Bool.not_true, if_neg Bool.false_ne_true] at hk'
      obtain ⟨k₁, hk₁, hk'⟩ := exists_of_bind_eq_ok hk'
      rw [← apply_ite k₁.blockUntil] at hk'
      have hstore := (does_storeContext hk₁).trans (does_blockUntil hk')
      exact hstore

/-- **A system call.** -/
theorem does_ecall (h : KernelInv M L₀ k q) (hload : k.loadContext k.sscratch = .ok regs) {now : ℕ}
    (hk' : k.ecall k.sscratch now = .ok (pc, k')) : Does (k.callOps regs now) k k' := by
  rw [Kernel.ecall, hload, ok_bind] at hk'
  split at hk'
  · rename_i hcall
    obtain ⟨ctx, -, hk'⟩ := exists_of_bind_eq_ok hk'
    rw [callOps, hcall]
    exact does_returnWith hk'
  · rename_i hcall
    rw [callOps, hcall]
    exact does_schedule hk'
  · rename_i hcall
    rw [callOps, hcall]
    exact does_exit hk'
  · cases hk'
  · rename_i hcall
    rw [callOps, hcall]
    exact does_sleep hload hk'
  · rename_i hcall
    exact h.does_uartRead hcall hload hk'
  · have hnone : k.callOps regs now = [] := by
      rw [callOps]
      split
      all_goals first | rfl | contradiction
    rw [hnone]
    exact does_returnTo hk'

/-- **Every event does its operations.** -/
theorem does_step (h : KernelInv M L₀ k q) {e : Event} (hk' : k.step e = .ok k') :
    Does (k.schedOps e) k k' := by
  cases e with
  | runScheduler =>
    obtain ⟨⟨ctx, k₁⟩, hk₁, hk'⟩ := exists_of_bind_eq_ok hk'
    cases hk'
    obtain ⟨⟨pc, k₂⟩, hk₂, hk₁⟩ := exists_of_bind_eq_ok hk₁
    obtain ⟨ctx', -, hk₁⟩ := exists_of_bind_eq_ok hk₁
    cases hk₁
    exact does_scheduleOnInterrupt hk₂
  | spawn trampoline entry stackSize priority =>
    obtain ⟨⟨r, s, buddy⟩, hs, hk'⟩ := exists_of_bind_eq_ok hk'
    cases hk'
    refine .of_step fun d => ⟨d, ?_⟩
    rw [SchedSystem.step, hs, ok_bind]
  | trap regs scause io =>
    obtain ⟨⟨ctx, k₁⟩, hk₁, hk'⟩ := exists_of_bind_eq_ok hk'
    cases hk'
    obtain ⟨k₁, hstore, htrap⟩ := exists_of_bind_eq_ok hk₁
    obtain ⟨⟨pc, k₂⟩, hhandler, htrap⟩ := exists_of_bind_eq_ok htrap
    obtain ⟨ctx', -, htrap⟩ := exists_of_bind_eq_ok htrap
    cases htrap
    obtain ⟨k₀, hk₀, hinv₁, -, hload₁, huart₁, -⟩ := h.store regs
    cases hk₀.symm.trans hstore
    suffices hmain : Does (k.schedOps (.trap regs scause io)) k₁ k' from
      (does_storeContext hstore).trans hmain
    rw [schedOps]
    rw [trapHandler] at hhandler
    cases hcause : parseTrapCause scause with
    | supervisorTimerInterrupt =>
      rw [hcause] at hhandler
      obtain ⟨s, hs, hhandler⟩ := exists_of_bind_eq_ok hhandler
      have hfinish : Does [.finishSleep io.time] k₁ { k₁ with scheduler := s } := by
        refine .of_step fun d => ⟨d, ?_⟩
        rw [SchedSystem.step, hs, ok_bind]
      exact hfinish.trans (does_scheduleOnInterrupt hhandler)
    | supervisorExternalInterrupt =>
      rw [hcause] at hhandler
      obtain ⟨k₂, hk₂, hhandler⟩ := exists_of_bind_eq_ok hhandler
      have hreceive : k.receiveOps = k₁.receiveOps := by
        funext byte
        rw [receiveOps, receiveOps, huart₁]
      dsimp only
      rw [hreceive]
      have hplic := (does_plicHandler hk₂).trans (does_returnTo hhandler)
      rwa [List.append_nil] at hplic
    | userEcall =>
      rw [hcause] at hhandler
      have hcalls : k.callOps regs io.time = k₁.callOps regs io.time := by
        rw [callOps, callOps, huart₁]
      dsimp only
      rw [hcalls]
      exact hinv₁.does_ecall hload₁ hhandler
    | unknownInterrupt | unknownException =>
      rw [hcause] at hhandler
      exact does_returnTo hhandler

/-- The operations of a system call may be used by the task that makes it. -/
theorem along_callOps {t : SchedSystem} (ht : t.UserCurrent) (k : Kernel) (regs : TaskContext)
    (now : ℕ) : Along SchedSystem.step SchedSystem.Allowed t (k.callOps regs now) := by
  have hstop : ∀ w, t.Allowed (stopOp w) := by
    intro w
    cases w <;> exact ht
  rw [callOps]
  split
  · exact ⟨trivial, fun _ _ => trivial⟩
  · exact ⟨ht, fun _ _ => trivial⟩
  · exact ⟨hstop _, fun _ _ => trivial⟩
  · split
    · trivial
    · split
      · trivial
      · exact ⟨hstop _, fun _ _ => trivial⟩
  · trivial

/-- **The operations of an allowed event may be used.** -/
theorem along_schedOps (h : KernelInv M L₀ k q) {e : Event} (hallowed : k.Allowed e)
    {t : SchedSystem} (hagrees : k.scheduler.Agrees t.scheduler) :
    Along SchedSystem.step SchedSystem.Allowed t (k.schedOps e) := by
  cases e with
  | runScheduler | spawn => exact ⟨trivial, fun _ _ => trivial⟩
  | trap regs scause io =>
    rw [schedOps]
    cases hcause : parseTrapCause scause with
    | supervisorTimerInterrupt =>
      exact ⟨trivial, fun _ _ => ⟨trivial, fun _ _ => trivial⟩⟩
    | supervisorExternalInterrupt =>
      dsimp only
      split
      · rw [receiveOps]
        split
        · rename_i id hlast
          refine ⟨?_, fun _ _ => trivial⟩
          show id < t.scheduler.taskList.length
          rw [← hagrees.length]
          exact h.uart.waiting id (List.mem_of_getLast? hlast)
        · trivial
      · trivial
    | userEcall =>
      obtain ⟨hsome, hzero, -⟩ := hallowed hcause
      rw [hagrees.current] at hsome hzero
      exact along_callOps ⟨hsome, hzero⟩ k regs io.time
    | unknownInterrupt | unknownException => trivial

/-- The kernel's scheduler is a system of its own. -/
theorem schedSystem (h : KernelInv M L₀ k q) :
    SchedSystem.Inv M L₀ ⟨k.scheduler, k.buddy, false⟩ :=
  ⟨q, h.sched, h.current, fun hd => absurd hd Bool.false_ne_true⟩

/-- **One event**, as operations of the kernel's own scheduler. -/
theorem sched_step (h : KernelInv M L₀ k q) {e : Event} (hallowed : k.Allowed e)
    (hk' : k.step e = .ok k') :
    ∃ t', FallibleRun.exec SchedSystem.step ⟨k.scheduler, k.buddy, false⟩ (k.schedOps e) = .ok t' ∧
      Along SchedSystem.step SchedSystem.Allowed ⟨k.scheduler, k.buddy, false⟩ (k.schedOps e) ∧
      k'.scheduler.Agrees t'.scheduler := by
  obtain ⟨t', ht', hagrees, -⟩ := h.does_step hk' ⟨k.scheduler, k.buddy, false⟩ (.refl _) rfl
  exact ⟨t', ht', h.along_schedOps hallowed (.refl _), hagrees⟩

end KernelInv

namespace Kernel

/-- **A run of the kernel is a run of the scheduler.** From boot on, the operations that the events
of a run stand for may be used one after the other, and they leave a scheduler that agrees with that
of the kernel up to the registers of the tasks, and the same allocator. -/
theorem sched_run {M : Set ℕ} {L₀ : List Block} {free : ℕ → List ℕ}
    {buddy buddy' : BuddySystemFrameAllocator} {trampoline : ℕ} {entry : ℕ × ℕ} {s : Scheduler}
    (howns : Owns buddy free M L₀)
    (hinit : Scheduler.new.init buddy trampoline entry = .ok (.ok (), s, buddy')) (ier : ℕ)
    (ctx : TaskContext) (events : List Event)
    (hevents : Along step Allowed (Kernel.boot s buddy' ier ctx) events) :
    ∃ k t, exec step (Kernel.boot s buddy' ier ctx) events = .ok k ∧
      exec SchedSystem.step ⟨s, buddy', false⟩
        (trace step schedOps (Kernel.boot s buddy' ier ctx) events) = .ok t ∧
      Along SchedSystem.step SchedSystem.Allowed ⟨s, buddy', false⟩
        (trace step schedOps (Kernel.boot s buddy' ier ctx) events) ∧
      k.scheduler.Agrees t.scheduler ∧ k.buddy = t.buddy := by
  obtain ⟨hboot, -⟩ := KernelInv.boot howns hinit ier ctx
  obtain ⟨k, hk⟩ : ∃ k, exec step (Kernel.boot s buddy' ier ctx) events = .ok k := by
    refine Along.exec_ok (Q := fun k e => ∃ k', k.step e = .ok k') (fun _ _ h => h) ?_
    refine Along.of_invariant (I := fun k => ∃ q, KernelInv M L₀ k q) ?_ ⟨_, hboot⟩ hevents
    rintro k e ⟨q, hinv⟩ hallowed
    obtain ⟨k', q', hk', hinv', -⟩ := hinv.step hallowed
    refine ⟨⟨k', hk'⟩, fun k'' hk'' => ?_⟩
    cases hk'.symm.trans hk''
    exact ⟨q', hinv'⟩
  obtain ⟨t, ht, halong, ⟨-, hagrees, hbuddy⟩⟩ := exec_trace
    (B := SchedSystem.Allowed)
    (R := fun k t => (∃ q, KernelInv M L₀ k q) ∧ k.scheduler.Agrees t.scheduler ∧ k.buddy = t.buddy)
    (by
      rintro k t e k' ⟨⟨q, hinv⟩, hagrees, hbuddy⟩ hallowed hk'
      obtain ⟨k'', q', hk'', hinv', -⟩ := hinv.step hallowed
      cases hk''.symm.trans hk'
      obtain ⟨t', ht', hdone⟩ := hinv.does_step hk' t hagrees hbuddy
      exact ⟨t', ht', hinv.along_schedOps hallowed hagrees, ⟨q', hinv'⟩, hdone⟩)
    (t := ⟨s, buddy', false⟩) ⟨⟨_, hboot⟩, .refl _, rfl⟩ hevents hk
  exact ⟨k, t, hk, ht, halong, hagrees, hbuddy⟩

/-- A task reads with a time limit, gets a byte, yields, sleeps and is woken by the timer. -/
def sampleEvents : List Event :=
  [.spawn 0 (1, 1) 4096 1, .runScheduler, .call 27 5 0, .receive 65 10, .tick 20, .call 7 0 30,
    .call 17 1 40, .tick 20000]

/-- The operations of these events. -/
theorem sched_run_sample : ∃ k t,
    exec step (Kernel.boot SchedSystem.sample.scheduler SchedSystem.sample.buddy 0 TaskContext.zero)
      sampleEvents = .ok k ∧
    exec SchedSystem.step SchedSystem.sample
      [.spawn 0 (1, 1) 4096 1, .prepareNextTask, .setCurrentTaskSleep 50000,
        .wakeUpTaskWithResult 1 65, .finishSleep 20, .prepareNextTask, .prepareNextTask,
        .setCurrentTaskSleep 10040, .finishSleep 20000, .prepareNextTask] = .ok t ∧
    k.scheduler.Agrees t.scheduler ∧ k.buddy = t.buddy := by
  obtain ⟨free, howns⟩ := @Owns.ofRegion 0x80000 0x80008 (by decide) (by decide)
  have hops : trace step schedOps
      (Kernel.boot SchedSystem.sample.scheduler SchedSystem.sample.buddy 0 TaskContext.zero)
      sampleEvents = [.spawn 0 (1, 1) 4096 1, .prepareNextTask, .setCurrentTaskSleep 50000,
        .wakeUpTaskWithResult 1 65, .finishSleep 20, .prepareNextTask, .prepareNextTask,
        .setCurrentTaskSleep 10040, .finishSleep 20000, .prepareNextTask] := by decide +kernel
  obtain ⟨k, t, hk, ht, -, hagrees, hbuddy⟩ := sched_run howns SchedSystem.sample_init 0
    TaskContext.zero sampleEvents (by decide +kernel)
  rw [hops] at ht
  exact ⟨k, t, hk, ht, hagrees, hbuddy⟩

end Kernel

end CharlotteOs
