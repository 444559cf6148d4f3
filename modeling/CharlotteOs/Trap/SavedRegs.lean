import CharlotteOs.Task.SavedContexts
import CharlotteOs.Trap.Entry
import CharlotteOs.Trap.KernelSpec

/-!
# What traps do to saved registers

A trap saves the registers of the task that runs. A system call advances the program counter and may
put a result into `a0`. A received byte is put into `a0` of the task that it wakes. Nothing else is
written to the saved registers of a task that has not exited, and the registers that a trap returns
with are those of the task that then runs.

## Main definitions

* `Kernel.savedAfter`: the saved registers that an event leaves

## Main results

* `KernelInv.trap_saved`, `KernelInv.saved_trap`: what a trap saves and resumes with, and the saved
  registers that are the same after it
-/

namespace CharlotteOs

open DyadicTiling BuddySystemFrameAllocator Scheduler

namespace Kernel

/-- The registers of a task after its system call, before it runs again. There are none if it
exits. -/
def callContext (k : Kernel) (regs : TaskContext) : Option TaskContext :=
  match regs.a7 with
  | 1 => some { regs.skipEcall with a0 := 0 }
  | 7 | 17 => some regs.skipEcall
  | 9 => none
  | 27 => some { regs.skipEcall with
      a0 := match k.uart.receiveBuffer.contents with
        | byte :: _ => readResult byte
        | [] => usizeMax }
  | _ => some regs

/-- The saved registers after the registers at a trap are saved. -/
def savedAtTrap (k : Kernel) (regs : TaskContext) : ℕ → Option TaskContext :=
  match k.scheduler.currentTaskId with
  | some c => Function.update k.scheduler.saved c (some regs)
  | none => k.scheduler.saved

/-- Saved registers when a task that is blocked gets a result. -/
def deliverTo (saved blocked : ℕ → Option TaskContext) (id byte : ℕ) : ℕ → Option TaskContext :=
  match blocked id with
  | some ctx => Function.update saved id (some { ctx with a0 := byte })
  | none => saved

/-- **The saved registers that a trap leaves**, of tasks that were there before it. -/
def savedAfter (k : Kernel) (regs : TaskContext) (scause : ℕ) (io : Inputs) :
    ℕ → Option TaskContext :=
  match parseTrapCause scause with
  | .userEcall =>
    match k.scheduler.currentTaskId with
    | some c => Function.update k.scheduler.saved c (k.callContext regs)
    | none => k.scheduler.saved
  | .supervisorExternalInterrupt =>
    match k.label (.trap regs scause io) with
    | .deliver id byte => deliverTo (k.savedAtTrap regs) k.scheduler.blocked id byte
    | _ => k.savedAtTrap regs
  | _ => k.savedAtTrap regs

variable {k k' : Kernel} {pc : ℕ} {regs : TaskContext}

theorem callContext_write (h : regs.a7 = 1) :
    k.callContext regs = some { regs.skipEcall with a0 := 0 } := by
  rw [callContext, h]
  rfl

theorem callContext_sleep (h : regs.a7 = 17) : k.callContext regs = some regs.skipEcall := by
  rw [callContext, h]
  rfl

theorem callContext_read (h : regs.a7 = 27) :
    ∃ result, k.callContext regs = some { regs.skipEcall with a0 := result } := by
  rw [callContext, h]
  exact ⟨_, rfl⟩

theorem callContext_unknown (h : ∀ n ∈ [1, 7, 9, 17, 27], regs.a7 ≠ n) :
    k.callContext regs = some regs := by
  rw [callContext]
  split
  case h_6 => rfl
  all_goals exact absurd ‹_› (h _ (by simp))

/-! ## Calls and what they leave alone -/

theorem current_of_store {ctx : TaskContext} {p : Option ℕ} (h : k.storeContext ctx p = .ok k') :
    k'.scheduler.currentTaskId = k.scheduler.currentTaskId := by
  unfold storeContext at h
  split at h
  · cases h
    rfl
  · split at h
    · cases h
      rfl
    · cases h

/-- A handler that returns the program counter of the context it leaves in `sscratch`. -/
def ReturnsSaved (pc : ℕ) (k : Kernel) : Prop :=
  ∃ ctx, k.loadContext k.sscratch = .ok ctx ∧ ctx.sepc = pc

theorem switchTo_cases (h : k.switchTo = .ok (pc, k')) :
    k'.scheduler = k.scheduler ∧ ReturnsSaved pc k' := by
  obtain ⟨ctx, hload, h⟩ := exists_of_bind_eq_ok h
  cases h
  exact ⟨rfl, ctx, hload, rfl⟩

theorem scheduleOnInterrupt_cases (hzs : ∀ z ∈ k.scheduler.zombieQueue, k.scheduler.saved z = none)
    (h : k.scheduleOnInterrupt = .ok (pc, k')) :
    Kept k.scheduler.saved k'.scheduler.saved ∧ ReturnsSaved pc k' := by
  obtain ⟨⟨s, buddy⟩, hs, h⟩ := exists_of_bind_eq_ok h
  obtain ⟨hsame, hpc⟩ := switchTo_cases h
  refine ⟨?_, hpc⟩
  rw [hsame]
  exact .prepareNextTask hzs hs

theorem blockUntil_cases {wakeTime : Option ℕ} (h : k.blockUntil wakeTime = .ok (pc, k')) :
    Kept k.scheduler.saved k'.scheduler.saved ∧ ReturnsSaved pc k' := by
  cases wakeTime with
  | none | some _ =>
    obtain ⟨s, hs, h⟩ := exists_of_bind_eq_ok h
    obtain ⟨hsame, hpc⟩ := switchTo_cases h
    refine ⟨?_, hpc⟩
    rw [hsame]
    exact .stopCurrent hs

theorem returnWith_cases {ctx : TaskContext} {result : ℕ}
    (h : k.returnWith k.sscratch ctx result = .ok (pc, k')) :
    k.storeContext { ctx with a0 := result } k.sscratch = .ok k' ∧ ReturnsSaved pc k' := by
  obtain ⟨k₁, hstore, h⟩ := exists_of_bind_eq_ok h
  cases h
  obtain ⟨⟨_, hload⟩, hsame⟩ := load_of_store hstore
  obtain ⟨k₂, hk₂, hload₂, -⟩ := store_of_load hload { ctx with a0 := result }
  cases hk₂.symm.trans hstore
  refine ⟨hstore, { ctx with a0 := result }, ?_, rfl⟩
  rw [hsame]
  exact hload₂

theorem sendDataLoop_cases {n : ℕ} (h : sendDataLoop n k = .ok k') :
    k'.scheduler = k.scheduler ∧ k'.sscratch = k.sscratch := by
  induction n generalizing k with
  | zero =>
    cases h
    exact ⟨rfl, rfl⟩
  | succ n ih =>
    obtain ⟨⟨c, transmitBuffer⟩, -, h⟩ := exists_of_bind_eq_ok h
    cases c with
    | none =>
      cases h
      exact ⟨rfl, rfl⟩
    | some c =>
      have hrest := ih h
      exact hrest

theorem sendData_cases (h : k.sendData = .ok k') :
    k'.scheduler = k.scheduler ∧ k'.sscratch = k.sscratch := by
  obtain ⟨k₁, hk₁, h⟩ := exists_of_bind_eq_ok h
  have hloop := sendDataLoop_cases hk₁
  split at h
  · cases h
    exact hloop
  · cases h
    exact hloop

end Kernel

/-- A wake-up with a result: the saved registers of a blocked task, or of none. -/
theorem Scheduler.saved_wake {s s' : Scheduler} {id byte : ℕ}
    (h : s.wakeUpTaskWithResult id byte = .ok s') :
    s'.saved = Kernel.deliverTo s.saved s.blocked id byte := by
  obtain ⟨slot, hslot, h⟩ := exists_of_bind_eq_ok h
  rw [Kernel.deliverTo]
  cases slot with
  | none =>
    cases h
    have hnone : s.blocked id = none := by
      rw [Scheduler.slot] at hslot
      split at hslot
      · cases hslot
        rw [Scheduler.blocked, Scheduler.task, ‹s.taskList[id]? = _›]
        rfl
      · cases hslot
    rw [hnone]
  | some tcb =>
    have ht := task_of_slot hslot
    dsimp only at h
    split at h
    · rename_i hst
      have hs' := Except.ok.inj h
      rw [blocked_eq_some.mpr ⟨tcb, ht, hst, rfl⟩,
        saved_of_set ht (congrArg taskList hs'.symm) (by simp)]
    · rename_i hst
      cases h
      rw [blocked_eq_none (by rw [status_of_task ht]; simpa using hst)]

namespace Kernel

variable {k k' : Kernel} {pc : ℕ}

/-- A received byte: the saved registers of the reader it goes to. -/
theorem receive_saved {byte : ℕ} (hbyte : byte < 0x80) (h : k.receive byte = .ok k') :
    k'.sscratch = k.sscratch ∧ k'.scheduler.saved =
      match k.uart.waitQueue.getLast? with
      | some id => deliverTo k.scheduler.saved k.scheduler.blocked id byte
      | none => k.scheduler.saved := by
  rw [receive, if_neg (Nat.not_le.mpr hbyte)] at h
  cases hlast : k.uart.waitQueue.getLast? with
  | some id =>
    rw [hlast] at h
    obtain ⟨s, hs, h⟩ := exists_of_bind_eq_ok h
    cases h
    exact ⟨rfl, saved_wake hs⟩
  | none =>
    rw [hlast] at h
    obtain ⟨⟨_, receiveBuffer⟩, -, h⟩ := exists_of_bind_eq_ok h
    cases h
    exact ⟨rfl, rfl⟩

/-- **The interrupt of the PLIC** touches saved registers only where a byte goes to a reader. -/
theorem plicHandler_saved {io : Inputs} (h : k.plicHandler io = .ok k') :
    k'.sscratch = k.sscratch ∧ k'.scheduler.saved =
      match io.received, k.uart.waitQueue.getLast? with
      | some byte, some id => deliverTo k.scheduler.saved k.scheduler.blocked id byte
      | _, _ => k.scheduler.saved := by
  by_cases hrec : io.irq = 10 ∧ io.isr &&& 0x01 ≠ 1 ∧ io.isr &&& 0b1110 = 0b0100 ∧ io.rhr < 0x80
  · have hsome : io.received = some io.rhr := if_pos hrec
    obtain ⟨hirq, hpending, hcause, hbyte⟩ := hrec
    rw [plicHandler, if_pos hirq, uartInterruptHandler, if_neg hpending, hcause] at h
    obtain ⟨hscratch, hsaved⟩ := receive_saved hbyte h
    rw [hsome, hsaved]
    exact ⟨hscratch, by cases k.uart.waitQueue.getLast? <;> rfl⟩
  · have hnone : io.received = none := if_neg hrec
    have hsame : k'.scheduler = k.scheduler ∧ k'.sscratch = k.sscratch := by
      unfold plicHandler uartInterruptHandler at h
      split at h
      · rename_i hirq
        split at h
        · cases h
          exact ⟨rfl, rfl⟩
        · rename_i hpending
          split at h
          · exact sendData_cases h
          · rename_i hcause
            rw [receive, if_pos (Nat.not_lt.mp fun hbyte => hrec ⟨hirq, hpending, hcause, hbyte⟩)]
              at h
            cases h
            exact ⟨rfl, rfl⟩
          · cases h
            exact ⟨rfl, rfl⟩
      · cases h
        exact ⟨rfl, rfl⟩
    rw [hnone, hsame.1]
    exact ⟨hsame.2, rfl⟩

end Kernel

/-- An exit: the registers of the task are gone, the others are as they were. -/
theorem Scheduler.saved_exitCurrentTask {s s' : Scheduler} {c : ℕ} (hc : s.currentTaskId = some c)
    {tcb : TaskControlBlock} (ht : s.task c = some tcb) (h : s.exitCurrentTask = .ok s') :
    s'.saved = Function.update s.saved c none := by
  rw [Scheduler.exitCurrentTask, getCurrentTaskId, hc] at h
  dsimp only at h
  rw [ok_bind, slot_of_task ht, ok_bind] at h
  have hs' := Except.ok.inj h
  rw [saved_of_update (task_of_set ht (congrArg taskList hs'.symm)), Option.bind_some, if_pos rfl]

namespace KernelInv

open Kernel

variable {M : Set ℕ} {L₀ : List Block} {k k' : Kernel} {q : RunQueue} {c pc : ℕ}
  {regs : TaskContext}

/-- A store to the current context. -/
theorem saved_store (h : KernelInv M L₀ k q) (hc : k.scheduler.currentTaskId = some c)
    (hstore : k.storeContext regs k.sscratch = .ok k') :
    k'.scheduler.saved = Function.update k.scheduler.saved c (some regs) := by
  obtain ⟨k₁, hk₁, -, -, -, -, -, htask⟩ := h.store regs
  cases hk₁.symm.trans hstore
  obtain ⟨tcb, ht, hrunning⟩ := h.exists_task hc
  rw [saved_of_update (htask c hc), ht, Option.map_some, Option.bind_some, if_neg]
  simp [hrunning]

/-- A store to the current context, and a function that keeps what is saved. -/
theorem kept_of_store (h : KernelInv M L₀ k q) (hc : k.scheduler.currentTaskId = some c)
    {k₁ : Kernel} (hstore : k.storeContext regs k.sscratch = .ok k₁)
    (hkept : Kept k₁.scheduler.saved k'.scheduler.saved) :
    Kept (Function.update k.scheduler.saved c (some regs)) k'.scheduler.saved := by
  rw [← h.saved_store hc hstore]
  exact hkept

/-- A call that returns to its task at once. -/
theorem returnWith_saved (h : KernelInv M L₀ k q) (hc : k.scheduler.currentTaskId = some c)
    {result : ℕ} (hk' : k.returnWith k.sscratch regs result = .ok (pc, k')) :
    Kept (Function.update k.scheduler.saved c (some { regs with a0 := result }))
      k'.scheduler.saved ∧
      ReturnsSaved pc k' := by
  obtain ⟨hstore, hpc⟩ := returnWith_cases hk'
  exact ⟨h.kept_of_store hc hstore (.refl _), hpc⟩

theorem schedule_saved (h : KernelInv M L₀ k q) (hc : k.scheduler.currentTaskId = some c)
    (hload : k.loadContext k.sscratch = .ok regs) (hk' : k.schedule k.sscratch = .ok (pc, k')) :
    Kept (Function.update k.scheduler.saved c (some regs.skipEcall)) k'.scheduler.saved ∧
      ReturnsSaved pc k' := by
  obtain ⟨ctx, hctx, hk'⟩ := exists_of_bind_eq_ok hk'
  cases hctx.symm.trans hload
  obtain ⟨k₁, hk₁, hk'⟩ := exists_of_bind_eq_ok hk'
  obtain ⟨k₂, hk₂, hinv, -⟩ := h.store regs.skipEcall
  cases hk₂.symm.trans hk₁
  obtain ⟨hkept, hpc⟩ := scheduleOnInterrupt_cases hinv.sched.saved_zombie hk'
  exact ⟨h.kept_of_store hc hk₁ hkept, hpc⟩

theorem sleep_saved (h : KernelInv M L₀ k q) (hc : k.scheduler.currentTaskId = some c) {now : ℕ}
    (hload : k.loadContext k.sscratch = .ok regs) (hk' : k.sleep k.sscratch now = .ok (pc, k')) :
    Kept (Function.update k.scheduler.saved c (some regs.skipEcall)) k'.scheduler.saved ∧
      ReturnsSaved pc k' := by
  obtain ⟨ctx, hctx, hk'⟩ := exists_of_bind_eq_ok hk'
  cases hctx.symm.trans hload
  obtain ⟨k₁, hk₁, hk'⟩ := exists_of_bind_eq_ok hk'
  obtain ⟨hkept, hpc⟩ := blockUntil_cases hk'
  exact ⟨h.kept_of_store hc hk₁ hkept, hpc⟩

/-- The registers of a task that exits are no longer saved. The task is still there, as a zombie. -/
theorem exit_saved (h : KernelInv M L₀ k q) (hc : k.scheduler.currentTaskId = some c)
    (hzero : c ≠ 0) {p : Option ℕ} (hp : p = some c)
    (hk' : (k.exitCurrentTask >>= fun k₁ => k₁.schedule p) = .ok (pc, k')) :
    Kept (Function.update k.scheduler.saved c none) k'.scheduler.saved ∧ ReturnsSaved pc k' := by
  obtain ⟨k₁, hk₁, hk'⟩ := exists_of_bind_eq_ok hk'
  obtain ⟨s₁, hs₁, hk₁⟩ := exists_of_bind_eq_ok hk₁
  cases hk₁
  obtain ⟨s₂, hs₂, hinv₁, -⟩ := h.sched.exitCurrentTask h.current (h.current.symm.trans hc) hzero
  cases hs₂.symm.trans hs₁
  have hstatus : s₁.status c = some .terminated := by
    rw [hinv₁.status]
    exact Function.update_self ..
  obtain ⟨tcb, ht, hst⟩ := exists_of_status hstatus
  obtain ⟨hinv₂, -⟩ := hinv₁.setContext ht (by simp [hst]) tcb.context.skipEcall
  rw [Kernel.schedule, hp, loadContext_some (k := { k with scheduler := s₁ }) ht, ok_bind,
    storeContext_some (k := { k with scheduler := s₁ }) ht, ok_bind] at hk'
  obtain ⟨hkept, hpc⟩ := scheduleOnInterrupt_cases hinv₂.saved_zombie hk'
  refine ⟨Kept.trans ?_ hkept, hpc⟩
  have hsame : Scheduler.saved (s₁.setTcb c { tcb with context := tcb.context.skipEcall }) =
      s₁.saved := by
    rw [saved_of_update (task_setTcb (lt_of_task ht) _), Option.bind_some, if_pos hst,
      ← saved_eq_none hstatus, Function.update_eq_self]
  obtain ⟨tcb₀, ht₀, -⟩ := h.exists_task hc
  rw [← saved_exitCurrentTask hc ht₀ hs₁]
  exact fun id ctx hid => (congrFun hsame id).trans hid

/-- **`uart_read`**: `a0` holds what the call returns, or will return if no byte comes. -/
theorem uartRead_saved (h : KernelInv M L₀ k q) (hc : k.scheduler.currentTaskId = some c) {now : ℕ}
    (hload : k.loadContext k.sscratch = .ok regs) (hk' : k.uartRead k.sscratch now = .ok (pc, k')) :
    Kept (Function.update k.scheduler.saved c (some { regs.skipEcall with
      a0 := match k.uart.receiveBuffer.contents with
        | byte :: _ => readResult byte
        | [] => usizeMax })) k'.scheduler.saved ∧ ReturnsSaved pc k' := by
  rw [Kernel.uartRead, hload, ok_bind] at hk'
  dsimp only at hk'
  have hholds := h.uart.received
  cases hcontents : k.uart.receiveBuffer.contents with
  | cons byte bytes =>
    rw [hcontents] at hholds
    obtain ⟨rb', hpop, hrb'⟩ := hholds.pop
    rw [hpop, ok_bind] at hk'
    have hinv := h.setUart (u := { k.uart with receiveBuffer := rb' })
      ⟨hrb'.contents_eq.symm ▸ hrb', h.uart.transmitted, h.uart.waiting⟩
    exact hinv.returnWith_saved hc hk'
  | nil =>
    rw [hcontents] at hholds
    rw [hholds.pop_nil, ok_bind] at hk'
    dsimp only at hk' ⊢
    split at hk'
    · exact h.returnWith_saved hc hk'
    · obtain ⟨id, hid, hk'⟩ := exists_of_bind_eq_ok hk'
      have hempty : k.uart.receiveBuffer.isEmpty = true := hholds.isEmpty.mpr rfl
      rw [hempty, Bool.not_true, if_neg Bool.false_ne_true] at hk'
      obtain ⟨k₁, hk₁, hk'⟩ := exists_of_bind_eq_ok hk'
      have hinv := h.setUart (u := { k.uart with waitQueue := k.uart.waitQueue ++ [id] })
        ⟨h.uart.received, h.uart.transmitted, fun id' hid' => ?_⟩
      · rw [← apply_ite k₁.blockUntil] at hk'
        obtain ⟨hkept, hpc⟩ := blockUntil_cases hk'
        exact ⟨hinv.kept_of_store hc hk₁ hkept, hpc⟩
      · rcases List.mem_append.mp hid' with hid' | hid'
        · exact h.uart.waiting id' hid'
        · rw [List.mem_singleton.mp hid']
          rw [getCurrentTaskId, hc] at hid
          cases hid
          exact h.sched.current_lt h.current c hc

/-- What `sscratch` points to between events is what is saved of the current task. -/
theorem saved_current (h : KernelInv M L₀ k q) (hc : k.scheduler.currentTaskId = some c)
    (hload : k.loadContext k.sscratch = .ok regs) : k.scheduler.saved c = some regs := by
  obtain ⟨tcb, ht, hrunning⟩ := h.exists_task hc
  rw [h.sscratch, hc, loadContext_some ht] at hload
  rw [saved_of_task ht (by simp [hrunning]), Except.ok.inj hload]

/-- **A system call**: the saved registers of the task that makes it, and of the others. -/
theorem ecall_saved (h : KernelInv M L₀ k q) (hc : k.scheduler.currentTaskId = some c)
    (hzero : c ≠ 0) (hload : k.loadContext k.sscratch = .ok regs) {now : ℕ}
    (hk' : k.ecall k.sscratch now = .ok (pc, k')) :
    Kept (Function.update k.scheduler.saved c (k.callContext regs)) k'.scheduler.saved ∧
      ReturnsSaved pc k' := by
  rw [Kernel.ecall, hload, ok_bind] at hk'
  rw [callContext]
  split at hk'
  · rename_i hcall
    obtain ⟨ctx, hctx, hk'⟩ := exists_of_bind_eq_ok hk'
    cases hctx.symm.trans hload
    rw [hcall]
    exact h.returnWith_saved hc hk'
  · rename_i hcall
    rw [hcall]
    exact h.schedule_saved hc hload hk'
  · rename_i hcall
    rw [hcall]
    exact h.exit_saved hc hzero (h.sscratch.trans hc) hk'
  · cases hk'
  · rename_i hcall
    rw [hcall]
    exact h.sleep_saved hc hload hk'
  · rename_i hcall
    rw [hcall]
    exact h.uartRead_saved hc hload hk'
  · obtain ⟨ctx, hctx, hk'⟩ := exists_of_bind_eq_ok hk'
    cases hctx.symm.trans hload
    cases hk'
    refine ⟨?_, regs, hload, rfl⟩
    have hsaved := h.saved_current hc hload
    split
    case h_6 =>
      rw [← hsaved, Function.update_eq_self]
      exact .refl _
    all_goals contradiction

/-- The registers at a trap are saved. -/
theorem saved_atTrap (h : KernelInv M L₀ k q) (hstore : k.storeContext regs k.sscratch = .ok k') :
    k'.scheduler.saved = k.savedAtTrap regs := by
  rw [savedAtTrap]
  cases hc : k.scheduler.currentTaskId with
  | some c => exact h.saved_store hc hstore
  | none =>
    rw [h.sscratch, hc] at hstore
    cases hstore
    rfl

/-- **A trap**: what is saved after it, and that it resumes with the registers that are saved in the
context that `sscratch` points to. -/
theorem trap_saved (h : KernelInv M L₀ k q) {scause : ℕ} {io : Inputs} {resumed : TaskContext}
    (hallowed : k.Allowed (.trap regs scause io))
    (hk' : k.trapEntry regs scause io = .ok (resumed, k')) :
    Kept (k.savedAfter regs scause io) k'.scheduler.saved ∧
      k'.loadContext k'.sscratch = .ok resumed := by
  obtain ⟨k₁, hk₁, hk'⟩ := exists_of_bind_eq_ok hk'
  obtain ⟨⟨pc, k₂⟩, hhandler, hk'⟩ := exists_of_bind_eq_ok hk'
  obtain ⟨ctx, hctx, hk'⟩ := exists_of_bind_eq_ok hk'
  cases hk'
  obtain ⟨k₀, hk₀, hinv₁, hwait₁, hload₁, huart₁, hcur₁, -⟩ := h.store regs
  cases hk₀.symm.trans hk₁
  have hsaved₁ := h.saved_atTrap hk₁
  have hblocked₁ : k₁.scheduler.blocked = k.scheduler.blocked := congrArg WaitState.blocked hwait₁
  suffices hmain : Kept (k.savedAfter regs scause io) k'.scheduler.saved ∧ ReturnsSaved pc k' by
    obtain ⟨hkept, ctx', hload', hpc⟩ := hmain
    cases hload'.symm.trans hctx
    refine ⟨hkept, ?_⟩
    rw [hload', ← hpc]
  rw [trapHandler] at hhandler
  rw [savedAfter]
  cases hcause : parseTrapCause scause with
  | supervisorTimerInterrupt =>
    rw [hcause] at hhandler
    obtain ⟨s, hs, hnext⟩ := exists_of_bind_eq_ok hhandler
    obtain ⟨s', q', hs', hinv', -⟩ := hinv₁.sched.finishSleep io.time
    cases hs'.symm.trans hs
    obtain ⟨hkept, hpc⟩ := scheduleOnInterrupt_cases (k := { k₁ with scheduler := s })
      hinv'.saved_zombie hnext
    refine ⟨?_, hpc⟩
    rw [← hsaved₁]
    exact (Kept.finishSleepLoop hs).trans hkept
  | supervisorExternalInterrupt =>
    rw [hcause] at hhandler
    obtain ⟨k₂, hk₂, hret⟩ := exists_of_bind_eq_ok hhandler
    obtain ⟨ctx', hctx', hret⟩ := exists_of_bind_eq_ok hret
    cases hret
    obtain ⟨hscratch, hsaved⟩ := plicHandler_saved hk₂
    refine ⟨?_, ctx', hscratch ▸ hctx', rfl⟩
    rw [hsaved, hsaved₁, hblocked₁, huart₁, label, hcause]
    cases io.received with
    | none => exact .refl _
    | some byte =>
      dsimp only
      rw [receiveLabel]
      cases k.uart.waitQueue.getLast? with
      | some id => exact .refl _
      | none =>
        by_cases hroom : k.uart.receiveBuffer.contents.length < 4096
        · rw [if_pos hroom]
          exact .refl _
        · rw [if_neg hroom]
          exact .refl _
  | userEcall =>
    rw [hcause] at hhandler
    obtain ⟨hsome, hzero, -⟩ := hallowed hcause
    obtain ⟨c, hc⟩ := Option.ne_none_iff_exists'.mp hsome
    have hne : c ≠ 0 := fun h0 => hzero (by rw [hc, h0])
    obtain ⟨hkept, hpc⟩ := hinv₁.ecall_saved (hcur₁.trans hc) hne hload₁ hhandler
    refine ⟨?_, hpc⟩
    rw [hsaved₁, savedAtTrap] at hkept
    rw [hc] at hkept ⊢
    dsimp only at hkept ⊢
    rw [Function.update_idem] at hkept
    have hcall : k.callContext regs = k₁.callContext regs := by
      rw [callContext, callContext, huart₁]
    rw [hcall]
    exact hkept
  | unknownInterrupt | unknownException =>
    rw [hcause] at hhandler
    obtain ⟨ctx', hctx', hret⟩ := exists_of_bind_eq_ok hhandler
    cases hret
    rw [← hsaved₁]
    exact ⟨.refl _, ctx', hctx', rfl⟩

/-- The first dispatch: what is saved, and what it resumes with. -/
theorem runScheduler_saved (h : KernelInv M L₀ k q) {resumed : TaskContext}
    (hk' : k.runScheduler = .ok (resumed, k')) :
    Kept k.scheduler.saved k'.scheduler.saved ∧ k'.loadContext k'.sscratch = .ok resumed := by
  obtain ⟨⟨pc, k₁⟩, hnext, hk'⟩ := exists_of_bind_eq_ok hk'
  obtain ⟨hkept, ctx, hload, hpc⟩ := scheduleOnInterrupt_cases h.sched.saved_zombie hnext
  obtain ⟨ctx', hctx', hk'⟩ := exists_of_bind_eq_ok hk'
  cases hctx'.symm.trans hload
  cases hk'
  refine ⟨hkept, ?_⟩
  rw [hload, ← hpc]

/-- `uart_write_byte` and an `ecall` with an unknown number return to their caller at once. -/
theorem current_of_return (h : KernelInv M L₀ k q) {scause : ℕ} {io : Inputs}
    {resumed : TaskContext} (hcause : parseTrapCause scause = .userEcall)
    (hcall : ∀ n ∈ [7, 9, 10, 17, 27], regs.a7 ≠ n)
    (hk' : k.trapEntry regs scause io = .ok (resumed, k')) :
    k'.scheduler.currentTaskId = k.scheduler.currentTaskId := by
  obtain ⟨k₁, hk₁, hk'⟩ := exists_of_bind_eq_ok hk'
  obtain ⟨⟨pc, k₂⟩, hhandler, hk'⟩ := exists_of_bind_eq_ok hk'
  obtain ⟨ctx, hctx, hk'⟩ := exists_of_bind_eq_ok hk'
  cases hk'
  obtain ⟨k₀, hk₀, -, -, hload₁, -⟩ := h.store regs
  cases hk₀.symm.trans hk₁
  rw [trapHandler, hcause] at hhandler
  dsimp only at hhandler
  rw [Kernel.ecall, hload₁, ok_bind] at hhandler
  rw [← current_of_store hk₁]
  split at hhandler
  case h_1 =>
    obtain ⟨ctx', hctx', hhandler⟩ := exists_of_bind_eq_ok hhandler
    exact current_of_store (returnWith_cases hhandler).1
  case h_7 =>
    obtain ⟨ctx', hctx', hhandler⟩ := exists_of_bind_eq_ok hhandler
    cases hhandler
    rfl
  all_goals exact absurd ‹_› (hcall _ (by simp))

/-! ## Events -/

/-- Only the current task blocks, in a system call. -/
theorem blocks_current {e : Event} {id : ℕ} (hid : (k.label e).blocks = some id) :
    k.scheduler.currentTaskId = some id ∧
      ∃ regs scause io, e = .trap regs scause io ∧ parseTrapCause scause = .userEcall := by
  rcases k.label_cases e with hlabel | ⟨regs, scause, io, rfl, ⟨-, hlabel⟩ | ⟨byte, -, -, hlabel⟩ |
    ⟨c, hcause, hc, hlabel⟩⟩
  · rw [hlabel] at hid
    cases hid
  · rw [hlabel] at hid
    cases hid
  · rw [hlabel] at hid
    rcases k.receiveLabel_cases byte with ⟨id', hreceive⟩ | hreceive | hreceive <;>
      rw [hreceive] at hid <;> cases hid
  · refine ⟨?_, regs, scause, io, rfl, hcause⟩
    rw [hlabel] at hid
    rw [hc]
    rcases k.callLabel_cases c regs io.time with hcall | ⟨t, hcall⟩ | ⟨byte, hcall⟩ | ⟨t, hcall⟩ <;>
      rw [hcall] at hid
    · cases hid
    · exact hid
    · cases hid
    · exact hid

/-- **The saved registers of a task that does not run** change only in `a0`, and only if a byte is
delivered to it while it is blocked. -/
theorem saved_other (h : KernelInv M L₀ k q) {e : Event} (hallowed : k.Allowed e)
    (hstep : k.step e = .ok k') (hne : k.scheduler.currentTaskId ≠ some c)
    (hsaved : k.scheduler.saved c = some regs) :
    k'.scheduler.saved c = some regs ∨ ∃ byte, k.label e = .deliver c byte ∧
      k.scheduler.blocked c = some regs ∧ k'.scheduler.saved c = some { regs with a0 := byte } := by
  cases e with
  | runScheduler =>
    obtain ⟨⟨resumed, k₁⟩, hk₁, hk'⟩ := exists_of_bind_eq_ok hstep
    cases hk'
    exact .inl ((h.runScheduler_saved hk₁).1 c regs hsaved)
  | spawn trampoline entry stackSize priority =>
    obtain ⟨⟨r, s, buddy⟩, hs, hk'⟩ := exists_of_bind_eq_ok hstep
    cases hk'
    exact .inl (Kept.spawn hs c regs hsaved)
  | trap regs' scause io =>
    obtain ⟨⟨resumed, k₁⟩, hk₁, hk'⟩ := exists_of_bind_eq_ok hstep
    cases hk'
    have hkept := (h.trap_saved hallowed hk₁).1
    have htrap : k.savedAtTrap regs' c = some regs := by
      rw [savedAtTrap]
      cases hc' : k.scheduler.currentTaskId with
      | none => exact hsaved
      | some c' =>
        have hcc' : c ≠ c' := fun heq => hne (by rw [hc', heq])
        exact (Function.update_of_ne hcc' _ _).trans hsaved
    rw [savedAfter] at hkept
    split at hkept
    · left
      split at hkept
      · rename_i c' hc'
        refine hkept c regs ?_
        rw [Function.update_of_ne fun heq => hne (by rw [hc', heq])]
        exact hsaved
      · exact hkept c regs hsaved
    · split at hkept
      · rename_i id byte hlabel
        rw [deliverTo] at hkept
        split at hkept
        · rename_i ctx hctx
          by_cases hid : c = id
          · subst hid
            obtain ⟨tcb, ht, hst, rfl⟩ := blocked_eq_some.mp hctx
            rw [saved_of_task ht (by simp [hst]), Option.some.injEq] at hsaved
            subst hsaved
            exact .inr ⟨byte, hlabel, hctx, hkept c _ (Function.update_self ..)⟩
          · refine .inl (hkept c regs ?_)
            rw [Function.update_of_ne hid]
            exact htrap
        · exact .inl (hkept c regs htrap)
      · exact .inl (hkept c regs htrap)
    · exact .inl (hkept c regs htrap)

/-- **The saved registers of the task that a trap finds running.** -/
theorem saved_trap (h : KernelInv M L₀ k q) {scause : ℕ} {io : Inputs}
    (hallowed : k.Allowed (.trap regs scause io)) (hstep : k.step (.trap regs scause io) = .ok k')
    (hc : k.scheduler.currentTaskId = some c) :
    (parseTrapCause scause ≠ .userEcall → k'.scheduler.saved c = some regs) ∧
      (parseTrapCause scause = .userEcall → ∀ ctx, k.callContext regs = some ctx →
        k'.scheduler.saved c = some ctx) := by
  obtain ⟨⟨resumed, k₁⟩, hk₁, hk'⟩ := exists_of_bind_eq_ok hstep
  cases hk'
  have hkept := (h.trap_saved hallowed hk₁).1
  have htrap : k.savedAtTrap regs c = some regs := by
    rw [savedAtTrap, hc]
    exact Function.update_self ..
  rw [savedAfter] at hkept
  constructor
  · intro hcause
    split at hkept
    · exact absurd ‹_› hcause
    · split at hkept
      · rename_i id byte _
        rw [deliverTo] at hkept
        split at hkept
        · rename_i ctx hctx
          have hne : c ≠ id := by
            rintro rfl
            rw [show k.scheduler.blocked c = none from h.blocked_current hc] at hctx
            cases hctx
          refine hkept c regs ?_
          rw [Function.update_of_ne hne]
          exact htrap
        · exact hkept c regs htrap
      · exact hkept c regs htrap
    · exact hkept c regs htrap
  · intro hcause ctx hctx
    rw [hcause, hc] at hkept
    dsimp only at hkept
    refine hkept c ctx ?_
    rw [Function.update_self]
    exact hctx

end KernelInv

end CharlotteOs
