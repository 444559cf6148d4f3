import CharlotteOs.Task.SchedulerRuns
import CharlotteOs.Trap.KernelSpec

/-!
# Received bytes

A received byte goes to a task that is blocked in `uart_read`, or to the receive buffer, or is
dropped from a full one. `uart_read` puts a task into `wait_queue` when it blocks, and only a
received byte takes it out. A read that ends by its timeout leaves the task in the queue, and a
later byte is lost on it, or given to it as the result of another call. Where no read ends that
way, `wait_queue` is the queue of the tasks blocked in `uart_read` and no byte is lost or
misdirected.

## Main definitions

* `UartSystem`: the kernel, with the bytes that went into the buffer and those read out of it
* `UartSystem.NoTimeout`: no task blocked in `uart_read` is woken by a tick
* `UartSystem.ByteHandled`, `UartSystem.BytesCorrect`: what becomes of a received byte, and of those
  in the buffer

## Main results

* `UartSystem.bytesCorrect_along`: no byte is lost or misdirected in runs in which no read ends by
  a wake-up time
-/

namespace CharlotteOs

open DyadicTiling FallibleRun BuddySystemFrameAllocator Kernel Scheduler

/-- The byte that an event receives. -/
def Event.received : Event → Option ℕ
  | .trap _ scause io =>
    if parseTrapCause scause = .supervisorExternalInterrupt then io.received else none
  | .runScheduler | .spawn .. => none

/-- The kernel, the bytes that have been put into the receive buffer so far, and those that have
been read out of it, with the tasks that got them. -/
structure UartSystem where
  kernel : Kernel
  stored : List ℕ
  returned : List (ℕ × ℕ)

namespace UartSystem

/-- One event. -/
def step (t : UartSystem) (e : Event) : Except Fault UartSystem := do
  let kernel ← t.kernel.step e
  .ok ⟨kernel, t.stored ++ (t.kernel.label e).stored, t.returned ++ (t.kernel.label e).returned⟩

/-- The events from boot on. -/
def Allowed (t : UartSystem) (e : Event) : Prop := t.kernel.Allowed e

instance (t : UartSystem) (e : Event) : Decidable (t.Allowed e) :=
  inferInstanceAs (Decidable (t.kernel.Allowed e))

/-- **The condition**: at a tick, no wake-up time that has come is that of a task blocked in
`uart_read`, so no read ends by its timeout. -/
def NoTimeout (t : UartSystem) (e : Event) : Prop := t.kernel.wait.NoReadTimeout (t.kernel.label e)

instance (t : UartSystem) (e : Event) : Decidable (t.NoTimeout e) :=
  inferInstanceAs (Decidable (t.kernel.wait.NoReadTimeout _))

/-- **What becomes of a received byte**, from the kernel `k₁` in which the trap has saved the
registers: it is the result of one task that is blocked in `uart_read`, which becomes ready, or it
goes to the end of the buffer, or the buffer is full. Other tasks do not change. -/
def ByteHandled (k₁ k' : Kernel) (byte : ℕ) : Prop :=
  (∃ id tcb, k₁.scheduler.task id = some tcb ∧ tcb.status = .blocked ∧ tcb.context.a7 = 27 ∧
    k'.scheduler.task = Function.update k₁.scheduler.task id
      (some { tcb with status := .ready, context := { tcb.context with a0 := byte } }) ∧
    k'.uart.receiveBuffer.contents = k₁.uart.receiveBuffer.contents) ∨
  (k₁.uart.receiveBuffer.contents.length < 4096 ∧ k'.scheduler.task = k₁.scheduler.task ∧
    k'.uart.receiveBuffer.contents = k₁.uart.receiveBuffer.contents ++ [byte]) ∨
  (k₁.uart.receiveBuffer.contents.length = 4096 ∧ k'.scheduler.task = k₁.scheduler.task ∧
    k'.uart.receiveBuffer.contents = k₁.uart.receiveBuffer.contents)

/-- **No byte is lost or misdirected** by an event. A received byte is handled as above and no task
that is blocked in `sleep` is touched by it. A read from the buffer gives the task that reads the
first byte of the buffer. What went into the buffer so far is what was read from it so far and what
is in it, in this order. -/
def BytesCorrect (t : UartSystem) (e : Event) : Prop :=
  ∃ t', t.step e = .ok t' ∧
    (∀ regs scause io k₁, e = .trap regs scause io →
      t.kernel.storeContext regs t.kernel.sscratch = .ok k₁ →
      (∀ byte, e.received = some byte → ByteHandled k₁ t'.kernel byte ∧
        ∀ id ctx, k₁.scheduler.blocked id = some ctx → ctx.a7 = 17 →
          t'.kernel.scheduler.blocked id = some ctx) ∧
      (∀ id byte, t'.returned = t.returned ++ [(id, byte)] →
        t.kernel.scheduler.currentTaskId = some id ∧ ∃ tcb, k₁.scheduler.task id = some tcb ∧
          t'.kernel.scheduler.task = Function.update k₁.scheduler.task id
            (some { tcb with context := { regs.skipEcall with a0 := byte } }))) ∧
    t'.stored = t'.returned.map Prod.snd ++ t'.kernel.uart.receiveBuffer.contents

/-- The invariant: the kernel's, the queue of readers is that of the tasks blocked in `uart_read`,
the buffer has ASCII characters only, and it has what was put in and not read. -/
structure Inv (M : Set ℕ) (L₀ : List Block) (t : UartSystem) : Prop where
  kernel : ∃ q, KernelInv M L₀ t.kernel q
  readers : t.kernel.wait.ReadersWait
  ascii : ∀ byte ∈ t.kernel.wait.bytes, byte < 0x80
  stored : t.stored = t.returned.map Prod.snd ++ t.kernel.wait.bytes

variable {M : Set ℕ} {L₀ : List Block} {t : UartSystem}

/-- What an event with a received byte does. -/
theorem label_of_received {k : Kernel} {e : Event} {byte : ℕ} (h : e.received = some byte) :
    k.label e = k.receiveLabel byte := by
  cases e with
  | runScheduler | spawn => cases h
  | trap regs scause io =>
    rw [Event.received, Option.ite_none_right_eq_some] at h
    rw [label, h.1]
    dsimp only
    rw [h.2]

/-- A byte is read from the buffer by the current task. -/
theorem current_of_take {k : Kernel} {e : Event} {id byte : ℕ} (h : k.label e = .take id byte) :
    k.scheduler.currentTaskId = some id := by
  rcases k.label_cases e with hlabel | ⟨regs, scause, io, -, ⟨-, hlabel⟩ | ⟨byte', -, -, hlabel⟩ |
    ⟨c, -, hc, hlabel⟩⟩
  · cases hlabel.symm.trans h
  · cases hlabel.symm.trans h
  · rw [hlabel] at h
    rcases k.receiveLabel_cases byte' with ⟨id', hreceive⟩ | hreceive | hreceive <;>
      cases hreceive.symm.trans h
  · rw [hlabel] at h
    rcases k.callLabel_cases c regs io.time
      with hcall | ⟨t, hcall⟩ | ⟨byte', hcall⟩ | ⟨t, hcall⟩ <;>
      cases hcall.symm.trans h
    exact hc

/-- A received byte is handled, if the queue of readers is that of the tasks blocked in
`uart_read`. -/
theorem byteHandled_of_step {k k₁ k' : Kernel} {regs : TaskContext} {byte : ℕ}
    (hreaders : k₁.wait.ReadersWait) (hstep : WaitStep k₁.wait (k.receiveLabel byte) k'.wait)
    (hresults : Results k₁ k' regs (k.receiveLabel byte)) :
    ByteHandled k₁ k' byte ∧ ∀ id ctx, k₁.scheduler.blocked id = some ctx → ctx.a7 = 17 →
      k'.scheduler.blocked id = some ctx := by
  have hbytes := hstep.bytes
  rw [receiveLabel] at hstep hresults hbytes
  split at hstep
  · rename_i id hlast
    rw [hlast] at hresults hbytes
    obtain ⟨ctx, hctx, hcall⟩ := hstep.reading_of_deliver hreaders
    obtain ⟨tcb, ht, hst, rfl⟩ := blocked_eq_some.mp hctx
    refine ⟨Or.inl ⟨id, tcb, ht, hst, hcall, ?_, ?_⟩, fun id' ctx' hctx' hcall' => ?_⟩
    · have htask : k'.scheduler.task = _ := hresults
      rw [htask, ht, Option.map_some, TaskControlBlock.wake, if_pos hst]
    · exact (hbytes.symm.trans (List.append_nil _))
    · exact hstep.blocked_of_deliver hreaders hctx' (by omega)
  · rename_i hlast
    rw [hlast] at hresults hbytes
    have hsame : k'.scheduler.task = k₁.scheduler.task := by
      dsimp only at hresults
      split at hresults <;> exact hresults
    refine ⟨Or.inr ?_, fun id ctx hctx _ => ?_⟩
    · dsimp only at hstep hbytes
      generalize hw : k'.wait = w' at hstep hbytes
      split at hstep
      · rename_i hroom
        rw [if_pos hroom] at hbytes
        cases hstep with
        | store _ _ hlt =>
          exact Or.inl ⟨hlt, hsame, (congrArg WaitState.bytes hw).trans hbytes.symm⟩
      · rename_i hroom
        rw [if_neg hroom] at hbytes
        cases hstep with
        | drop _ hfull => exact Or.inr ⟨hfull, hsame, congrArg WaitState.bytes hw⟩
    · rw [← hctx, Scheduler.blocked, Scheduler.blocked, hsame]

/-- **One event** in which no read ends by a wake-up time. -/
theorem Inv.step (h : t.Inv M L₀) {e : Event} (hallowed : t.Allowed e) (htimeout : t.NoTimeout e) :
    t.BytesCorrect e ∧ ∀ t', t.step e = .ok t' → t'.Inv M L₀ := by
  obtain ⟨q, hinv⟩ := h.kernel
  obtain ⟨k', q', hk', hinv', hstep⟩ := hinv.step hallowed
  have hok : t.step e = .ok ⟨k', t.stored ++ (t.kernel.label e).stored,
      t.returned ++ (t.kernel.label e).returned⟩ := by
    rw [UartSystem.step, hk', ok_bind]
  have hstored : t.stored ++ (t.kernel.label e).stored =
      (t.returned ++ (t.kernel.label e).returned).map Prod.snd ++ k'.wait.bytes := by
    rw [h.stored, List.append_assoc, hstep.bytes, List.map_append, List.append_assoc]
  refine ⟨⟨_, hok, fun regs scause io k₁ he hk₁ => ?_, hstored⟩, fun t' ht' => ?_⟩
  · subst he
    obtain ⟨k₂, k'', q'', hk₂, hk'', -, -, hresults⟩ := hinv.trap hallowed
    obtain ⟨k₃, hk₃, hinv₁, hwait₁, -, -, hcur₁, -⟩ := hinv.store regs
    rw [hk₁] at hk₂ hk₃
    cases hk₂
    cases hk₃
    rw [hk'] at hk''
    cases hk''
    rw [← hwait₁] at hstep
    refine ⟨fun byte hbyte => ?_, fun id byte hret => ?_⟩
    · rw [label_of_received hbyte] at hstep hresults
      exact byteHandled_of_step (hwait₁ ▸ h.readers) hstep hresults
    · have hlabel := WaitLabel.eq_take_of_returned (List.append_cancel_left hret)
      have hcur := current_of_take hlabel
      rw [hlabel] at hstep hresults
      have hmem := hstep.mem_of_take
      rw [hwait₁] at hmem
      obtain ⟨tcb, ht, -⟩ := hinv₁.exists_task (hcur₁.trans hcur)
      have htask : k'.scheduler.task = _ := hresults
      rw [readResult, if_neg (Nat.not_le.mpr (h.ascii byte hmem)), ht] at htask
      exact ⟨hcur, tcb, ht, htask⟩
  · rw [hok] at ht'
    cases ht'
    exact ⟨⟨q', hinv'⟩, hstep.readersWait h.readers htimeout, hstep.ascii h.ascii, hstored⟩

/-- **No byte is lost or misdirected** in a run from boot in which no task that is blocked in
`uart_read` is woken by a tick. -/
theorem bytesCorrect_along {free : ℕ → List ℕ} {buddy buddy' : BuddySystemFrameAllocator}
    {trampoline : ℕ} {entry : ℕ × ℕ} {s : Scheduler} (howns : Owns buddy free M L₀)
    (hinit : Scheduler.new.init buddy trampoline entry = .ok (.ok (), s, buddy')) (ier : ℕ)
    (ctx : TaskContext) (events : List Event)
    (hevents : Along step (fun t e => t.Allowed e ∧ t.NoTimeout e)
      ⟨Kernel.boot s buddy' ier ctx, [], []⟩ events) :
    Along step BytesCorrect ⟨Kernel.boot s buddy' ier ctx, [], []⟩ events := by
  obtain ⟨hinv, hwait⟩ := KernelInv.boot howns hinit ier ctx
  refine Along.of_invariant (I := Inv M L₀) (fun t e ht hop => ht.step hop.1 hop.2) ?_ hevents
  refine ⟨⟨_, hinv⟩, ?_, ?_, ?_⟩
  · rw [hwait]
    exact ⟨List.nodup_nil, fun id => by simp [WaitState.Reading]⟩
  · rw [hwait]
    simp
  · rw [hwait]
    rfl

/-- The kernel after boot. -/
def sample : UartSystem :=
  ⟨Kernel.boot SchedSystem.sample.scheduler SchedSystem.sample.buddy 0 TaskContext.zero, [], []⟩

/-- A task gets one byte while it is blocked in `uart_read` and a second one from the buffer. -/
theorem bytesCorrect_along_sample : Along step BytesCorrect sample
    [.spawn 0 (1, 1) 4096 1, .runScheduler, .call 27 usizeMax 0, .receive 65 10000, .tick 50000,
      .receive 66 60000, .call 27 1000 70000] := by
  obtain ⟨free, howns⟩ := @Owns.ofRegion 0x80000 0x80008 (by decide) (by decide)
  exact bytesCorrect_along howns SchedSystem.sample_init 0 TaskContext.zero _ (by decide +kernel)

/-- A task reads with a timeout of 10 ms, which passes, and then sleeps. It is still in
`wait_queue`, so a byte that comes then wakes it from its sleep and is written to its `a0`. -/
theorem bytesCorrect_stale :
    Along step Allowed sample
      [.spawn 0 (1, 1) 4096 1, .runScheduler, .call 27 10 0, .tick 100000, .call 17 1000 110000,
        .receive 65 120000] ∧
    ¬ Along step BytesCorrect sample
      [.spawn 0 (1, 1) 4096 1, .runScheduler, .call 27 10 0, .tick 100000, .call 17 1000 110000,
        .receive 65 120000] := by
  refine ⟨by decide +kernel, fun hall => ?_⟩
  obtain ⟨t, ht, hstate⟩ := exists_of_map_eq_ok
    (x := exec step sample [.spawn 0 (1, 1) 4096 1, .runScheduler, .call 27 10 0, .tick 100000,
      .call 17 1000 110000])
    (f := fun t =>
      ((t.kernel.storeContext TaskContext.zero t.kernel.sscratch).toOption.map
          (·.scheduler.blocked 1),
        (t.step (.receive 65 120000)).toOption.map (·.kernel.scheduler.blocked 1)))
    (a := (some (some { TaskContext.zero with a7 := 17, a0 := 1000, sepc := 4 }), some none))
    (by decide +kernel)
  obtain ⟨hbefore, hafter⟩ := Prod.ext_iff.mp hstate
  have hrest : Along step BytesCorrect t [.receive 65 120000] := Along.of_append hall ht
  obtain ⟨t', ht', hbytes, -⟩ := hrest.1
  obtain ⟨k₁, hk₁, hctx⟩ := Option.map_eq_some_iff.mp hbefore
  obtain ⟨-, hsleep⟩ := (hbytes TaskContext.zero _ _ k₁ rfl (by
    cases hk : t.kernel.storeContext TaskContext.zero t.kernel.sscratch with
    | error e =>
      rw [hk] at hk₁
      cases hk₁
    | ok k =>
      rw [hk] at hk₁
      cases hk₁
      rfl)).1 65 (by decide +kernel)
  have hstill := hsleep 1 _ hctx rfl
  dsimp only at hafter
  rw [ht'] at hafter
  have hnone : t'.kernel.scheduler.blocked 1 = none := Option.some.inj hafter
  rw [hnone] at hstill
  cases hstill

end UartSystem

end CharlotteOs
