import CharlotteOs.Trap.FirstSwitch

/-!
# The first dispatch and the privilege of tasks

`virt_rust_main` turns interrupts on before it calls `run_scheduler`, and `first_switch_to` leaves
them on until its `sret`. So the timer can interrupt the first dispatch before `run_scheduler` takes
the lock of the scheduler, or after it has released it and before any instruction of
`first_switch_to`. While the lock is held interrupts are off. The moment in between, in which the
guard has turned them on again and still holds the lock, is left out: there `trap_handler` waits for
the lock for ever.

`first_switch_to` is the only code that writes `SPP`. `trap_entry` leaves `sstatus` alone, so a trap
returns with the privilege it was taken with, whatever task it returns to. So tasks run in
supervisor mode until the `sret` of `first_switch_to` is executed, and in user mode from then on. If
the timer comes before the first instruction of `first_switch_to`, the boot code is never resumed
and this does not happen. If it comes after `csrw sscratch, a0`, the registers of `first_switch_to`
are saved over those that `spawn` made for the first task. When that task is resumed it executes the
rest of `first_switch_to`, and may be interrupted again.

An `ecall` in supervisor mode goes to the firmware and not to `trap_handler`. So no system call is
served before the `sret`.

## Main definitions

* `FirstDispatch`, `TrapSystem.dispatch`: the ways in which the first task gets on the hart
* `SwitchSystem`, `SwitchEvent`: a hart on which a task may be inside `first_switch_to`
* `FirstDispatch.mode`: the privilege of the tasks
* `SwitchSystem.Entered`: the privilege, the interrupts and the contexts after the first dispatch
* `TrapSystem.Raises`: which of the `ecall`s come to the kernel

## Main results

* `SwitchSystem.Inv.step`: each event keeps to the privilege, the rest of `first_switch_to` included
* `SwitchSystem.privilege_along`: the privilege of the tasks in every run after the first dispatch
* `SwitchSystem.noCall_along`: in supervisor mode no system call is served
-/

namespace CharlotteOs

open DyadicTiling FallibleRun BuddySystemFrameAllocator Kernel Scheduler

/-! ## The timer while no task has run -/

/-- The cause of an interrupt of the timer. -/
abbrev timerCause : ℕ := 2 ^ 63 + 5

theorem parseTrapCause_timer : parseTrapCause timerCause = .supervisorTimerInterrupt := by decide

theorem Scheduler.current_of_prepareNextTask {s s' : Scheduler}
    {buddy buddy' : BuddySystemFrameAllocator} (h : s.prepareNextTask buddy = .ok (s', buddy')) :
    ∃ c, s'.currentTaskId = some c := by
  obtain ⟨⟨s₁, buddy₁⟩, -, h⟩ := exists_of_bind_eq_ok h
  obtain ⟨s₂, -, h⟩ := exists_of_bind_eq_ok h
  obtain ⟨s₃, hdispatch, h⟩ := exists_of_bind_eq_ok h
  cases h
  obtain ⟨slot, -, hdispatch⟩ := exists_of_bind_eq_ok hdispatch
  cases slot with
  | none => cases hdispatch
  | some tcb =>
    cases hdispatch
    exact ⟨_, rfl⟩

namespace Kernel

variable {k k' : Kernel} {ctx regs resumed : TaskContext} {io : Inputs} {pc : ℕ}

theorem current_of_scheduleOnInterrupt (h : k.scheduleOnInterrupt = .ok (pc, k')) :
    ∃ c, k'.scheduler.currentTaskId = some c := by
  obtain ⟨⟨s, buddy⟩, hs, h⟩ := exists_of_bind_eq_ok h
  rw [(switchTo_cases h).1]
  exact current_of_prepareNextTask hs

theorem current_of_runScheduler (h : k.runScheduler = .ok (resumed, k')) :
    ∃ buddy c, k.scheduler.prepareNextTask k.buddy = .ok (k'.scheduler, buddy) ∧
      k'.scheduler.currentTaskId = some c := by
  obtain ⟨⟨pc, k₁⟩, hnext, h⟩ := exists_of_bind_eq_ok h
  obtain ⟨ctx, -, h⟩ := exists_of_bind_eq_ok h
  cases h
  obtain ⟨⟨s, buddy⟩, hs, hnext⟩ := exists_of_bind_eq_ok hnext
  rw [(switchTo_cases hnext).1]
  obtain ⟨c, hc⟩ := current_of_prepareNextTask hs
  exact ⟨buddy, c, hs, hc⟩

theorem current_of_tick (h : k.trapEntry regs timerCause io = .ok (resumed, k')) :
    ∃ c, k'.scheduler.currentTaskId = some c := by
  obtain ⟨k₁, -, h⟩ := exists_of_bind_eq_ok h
  obtain ⟨⟨pc, k₂⟩, hhandler, h⟩ := exists_of_bind_eq_ok h
  obtain ⟨ctx, -, h⟩ := exists_of_bind_eq_ok h
  cases h
  rw [trapHandler, parseTrapCause_timer] at hhandler
  obtain ⟨s, -, hhandler⟩ := exists_of_bind_eq_ok hhandler
  exact current_of_scheduleOnInterrupt hhandler

/-- An interrupt of the timer between `prepare_next_task` and the write to `sscratch`: the registers
go to the context of the boot code, and to the scheduler it is as if the task had been interrupted
that has not begun. -/
theorem trapEntry_early {c : ℕ} (hscratch : k.sscratch = some c)
    (hload : k.loadContext (some c) = .ok ctx) :
    trapEntry { k with sscratch := none } regs timerCause io =
      trapEntry { k with initContext := regs } ctx timerCause io := by
  have hload' : loadContext { k with initContext := regs } k.sscratch = .ok ctx := by
    rw [hscratch]
    exact hload
  have hstore : storeContext { k with initContext := regs } ctx k.sscratch =
      .ok { k with initContext := regs } := store_self hload'
  rw [trapEntry, trapEntry, hstore, ok_bind]
  show (trapHandler { k with sscratch := none, initContext := regs } none timerCause io >>= _) = _
  rw [trapHandler, trapHandler, parseTrapCause_timer]
  rfl

end Kernel

theorem Kept.update_update {f g : ℕ → Option TaskContext} (h : Kept f g) (id : ℕ)
    (x : Option TaskContext) : Kept (Function.update f id x) (Function.update g id x) := by
  intro id' ctx hctx
  by_cases hid : id' = id
  · subst hid
    rwa [Function.update_self] at hctx ⊢
  · rw [Function.update_of_ne hid] at hctx ⊢
    exact h id' ctx hctx

namespace KernelInv

variable {M : Set ℕ} {L₀ : List Block} {k : Kernel} {q : RunQueue}

theorem setInitContext (h : KernelInv M L₀ k q) (regs : TaskContext) :
    KernelInv M L₀ { k with initContext := regs } q :=
  ⟨h.sched, h.current, h.sscratch, h.uart.received, h.uart.transmitted, h.uart.waiting⟩

/-- **An interrupt of the timer**: the task that runs then has the registers that are saved of it,
and of the others only those of the interrupted task have changed. -/
theorem tick (h : KernelInv M L₀ k q) (regs : TaskContext) (io : Inputs) :
    ∃ resumed k' q', k.trapEntry regs timerCause io = .ok (resumed, k') ∧ KernelInv M L₀ k' q' ∧
      Kept (k.savedAtTrap regs) k'.scheduler.saved ∧ WaitStep k.wait (.tick io.time) k'.wait ∧
      ∃ c, k'.scheduler.currentTaskId = some c ∧ k'.scheduler.saved c = some resumed := by
  have hallowed : k.Allowed (.trap regs timerCause io) := by
    intro hcause
    rw [parseTrapCause_timer] at hcause
    cases hcause
  obtain ⟨k', q', hstep, hinv', hwait⟩ := h.step hallowed
  obtain ⟨⟨resumed, k₁⟩, hk₁, hk'⟩ := exists_of_bind_eq_ok hstep
  cases hk'
  obtain ⟨hkept, hload⟩ := h.trap_saved hallowed hk₁
  obtain ⟨c, hc⟩ := current_of_tick hk₁
  rw [label, parseTrapCause_timer] at hwait
  rw [savedAfter, parseTrapCause_timer] at hkept
  exact ⟨resumed, k', q', hk₁, hinv', hkept, hwait, c, hc, hinv'.saved_current hc hload⟩

/-- **An interrupt of the timer before `first_switch_to`**: the chosen task has not begun, and its
context is as if it had been saved again. -/
theorem tick_early {c : ℕ} (h : KernelInv M L₀ k q) (hc : k.scheduler.currentTaskId = some c)
    (regs : TaskContext) (io : Inputs) :
    ∃ resumed k' q', trapEntry { k with sscratch := none } regs timerCause io = .ok (resumed, k') ∧
      KernelInv M L₀ k' q' ∧ Kept k.scheduler.saved k'.scheduler.saved ∧
      WaitStep k.wait (.tick io.time) k'.wait ∧
      ∃ c', k'.scheduler.currentTaskId = some c' ∧ k'.scheduler.saved c' = some resumed := by
  obtain ⟨ctx, hload⟩ := h.exists_load
  have hscratch : k.sscratch = some c := h.sscratch.trans hc
  have hsaved := h.saved_current hc hload
  rw [hscratch] at hload
  obtain ⟨resumed, k', q', hk', hinv', hkept, hwait, hrunning⟩ :=
    (h.setInitContext regs).tick ctx io
  have hsame : savedAtTrap { k with initContext := regs } ctx = k.scheduler.saved := by
    rw [savedAtTrap, hc]
    exact Function.update_eq_self_iff.mpr hsaved.symm
  rw [hsame] at hkept
  rw [trapEntry_early hscratch hload]
  exact ⟨resumed, k', q', hk', hinv', hkept, hwait, hrunning⟩

end KernelInv

/-- **An interrupt of the timer on the hart.** -/
theorem Machine.tick_refines {lay : ContextLayout} {m : Machine} {pc : ℕ} {io : Inputs}
    {resumed : TaskContext} {k : Kernel} (hscratch : m.csr .sscratch = lay.addr m.kernel.sscratch)
    (h : m.kernel.trapEntry { m with pc }.context timerCause io = .ok (resumed, k))
    (clobbered : Reg → ℕ) :
    ∃ m', ({ m with pc }.takeTrap timerCause).trapEntry lay clobbered io = .ok m' ∧
      m'.context = resumed ∧ m'.kernel = k ∧ m'.csr .sscratch = lay.addr k.sscratch ∧
      m'.mode = m.mode ∧ m'.sstatus.sie = m.sstatus.sie ∧ m'.sstatus.spp = false ∧
      m'.sstatus.spie = true := by
  obtain ⟨m', hm', hcontext, hkernel, hcsr⟩ :=
    trapEntry_refines (m := { m with pc }.takeTrap timerCause) hscratch h clobbered
  exact ⟨m', hm', hcontext, hkernel, hcsr, trap_keeps (m := { m with pc }) hm'⟩

/-! ## The ways to the first task -/

/-- How the first task gets on the hart. The boot code has called compiled code before, which leaves
anything in the registers `clobbered`, and so has `trap_handler`. -/
inductive FirstDispatch
  /-- The timer interrupts before `prepare_next_task`. -/
  | preempted (reg : Reg → ℕ) (pc : ℕ) (io : Inputs) (clobbered : Reg → ℕ)
  /-- The timer interrupts at `pc`, before the instruction with index `n` of `first_switch_to` or,
  if that is the first one, before the call. -/
  | interrupted (clobbered : Reg → ℕ) (n pc : ℕ) (io : Inputs) (clobbered' : Reg → ℕ)
  /-- `first_switch_to` gets to its end. -/
  | completed (clobbered : Reg → ℕ)

/-- A hart after the first dispatch. If `first_switch_to` has been interrupted, the task that it was
called for goes on with the rest of it, from the instruction with the index in `pending`. -/
structure SwitchSystem where
  hart : TrapSystem
  pending : Option (ℕ × ℕ)

namespace FirstDispatch

/-- The first instruction of `first_switch_to` has been executed. -/
def begins : FirstDispatch → Bool
  | .preempted .. | .interrupted _ 0 _ _ _ => false
  | .interrupted _ (_ + 1) _ _ _ | .completed _ => true

/-- **The privilege of the tasks**: supervisor, until the `sret` of `first_switch_to` is
executed. -/
def mode (d : FirstDispatch) (pending : Option (ℕ × ℕ)) : Privilege :=
  if d.begins ∧ pending = none then .user else .supervisor

/-- The index of the instruction that the first task goes on with. -/
def rest : FirstDispatch → Option ℕ
  | .interrupted _ (n + 1) _ _ _ => some (n + 1)
  | .preempted .. | .interrupted _ 0 _ _ _ | .completed _ => none

/-- **What becomes of the contexts** of the tasks. If the timer interrupts `first_switch_to` after
its first instruction, the registers of `first_switch_to` replace those of the task that
`prepare_next_task` chose. -/
def Saved (k k' : Kernel) : FirstDispatch → Prop
  | .interrupted _ (_ + 1) pc _ _ => ∃ s buddy first regs,
      k.scheduler.prepareNextTask k.buddy = .ok (s, buddy) ∧ s.currentTaskId = some first ∧
      regs.sepc = pc ∧ Kept (Function.update k.scheduler.saved first (some regs)) k'.scheduler.saved
  | .preempted .. | .interrupted _ 0 _ _ _ | .completed _ =>
      Kept k.scheduler.saved k'.scheduler.saved

theorem mode_some (d : FirstDispatch) (x : ℕ × ℕ) : d.mode (some x) = .supervisor := by
  simp [mode]

theorem mode_none {d : FirstDispatch} (h : d.begins = true) : d.mode none = .user := by
  simp [mode, h]

end FirstDispatch

/-- The events of a hart other than the call of `run_scheduler`, which the boot code makes once. -/
def HartEvent.InTask : HartEvent → Prop
  | .runScheduler _ => False
  | .spawn .. | .trap .. => True

instance : ∀ e : HartEvent, Decidable e.InTask
  | .runScheduler _ => inferInstanceAs (Decidable False)
  | .spawn .. | .trap .. => inferInstanceAs (Decidable True)

namespace TrapSystem

variable {lay : ContextLayout} {M : Set ℕ} {L₀ : List Block} {t t' : TrapSystem} {e : HartEvent}
  {mode : Privilege} {on : Bool}

/-- The first dispatch. No task has left the hart before it. -/
def dispatch (lay : ContextLayout) (t : TrapSystem) : FirstDispatch → Except Fault SwitchSystem
  | .preempted reg pc io clobbered => do
    let hart ← t.step lay (.trap reg pc timerCause io clobbered)
    .ok ⟨hart, none⟩
  | .interrupted clobbered n pc io clobbered' => do
    let m ← t.machine.switchUpTo lay clobbered n
    let hart ← step lay ⟨m, fun _ => none⟩ (.trap m.reg pc timerCause io clobbered')
    match m.kernel.sscratch with
    | some first => .ok ⟨hart, some (first, n)⟩
    -- the registers of the boot code are saved in `KERNEL_INIT_CONTEXT`
    | none => .ok ⟨{ hart with left := fun _ => none }, none⟩
  | .completed clobbered => do
    let hart ← t.step lay (.runScheduler clobbered)
    .ok ⟨hart, none⟩

/-- `init_supervisor_interrupts`: interrupts are turned on. The bits of `sie` that it sets for the
timer and for devices are left out. -/
def initSupervisorInterrupts (t : TrapSystem) : TrapSystem :=
  { t with machine := { t.machine with
    sstatus := t.machine.sstatus.assign Sstatus.sieMask true } }

/-- No task blocks. -/
def NoneBlocked (t : TrapSystem) : Prop := ∀ id, t.machine.kernel.scheduler.blocked id = none

/-- **Which `ecall`s come to the kernel**: those in user mode. An `ecall` in supervisor mode has the
cause 9, which goes to the firmware. -/
def Raises (t : TrapSystem) : HartEvent → Prop
  | .trap _ _ scause _ _ =>
    scause ≠ 9 ∧ (parseTrapCause scause = .userEcall → t.machine.mode = .user)
  | .runScheduler _ | .spawn .. => True

instance (t : TrapSystem) : ∀ e, Decidable (t.Raises e)
  | .trap .. => inferInstanceAs (Decidable (_ ∧ (_ → _)))
  | .runScheduler _ | .spawn .. => inferInstanceAs (Decidable True)

/-- A hart that runs with a privilege, with interrupts on or off. -/
structure RunsIn (lay : ContextLayout) (M : Set ℕ) (L₀ : List Block) (mode : Privilege) (on : Bool)
    (t : TrapSystem) : Prop where
  inv : t.Inv lay M L₀
  mode : t.machine.mode = mode
  sie : t.machine.sstatus.sie = on

/-- **A task is inside `first_switch_to`**, before the instruction with index `n`: on the hart, or
with the registers with which an interrupt found it there. -/
structure Midway (lay : ContextLayout) (first n : ℕ) (t : TrapSystem) : Prop where
  pos : 0 < n
  spp : t.machine.sstatus.spp = false
  spie : t.machine.sstatus.spie = true
  regs : (t.current = some first ∧ InSwitch lay (some first) n t.machine.context) ∨
    ∃ d, t.left first = some d ∧ d.cause ≠ .userEcall ∧ InSwitch lay (some first) n d.regs

/-! ## Steps of the hart -/

theorem allowed_of_ne {reg clobbered : Reg → ℕ} {pc scause : ℕ} {io : Inputs}
    (h : parseTrapCause scause ≠ .userEcall) : t.Allowed (.trap reg pc scause io clobbered) :=
  fun hcause => absurd hcause h

theorem departed_of_ne {c : ℕ} (h : t.current ≠ some c) (e : HartEvent) :
    t.departed e c = t.left c := by
  cases e with
  | runScheduler | spawn => rfl
  | trap reg pc scause io clobbered =>
    rw [departed]
    cases hc : t.current with
    | none => rfl
    | some c' =>
      refine Function.update_of_ne (fun heq => h ?_) _ _
      rw [hc, heq]

theorem run_keeps {machine : Machine} (he : e.InTask) (h : t.run lay e = .ok machine) :
    machine.mode = t.machine.mode ∧ Sstatus.Kept t.machine.sstatus machine.sstatus := by
  cases e with
  | runScheduler => exact he.elim
  | spawn =>
    obtain ⟨_, -, h⟩ := exists_of_bind_eq_ok h
    cases h
    exact ⟨rfl, .refl _⟩
  | trap reg pc =>
    obtain ⟨hmode, hsie, hspp, hspie⟩ := Machine.trap_keeps (m := { t.machine with reg, pc }) h
    exact ⟨hmode, hsie, fun _ => hspp, fun _ => hspie⟩

/-- **The step lemma**: traps and new tasks leave the privilege as it is. -/
theorem RunsIn.step (h : t.RunsIn lay M L₀ mode on) (hallowed : t.Allowed e) (he : e.InTask) :
    ∃ t', t.step lay e = .ok t' ∧ t'.RunsIn lay M L₀ mode on ∧
      WaitStep t.machine.kernel.wait (t.machine.kernel.label (t.event e))
        t'.machine.kernel.wait := by
  obtain ⟨t', ht', hinv', -, hwait, -⟩ := h.inv.step hallowed
  obtain ⟨machine, hrun, hmachine⟩ := exists_of_bind_eq_ok ht'
  cases hmachine
  obtain ⟨hmode, hkept⟩ := run_keeps he hrun
  exact ⟨_, ht', ⟨hinv', hmode.trans h.mode, hkept.sie.trans h.sie⟩, hwait⟩

/-- A stretch of `first_switch_to`. -/
theorem RunsIn.switched (h : t.RunsIn lay M L₀ mode on) {machine : Machine}
    (hswitched : Machine.Switched t.machine machine) :
    RunsIn lay M L₀ mode on { t with machine } := by
  have hkernel : machine.kernel = t.machine.kernel := hswitched.kernel
  refine ⟨⟨?_, ?_, ?_⟩, hswitched.mode.trans h.mode, hswitched.sstatus.sie.trans h.sie⟩
  · show ∃ q, KernelInv M L₀ machine.kernel q
    rw [hkernel]
    exact h.inv.kernel
  · show machine.csr .sscratch = lay.addr machine.kernel.sscratch
    rw [hkernel, hswitched.sscratch, h.inv.sscratch]
  · intro c d hd
    show machine.kernel.scheduler.currentTaskId ≠ some c ∧
      Held d (machine.kernel.scheduler.saved c) (machine.kernel.scheduler.blocked c)
    rw [hkernel]
    exact h.inv.left c d hd

/-- **A task that an interrupt found inside `first_switch_to`** goes on with the registers it
had. -/
theorem Inv.regs_of_departed {first n : ℕ} {d : Departure} (h : t.Inv lay M L₀)
    (hallowed : t.Allowed e) (hd : t.departed e first = some d) (hcause : d.cause ≠ .userEcall)
    (hin : InSwitch lay (some first) n d.regs) (ht' : t.step lay e = .ok t') :
    (t'.current = some first ∧ InSwitch lay (some first) n t'.machine.context) ∨
      ∃ d, t'.left first = some d ∧ d.cause ≠ .userEcall ∧ InSwitch lay (some first) n d.regs := by
  obtain ⟨t'', ht'', -, hk', hwait, -, hresumed⟩ := h.step hallowed
  cases ht''.symm.trans ht'
  obtain ⟨machine, hrun, hmachine⟩ := exists_of_bind_eq_ok ht'
  cases hmachine
  by_cases hc : machine.kernel.scheduler.currentTaskId = some first
  · have hheld := h.held hallowed hk' hwait hd
    rw [held_of_ne hcause, hresumed first d hc hd] at hheld
    have hregs : machine.context = d.regs := Option.some.inj hheld.1
    exact .inl ⟨hc, hregs ▸ hin⟩
  · exact .inr ⟨d, arrive_eq_some.mpr ⟨hc, hd⟩, hcause, hin⟩

/-- **A trap that finds a task inside `first_switch_to`.** -/
theorem Inv.midway_trap {first n pc scause : ℕ} {io : Inputs} {clobbered : Reg → ℕ}
    (h : t.Inv lay M L₀) (hc : t.current = some first) (hn : 0 < n)
    (hin : InSwitch lay (some first) n t.machine.context)
    (hcause : parseTrapCause scause ≠ .userEcall)
    (ht' : t.step lay (.trap t.machine.reg pc scause io clobbered) = .ok t') :
    t'.Midway lay first n := by
  have hd : t.departed (.trap t.machine.reg pc scause io clobbered) first =
      some ⟨{ t.machine with pc }.context, parseTrapCause scause⟩ := by
    rw [departed, hc]
    exact Function.update_self ..
  have hregs := h.regs_of_departed (n := n) (allowed_of_ne hcause) hd hcause
    ⟨hin.base, hin.clear, hin.set⟩ ht'
  obtain ⟨machine, hrun, hmachine⟩ := exists_of_bind_eq_ok ht'
  cases hmachine
  obtain ⟨-, -, hspp, hspie⟩ := Machine.trap_keeps (m := { t.machine with pc }) hrun
  exact ⟨hn, hspp, hspie, hregs⟩

/-- **An event while the task inside `first_switch_to` is not on the hart.** -/
theorem Midway.step {first n : ℕ} (hmid : t.Midway lay first n) (h : t.Inv lay M L₀)
    (hne : t.current ≠ some first) (hallowed : t.Allowed e) (he : e.InTask)
    (ht' : t.step lay e = .ok t') : t'.Midway lay first n := by
  obtain ⟨d, hd, hcause, hin⟩ := hmid.regs.resolve_left fun hregs => hne hregs.1
  have hregs := h.regs_of_departed hallowed ((departed_of_ne hne e).trans hd) hcause hin ht'
  obtain ⟨machine, hrun, hmachine⟩ := exists_of_bind_eq_ok ht'
  cases hmachine
  have hkept := (run_keeps he hrun).2
  exact ⟨hmid.pos, hkept.spp hmid.spp, hkept.spie hmid.spie, hregs⟩

/-- **An interrupt of the timer**: some task is on the hart after it, with the registers that are
saved of it. -/
theorem RunsIn.tick (h : t.RunsIn lay M L₀ mode on) (reg : Reg → ℕ) (pc : ℕ) (io : Inputs)
    (clobbered : Reg → ℕ) :
    ∃ t', t.step lay (.trap reg pc timerCause io clobbered) = .ok t' ∧ t'.RunsIn lay M L₀ mode on ∧
      Kept (t.machine.kernel.savedAtTrap { t.machine with reg, pc }.context)
        t'.machine.kernel.scheduler.saved ∧
      (t.NoneBlocked → t'.NoneBlocked) ∧
      ∃ c, t'.current = some c ∧
        t'.machine.kernel.scheduler.saved c = some t'.machine.context := by
  obtain ⟨q, hinv⟩ := h.inv.kernel
  have hallowed : t.Allowed (.trap reg pc timerCause io clobbered) := allowed_of_ne (by decide)
  obtain ⟨t', ht', hruns, -⟩ := h.step hallowed trivial
  obtain ⟨resumed, k', q', hk', -, hkept, hwait, c, hc, hsaved⟩ :=
    hinv.tick { t.machine with reg, pc }.context io
  obtain ⟨m', hm', hcontext, rfl, -⟩ :=
    Machine.tick_refines (m := { t.machine with reg }) h.inv.sscratch hk' clobbered
  refine ⟨t', ht', hruns, ?_⟩
  obtain ⟨machine, hrun, hmachine⟩ := exists_of_bind_eq_ok ht'
  cases hm'.symm.trans hrun
  cases hmachine
  exact ⟨hkept, fun hblocked id => hwait.blocked_eq_none (hblocked id) (by simp [WaitLabel.blocks]),
    c, hc, hcontext ▸ hsaved⟩

/-- An event that is no system call blocks no task. -/
theorem NoneBlocked.of_noCall (h : t.NoneBlocked)
    (hcall : ∀ reg pc scause io clobbered, e = .trap reg pc scause io clobbered →
      parseTrapCause scause ≠ .userEcall)
    (hwait : WaitStep t.machine.kernel.wait (t.machine.kernel.label (t.event e))
      t'.machine.kernel.wait) : t'.NoneBlocked := by
  intro id
  refine hwait.blocked_eq_none (h id) fun hblocks => ?_
  obtain ⟨-, regs, scause, io, he, hcause⟩ := KernelInv.blocks_current hblocks
  cases e with
  | runScheduler | spawn => cases he
  | trap reg pc scause' io' clobbered =>
    cases he
    exact hcall reg pc scause io clobbered rfl hcause

/-- In supervisor mode no event blocks a task. -/
theorem NoneBlocked.step (h : t.NoneBlocked) (hraises : t.Raises e)
    (hmode : t.machine.mode = .supervisor)
    (hwait : WaitStep t.machine.kernel.wait (t.machine.kernel.label (t.event e))
      t'.machine.kernel.wait) : t'.NoneBlocked := by
  refine h.of_noCall (fun reg pc scause io clobbered he hcause => ?_) hwait
  subst he
  cases hmode.symm.trans (hraises.2 hcause)

end TrapSystem

/-! ## The first dispatch -/

/-- **The first task is on the hart**, with a privilege and with interrupts on, and with the
registers that are saved of it. -/
structure SwitchSystem.Entered (t : TrapSystem) (d : FirstDispatch) (t₁ : SwitchSystem) : Prop where
  mode : t₁.hart.machine.mode = d.mode t₁.pending
  sie : t₁.hart.machine.sstatus.sie = true
  rest : t₁.pending.map Prod.snd = d.rest
  saved : d.Saved t.machine.kernel t₁.hart.machine.kernel
  running : ∃ c, t₁.hart.current = some c ∧
    t₁.hart.machine.kernel.scheduler.saved c = some t₁.hart.machine.context

/-- **A hart between two events** after the first dispatch. -/
structure SwitchSystem.Inv (lay : ContextLayout) (M : Set ℕ) (L₀ : List Block) (d : FirstDispatch)
    (t : SwitchSystem) : Prop where
  runs : t.hart.RunsIn lay M L₀ (d.mode t.pending) true
  midway : ∀ first n, t.pending = some (first, n) → d.begins = true ∧ t.hart.Midway lay first n

theorem SwitchSystem.Inv.of_none {lay : ContextLayout} {M : Set ℕ} {L₀ : List Block}
    {d : FirstDispatch} {hart : TrapSystem} (h : hart.RunsIn lay M L₀ (d.mode none) true) :
    SwitchSystem.Inv lay M L₀ d ⟨hart, none⟩ :=
  ⟨h, fun _ _ hpending => by cases hpending⟩

namespace TrapSystem

/-- **The first dispatch goes well**: it returns with a task on the hart, and blocks none. -/
abbrev Dispatches (lay : ContextLayout) (M : Set ℕ) (L₀ : List Block) (t : TrapSystem)
    (d : FirstDispatch) : Prop :=
  ∃ t₁, t.dispatch lay d = .ok t₁ ∧ t₁.Inv lay M L₀ d ∧ SwitchSystem.Entered t d t₁ ∧
    (t.NoneBlocked → t₁.hart.NoneBlocked)

variable {lay : ContextLayout} {M : Set ℕ} {L₀ : List Block} {t : TrapSystem}

/-- The boot code is interrupted before it chooses a task. -/
theorem RunsIn.preempted (h : t.RunsIn lay M L₀ .supervisor true) (hnone : t.current = none)
    (reg : Reg → ℕ) (pc : ℕ) (io : Inputs) (clobbered : Reg → ℕ) :
    t.Dispatches lay M L₀ (.preempted reg pc io clobbered) := by
  obtain ⟨t₁, ht₁, hruns, hkept, hblocked, hrunning⟩ := h.tick reg pc io clobbered
  have hnone' : t.machine.kernel.scheduler.currentTaskId = none := hnone
  rw [savedAtTrap, hnone'] at hkept
  refine ⟨⟨t₁, none⟩, ?_, .of_none hruns, ⟨hruns.mode, hruns.sie, rfl, hkept, hrunning⟩, hblocked⟩
  rw [TrapSystem.dispatch, ht₁, ok_bind]

/-- **The boot code inside `first_switch_to`.** The scheduler has chosen the task `first`. -/
theorem RunsIn.switchUpTo (h : t.RunsIn lay M L₀ .supervisor true) (hnone : t.current = none)
    (clobbered : Reg → ℕ) (n : ℕ) :
    ∃ m k q buddy first, t.machine.switchUpTo lay clobbered n = .ok m ∧ m.mode = .supervisor ∧
      m.sstatus.sie = true ∧ KernelInv M L₀ k q ∧
      t.machine.kernel.scheduler.prepareNextTask t.machine.kernel.buddy =
        .ok (k.scheduler, buddy) ∧
      k.scheduler.currentTaskId = some first ∧
      Kept t.machine.kernel.scheduler.saved k.scheduler.saved ∧
      (t.NoneBlocked → ∀ id, k.scheduler.blocked id = none) ∧
      m.kernel = { k with sscratch := if n = 0 then none else k.sscratch } ∧
      m.csr .sscratch = lay.addr m.kernel.sscratch ∧
      (0 < n → InSwitch lay (some first) n m.context) := by
  obtain ⟨q, hinv⟩ := h.inv.kernel
  have hscratch : t.machine.csr .sscratch = lay.addr none := by
    rw [h.inv.sscratch, hinv.sscratch]
    exact congrArg lay.addr hnone
  obtain ⟨k₁, q₁, hstep, hinv₁, hquiet⟩ := hinv.step (e := .runScheduler) trivial
  obtain ⟨⟨resumed₁, k⟩, hrun, hk⟩ := exists_of_bind_eq_ok hstep
  cases hk
  obtain ⟨buddy, first, hprepare, hfirst⟩ := current_of_runScheduler hrun
  obtain ⟨m, hm, hmode, hsie, hkernel, hcsr, hin⟩ :=
    Machine.switchUpTo_spec hscratch hrun clobbered n
  rw [hinv₁.sscratch.trans hfirst] at hin
  exact ⟨m, k₁, q₁, buddy, first, hm, hmode.trans h.mode, hsie.trans h.sie, hinv₁, hprepare, hfirst,
    (hinv.runScheduler_saved hrun).1,
    fun hblocked id => hquiet.blocked_eq_none (hblocked id) (by simp [WaitLabel.blocks, label]),
    hkernel, hcsr, hin⟩

/-- The boot code is interrupted before the first instruction of `first_switch_to`. -/
theorem RunsIn.interrupted_zero (h : t.RunsIn lay M L₀ .supervisor true) (hnone : t.current = none)
    (clobbered : Reg → ℕ) (pc : ℕ) (io : Inputs) (clobbered' : Reg → ℕ) :
    t.Dispatches lay M L₀ (.interrupted clobbered 0 pc io clobbered') := by
  obtain ⟨m, k, q, buddy, first, hm, hmode, hsie, hinv, -, hfirst, hkept₁, hblocked₁, hkernel, hcsr,
    -⟩ := h.switchUpTo hnone clobbered 0
  rw [if_pos rfl] at hkernel
  have hsscratch : m.kernel.sscratch = none := by rw [hkernel]
  obtain ⟨resumed, k', q', hk', hinv', hkept, hwait, c, hc, hsaved⟩ :=
    hinv.tick_early hfirst { m with pc }.context io
  rw [← hkernel] at hk'
  obtain ⟨m', hm', hcontext, rfl, hcsr', hmode', hsie', -⟩ :=
    Machine.tick_refines hcsr hk' clobbered'
  have hruns : RunsIn lay M L₀ .supervisor true ⟨m', fun _ => none⟩ :=
    ⟨⟨⟨q', hinv'⟩, hcsr', fun c d hd => by cases hd⟩, hmode'.trans hmode, hsie'.trans hsie⟩
  refine ⟨⟨⟨m', fun _ => none⟩, none⟩, ?_, .of_none hruns,
    ⟨hruns.mode, hruns.sie, rfl, hkept₁.trans hkept, c, hc, hcontext ▸ hsaved⟩,
    fun hblocked id => hwait.blocked_eq_none (hblocked₁ hblocked id) (by simp [WaitLabel.blocks])⟩
  rw [TrapSystem.dispatch, hm, ok_bind, TrapSystem.step, TrapSystem.run]
  dsimp only
  rw [hm', ok_bind, ok_bind, hsscratch]

/-- `first_switch_to` is interrupted after its first instruction. -/
theorem RunsIn.interrupted_succ (h : t.RunsIn lay M L₀ .supervisor true) (hnone : t.current = none)
    (clobbered : Reg → ℕ) (n pc : ℕ) (io : Inputs) (clobbered' : Reg → ℕ) :
    t.Dispatches lay M L₀ (.interrupted clobbered (n + 1) pc io clobbered') := by
  obtain ⟨m, k, q, buddy, first, hm, hmode, hsie, hinv, hprepare, hfirst, hkept₁, hblocked₁,
    hkernel, hcsr, hin⟩ := h.switchUpTo hnone clobbered (n + 1)
  rw [if_neg n.succ_ne_zero] at hkernel
  have hkernel : m.kernel = k := hkernel
  subst hkernel
  have hruns : RunsIn lay M L₀ .supervisor true ⟨m, fun _ => none⟩ :=
    ⟨⟨⟨q, hinv⟩, hcsr, fun c d hd => by cases hd⟩, hmode, hsie⟩
  obtain ⟨t₁, ht₁, hruns₁, hkept, hblocked, hrunning⟩ := hruns.tick m.reg pc io clobbered'
  have hfirst' : m.kernel.scheduler.currentTaskId = some first := hfirst
  rw [savedAtTrap, hfirst'] at hkept
  refine ⟨⟨t₁, some (first, n + 1)⟩, ?_, ⟨hruns₁, ?_⟩,
    ⟨hruns₁.mode, hruns₁.sie, rfl, ⟨_, buddy, first, { m with pc }.context, hprepare, hfirst, rfl,
      (hkept₁.update_update first _).trans hkept⟩, hrunning⟩, hblocked ∘ hblocked₁⟩
  · rw [TrapSystem.dispatch, hm, ok_bind, ht₁, ok_bind, hinv.sscratch, hfirst]
  · rintro first' n' hpending
    cases hpending
    exact ⟨rfl, hruns.inv.midway_trap hfirst n.succ_pos (hin n.succ_pos) (by decide) ht₁⟩

/-- `first_switch_to` gets to its end. -/
theorem RunsIn.completed (h : t.RunsIn lay M L₀ .supervisor true) (clobbered : Reg → ℕ) :
    t.Dispatches lay M L₀ (.completed clobbered) := by
  obtain ⟨q, hinv⟩ := h.inv.kernel
  obtain ⟨t₁, ht₁, hinv₁, hstep, hwait, -⟩ :=
    h.inv.step (e := .runScheduler clobbered) (by trivial)
  have hdispatch : t.dispatch lay (.completed clobbered) = .ok ⟨t₁, none⟩ := by
    rw [TrapSystem.dispatch, ht₁, ok_bind]
  obtain ⟨⟨resumed, k⟩, hrun, hk⟩ := exists_of_bind_eq_ok hstep
  obtain ⟨m', hm', hcontext, rfl, -, hmode, hsie⟩ := Machine.runScheduler_refines lay hrun clobbered
  obtain ⟨machine, hrun', hmachine⟩ := exists_of_bind_eq_ok ht₁
  cases hm'.symm.trans hrun'
  cases hmachine
  obtain ⟨hkept, hload⟩ := hinv.runScheduler_saved hrun
  obtain ⟨buddy, c, -, hc⟩ := current_of_runScheduler hrun
  obtain ⟨q', hinv'⟩ := hinv₁.kernel
  refine ⟨_, hdispatch, .of_none ⟨hinv₁, hmode, hsie⟩, ⟨hmode, hsie, rfl, hkept, c, hc, ?_⟩,
    fun hblocked id => ?_⟩
  · rw [hinv'.saved_current hc hload, hcontext]
  · exact hwait.blocked_eq_none (hblocked id) (by simp [WaitLabel.blocks, label, event])

/-- **The first dispatch** returns, in whichever way it goes. -/
theorem RunsIn.dispatch (h : t.RunsIn lay M L₀ .supervisor true) (hnone : t.current = none)
    (d : FirstDispatch) : t.Dispatches lay M L₀ d := by
  cases d with
  | preempted reg pc io clobbered => exact h.preempted hnone reg pc io clobbered
  | interrupted clobbered n pc io clobbered' =>
    cases n with
    | zero => exact h.interrupted_zero hnone clobbered pc io clobbered'
    | succ n => exact h.interrupted_succ hnone clobbered n pc io clobbered'
  | completed clobbered => exact h.completed clobbered

/-- The hart when boot is over. -/
theorem RunsIn.boot (lay : ContextLayout) {free : ℕ → List ℕ}
    {buddy buddy' : BuddySystemFrameAllocator} {trampoline : ℕ} {entry : ℕ × ℕ} {s : Scheduler}
    (howns : Owns buddy free M L₀)
    (hinit : Scheduler.new.init buddy trampoline entry = .ok (.ok (), s, buddy')) (ier : ℕ)
    (ctx : TaskContext) {m : Machine} (hmode : m.mode = .supervisor) :
    (boot m (Kernel.boot s buddy' ier ctx) lay).RunsIn lay M L₀ .supervisor m.sstatus.sie ∧
      (boot m (Kernel.boot s buddy' ier ctx) lay).NoneBlocked := by
  refine ⟨⟨Inv.boot lay howns hinit ier ctx m, hmode, rfl⟩, fun id => ?_⟩
  exact congrFun (congrArg WaitState.blocked (KernelInv.boot howns hinit ier ctx).2) id

theorem RunsIn.initSupervisorInterrupts {mode : Privilege} {on : Bool}
    (h : t.RunsIn lay M L₀ mode on) : t.initSupervisorInterrupts.RunsIn lay M L₀ mode true where
  inv := ⟨h.inv.kernel, h.inv.sscratch, h.inv.left⟩
  mode := h.mode
  sie := by
    show (t.machine.sstatus.assign Sstatus.sieMask true).sie = true
    simp only [Sstatus.sie, Sstatus.getLsbD_assign, Nat.reduceLT, reduceIte]

/-- **The run lemma** for the time before the first dispatch. -/
theorem RunsIn.exec {mode : Privilege} {on : Bool} (h : t.RunsIn lay M L₀ mode on)
    {events : List HartEvent} {t' : TrapSystem}
    (hevents : Along (TrapSystem.step lay) (fun t e => t.Allowed e ∧ e.InTask) t events)
    (ht' : FallibleRun.exec (TrapSystem.step lay) t events = .ok t') :
    t'.RunsIn lay M L₀ mode on := by
  refine Along.invariant_exec (fun t e t' hruns hop ht' => ?_) h hevents ht'
  obtain ⟨t'', ht'', hruns', -⟩ := hruns.step hop.1 hop.2
  cases ht''.symm.trans ht'
  exact hruns'

/-- Before the first dispatch no task blocks. -/
theorem NoneBlocked.exec {on : Bool} (hblocked : t.NoneBlocked)
    (h : t.RunsIn lay M L₀ .supervisor on) {events : List HartEvent} {t' : TrapSystem}
    (hevents : Along (TrapSystem.step lay)
      (fun t e => t.Allowed e ∧ e.InTask ∧ t.Raises e) t events)
    (ht' : FallibleRun.exec (TrapSystem.step lay) t events = .ok t') : t'.NoneBlocked := by
  refine (Along.invariant_exec (I := fun t => RunsIn lay M L₀ .supervisor on t ∧ t.NoneBlocked)
    (fun t e t' hI hop ht' => ?_) ⟨h, hblocked⟩ hevents ht').2
  obtain ⟨t'', ht'', hruns', hwait⟩ := hI.1.step hop.1 hop.2.1
  cases ht''.symm.trans ht'
  exact ⟨hruns', hI.2.step hop.2.2 hI.1.mode hwait⟩

end TrapSystem

/-! ## After the first dispatch -/

/-- What happens to a hart after the first dispatch. -/
inductive SwitchEvent
  /-- An event while no task on the hart is inside `first_switch_to`. -/
  | hart (e : HartEvent)
  /-- The task inside `first_switch_to` gets to the instruction with index `n`, and is interrupted
  there. -/
  | interrupted (n pc scause : ℕ) (io : Inputs) (clobbered : Reg → ℕ)
  /-- The task inside `first_switch_to` gets to its end. -/
  | completed

namespace SwitchSystem

open TrapSystem (sampleLayout sampleTrap)

/-- The instruction that the task on the hart goes on with, if it is inside `first_switch_to`. -/
def switching (t : SwitchSystem) : Option ℕ :=
  match t.pending with
  | some (first, n) => if t.hart.current = some first then some n else none
  | none => none

/-- One event. -/
def step (lay : ContextLayout) (t : SwitchSystem) : SwitchEvent → Except Fault SwitchSystem
  | .hart e => do
    let hart ← t.hart.step lay e
    .ok ⟨hart, t.pending⟩
  | .interrupted n' pc scause io clobbered =>
    match t.switching with
    | some n => do
      let machine ←
        exec (Machine.instr lay) t.hart.machine ((firstSwitchTo.take n').drop n)
      let hart ← { t.hart with machine }.step lay (.trap machine.reg pc scause io clobbered)
      .ok ⟨hart, t.pending.map fun x => (x.1, n')⟩
    | none => .ok t
  | .completed =>
    match t.switching with
    | some n => do
      let machine ← exec (Machine.instr lay) t.hart.machine (firstSwitchTo.drop n)
      .ok ⟨{ t.hart with machine := machine.sret }, none⟩
    | none => .ok t

/-- The events after the first dispatch. Inside `first_switch_to` there are no exceptions. -/
def Allowed (t : SwitchSystem) : SwitchEvent → Prop
  | .hart e => t.hart.Allowed e ∧ e.InTask ∧ t.switching = none
  | .interrupted n' _ scause _ _ => (∃ n ∈ t.switching, n ≤ n') ∧
      (parseTrapCause scause = .supervisorTimerInterrupt ∨
        parseTrapCause scause = .supervisorExternalInterrupt)
  | .completed => t.switching ≠ none

instance (t : SwitchSystem) : ∀ e, Decidable (t.Allowed e)
  | .hart _ => inferInstanceAs (Decidable (_ ∧ _ ∧ _))
  | .interrupted .. => inferInstanceAs (Decidable ((∃ n ∈ _, _) ∧ (_ ∨ _)))
  | .completed => inferInstanceAs (Decidable (_ ≠ _))

variable {lay : ContextLayout} {M : Set ℕ} {L₀ : List Block} {d : FirstDispatch}
  {t t' : SwitchSystem} {n : ℕ}

theorem switching_eq_some (h : t.switching = some n) :
    ∃ first, t.pending = some (first, n) ∧ t.hart.current = some first := by
  unfold switching at h
  split at h
  · rename_i first n' hpending
    split at h
    · cases h
      exact ⟨first, hpending, ‹_›⟩
    · cases h
  · cases h

theorem current_ne_of_switching {first : ℕ} (h : t.switching = none)
    (hpending : t.pending = some (first, n)) : t.hart.current ≠ some first := by
  intro hc
  rw [switching, hpending] at h
  dsimp only at h
  rw [if_pos hc] at h
  cases h

/-- **The task on the hart is inside `first_switch_to`**: it can load from its context. -/
theorem Inv.of_switching (h : t.Inv lay M L₀ d) (hs : t.switching = some n) :
    ∃ first ctx, t.pending = some (first, n) ∧ t.hart.current = some first ∧ d.begins = true ∧
      t.hart.Midway lay first n ∧ InSwitch lay (some first) n t.hart.machine.context ∧
      t.hart.machine.kernel.loadContext (some first) = .ok ctx := by
  obtain ⟨first, hpending, hc⟩ := switching_eq_some hs
  obtain ⟨hbegins, hmid⟩ := h.midway first n hpending
  obtain ⟨q, hinv⟩ := h.runs.inv.kernel
  obtain ⟨ctx, hload⟩ := hinv.exists_load
  rw [hinv.sscratch, show t.hart.machine.kernel.scheduler.currentTaskId = _ from hc] at hload
  rcases hmid.regs with hregs | ⟨dep, hdep, -⟩
  · exact ⟨first, ctx, hpending, hc, hbegins, hmid, hregs.2, hload⟩
  · exact absurd hc (h.runs.inv.left first dep hdep).1

/-- Which `ecall`s come to the kernel. -/
def Raises (t : SwitchSystem) : SwitchEvent → Prop
  | .hart e => t.hart.Raises e
  | .interrupted .. | .completed => True

instance (t : SwitchSystem) : ∀ e, Decidable (t.Raises e)
  | .hart _ => inferInstanceAs (Decidable (t.hart.Raises _))
  | .interrupted .. | .completed => inferInstanceAs (Decidable True)

/-- **No system call is served in supervisor mode**: no task sleeps, and none waits for a byte. -/
def Unserved (t : SwitchSystem) : Prop :=
  t.hart.machine.mode = .supervisor → t.hart.NoneBlocked

/-- An event outside `first_switch_to`. -/
theorem Inv.hart (h : t.Inv lay M L₀ d) {e : HartEvent} (hallowed : t.Allowed (.hart e)) :
    ∃ t', t.step lay (.hart e) = .ok t' ∧ t'.Inv lay M L₀ d ∧
      (t.Raises (.hart e) → t.Unserved → t'.Unserved) := by
  obtain ⟨hallowed, he, hs⟩ := hallowed
  obtain ⟨hart, hhart, hruns, hwait⟩ := h.runs.step hallowed he
  refine ⟨⟨hart, t.pending⟩, ?_, ⟨hruns, fun first n hpending => ?_⟩,
    fun hraises hunserved hmode => ?_⟩
  · rw [SwitchSystem.step, hhart, ok_bind]
  · obtain ⟨hbegins, hmid⟩ := h.midway first n hpending
    exact ⟨hbegins, hmid.step h.runs.inv (current_ne_of_switching hs hpending) hallowed he hhart⟩
  · have hmode' : t.hart.machine.mode = .supervisor :=
      (h.runs.mode.trans hruns.mode.symm).trans hmode
    exact (hunserved hmode').step hraises hmode' hwait

/-- The task inside `first_switch_to` is interrupted again. -/
theorem Inv.interrupted (h : t.Inv lay M L₀ d) {n' pc scause : ℕ} {io : Inputs}
    {clobbered : Reg → ℕ} (hallowed : t.Allowed (.interrupted n' pc scause io clobbered)) :
    ∃ t', t.step lay (.interrupted n' pc scause io clobbered) = .ok t' ∧ t'.Inv lay M L₀ d ∧
      (t.Unserved → t'.Unserved) := by
  obtain ⟨⟨n, hs, hle⟩, hinterrupt⟩ := hallowed
  have hcause : parseTrapCause scause ≠ .userEcall := by
    rcases hinterrupt with h | h <;> simp [h]
  obtain ⟨first, ctx, hpending, hc, hbegins, hmid, hin, hload⟩ := h.of_switching hs
  obtain ⟨machine, hmachine, hswitched, hin'⟩ := Machine.exec_switch hmid.pos hle hin hload
  have hruns := h.runs
  rw [hpending, d.mode_some] at hruns
  have hruns₁ := hruns.switched hswitched
  have hc₁ : TrapSystem.current { t.hart with machine } = some first := by
    rw [TrapSystem.current, hswitched.kernel]
    exact hc
  obtain ⟨hart, hhart, hruns', hwait⟩ :=
    hruns₁.step (e := .trap machine.reg pc scause io clobbered) (TrapSystem.allowed_of_ne hcause)
      trivial
  refine ⟨⟨hart, some (first, n')⟩, ?_, ⟨?_, ?_⟩, fun hunserved _ => ?_⟩
  · rw [SwitchSystem.step, hs]
    dsimp only
    rw [hmachine, ok_bind, hhart, ok_bind, hpending]
    rfl
  · show hart.RunsIn lay M L₀ (d.mode (some (first, n'))) true
    rw [d.mode_some]
    exact hruns'
  · intro first' n'' hpending'
    cases hpending'
    exact ⟨hbegins, hruns₁.inv.midway_trap hc₁ (hmid.pos.trans_le hle) hin' hcause hhart⟩
  · have hblocked : TrapSystem.NoneBlocked { t.hart with machine } := by
      intro id
      show machine.kernel.scheduler.blocked id = none
      rw [hswitched.kernel]
      exact hunserved hruns.mode id
    refine hblocked.of_noCall (fun reg pc scause io clobbered he => ?_) hwait
    cases he
    exact hcause

/-- The task inside `first_switch_to` gets to its `sret`, which enters user mode. -/
theorem Inv.completed (h : t.Inv lay M L₀ d) (hallowed : t.Allowed .completed) :
    ∃ t', t.step lay .completed = .ok t' ∧ t'.Inv lay M L₀ d ∧ t'.Unserved := by
  obtain ⟨n, hs⟩ := Option.ne_none_iff_exists'.mp hallowed
  obtain ⟨first, ctx, hpending, -, hbegins, hmid, hin, hload⟩ := h.of_switching hs
  obtain ⟨machine, hmachine, hswitched⟩ := Machine.exec_switch_rest hmid.pos hin hload
  have hruns := h.runs.switched hswitched
  have hspp : machine.sstatus.spp = false := hswitched.sstatus.spp hmid.spp
  have hmode : machine.sret.mode = .user := by
    rw [Machine.sret, hspp]
    rfl
  have hsie : machine.sret.sstatus.sie = true :=
    (Sstatus.sie_sret _).trans (hswitched.sstatus.spie hmid.spie)
  refine ⟨⟨{ t.hart with machine := machine.sret }, none⟩, ?_, .of_none ?_, fun hsupervisor => ?_⟩
  · rw [SwitchSystem.step, hs]
    dsimp only
    rw [hmachine, ok_bind]
  · rw [FirstDispatch.mode_none hbegins]
    exact ⟨⟨hruns.inv.kernel, hruns.inv.sscratch, hruns.inv.left⟩, hmode, hsie⟩
  · cases hmode.symm.trans hsupervisor

/-- **The step lemma** after the first dispatch. -/
theorem Inv.step (h : t.Inv lay M L₀ d) {e : SwitchEvent} (hallowed : t.Allowed e) :
    ∃ t', t.step lay e = .ok t' ∧ t'.Inv lay M L₀ d ∧
      (t.Raises e → t.Unserved → t'.Unserved) := by
  cases e with
  | hart e => exact h.hart hallowed
  | interrupted n pc scause io clobbered =>
    obtain ⟨t', ht', hinv', hunserved⟩ := h.interrupted hallowed
    exact ⟨t', ht', hinv', fun _ => hunserved⟩
  | completed =>
    obtain ⟨t', ht', hinv', hunserved⟩ := h.completed hallowed
    exact ⟨t', ht', hinv', fun _ _ => hunserved⟩

/-! ## Whole runs -/

/-- **The privilege of all tasks.** The boot code spawns tasks and turns interrupts on. However the
first task then gets on the hart, interrupts are on, and the contexts of the tasks are kept unless
`first_switch_to` is interrupted after its first instruction. In every later run each event returns
with interrupts on, in supervisor mode as long as the `sret` of `first_switch_to` has not been
executed, and in user mode from then on. -/
theorem privilege_along (lay : ContextLayout) {free : ℕ → List ℕ}
    {buddy buddy' : BuddySystemFrameAllocator} {trampoline : ℕ} {entry : ℕ × ℕ} {s : Scheduler}
    (howns : Owns buddy free M L₀)
    (hinit : Scheduler.new.init buddy trampoline entry = .ok (.ok (), s, buddy')) (ier : ℕ)
    (ctx : TaskContext) (m : Machine) (hmode : m.mode = .supervisor) (before : List HartEvent)
    (t : TrapSystem)
    (hbefore : Along (TrapSystem.step lay) (fun t e => t.Allowed e ∧ e.InTask)
      (TrapSystem.boot m (Kernel.boot s buddy' ier ctx) lay) before)
    (ht : exec (TrapSystem.step lay) (TrapSystem.boot m (Kernel.boot s buddy' ier ctx) lay) before =
      .ok t)
    (hnone : t.current = none) (d : FirstDispatch) :
    ∃ t₁, t.initSupervisorInterrupts.dispatch lay d = .ok t₁ ∧
      Entered t.initSupervisorInterrupts d t₁ ∧
      ∀ later, Along (step lay) Allowed t₁ later →
        Along (step lay) (fun t e => ∃ t', t.step lay e = .ok t' ∧
          t'.hart.machine.mode = d.mode t'.pending ∧ t'.hart.machine.sstatus.sie = true)
          t₁ later := by
  have hruns := (TrapSystem.RunsIn.boot lay howns hinit ier ctx hmode).1.exec hbefore ht
  obtain ⟨t₁, ht₁, hinv₁, hentered, -⟩ := hruns.initSupervisorInterrupts.dispatch hnone d
  refine ⟨t₁, ht₁, hentered, fun later hlater => ?_⟩
  refine Along.of_invariant (I := Inv lay M L₀ d) (fun t e hI hop => ?_) hinv₁ hlater
  obtain ⟨t', ht', hI', -⟩ := hI.step hop
  refine ⟨⟨t', ht', hI'.runs.mode, hI'.runs.sie⟩, fun t'' ht'' => ?_⟩
  cases ht'.symm.trans ht''
  exact hI'

/-- Two tasks are spawned. -/
def sampleBefore : List HartEvent := [.spawn 400 (1, 1) 4096 1, .spawn 400 (2, 1) 4096 1]

/-- The timer interrupts `first_switch_to` before its fourth instruction, at `0x8020_0400`. -/
def sampleInterrupted : FirstDispatch :=
  .interrupted (fun _ => 0) 3 0x80200400 ⟨100000, 0, 0, 0⟩ fun _ => 0

/-- The first task is resumed, is interrupted again in `first_switch_to`, is resumed, gets to the
end of `first_switch_to` and sleeps. -/
def sampleLater : List SwitchEvent :=
  [.hart (sampleTrap 7 timerCause ⟨200000, 0, 0, 0⟩),
    .interrupted 20 0x80200440 timerCause ⟨300000, 0, 0, 0⟩ fun _ => 0,
    .hart (sampleTrap 7 timerCause ⟨400000, 0, 0, 0⟩), .completed,
    .hart (sampleTrap 17 8 ⟨450000, 0, 0, 0⟩)]

/-- The first task has lost its registers, and tasks run in supervisor mode until it has gone
through the rest of `first_switch_to`. -/
theorem privilege_along_sample : ∃ t t₁ t₂,
    exec (TrapSystem.step sampleLayout) TrapSystem.sample sampleBefore = .ok t ∧
    t.initSupervisorInterrupts.dispatch sampleLayout sampleInterrupted = .ok t₁ ∧
    (t.machine.kernel.scheduler.saved 1).map TaskContext.sepc = some 400 ∧
    (t₁.hart.machine.kernel.scheduler.saved 1).map TaskContext.sepc = some 0x80200400 ∧
    t₁.hart.machine.mode = .supervisor ∧
    exec (step sampleLayout) t₁ sampleLater = .ok t₂ ∧ t₂.hart.machine.mode = .user ∧
    Along (step sampleLayout) (fun t e => ∃ t', t.step sampleLayout e = .ok t' ∧
      t'.hart.machine.mode = sampleInterrupted.mode t'.pending ∧
      t'.hart.machine.sstatus.sie = true) t₁ sampleLater := by
  obtain ⟨t, ht, hdata⟩ := exists_of_map_eq_ok
    (x := exec (TrapSystem.step sampleLayout) TrapSystem.sample sampleBefore)
    (f := fun t => (t.current, (t.machine.kernel.scheduler.saved 1).map TaskContext.sepc,
      (t.initSupervisorInterrupts.dispatch sampleLayout sampleInterrupted).toOption.map
        fun t₁ : SwitchSystem => ((t₁.hart.machine.kernel.scheduler.saved 1).map TaskContext.sepc,
          decide (t₁.hart.machine.mode = .supervisor ∧
            Along (step sampleLayout) Allowed t₁ sampleLater ∧
            (exec (step sampleLayout) t₁ sampleLater).toOption.map
              (fun t₂ => t₂.hart.machine.mode) = some .user))))
    (a := (none, some 400, some (some 0x80200400, true))) (by decide +kernel)
  simp only [Prod.mk.injEq] at hdata
  obtain ⟨hnone, hbefore, hdata⟩ := hdata
  obtain ⟨free, howns⟩ := @Owns.ofRegion 0x80000 0x80008 (by decide) (by decide)
  obtain ⟨t₁, ht₁, -, hlater⟩ := privilege_along sampleLayout howns SchedSystem.sample_init 0
    TaskContext.zero _ rfl _ t (by decide +kernel) ht hnone sampleInterrupted
  rw [ht₁] at hdata
  obtain ⟨hsaved, hdata⟩ := Prod.mk.inj (Option.some.inj hdata)
  obtain ⟨hmode, hallowed, hdata⟩ := of_decide_eq_true hdata
  cases ht₂ : exec (step sampleLayout) t₁ sampleLater with
  | error fault =>
    rw [ht₂] at hdata
    cases hdata
  | ok t₂ =>
    rw [ht₂] at hdata
    exact ⟨t, t₁, t₂, ht, ht₁, hbefore, hsaved, hmode, ht₂, Option.some.inj hdata,
      hlater _ hallowed⟩

end SwitchSystem

end CharlotteOs
