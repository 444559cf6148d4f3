import CharlotteOs.Task.SchedulerRuns
import CharlotteOs.Trap.SavedRegs

/-!
# What tasks resume with

From boot on, a hart takes traps and tasks are spawned. The registers at a trap are remembered with
the task that left the hart and the cause, until the task runs again.

A task that was stopped by an interrupt resumes with the registers it had, whatever happens in
between: the only write to the saved registers of a task that does not run is that of a byte, and
bytes go to blocked tasks. A task that made a system call resumes after its `ecall`.
`uart_write_byte` puts zero into `a0`, and a byte that finds a task blocked in `sleep` is put into
`a0` as well, where the wrappers of `src/userlib/syscall.rs` declare `a0` as an input only. An
`ecall` with a number that `trap_handler` has no arm for returns to the `ecall`, which is executed
again and again.

The first dispatch is one event here. `Trap/FirstDispatch.lean` has the runs in which the timer
interrupts it.

## Main definitions

* `HartEvent`, `TrapSystem`: the events of a hart, and the hart with the tasks that left it
* `TrapSystem.Transparent`: what a task resumes with after an interrupt
* `TrapSystem.CallsPreserve`: what a task resumes with after a system call
* `TrapSystem.EcallAdvances`: where a task resumes after an `ecall`

## Main results

* `TrapSystem.transparent_along`: interrupts are transparent in every run
* `TrapSystem.callsPreserve_along`: system calls keep the registers they should, in runs without a
  byte written other than zero and without a byte delivered to a sleeping task
* `TrapSystem.ecallAdvances_along_iff`: a task resumes after its `ecall` in exactly the runs whose
  `ecall`s all have a number that `trap_handler` knows
-/

namespace CharlotteOs

open DyadicTiling FallibleRun BuddySystemFrameAllocator Kernel Scheduler

/-- What happens to a hart: the first dispatch, a new task, or a trap with the registers and the
program counter it finds. Compiled code leaves anything in the registers `clobbered`. -/
inductive HartEvent
  | runScheduler (clobbered : Reg → ℕ)
  | spawn (trampoline : ℕ) (entry : ℕ × ℕ) (stackSize priority : ℕ)
  | trap (reg : Reg → ℕ) (pc scause : ℕ) (io : Inputs) (clobbered : Reg → ℕ)

/-- The registers with which a task left the hart, and the cause. -/
structure Departure where
  regs : TaskContext
  cause : TrapCause
  deriving DecidableEq, Repr

/-- A hart, and for each task that left it and has not run since, how it left. -/
structure TrapSystem where
  machine : Machine
  left : ℕ → Option Departure

namespace TrapSystem

/-- The task that is current. -/
def current (t : TrapSystem) : Option ℕ := t.machine.kernel.scheduler.currentTaskId

/-- The event as the kernel sees it. -/
def event (t : TrapSystem) : HartEvent → Event
  | .runScheduler _ => .runScheduler
  | .spawn trampoline entry stackSize priority => .spawn trampoline entry stackSize priority
  | .trap reg pc scause io _ => .trap { t.machine with reg, pc }.context scause io

/-- The hart after an event. -/
def run (lay : ContextLayout) (t : TrapSystem) : HartEvent → Except Fault Machine
  | .runScheduler clobbered => t.machine.runScheduler lay clobbered
  | .spawn trampoline entry stackSize priority => do
    let kernel := t.machine.kernel
    let (_, scheduler, buddy) ←
      kernel.scheduler.spawn kernel.buddy trampoline entry stackSize priority
    .ok { t.machine with kernel := { kernel with scheduler, buddy } }
  | .trap reg pc scause io clobbered =>
    ({ t.machine with reg, pc }.takeTrap scause).trapEntry lay clobbered io

/-- The tasks that left, with the one that a trap finds running. -/
def departed (t : TrapSystem) : HartEvent → ℕ → Option Departure
  | .trap reg pc scause _ _ =>
    match t.current with
    | some c => Function.update t.left c
        (some ⟨{ t.machine with reg, pc }.context, parseTrapCause scause⟩)
    | none => t.left
  | .runScheduler _ | .spawn .. => t.left

/-- The tasks that left, without the one that runs. -/
def arrive (left : ℕ → Option Departure) : Option ℕ → ℕ → Option Departure
  | some c => Function.update left c none
  | none => left

/-- One event. -/
def step (lay : ContextLayout) (t : TrapSystem) (e : HartEvent) : Except Fault TrapSystem := do
  let machine ← t.run lay e
  .ok ⟨machine, arrive (t.departed e) machine.kernel.scheduler.currentTaskId⟩

/-- The events from boot on. -/
def Allowed (t : TrapSystem) (e : HartEvent) : Prop := t.machine.kernel.Allowed (t.event e)

instance (t : TrapSystem) (e : HartEvent) : Decidable (t.Allowed e) :=
  inferInstanceAs (Decidable (t.machine.kernel.Allowed _))

/-- The hart after boot: `sscratch` points to `KERNEL_INIT_CONTEXT`. -/
def boot (m : Machine) (kernel : Kernel) (lay : ContextLayout) : TrapSystem :=
  ⟨{ m.setCsr .sscratch (lay.addr none) with kernel }, fun _ => none⟩

/-- **Interrupts are transparent**: after an event `sscratch` points to the context of the current
task, and a task that runs again after a timer or external interrupt has the registers and the
program counter from before it. -/
def Transparent (lay : ContextLayout) (t : TrapSystem) (e : HartEvent) (t' : TrapSystem) : Prop :=
  t'.machine.csr .sscratch = lay.addr t'.current ∧
    ∀ c d, t'.current = some c → t.departed e c = some d →
      d.cause = .supervisorTimerInterrupt ∨ d.cause = .supervisorExternalInterrupt →
      t'.machine.context = d.regs

/-- **System calls keep registers**: a task that runs again after a call of one of the wrappers is
after its `ecall`, with the registers from before it. Only `sys_read` has a result, in `a0`. -/
def CallsPreserve (t : TrapSystem) (e : HartEvent) (t' : TrapSystem) : Prop :=
  ∀ c d, t'.current = some c → t.departed e c = some d → d.cause = .userEcall →
    (d.regs.a7 = 1 ∨ d.regs.a7 = 17 → t'.machine.context = d.regs.skipEcall) ∧
    (d.regs.a7 = 27 → ∃ result, t'.machine.context = { d.regs.skipEcall with a0 := result })

/-- No byte is delivered to a task that is blocked in `sleep`. -/
def NoSleeperWoken (t : TrapSystem) : WaitLabel → Prop
  | .deliver id _ => (t.machine.kernel.scheduler.blocked id).map TaskContext.a7 ≠ some 17
  | _ => True

instance (t : TrapSystem) : ∀ label, Decidable (t.NoSleeperWoken label)
  | .deliver .. => inferInstanceAs (Decidable (_ ≠ _))
  | .quiet | .tick _ | .store _ | .drop _ | .take .. | .sleep .. | .wait .. =>
    inferInstanceAs (Decidable True)

/-- A byte that is written is zero. -/
def WritesZero : Event → Prop
  | .trap regs scause _ => parseTrapCause scause = .userEcall → regs.a7 = 1 → regs.a0 = 0
  | .runScheduler | .spawn .. => True

instance : ∀ e, Decidable (WritesZero e)
  | .trap .. => inferInstanceAs (Decidable (_ → _ → _))
  | .runScheduler | .spawn .. => inferInstanceAs (Decidable True)

/-! ## The registers that are kept for a task that left -/

/-- What is saved of a task that left. -/
def Held (d : Departure) (saved blocked : Option TaskContext) : Prop :=
  match d.cause with
  | .userEcall => d.regs.a7 = 17 ∨ d.regs.a7 = 27 →
      ∃ result, saved = some { d.regs.skipEcall with a0 := result }
  | _ => saved = some d.regs ∧ blocked = none

theorem arrive_eq_some {left : ℕ → Option Departure} {current : Option ℕ} {c : ℕ} {d : Departure} :
    arrive left current c = some d ↔ current ≠ some c ∧ left c = some d := by
  cases current with
  | none => simp [arrive]
  | some c' =>
    rw [arrive, Function.update_apply]
    by_cases hc : c = c'
    · simp [hc]
    · simp [hc, Ne.symm hc]

theorem held_of_ecall {d : Departure} {saved blocked : Option TaskContext}
    (h : d.cause = .userEcall) :
    Held d saved blocked ↔ (d.regs.a7 = 17 ∨ d.regs.a7 = 27 →
      ∃ result, saved = some { d.regs.skipEcall with a0 := result }) := by
  rw [Held, h]

theorem held_of_ne {d : Departure} {saved blocked : Option TaskContext} (h : d.cause ≠ .userEcall) :
    Held d saved blocked ↔ saved = some d.regs ∧ blocked = none := by
  rw [Held]
  split
  · exact absurd ‹_› h
  · rfl

/-- **A hart between two events.** -/
structure Inv (lay : ContextLayout) (M : Set ℕ) (L₀ : List Block) (t : TrapSystem) : Prop where
  kernel : ∃ q, KernelInv M L₀ t.machine.kernel q
  sscratch : t.machine.csr .sscratch = lay.addr t.machine.kernel.sscratch
  left : ∀ c d, t.left c = some d → t.current ≠ some c ∧
    Held d (t.machine.kernel.scheduler.saved c) (t.machine.kernel.scheduler.blocked c)

variable {lay : ContextLayout} {M : Set ℕ} {L₀ : List Block} {t t' : TrapSystem} {e : HartEvent}
  {c : ℕ} {d : Departure}

/-- **The hart does what the kernel model says.** Unless a task is spawned, the registers after the
event are those of the context that `sscratch` points to. -/
theorem Inv.run (h : t.Inv lay M L₀) (hallowed : t.Allowed e) :
    ∃ machine q, t.run lay e = .ok machine ∧ KernelInv M L₀ machine.kernel q ∧
      t.machine.kernel.step (t.event e) = .ok machine.kernel ∧
      WaitStep t.machine.kernel.wait (t.machine.kernel.label (t.event e)) machine.kernel.wait ∧
      machine.csr .sscratch = lay.addr machine.kernel.sscratch ∧
      (machine.kernel.loadContext machine.kernel.sscratch = .ok machine.context ∨
        t.departed e = t.left ∧ machine.kernel.scheduler.currentTaskId = t.current) := by
  obtain ⟨q, hinv⟩ := h.kernel
  obtain ⟨k', q', hk', hinv', hwait⟩ := hinv.step hallowed
  cases e with
  | runScheduler clobbered =>
    obtain ⟨⟨resumed, k₁⟩, hrun, hk₁⟩ := exists_of_bind_eq_ok hk'
    cases hk₁
    obtain ⟨m', hm', hcontext, rfl, hscratch, -⟩ :=
      Machine.runScheduler_refines lay hrun clobbered
    refine ⟨m', q', hm', hinv', hk', hwait, hscratch, .inl ?_⟩
    rw [hcontext]
    exact (hinv.runScheduler_saved hrun).2
  | spawn trampoline entry stackSize priority =>
    obtain ⟨⟨r, s, buddy⟩, hs, hk₁⟩ := exists_of_bind_eq_ok hk'
    cases hk₁
    refine ⟨{ t.machine with kernel := { t.machine.kernel with scheduler := s, buddy } }, q', ?_,
      hinv', hk', hwait, h.sscratch, .inr ⟨rfl, ?_⟩⟩
    · rw [TrapSystem.run]
      dsimp only
      rw [hs, ok_bind]
    · exact hinv'.sscratch.symm.trans hinv.sscratch
  | trap reg pc scause io clobbered =>
    obtain ⟨⟨resumed, k₁⟩, hrun, hk₁⟩ := exists_of_bind_eq_ok hk'
    cases hk₁
    obtain ⟨m', hm', hcontext, rfl, hscratch⟩ := Machine.trapEntry_refines
      (m := { t.machine with reg, pc }.takeTrap scause) h.sscratch hrun clobbered
    refine ⟨m', q', hm', hinv', hk', hwait, hscratch, .inl ?_⟩
    rw [hcontext]
    exact (hinv.trap_saved hallowed hrun).2

/-- A task that left is the one that the trap at hand finds running, or one that left before. -/
theorem departed_cases (hd : t.departed e c = some d) :
    (∃ reg pc scause io clobbered, e = .trap reg pc scause io clobbered ∧ t.current = some c ∧
      d = ⟨{ t.machine with reg, pc }.context, parseTrapCause scause⟩) ∨
    (t.left c = some d) := by
  cases e with
  | runScheduler | spawn => exact .inr hd
  | trap reg pc scause io clobbered =>
    rw [departed] at hd
    cases hc : t.current with
    | none =>
      rw [hc] at hd
      exact .inr hd
    | some c' =>
      rw [hc] at hd
      have hd : Function.update t.left c' (some _) c = some d := hd
      by_cases hcc : c = c'
      · subst hcc
        rw [Function.update_self, Option.some.injEq] at hd
        exact .inl ⟨reg, pc, scause, io, clobbered, rfl, rfl, hd.symm⟩
      · rw [Function.update_of_ne hcc] at hd
        exact .inr hd

/-- **What is kept for the tasks that left**, after an event. -/
theorem Inv.held (h : t.Inv lay M L₀) (hallowed : t.Allowed e) {k' : Kernel}
    (hk' : t.machine.kernel.step (t.event e) = .ok k')
    (hwait : WaitStep t.machine.kernel.wait (t.machine.kernel.label (t.event e)) k'.wait)
    (hd : t.departed e c = some d) : Held d (k'.scheduler.saved c) (k'.scheduler.blocked c) := by
  obtain ⟨q, hinv⟩ := h.kernel
  rcases departed_cases hd with ⟨reg, pc, scause, io, clobbered, rfl, hc, rfl⟩ | hleft
  · obtain ⟨hstopped, hcalled⟩ := hinv.saved_trap hallowed hk' hc
    by_cases hcause : parseTrapCause scause = .userEcall
    · rw [held_of_ecall hcause]
      rintro (hcall | hcall)
      · exact ⟨reg .a0, hcalled hcause _ (callContext_sleep hcall)⟩
      · obtain ⟨result, hresult⟩ := callContext_read (k := t.machine.kernel) hcall
        exact ⟨result, hcalled hcause _ hresult⟩
    · rw [held_of_ne hcause]
      refine ⟨hstopped hcause, hwait.blocked_eq_none (hinv.blocked_current hc) fun hblocks => ?_⟩
      obtain ⟨-, _, _, _, he, hecall⟩ := KernelInv.blocks_current hblocks
      cases he
      exact hcause hecall
  · obtain ⟨hne, hheld⟩ := h.left c d hleft
    by_cases hcause : d.cause = .userEcall
    · rw [held_of_ecall hcause] at hheld ⊢
      intro hcall
      obtain ⟨result, hresult⟩ := hheld hcall
      rcases hinv.saved_other hallowed hk' hne hresult with hsame | ⟨byte, -, -, hbyte⟩
      · exact ⟨result, hsame⟩
      · exact ⟨byte, hbyte⟩
    · rw [held_of_ne hcause] at hheld ⊢
      obtain ⟨hsaved, hblocked⟩ := hheld
      refine ⟨?_, hwait.blocked_eq_none hblocked fun hblocks =>
        hne (KernelInv.blocks_current hblocks).1⟩
      rcases hinv.saved_other hallowed hk' hne hsaved with hsame | ⟨byte, -, hblocked', -⟩
      · exact hsame
      · rw [hblocked] at hblocked'
        cases hblocked'

/-- **The step lemma**: every allowed event returns and keeps the invariant, and a task that runs
after it has the registers that are saved of it. -/
theorem Inv.step (h : t.Inv lay M L₀) (hallowed : t.Allowed e) :
    ∃ t', t.step lay e = .ok t' ∧ t'.Inv lay M L₀ ∧
      t.machine.kernel.step (t.event e) = .ok t'.machine.kernel ∧
      WaitStep t.machine.kernel.wait (t.machine.kernel.label (t.event e)) t'.machine.kernel.wait ∧
      (∀ c d, t'.left c = some d → t.departed e c = some d) ∧
      ∀ c d, t'.current = some c → t.departed e c = some d →
        t'.machine.kernel.scheduler.saved c = some t'.machine.context := by
  obtain ⟨machine, q', hrun, hinv', hk', hwait, hscratch, hload⟩ := h.run hallowed
  refine ⟨⟨machine, arrive (t.departed e) machine.kernel.scheduler.currentTaskId⟩,
    by rw [TrapSystem.step, hrun, ok_bind], ⟨⟨q', hinv'⟩, hscratch, fun c d hd => ?_⟩, hk', hwait,
    fun c d hd => (arrive_eq_some.mp hd).2, fun c d hc hd => ?_⟩
  · obtain ⟨hne, hd⟩ := arrive_eq_some.mp hd
    exact ⟨hne, h.held hallowed hk' hwait hd⟩
  · rcases hload with hload | ⟨hsame, hcur⟩
    · exact hinv'.saved_current hc hload
    · rw [hsame] at hd
      exact absurd (hcur.symm.trans hc) (h.left c d hd).1

theorem Inv.boot (lay : ContextLayout) {free : ℕ → List ℕ}
    {buddy buddy' : BuddySystemFrameAllocator} {trampoline : ℕ} {entry : ℕ × ℕ} {s : Scheduler}
    (howns : Owns buddy free M L₀)
    (hinit : Scheduler.new.init buddy trampoline entry = .ok (.ok (), s, buddy')) (ier : ℕ)
    (ctx : TaskContext) (m : Machine) :
    (boot m (Kernel.boot s buddy' ier ctx) lay).Inv lay M L₀ where
  kernel := ⟨_, (KernelInv.boot howns hinit ier ctx).1⟩
  sscratch := rfl
  left _ _ hd := nomatch hd

/-- **Interrupts are transparent** in every run from boot on. -/
theorem transparent_along (lay : ContextLayout) {free : ℕ → List ℕ}
    {buddy buddy' : BuddySystemFrameAllocator} {trampoline : ℕ} {entry : ℕ × ℕ} {s : Scheduler}
    (howns : Owns buddy free M L₀)
    (hinit : Scheduler.new.init buddy trampoline entry = .ok (.ok (), s, buddy')) (ier : ℕ)
    (ctx : TaskContext) (m : Machine) (events : List HartEvent)
    (hevents : Along (step lay) Allowed (boot m (Kernel.boot s buddy' ier ctx) lay) events) :
    Along (step lay) (fun t e => ∃ t', t.step lay e = .ok t' ∧ t.Transparent lay e t')
      (boot m (Kernel.boot s buddy' ier ctx) lay) events := by
  refine Along.of_invariant (I := Inv lay M L₀) (fun t e ht hallowed => ?_)
    (Inv.boot lay howns hinit ier ctx m) hevents
  obtain ⟨t', ht', hinv', hk', hwait, -, hresumed⟩ := ht.step hallowed
  refine ⟨⟨t', ht', ?_, fun c d hc hd hcause => ?_⟩, fun t'' ht'' => ?_⟩
  · obtain ⟨q', hkernel⟩ := hinv'.kernel
    rw [hinv'.sscratch, hkernel.sscratch]
    rfl
  · have hheld := ht.held hallowed hk' hwait hd
    rw [held_of_ne (by rcases hcause with h | h <;> simp [h]), hresumed c d hc hd] at hheld
    exact Option.some.inj hheld.1
  · cases ht'.symm.trans ht''
    exact hinv'

/-- Contexts in a row, that of the kernel first. -/
def sampleLayout : ContextLayout where
  addr
    | none => 0
    | some id => id + 1
  contextAt
    | 0 => some none
    | id + 1 => some (some id)
  contextAt_addr p := by cases p <;> rfl

/-- The hart after boot. -/
def sample : TrapSystem :=
  let kernel := Kernel.boot SchedSystem.sample.scheduler SchedSystem.sample.buddy 0 TaskContext.zero
  boot ⟨fun _ => 0, 0, .supervisor, 0, fun _ => 0, kernel⟩ kernel sampleLayout

/-- A trap of a task that has a number in all of its registers. -/
def sampleTrap (value scause : ℕ) (io : Inputs) : HartEvent :=
  .trap (fun _ => value) value scause io fun _ => 0

/-- Two tasks are stopped by the timer in turn, and a byte comes in between. -/
theorem transparent_along_sample :
    Along (step sampleLayout)
      (fun t e => ∃ t', t.step sampleLayout e = .ok t' ∧ t.Transparent sampleLayout e t') sample
      [.spawn 0 (1, 1) 4096 1, .spawn 0 (1, 1) 4096 1, .runScheduler fun _ => 0,
        sampleTrap 7 (2 ^ 63 + 5) ⟨50000, 0, 0, 0⟩,
        sampleTrap 8 (2 ^ 63 + 9) ⟨60000, 10, 0b0100, 65⟩,
        sampleTrap 9 (2 ^ 63 + 5) ⟨100000, 0, 0, 0⟩] := by
  obtain ⟨free, howns⟩ := @Owns.ofRegion 0x80000 0x80008 (by decide) (by decide)
  exact transparent_along sampleLayout howns SchedSystem.sample_init 0 TaskContext.zero _ _
    (by decide +kernel)

/-! ## System calls -/

/-- The tasks that are in a system call: none writes a byte, and what is saved of those that sleep
are the registers from before. -/
def CallsHeld (t : TrapSystem) : Prop :=
  ∀ c d, t.left c = some d → d.cause = .userEcall → d.regs.a7 ≠ 1 ∧
    (d.regs.a7 = 17 → t.machine.kernel.scheduler.saved c = some d.regs.skipEcall)

/-- A task that sleeps keeps its registers, if no byte is delivered to it. -/
theorem Inv.sleep_saved (h : t.Inv lay M L₀) (hcalls : t.CallsHeld) (hallowed : t.Allowed e)
    (hquiet : t.NoSleeperWoken (t.machine.kernel.label (t.event e))) {k' : Kernel}
    (hk' : t.machine.kernel.step (t.event e) = .ok k') (hd : t.departed e c = some d)
    (hcause : d.cause = .userEcall) (hcall : d.regs.a7 = 17) :
    k'.scheduler.saved c = some d.regs.skipEcall := by
  obtain ⟨q, hinv⟩ := h.kernel
  rcases departed_cases hd with ⟨reg, pc, scause, io, clobbered, rfl, hc, rfl⟩ | hleft
  · exact (hinv.saved_trap hallowed hk' hc).2 hcause _ (callContext_sleep hcall)
  · have hsaved := (hcalls c d hleft hcause).2 hcall
    rcases hinv.saved_other hallowed hk' (h.left c d hleft).1 hsaved
      with hsame | ⟨byte, hlabel, hb, -⟩
    · exact hsame
    · rw [hlabel, NoSleeperWoken, hb] at hquiet
      exact absurd (congrArg some hcall) hquiet

/-- A task that has written a byte is the current one, and a byte that is zero is what it finds in
`a0`. -/
theorem Inv.write_saved (h : t.Inv lay M L₀) (hcalls : t.CallsHeld) (hallowed : t.Allowed e)
    {k' : Kernel} (hk' : t.machine.kernel.step (t.event e) = .ok k') (hd : t.departed e c = some d)
    (hcause : d.cause = .userEcall) (hcall : d.regs.a7 = 1) :
    k'.scheduler.currentTaskId = some c ∧ (WritesZero (t.event e) →
      k'.scheduler.saved c = some d.regs.skipEcall) := by
  obtain ⟨q, hinv⟩ := h.kernel
  rcases departed_cases hd with ⟨reg, pc, scause, io, clobbered, rfl, hc, rfl⟩ | hleft
  · obtain ⟨⟨resumed, k₁⟩, hk₁, hk⟩ := exists_of_bind_eq_ok hk'
    cases hk
    have hne : ∀ n ∈ [7, 9, 10, 17, 27], reg .a7 ≠ n := by
      have hcall : reg .a7 = 1 := hcall
      simp [hcall]
    refine ⟨(hinv.current_of_return hcause hne hk₁).trans hc, fun hzero => ?_⟩
    have hsaved := (hinv.saved_trap hallowed hk' hc).2 hcause _ (callContext_write hcall)
    rw [hsaved, ← hzero hcause hcall]
    rfl
  · exact absurd hcall (hcalls c d hleft hcause).1

/-- **System calls keep registers** in every run from boot on in which no byte other than zero is
written and no byte is delivered to a task that sleeps. -/
theorem callsPreserve_along (lay : ContextLayout) {free : ℕ → List ℕ}
    {buddy buddy' : BuddySystemFrameAllocator} {trampoline : ℕ} {entry : ℕ × ℕ} {s : Scheduler}
    (howns : Owns buddy free M L₀)
    (hinit : Scheduler.new.init buddy trampoline entry = .ok (.ok (), s, buddy')) (ier : ℕ)
    (ctx : TaskContext) (m : Machine) (events : List HartEvent)
    (hevents : Along (step lay) (fun t e => t.Allowed e ∧ WritesZero (t.event e) ∧
        t.NoSleeperWoken (t.machine.kernel.label (t.event e)))
      (boot m (Kernel.boot s buddy' ier ctx) lay) events) :
    Along (step lay) (fun t e => ∃ t', t.step lay e = .ok t' ∧ t.CallsPreserve e t')
      (boot m (Kernel.boot s buddy' ier ctx) lay) events := by
  refine Along.of_invariant (I := fun t => t.Inv lay M L₀ ∧ t.CallsHeld) (fun t e ht hop => ?_)
    ⟨Inv.boot lay howns hinit ier ctx m, fun c d hd => nomatch hd⟩ hevents
  obtain ⟨hI, hcalls⟩ := ht
  obtain ⟨hallowed, hzero, hquiet⟩ := hop
  obtain ⟨t', ht', hinv', hk', hwait, hstill, hresumed⟩ := hI.step hallowed
  refine ⟨⟨t', ht', fun c d hc hd hcause => ⟨?_, fun hcall => ?_⟩⟩, fun t'' ht'' => ?_⟩
  · have hsaved := hresumed c d hc hd
    rintro (hcall | hcall)
    · rw [(hI.write_saved hcalls hallowed hk' hd hcause hcall).2 hzero] at hsaved
      exact (Option.some.inj hsaved).symm
    · rw [hI.sleep_saved hcalls hallowed hquiet hk' hd hcause hcall] at hsaved
      exact (Option.some.inj hsaved).symm
  · have hheld := hI.held hallowed hk' hwait hd
    rw [held_of_ecall hcause, hresumed c d hc hd] at hheld
    obtain ⟨result, hresult⟩ := hheld (.inr hcall)
    exact ⟨result, Option.some.inj hresult⟩
  · cases ht'.symm.trans ht''
    refine ⟨hinv', fun c d hd hcause => ⟨fun hcall => ?_, fun hcall => ?_⟩⟩
    · exact (hinv'.left c d hd).1
        (hI.write_saved hcalls hallowed hk' (hstill c d hd) hcause hcall).1
    · exact hI.sleep_saved hcalls hallowed hquiet hk' (hstill c d hd) hcause hcall

/-- A system call of a task whose other registers hold `7`. -/
def sampleCall (a7 a0 time : ℕ) : HartEvent :=
  .trap (Function.update (Function.update (fun _ => 7) .a7 a7) .a0 a0) 400 8 ⟨time, 0, 0, 0⟩
    fun _ => 0

/-- A task sleeps, another one reads, gets a byte, and writes zero. -/
theorem callsPreserve_along_sample :
    Along (step sampleLayout)
      (fun t e => ∃ t', t.step sampleLayout e = .ok t' ∧ t.CallsPreserve e t')
      sample
      [.spawn 0 (1, 1) 4096 1, .spawn 0 (1, 1) 4096 1, .runScheduler fun _ => 0, sampleCall 17 10 0,
        sampleCall 27 usizeMax 10000, sampleTrap 8 (2 ^ 63 + 9) ⟨20000, 10, 0b0100, 65⟩,
        sampleTrap 9 (2 ^ 63 + 5) ⟨100000, 0, 0, 0⟩, sampleCall 1 0 110000] := by
  obtain ⟨free, howns⟩ := @Owns.ofRegion 0x80000 0x80008 (by decide) (by decide)
  exact callsPreserve_along sampleLayout howns SchedSystem.sample_init 0 TaskContext.zero _ _
    (by decide +kernel)

/-- The task that runs after an event and its `a0`, and how it had left the hart: the cause, `a7`
and `a0`. -/
def resumption (t : TrapSystem) (e : HartEvent) : Option (ℕ × ℕ × TrapCause × ℕ × ℕ) := do
  let t' ← (t.step sampleLayout e).toOption
  let c ← t'.current
  let d ← t.departed e c
  some (c, t'.machine.context.a0, d.cause, d.regs.a7, d.regs.a0)

/-- A task that resumes with another value in `a0` than it called `sleep` or `uart_write_byte`
with. -/
theorem not_callsPreserve {t : TrapSystem} {e : HartEvent} {c a7 a0 a0' : ℕ}
    (h : t.resumption e = some (c, a0', .userEcall, a7, a0)) (hcall : a7 = 1 ∨ a7 = 17)
    (hne : a0' ≠ a0) : ¬ ∃ t', t.step sampleLayout e = .ok t' ∧ t.CallsPreserve e t' := by
  rintro ⟨t', ht', hpreserve⟩
  rw [resumption, ht'] at h
  obtain ⟨t'', hsame, h⟩ := Option.bind_eq_some_iff.mp h
  cases hsame
  obtain ⟨c', hc, h⟩ := Option.bind_eq_some_iff.mp h
  obtain ⟨d, hd, h⟩ := Option.bind_eq_some_iff.mp h
  simp only [Option.some.injEq, Prod.mk.injEq] at h
  obtain ⟨-, ha0', hcause, ha7, ha0⟩ := h
  have hsame := (hpreserve c' d hc hd hcause).1 (by rwa [ha7])
  rw [hsame] at ha0'
  exact hne (ha0'.symm.trans ha0)

/-- **`a0` is lost** in two ways: a task writes the byte 65 and finds zero, and a task that sleeps
after a read that has timed out finds the byte 65 that is received then. -/
theorem callsPreserve_lost :
    (Along (step sampleLayout) Allowed sample
        [.spawn 0 (1, 1) 4096 1, .runScheduler fun _ => 0, sampleCall 1 65 0] ∧
      ¬ Along (step sampleLayout)
        (fun t e => ∃ t', t.step sampleLayout e = .ok t' ∧ t.CallsPreserve e t') sample
        [.spawn 0 (1, 1) 4096 1, .runScheduler fun _ => 0, sampleCall 1 65 0]) ∧
    Along (step sampleLayout) Allowed sample
        [.spawn 0 (1, 1) 4096 1, .runScheduler fun _ => 0, sampleCall 27 10 0,
          sampleTrap 9 (2 ^ 63 + 5) ⟨100000, 0, 0, 0⟩, sampleCall 17 1000 110000,
          sampleTrap 9 (2 ^ 63 + 9) ⟨120000, 10, 0b0100, 65⟩,
          sampleTrap 9 (2 ^ 63 + 5) ⟨150000, 0, 0, 0⟩] ∧
      ¬ Along (step sampleLayout)
        (fun t e => ∃ t', t.step sampleLayout e = .ok t' ∧ t.CallsPreserve e t') sample
        [.spawn 0 (1, 1) 4096 1, .runScheduler fun _ => 0, sampleCall 27 10 0,
          sampleTrap 9 (2 ^ 63 + 5) ⟨100000, 0, 0, 0⟩, sampleCall 17 1000 110000,
          sampleTrap 9 (2 ^ 63 + 9) ⟨120000, 10, 0b0100, 65⟩,
          sampleTrap 9 (2 ^ 63 + 5) ⟨150000, 0, 0, 0⟩] := by
  refine ⟨⟨by decide +kernel, fun hall => ?_⟩, by decide +kernel, fun hall => ?_⟩
  · obtain ⟨t, ht, hresume⟩ := exists_of_map_eq_ok
      (x := exec (step sampleLayout) sample [.spawn 0 (1, 1) 4096 1, .runScheduler fun _ => 0])
      (f := fun t => t.resumption (sampleCall 1 65 0)) (a := some (1, 0, .userEcall, 1, 65))
      (by decide +kernel)
    have hlast : Along (step sampleLayout) _ t [sampleCall 1 65 0] := Along.of_append hall ht
    exact not_callsPreserve hresume (by decide) (by decide) hlast.1
  · obtain ⟨t, ht, hresume⟩ := exists_of_map_eq_ok
      (x := exec (step sampleLayout) sample [.spawn 0 (1, 1) 4096 1, .runScheduler fun _ => 0,
        sampleCall 27 10 0, sampleTrap 9 (2 ^ 63 + 5) ⟨100000, 0, 0, 0⟩, sampleCall 17 1000 110000,
        sampleTrap 9 (2 ^ 63 + 9) ⟨120000, 10, 0b0100, 65⟩])
      (f := fun t => t.resumption (sampleTrap 9 (2 ^ 63 + 5) ⟨150000, 0, 0, 0⟩))
      (a := some (1, 65, .userEcall, 17, 1000)) (by decide +kernel)
    have hlast : Along (step sampleLayout) _ t [sampleTrap 9 (2 ^ 63 + 5) ⟨150000, 0, 0, 0⟩] :=
      Along.of_append hall ht
    exact not_callsPreserve hresume (by decide) (by decide) hlast.1

/-! ## Progress -/

/-- The calls that return to the task that made them. -/
def IsCall (a7 : ℕ) : Prop := a7 = 1 ∨ a7 = 7 ∨ a7 = 17 ∨ a7 = 27

instance (a7 : ℕ) : Decidable (IsCall a7) := inferInstanceAs (Decidable (_ ∨ _))

/-- **The condition**: the number of an `ecall` is that of a call, or that of the exit. -/
def KnownCall : Event → Prop
  | .trap regs scause _ => parseTrapCause scause = .userEcall → regs.a7 ≠ 9 → IsCall regs.a7
  | .runScheduler | .spawn .. => True

instance : ∀ e, Decidable (KnownCall e)
  | .trap .. => inferInstanceAs (Decidable (_ → _ → _))
  | .runScheduler | .spawn .. => inferInstanceAs (Decidable True)

/-- **An `ecall` makes progress**: a task that runs again after an `ecall` other than the exit is at
the instruction after it. -/
def EcallAdvances (t : TrapSystem) (e : HartEvent) (t' : TrapSystem) : Prop :=
  ∀ c d, t'.current = some c → t.departed e c = some d → d.cause = .userEcall → d.regs.a7 ≠ 9 →
    t'.machine.pc = (d.regs.sepc + 4) % 2 ^ 64

/-- What is saved of a task that is in a call is after its `ecall`. -/
def Advanced (d : Departure) (saved : Option TaskContext) : Prop :=
  d.cause = .userEcall → d.regs.a7 ≠ 9 →
    ∃ ctx, saved = some ctx ∧ ctx.sepc = (d.regs.sepc + 4) % 2 ^ 64

theorem callContext_of_isCall {k : Kernel} {regs : TaskContext} (h : IsCall regs.a7) :
    ∃ ctx, k.callContext regs = some ctx ∧ ctx.sepc = (regs.sepc + 4) % 2 ^ 64 := by
  rcases h with h | h | h | h
  · exact ⟨_, callContext_write h, rfl⟩
  · rw [callContext, h]
    exact ⟨_, rfl, rfl⟩
  · exact ⟨_, callContext_sleep h, rfl⟩
  · obtain ⟨result, hresult⟩ := callContext_read (k := k) h
    exact ⟨_, hresult, rfl⟩

/-- **What is saved of the tasks in a call** is after their `ecall`s, if the numbers are known. A
byte that is delivered in between changes `a0` only. -/
theorem Inv.advanced (h : t.Inv lay M L₀)
    (hleft : ∀ c d, t.left c = some d → Advanced d (t.machine.kernel.scheduler.saved c))
    (hallowed : t.Allowed e) (hknown : KnownCall (t.event e)) {k' : Kernel}
    (hk' : t.machine.kernel.step (t.event e) = .ok k') (hd : t.departed e c = some d) :
    Advanced d (k'.scheduler.saved c) := by
  intro hcause hexit
  obtain ⟨q, hinv⟩ := h.kernel
  rcases departed_cases hd with ⟨reg, pc, scause, io, clobbered, rfl, hc, rfl⟩ | hd
  · obtain ⟨ctx, hctx, hpc⟩ := callContext_of_isCall (k := t.machine.kernel) (hknown hcause hexit)
    exact ⟨ctx, (hinv.saved_trap hallowed hk' hc).2 hcause ctx hctx, hpc⟩
  · obtain ⟨ctx, hsaved, hpc⟩ := hleft c d hd hcause hexit
    rcases hinv.saved_other hallowed hk' (h.left c d hd).1 hsaved with hsame | ⟨byte, -, -, hbyte⟩
    · exact ⟨ctx, hsame, hpc⟩
    · exact ⟨_, hbyte, hpc⟩

/-- An `ecall` with another number returns to its task at once, with the registers from before. -/
theorem Inv.unknown_call (h : t.Inv lay M L₀) (hallowed : t.Allowed e)
    (hunknown : ¬ KnownCall (t.event e)) {k' : Kernel}
    (hk' : t.machine.kernel.step (t.event e) = .ok k') :
    ∃ c d, k'.scheduler.currentTaskId = some c ∧ t.departed e c = some d ∧ d.cause = .userEcall ∧
      d.regs.a7 ≠ 9 ∧ k'.scheduler.saved c = some d.regs := by
  obtain ⟨q, hinv⟩ := h.kernel
  cases e with
  | runScheduler | spawn => exact absurd trivial hunknown
  | trap reg pc scause io clobbered =>
    have hunknown : ¬ (parseTrapCause scause = .userEcall → reg .a7 ≠ 9 → IsCall (reg .a7)) :=
      hunknown
    push Not at hunknown
    obtain ⟨hcause, hexit, hcall⟩ := hunknown
    obtain ⟨hsome, -, hshutdown⟩ := hallowed hcause
    obtain ⟨c, hc⟩ := Option.ne_none_iff_exists'.mp hsome
    have hshutdown : reg .a7 ≠ 10 := hshutdown
    rw [IsCall] at hcall
    refine ⟨c, ⟨{ t.machine with reg, pc }.context, .userEcall⟩, ?_, ?_, rfl, hexit, ?_⟩
    · obtain ⟨⟨resumed, k₁⟩, hk₁, hk⟩ := exists_of_bind_eq_ok hk'
      cases hk
      have hne : ∀ n ∈ [7, 9, 10, 17, 27], reg .a7 ≠ n := by
        intro n hn heq
        simp only [List.mem_cons, List.not_mem_nil, or_false] at hn
        omega
      exact (hinv.current_of_return hcause hne hk₁).trans hc
    · have hcurrent : t.current = some c := hc
      rw [departed, hcurrent, hcause]
      exact Function.update_self ..
    · have hne : ∀ n ∈ [1, 7, 9, 17, 27], reg .a7 ≠ n := by
        intro n hn heq
        simp only [List.mem_cons, List.not_mem_nil, or_false] at hn
        omega
      exact (hinv.saved_trap hallowed hk' hc).2 hcause _ (callContext_unknown hne)

theorem ne_advance (pc : ℕ) : pc ≠ (pc + 4) % 2 ^ 64 := by omega

/-- **Every `ecall` makes progress**, in a run from boot on, exactly if the numbers of all `ecall`s
are known ones. A task that an unknown call returns to is at the same `ecall` again. -/
theorem ecallAdvances_along_iff (lay : ContextLayout) {free : ℕ → List ℕ}
    {buddy buddy' : BuddySystemFrameAllocator} {trampoline : ℕ} {entry : ℕ × ℕ} {s : Scheduler}
    (howns : Owns buddy free M L₀)
    (hinit : Scheduler.new.init buddy trampoline entry = .ok (.ok (), s, buddy')) (ier : ℕ)
    (ctx : TaskContext) (m : Machine) (events : List HartEvent)
    (hevents : Along (step lay) Allowed (boot m (Kernel.boot s buddy' ier ctx) lay) events) :
    Along (step lay) (fun t e => KnownCall (t.event e))
        (boot m (Kernel.boot s buddy' ier ctx) lay) events ↔
      Along (step lay) (fun t e => ∃ t', t.step lay e = .ok t' ∧ t.EcallAdvances e t')
        (boot m (Kernel.boot s buddy' ier ctx) lay) events := by
  refine Along.iff_of_invariant (I := fun t => t.Inv lay M L₀ ∧
      ∀ c d, t.left c = some d → Advanced d (t.machine.kernel.scheduler.saved c)) ?_ ?_
    ⟨Inv.boot lay howns hinit ier ctx m, fun c d hd => nomatch hd⟩ hevents
  · rintro t e ⟨hinv, hleft⟩ hallowed
    obtain ⟨t', ht', -, hk', -, -, hresumed⟩ := hinv.step hallowed
    constructor
    · intro hknown
      refine ⟨t', ht', fun c d hc hd hcause hexit => ?_⟩
      obtain ⟨ctx', hsaved, hpc⟩ := hinv.advanced hleft hallowed hknown hk' hd hcause hexit
      rw [hresumed c d hc hd, Option.some.injEq] at hsaved
      rw [← hpc, ← hsaved]
      rfl
    · rintro ⟨t'', ht'', hadvances⟩
      cases ht'.symm.trans ht''
      by_contra hunknown
      obtain ⟨c, d, hc, hd, hcause, hexit, hsaved⟩ := hinv.unknown_call hallowed hunknown hk'
      rw [hresumed c d hc hd, Option.some.injEq] at hsaved
      have hpc := hadvances c d hc hd hcause hexit
      rw [← hsaved] at hpc
      exact ne_advance t'.machine.pc hpc
  · rintro t e t' ⟨hinv, hleft⟩ hallowed hknown ht'
    obtain ⟨t'', ht'', hinv', hk', -, hstill, -⟩ := hinv.step hallowed
    cases ht'.symm.trans ht''
    exact ⟨hinv', fun c d hd => hinv.advanced hleft hallowed hknown hk' (hstill c d hd)⟩

/-- Calls of all four kinds, with an exit. -/
def sampleCalls : List HartEvent :=
  [.spawn 0 (1, 1) 4096 1, .spawn 0 (1, 1) 4096 1, .runScheduler fun _ => 0, sampleCall 17 10 0,
    sampleCall 27 usizeMax 10000, sampleTrap 8 (2 ^ 63 + 9) ⟨20000, 10, 0b0100, 65⟩,
    sampleTrap 9 (2 ^ 63 + 5) ⟨100000, 0, 0, 0⟩, sampleCall 1 65 110000, sampleCall 7 0 120000,
    sampleCall 9 0 130000]

theorem ecallAdvances_along_iff_sample : Along (step sampleLayout)
    (fun t e => ∃ t', t.step sampleLayout e = .ok t' ∧ t.EcallAdvances e t')
    sample sampleCalls := by
  obtain ⟨free, howns⟩ := @Owns.ofRegion 0x80000 0x80008 (by decide) (by decide)
  exact (ecallAdvances_along_iff sampleLayout howns SchedSystem.sample_init 0 TaskContext.zero _ _
    (by decide +kernel)).mp (by decide +kernel)

/-- A task makes an `ecall` at address `400` with the number `2`, which no call has, and runs again
at address `400`. -/
theorem ecall_repeated :
    Along (step sampleLayout) Allowed sample
      [.spawn 0 (1, 1) 4096 1, .runScheduler fun _ => 0, sampleCall 2 0 0] ∧
    ¬ Along (step sampleLayout)
      (fun t e => ∃ t', t.step sampleLayout e = .ok t' ∧ t.EcallAdvances e t') sample
      [.spawn 0 (1, 1) 4096 1, .runScheduler fun _ => 0, sampleCall 2 0 0] := by
  refine ⟨by decide +kernel, fun hall => ?_⟩
  obtain ⟨t, ht, hresume⟩ := exists_of_map_eq_ok
    (x := exec (step sampleLayout) sample [.spawn 0 (1, 1) 4096 1, .runScheduler fun _ => 0])
    (f := fun t => (t.current, (t.step sampleLayout (sampleCall 2 0 0)).toOption.map
      fun t' => (t'.current, t'.machine.pc)))
    (a := (some 1, some (some 1, 400))) (by decide +kernel)
  obtain ⟨hc, hresume⟩ := Prod.mk.inj hresume
  have hlast : Along (step sampleLayout) _ t [sampleCall 2 0 0] := Along.of_append hall ht
  obtain ⟨t', ht', hadvances⟩ := hlast.1
  rw [ht'] at hresume
  obtain ⟨hc', hpc⟩ := Prod.mk.inj (Option.some.inj hresume)
  have hd : t.departed (sampleCall 2 0 0) 1 = some
      ⟨{ t.machine with
        reg := Function.update (Function.update (fun _ => 7) .a7 2) .a0 0, pc := 400 }.context,
        .userEcall⟩ := by
    rw [sampleCall, departed, hc]
    exact Function.update_self ..
  have hadvance : t'.machine.pc = (400 + 4) % 2 ^ 64 :=
    hadvances 1 _ hc' hd rfl (show (2 : ℕ) ≠ 9 by decide)
  rw [hpc] at hadvance
  revert hadvance
  decide

end TrapSystem

end CharlotteOs
