import CharlotteOs.Task.Alive
import CharlotteOs.Trap.ResumeRuns
import CharlotteOs.Trap.SchedTrace

/-!
# The life of a task

A task begins with the registers that `spawn` puts into its block: the program counter at
`trampoline`, the two words of its closure in `a0` and `a1`, and the stack pointer at the end of its
stack. It then leaves the hart by traps and comes back, until it exits. Between the events of a hart
it is not seen which of the two a switch is, a beginning or a return; the ids are the same numbers,
and a slot is used again for another task.

Here the registers of the tasks that have not begun are remembered beside the hart, and which tasks
have exited. Whatever happens in between, a task begins with the registers of its `spawn`, no task
gets the hart that has not been spawned, and none that has exited. The first dispatch is one event:
if the timer interrupts it, the first task may lose its registers (`Trap/FirstDispatch.lean`).

## Main definitions

* `firstContext`: the registers that a task begins with
* `LifeSystem`: the hart, the tasks that have not begun, and those that have exited
* `LifeSystem.Lives`: who gets the hart, and with what

## Main results

* `KernelInv.alive_step`, `KernelInv.not_alive_exit`: what traps do to who is alive
* `LifeSystem.lives_along`: the lives of all tasks in every run
-/

namespace CharlotteOs

open DyadicTiling FallibleRun BuddySystemFrameAllocator Kernel Scheduler

/-! ## Who is alive in the kernel -/

namespace SchedSystem

variable {M : Set ℕ} {L₀ : List Block} {t t' : SchedSystem} {ops : List SchedOp} {id : ℕ}

/-- Operations that fill no slot make no task alive. -/
theorem noneBorn_exec (h : t.Inv M L₀) (hops : Along step Allowed t ops)
    (hfills : ∀ op ∈ ops, ∀ s, op.fills s = none) (ht' : exec step t ops = .ok t') :
    NoneBorn t.scheduler t'.scheduler := by
  induction ops generalizing t with
  | nil =>
    cases ht'
    exact .refl _
  | cons op ops ih =>
    obtain ⟨t₁, ht₁, hrest⟩ := exec_cons_eq_ok ht'
    obtain ⟨t₂, ht₂, hinv₁⟩ := step_inv h hops.1
    cases ht₂.symm.trans ht₁
    have hlater := ih hinv₁ (hops.2 t₁ ht₁)
      (fun op hop => hfills op (List.mem_cons_of_mem _ hop)) hrest
    refine .trans (fun id hid => ?_) hlater
    rcases alive_step h hops.1 ht₁ hid with hold | hnew
    · exact hold
    · rw [hfills op List.mem_cons_self] at hnew
      cases hnew

end SchedSystem

/-- Whether a task is alive does not depend on registers. -/
theorem Scheduler.Agrees.alive {s t : Scheduler} (h : s.Agrees t) (id : ℕ) :
    s.Alive id ↔ t.Alive id := by
  have hstatus : ∀ u : Scheduler, u.status id =
      (u.taskList[id]?.map (Option.map TaskControlBlock.bare)).join.map
        TaskControlBlock.status := by
    intro u
    rw [status, task]
    cases u.taskList[id]? with
    | none => rfl
    | some slot => cases slot <;> rfl
  rw [Alive, Alive, hstatus, hstatus, h.getElem]

namespace Kernel

/-- Only a spawn fills a slot. -/
theorem fills_schedOps (k : Kernel) (e : Event) (he : ∀ tr en st pr, e ≠ .spawn tr en st pr) :
    ∀ op ∈ k.schedOps e, ∀ s, op.fills s = none := by
  have hstop : ∀ w s, (stopOp w).fills s = none := by
    intro w s
    cases w <;> rfl
  cases e with
  | runScheduler => simp [schedOps, SchedOp.fills]
  | spawn trampoline entry stackSize priority => exact absurd rfl (he _ _ _ _)
  | trap regs scause io =>
    rw [schedOps]
    cases parseTrapCause scause with
    | supervisorTimerInterrupt => simp [SchedOp.fills]
    | unknownInterrupt | unknownException => simp
    | supervisorExternalInterrupt =>
      dsimp only [receiveOps]
      split
      · split <;> simp [SchedOp.fills]
      · simp
    | userEcall =>
      dsimp only [callOps]
      split
      · simp [SchedOp.fills]
      · simp [SchedOp.fills]
      · simp [hstop]
      · split
        · simp
        · split <;> simp [hstop]
      · simp

end Kernel

namespace KernelInv

variable {M : Set ℕ} {L₀ : List Block} {k k' : Kernel} {q : RunQueue} {e : Event} {id : ℕ}

theorem alive_current (h : KernelInv M L₀ k q) (hc : k.scheduler.currentTaskId = some id) :
    k.scheduler.Alive id := by
  obtain ⟨tcb, ht, hrunning⟩ := h.exists_task hc
  exact .of_task ht (by simp [hrunning])

/-- **Who is alive after an event** was so before, or has been spawned by it. -/
theorem alive_step (h : KernelInv M L₀ k q) (hallowed : k.Allowed e) (hk' : k.step e = .ok k')
    (hid : k'.scheduler.Alive id) : k.scheduler.Alive id ∨
      id = k.scheduler.freeId ∧ ∃ tr en st pr, e = .spawn tr en st pr := by
  obtain ⟨t', ht', halong, hagrees⟩ := h.sched_step hallowed hk'
  rw [hagrees.alive] at hid
  by_cases hspawn : ∃ tr en st pr, e = .spawn tr en st pr
  · obtain ⟨tr, en, st, pr, rfl⟩ := hspawn
    rw [schedOps, exec_singleton] at ht'
    rcases SchedSystem.alive_step h.schedSystem halong.1 ht' hid with hold | hnew
    · exact Or.inl hold
    · exact Or.inr ⟨(Option.some.inj hnew).symm, tr, en, st, pr, rfl⟩
  · push Not at hspawn
    exact Or.inl
      (SchedSystem.noneBorn_exec h.schedSystem halong (fills_schedOps k e hspawn) ht' id hid)

/-- **An exit** ends the task that makes it. -/
theorem not_alive_exit (h : KernelInv M L₀ k q) {regs : TaskContext} {scause : ℕ} {io : Inputs}
    (hallowed : k.Allowed (.trap regs scause io)) (hcause : parseTrapCause scause = .userEcall)
    (hcall : regs.a7 = 9) (hk' : k.step (.trap regs scause io) = .ok k')
    (hc : k.scheduler.currentTaskId = some id) : ¬ k'.scheduler.Alive id := by
  obtain ⟨t', ht', halong, hagrees⟩ := h.sched_step hallowed hk'
  have hops : k.schedOps (.trap regs scause io) = [.exit] := by
    simp only [schedOps, hcause, callOps, hcall]
  rw [hops] at halong
  rw [hops, exec_singleton] at ht'
  rw [hagrees.alive]
  exact SchedSystem.not_alive_exit h.schedSystem halong.1 ht' hc

end KernelInv

/-! ## Beginnings and ends -/

/-- **The registers that a task begins with**: it enters `trampoline` with the two words of its
closure, at the end of its stack. -/
def firstContext (trampoline : ℕ) (entry : ℕ × ℕ) (tcb : TaskControlBlock) : TaskContext :=
  { TaskContext.zero with
    sp := (tcb.stackBase + tcb.pageCount * pageSize) % 2 ^ 64
    ra := trampoline
    a0 := entry.1
    a1 := entry.2
    sepc := trampoline }

/-- A task that has been spawned is ready, with the registers it begins with. -/
theorem Scheduler.saved_of_spawn {s s' : Scheduler} {buddy buddy' : BuddySystemFrameAllocator}
    {trampoline stackSize priority : ℕ} {entry : ℕ × ℕ} {r : Except SchedulerError Unit}
    {tcb : TaskControlBlock}
    (hs' : s.spawn buddy trampoline entry stackSize priority = .ok (r, s', buddy'))
    (ht : s'.task s.freeId = some tcb) :
    s'.saved s.freeId = some (firstContext trampoline entry tcb) ∧ s'.blocked s.freeId = none := by
  obtain ⟨-, rfl | ⟨stackBase, pages, htask⟩⟩ := spawn_cases hs'
  · rw [SchedInv.task_freeId] at ht
    cases ht
  · have hnew := ht
    rw [htask, Function.update_self] at hnew
    cases hnew
    refine ⟨saved_of_task ht (by simp [newTcb]), blocked_eq_none ?_⟩
    rw [status_of_task ht]
    simp [newTcb]

/-- The hart, the tasks that have not begun with the registers they were spawned with, and the tasks
that have exited and whose slot has not been used again. -/
structure LifeSystem where
  hart : TrapSystem
  fresh : ℕ → Option TaskContext
  gone : ℕ → Bool

namespace LifeSystem

/-- The scheduler of the hart. -/
abbrev scheduler (t : LifeSystem) : Scheduler := t.hart.machine.kernel.scheduler

/-- The tasks that have not begun, with the one that an event spawns. -/
def spawned (t : LifeSystem) (hart : TrapSystem) : HartEvent → ℕ → Option TaskContext
  | .spawn trampoline entry _ _ =>
    match hart.machine.kernel.scheduler.task t.scheduler.freeId with
    | some tcb =>
      Function.update t.fresh t.scheduler.freeId (some (firstContext trampoline entry tcb))
    | none => t.fresh
  | .runScheduler _ | .trap .. => t.fresh

/-- The tasks that have exited, with the one that an event ends and without the one that it
spawns. -/
def exited (t : LifeSystem) (hart : TrapSystem) : HartEvent → ℕ → Bool
  | .spawn .. =>
    match hart.machine.kernel.scheduler.task t.scheduler.freeId with
    | some _ => Function.update t.gone t.scheduler.freeId false
    | none => t.gone
  | .trap reg _ scause _ _ =>
    match t.hart.current with
    | some c => if parseTrapCause scause = .userEcall ∧ reg .a7 = 9 then
        Function.update t.gone c true else t.gone
    | none => t.gone
  | .runScheduler _ => t.gone

/-- One event. The task that gets the hart has begun. -/
def step (lay : ContextLayout) (t : LifeSystem) (e : HartEvent) : Except Fault LifeSystem := do
  let hart ← t.hart.step lay e
  .ok ⟨hart, fun id => if hart.current = some id then none else t.spawned hart e id,
    t.exited hart e⟩

/-- The events from boot on. `run_scheduler` is called once, when no task has begun. -/
def Allowed (t : LifeSystem) : HartEvent → Prop
  | .runScheduler clobbered => t.hart.Allowed (.runScheduler clobbered) ∧ t.hart.current = none
  | e => t.hart.Allowed e

instance (t : LifeSystem) : ∀ e, Decidable (t.Allowed e)
  | .runScheduler _ => inferInstanceAs (Decidable (_ ∧ _))
  | .spawn .. | .trap .. => inferInstanceAs (Decidable (t.hart.Allowed _))

/-- **Who gets the hart, and with what.** A task that has not begun begins with the registers of its
`spawn`. A task that gets the hart has not begun or has left it before. A task that has exited does
not get it. -/
structure Lives (t : LifeSystem) (e : HartEvent) (t' : LifeSystem) : Prop where
  begins : ∀ c ctx, t'.hart.current = some c → t.spawned t'.hart e c = some ctx →
    t'.hart.machine.context = ctx
  known : ∀ c, t'.hart.current = some c → t.hart.current = some c ∨ (t.fresh c).isSome ∨
    (t.hart.left c).isSome
  ends : ∀ c, t'.gone c = true → t'.hart.current ≠ some c

/-- The hart after boot, where the idle task has not begun. -/
def boot (m : Machine) (kernel : Kernel) (lay : ContextLayout) (trampoline : ℕ) (entry : ℕ × ℕ) :
    LifeSystem :=
  ⟨TrapSystem.boot m kernel lay,
    fun id => (kernel.scheduler.task id).map (firstContext trampoline entry), fun _ => false⟩

/-- The invariant. -/
structure Inv (lay : ContextLayout) (M : Set ℕ) (L₀ : List Block) (t : LifeSystem) : Prop where
  hart : t.hart.Inv lay M L₀
  fresh : ∀ c ctx, t.fresh c = some ctx → t.hart.current ≠ some c ∧
    t.scheduler.saved c = some ctx ∧ t.scheduler.blocked c = none
  known : ∀ c, t.scheduler.Alive c → t.hart.current = some c ∨ (t.fresh c).isSome ∨
    (t.hart.left c).isSome
  gone : ∀ c, t.gone c = true → ¬ t.scheduler.Alive c

variable {lay : ContextLayout} {M : Set ℕ} {L₀ : List Block} {t t' : LifeSystem} {e : HartEvent}
  {c : ℕ} {ctx : TaskContext}

theorem Allowed.hart (h : t.Allowed e) : t.hart.Allowed e := by
  cases e with
  | runScheduler clobbered => exact h.1
  | spawn | trap => exact h

/-- A task is fresh after an event if it was so before, or if the event has spawned it. -/
theorem spawned_cases {hart : TrapSystem} (h : t.spawned hart e c = some ctx) :
    t.fresh c = some ctx ∨ c = t.scheduler.freeId ∧ ∃ trampoline entry stackSize priority tcb,
      e = .spawn trampoline entry stackSize priority ∧
      hart.machine.kernel.scheduler.task c = some tcb ∧
      ctx = firstContext trampoline entry tcb := by
  cases e with
  | runScheduler | trap => exact Or.inl h
  | spawn trampoline entry stackSize priority =>
    rw [spawned] at h
    cases ht : hart.machine.kernel.scheduler.task t.scheduler.freeId with
    | none =>
      rw [ht] at h
      exact Or.inl h
    | some tcb =>
      rw [ht] at h
      dsimp only at h
      by_cases hc : c = t.scheduler.freeId
      · subst hc
        rw [Function.update_self, Option.some.injEq] at h
        exact Or.inr ⟨rfl, trampoline, entry, stackSize, priority, tcb, rfl, ht, h.symm⟩
      · rw [Function.update_of_ne hc] at h
        exact Or.inl h

/-- **The registers of a task that has not begun** are as `spawn` left them. Bytes go to blocked
tasks only, and a new task gets a slot that is free. -/
theorem Inv.saved_spawned (h : t.Inv lay M L₀) (hallowed : t.Allowed e) {hart : TrapSystem}
    (hk' : t.hart.machine.kernel.step (t.hart.event e) = .ok hart.machine.kernel)
    (hwait : WaitStep t.hart.machine.kernel.wait (t.hart.machine.kernel.label (t.hart.event e))
      hart.machine.kernel.wait) (hc : t.spawned hart e c = some ctx) :
    t.hart.current ≠ some c ∧ hart.machine.kernel.scheduler.saved c = some ctx ∧
      hart.machine.kernel.scheduler.blocked c = none := by
  obtain ⟨q, hinv⟩ := h.hart.kernel
  rcases spawned_cases hc
    with hold | ⟨rfl, trampoline, entry, stackSize, priority, tcb, rfl, ht, rfl⟩
  · obtain ⟨hne, hsaved, hblocked⟩ := h.fresh c ctx hold
    refine ⟨hne, ?_, hwait.blocked_eq_none hblocked fun hblocks =>
      hne (KernelInv.blocks_current hblocks).1⟩
    rcases hinv.saved_other hallowed.hart hk' hne hsaved with hsame | ⟨byte, -, hblocked', -⟩
    · exact hsame
    · have hnone : t.scheduler.blocked c = some ctx := hblocked'
      rw [hblocked] at hnone
      cases hnone
  · obtain ⟨⟨r, s', buddy'⟩, hs', hk'⟩ := exists_of_bind_eq_ok hk'
    have hkernel := Except.ok.inj hk'
    rw [← hkernel] at ht ⊢
    refine ⟨fun hcur => ?_, saved_of_spawn hs' ht⟩
    obtain ⟨tcb', ht', -⟩ := hinv.exists_task hcur
    rw [SchedInv.task_freeId] at ht'
    cases ht'

/-- A task that exits is remembered, and forgotten when its slot is used again. A task that was gone
is alive only if it is spawned. -/
theorem Inv.not_alive_exited (h : t.Inv lay M L₀) (hallowed : t.Allowed e) {hart : TrapSystem}
    (hk' : t.hart.machine.kernel.step (t.hart.event e) = .ok hart.machine.kernel)
    (hc : t.exited hart e c = true) : ¬ hart.machine.kernel.scheduler.Alive c := by
  obtain ⟨q, hinv⟩ := h.hart.kernel
  have hgone : t.gone c = true → hart.machine.kernel.scheduler.Alive c →
      c = t.scheduler.freeId ∧ ∃ tr en st pr, t.hart.event e = .spawn tr en st pr := by
    intro hold halive
    exact (hinv.alive_step hallowed.hart hk' halive).resolve_left (h.gone c hold)
  intro halive
  cases e with
  | runScheduler clobbered =>
    obtain ⟨-, _, _, _, _, he⟩ := hgone hc halive
    cases he
  | spawn trampoline entry stackSize priority =>
    rw [exited] at hc
    cases ht : hart.machine.kernel.scheduler.task t.scheduler.freeId with
    | none =>
      rw [ht] at hc
      obtain ⟨rfl, -⟩ := hgone hc halive
      obtain ⟨st, hst, -⟩ := halive
      rw [status, ht] at hst
      cases hst
    | some tcb =>
      rw [ht] at hc
      dsimp only at hc
      by_cases heq : c = t.scheduler.freeId
      · rw [heq, Function.update_self] at hc
        cases hc
      · rw [Function.update_of_ne heq] at hc
        exact heq (hgone hc halive).1
  | trap reg pc scause io clobbered =>
    have hold : t.gone c ≠ true := by
      intro hold
      obtain ⟨-, _, _, _, _, he⟩ := hgone hold halive
      cases he
    rw [exited] at hc
    cases hcur : t.hart.current with
    | none =>
      rw [hcur] at hc
      exact hold hc
    | some c' =>
      rw [hcur] at hc
      dsimp only at hc
      split at hc
      · rename_i hexit
        by_cases heq : c = c'
        · subst heq
          exact hinv.not_alive_exit hallowed hexit.1 hexit.2 hk' hcur halive
        · rw [Function.update_of_ne heq] at hc
          exact hold hc
      · exact hold hc

theorem isSome_spawned (hart : TrapSystem) (e : HartEvent) (h : (t.fresh c).isSome) :
    (t.spawned hart e c).isSome := by
  cases e with
  | runScheduler | trap => exact h
  | spawn trampoline entry stackSize priority =>
    rw [spawned]
    cases hart.machine.kernel.scheduler.task t.scheduler.freeId with
    | none => exact h
    | some tcb =>
      dsimp only
      by_cases hc : c = t.scheduler.freeId
      · rw [hc, Function.update_self]
        rfl
      · rw [Function.update_of_ne hc]
        exact h

theorem isSome_departed (e : HartEvent) (h : (t.hart.left c).isSome) :
    (t.hart.departed e c).isSome := by
  cases e with
  | runScheduler | spawn => exact h
  | trap reg pc scause io clobbered =>
    rw [TrapSystem.departed]
    cases t.hart.current with
    | none => exact h
    | some c' =>
      dsimp only
      by_cases hc : c = c'
      · rw [hc, Function.update_self]
        rfl
      · rw [Function.update_of_ne hc]
        exact h

/-- A task that does not get the hart and left it before or with the event has left it. -/
theorem isSome_left {left : ℕ → Option Departure} {current : Option ℕ} (h : (left c).isSome)
    (hne : current ≠ some c) : (TrapSystem.arrive left current c).isSome := by
  obtain ⟨d, hd⟩ := Option.isSome_iff_exists.mp h
  rw [TrapSystem.arrive_eq_some.mpr ⟨hne, hd⟩]
  rfl

/-- A task that is spawned does not get the hart at once. -/
theorem current_spawn {hart : TrapSystem} {trampoline stackSize priority : ℕ} {entry : ℕ × ℕ}
    (hk' : t.hart.machine.kernel.step (.spawn trampoline entry stackSize priority) =
      .ok hart.machine.kernel) : hart.current = t.hart.current := by
  obtain ⟨⟨r, s', buddy'⟩, hs', hk'⟩ := exists_of_bind_eq_ok hk'
  have hkernel := Except.ok.inj hk'
  rw [TrapSystem.current, ← hkernel]
  exact (spawn_cases hs').1

/-- **Every task that is alive is known**: it has the hart, has not begun, or has left. -/
theorem Inv.known_step (h : t.Inv lay M L₀) (hallowed : t.Allowed e) {hart : TrapSystem}
    (hk' : t.hart.machine.kernel.step (t.hart.event e) = .ok hart.machine.kernel)
    (halive : hart.machine.kernel.scheduler.Alive c) (hne : hart.current ≠ some c) :
    (t.spawned hart e c).isSome ∨ (t.hart.departed e c).isSome := by
  obtain ⟨q, hinv⟩ := h.hart.kernel
  rcases hinv.alive_step hallowed.hart hk' halive with hold | ⟨rfl, tr, en, st, pr, he⟩
  · rcases h.known c hold with hcur | hfresh | hleft
    · refine Or.inr ?_
      cases e with
      | runScheduler clobbered =>
        rw [hallowed.2] at hcur
        cases hcur
      | spawn trampoline entry stackSize priority =>
        exact absurd ((current_spawn hk').trans hcur) hne
      | trap reg pc scause io clobbered =>
        rw [TrapSystem.departed, hcur]
        dsimp only
        rw [Function.update_self]
        rfl
    · exact Or.inl (isSome_spawned hart e hfresh)
    · exact Or.inr (isSome_departed e hleft)
  · refine Or.inl ?_
    cases e with
    | runScheduler | trap => cases he
    | spawn trampoline entry stackSize priority =>
      obtain ⟨st, hst, -⟩ := halive
      obtain ⟨tcb, ht, -⟩ := exists_of_status hst
      rw [spawned, ht]
      dsimp only
      rw [Function.update_self]
      rfl

/-- **One event** returns, keeps the invariant, and gives the hart as it should. -/
theorem Inv.step (h : t.Inv lay M L₀) (hallowed : t.Allowed e) :
    ∃ t', t.step lay e = .ok t' ∧ t'.Inv lay M L₀ ∧ t.Lives e t' := by
  obtain ⟨machine, q', hrun, hinv', -, -, -, hload⟩ := h.hart.run hallowed.hart
  obtain ⟨hart, hstep, hart', hk', hwait, -⟩ := h.hart.step hallowed.hart
  have hparts : hart.machine = machine ∧
      hart.left = TrapSystem.arrive (t.hart.departed e) hart.current := by
    have hhart := hstep
    rw [TrapSystem.step, hrun, ok_bind] at hhart
    cases hhart
    exact ⟨rfl, rfl⟩
  obtain ⟨rfl, hleft⟩ := hparts
  obtain ⟨q, hinv⟩ := h.hart.kernel
  refine ⟨⟨hart, fun id => if hart.current = some id then none else t.spawned hart e id,
    t.exited hart e⟩, by rw [LifeSystem.step, hstep, ok_bind], ⟨hart', ?_, ?_, ?_⟩, ⟨?_, ?_, ?_⟩⟩
  · intro c ctx hc
    dsimp only at hc
    split at hc
    · cases hc
    · rename_i hne
      exact ⟨hne, (h.saved_spawned hallowed hk' hwait hc).2⟩
  · intro c halive
    by_cases hcur : hart.current = some c
    · exact Or.inl hcur
    · refine Or.inr ?_
      dsimp only
      rw [if_neg hcur, hleft]
      exact (h.known_step hallowed hk' halive hcur).imp_right fun hdeparted =>
        isSome_left hdeparted hcur
  · exact fun c hc => h.not_alive_exited hallowed hk' hc
  · intro c ctx hcur hc
    obtain ⟨hne, hsaved, -⟩ := h.saved_spawned hallowed hk' hwait hc
    rcases hload with hload | ⟨-, hcurrent⟩
    · exact Option.some.inj ((hinv'.saved_current hcur hload).symm.trans hsaved)
    · exact absurd (hcurrent.symm.trans hcur) hne
  · intro c hcur
    rcases hinv.alive_step hallowed.hart hk' (hinv'.alive_current hcur) with
      hold | ⟨-, tr, en, st, pr, he⟩
    · exact h.known c hold
    · rw [he] at hk'
      exact Or.inl ((current_spawn hk').symm.trans hcur)
  · intro c hc hcur
    exact h.not_alive_exited hallowed hk' hc (hinv'.alive_current hcur)

theorem Inv.boot (lay : ContextLayout) {free : ℕ → List ℕ}
    {buddy buddy' : BuddySystemFrameAllocator} {trampoline : ℕ} {entry : ℕ × ℕ} {s : Scheduler}
    (howns : Owns buddy free M L₀)
    (hinit : Scheduler.new.init buddy trampoline entry = .ok (.ok (), s, buddy')) (ier : ℕ)
    (ctx : TaskContext) (m : Machine) :
    (boot m (Kernel.boot s buddy' ier ctx) lay trampoline entry).Inv lay M L₀ := by
  obtain ⟨-, hcur, -⟩ := SchedInv.init howns hinit
  refine ⟨TrapSystem.Inv.boot lay howns hinit ier ctx m, ?_, ?_, fun _ hc => by cases hc⟩
  · intro c ctx hc
    obtain ⟨tcb, ht, rfl⟩ := Option.map_eq_some_iff.mp hc
    have ht : s.task c = some tcb := ht
    obtain rfl : c = Scheduler.new.freeId := by
      by_contra hne
      have hnone : Scheduler.new.task c = some tcb := by
        obtain ⟨-, rfl | ⟨stackBase, pages, htask⟩⟩ := spawn_cases hinit
        · exact ht
        · rwa [htask, Function.update_of_ne hne] at ht
      cases hnone
    refine ⟨fun hsome => ?_, saved_of_spawn hinit ht⟩
    cases hcur.symm.trans hsome
  · rintro c ⟨st, hst, -⟩
    obtain ⟨tcb, ht, -⟩ := exists_of_status hst
    refine Or.inr (Or.inl ?_)
    have ht : s.task c = some tcb := ht
    have hfresh : ((s.task c).map (firstContext trampoline entry)).isSome := by
      rw [ht]
      rfl
    exact hfresh

/-- **The lives of tasks.** In every run from boot on, each event returns; a task that gets the hart
for the first time has the registers of its `spawn`, every other one that gets it has left it
before, and a task that has exited does not get it until its slot has been used again. -/
theorem lives_along (lay : ContextLayout) {free : ℕ → List ℕ}
    {buddy buddy' : BuddySystemFrameAllocator} {trampoline : ℕ} {entry : ℕ × ℕ} {s : Scheduler}
    (howns : Owns buddy free M L₀)
    (hinit : Scheduler.new.init buddy trampoline entry = .ok (.ok (), s, buddy')) (ier : ℕ)
    (ctx : TaskContext) (m : Machine) (events : List HartEvent)
    (hevents : Along (step lay) Allowed
      (boot m (Kernel.boot s buddy' ier ctx) lay trampoline entry) events) :
    Along (step lay) (fun t e => ∃ t', t.step lay e = .ok t' ∧ t.Lives e t')
      (boot m (Kernel.boot s buddy' ier ctx) lay trampoline entry) events := by
  refine Along.of_invariant (I := Inv lay M L₀) ?_ (Inv.boot lay howns hinit ier ctx m) hevents
  intro t e hinv hallowed
  obtain ⟨t', ht', hinv', hlives⟩ := hinv.step hallowed
  refine ⟨⟨t', ht', hlives⟩, fun t'' ht'' => ?_⟩
  cases ht'.symm.trans ht''
  exact hinv'

/-- The first of two tasks exits, and its slot is used again when the timer has ticked. -/
theorem lives_along_sample :
    Along (step TrapSystem.sampleLayout)
      (fun t e => ∃ t', t.step TrapSystem.sampleLayout e = .ok t' ∧ t.Lives e t')
      (boot TrapSystem.sample.machine (Kernel.boot SchedSystem.sample.scheduler
        SchedSystem.sample.buddy 0 TaskContext.zero) TrapSystem.sampleLayout 0 (0, 0))
      [.spawn 0 (1, 1) 4096 1, .spawn 0 (2, 2) 4096 1, .runScheduler fun _ => 0,
        TrapSystem.sampleCall 9 0 0, TrapSystem.sampleTrap 8 (2 ^ 63 + 5) ⟨100000, 0, 0, 0⟩,
        .spawn 0 (3, 3) 4096 1, TrapSystem.sampleTrap 9 (2 ^ 63 + 5) ⟨200000, 0, 0, 0⟩] := by
  obtain ⟨free, howns⟩ := @Owns.ofRegion 0x80000 0x80008 (by decide) (by decide)
  exact lives_along TrapSystem.sampleLayout howns SchedSystem.sample_init 0 TaskContext.zero _ _
    (by decide +kernel)

end LifeSystem

end CharlotteOs
