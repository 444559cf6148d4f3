import CharlotteOs.Task.SleepQueue
import CharlotteOs.Trap.UartRuns

/-!
# Who gets a byte

`uart_read` puts a task that blocks at the back of `wait_queue`, and `uart_interrupt_handler` takes
the task that a byte goes to from the back as well. The tasks that are blocked in `uart_read` are
kept beside the kernel here, in the order in which they came. Where reads have no timeout, that is
the order of `wait_queue`, and a byte goes to the last of them.

## Main definitions

* `ReaderSystem`: the kernel, with the line of the tasks blocked in `uart_read`
* `ReaderSystem.FirstServed`: a byte goes to the first of the line
* `ReaderSystem.OneReader`: a byte that is received finds at most one task in `wait_queue`

## Main results

* `WaitStep.onlySleepers`: where reads have no timeout, only tasks that sleep have wake-up times
* `ReaderSystem.firstServed_along_iff`: bytes go to the first of the line in exactly the runs in
  which no byte finds two tasks in `wait_queue`
-/

namespace CharlotteOs

open DyadicTiling FallibleRun BuddySystemFrameAllocator Kernel Scheduler

/-! ## Reads without timeout -/

/-- The waiting tasks after `finish_sleep`. -/
def WaitState.afterTick (w : WaitState) (now : ℕ) : WaitState :=
  { w with
    blocked := fun id => if Due w.heap now id then none else w.blocked id
    heap := w.heap.filter (now < ·.wakeTime) }

/-- A read that blocks has no timeout. -/
def WaitLabel.Untimed : WaitLabel → Prop
  | .wait _ wakeTime => wakeTime = none
  | _ => True

instance : ∀ label, Decidable (WaitLabel.Untimed label)
  | .wait _ wakeTime => inferInstanceAs (Decidable (wakeTime = none))
  | .quiet | .tick _ | .deliver .. | .store _ | .drop _ | .take .. | .sleep .. =>
    inferInstanceAs (Decidable True)

/-- **The wake-up times are those of tasks that sleep**, one for each. -/
structure WaitState.OnlySleepers (w : WaitState) : Prop where
  ordered : HeapOrdered w.heap
  unique : ∀ e ∈ w.heap, ∀ e' ∈ w.heap, e.taskId = e'.taskId → e = e'
  sleeping : ∀ e ∈ w.heap, ∃ ctx, w.blocked e.taskId = some ctx ∧ ctx.a7 = 17

variable {w w' : WaitState} {label : WaitLabel}

/-- No read ends by a wake-up time. -/
theorem WaitState.OnlySleepers.noReadTimeout (h : w.OnlySleepers) (label : WaitLabel) :
    w.NoReadTimeout label := by
  cases label with
  | tick now =>
    rintro e he - ⟨ctx, hctx, hcall⟩
    obtain ⟨ctx', hctx', hcall'⟩ := h.sleeping e he
    rw [hctx, Option.some.injEq] at hctx'
    rw [hctx', hcall'] at hcall
    cases hcall
  | quiet | deliver | store | drop | take | sleep | wait => trivial

/-- The tasks that `finish_sleep` wakes leave no wake-up time behind. -/
theorem WaitState.OnlySleepers.afterTick (h : w.OnlySleepers) (now : ℕ) :
    (w.afterTick now).OnlySleepers where
  ordered := List.Pairwise.filter _ h.ordered
  unique e he e' he' := h.unique e (List.mem_of_mem_filter he) e' (List.mem_of_mem_filter he')
  sleeping e he := by
    obtain ⟨he, hlate⟩ := List.mem_filter.mp he
    have hlate : now < e.wakeTime := of_decide_eq_true hlate
    obtain ⟨ctx, hctx, hcall⟩ := h.sleeping e he
    refine ⟨ctx, ?_, hcall⟩
    have hnot : ¬ Due w.heap now e.taskId := by
      rintro ⟨e', he', hid, hle⟩
      rw [h.unique e' he' e he hid] at hle
      omega
    exact (if_neg hnot).trans hctx

/-- No entry is that of a task that is not blocked in `sleep`. -/
theorem WaitState.OnlySleepers.taskId_ne (h : w.OnlySleepers) (id : ℕ)
    (hid : ∀ ctx, w.blocked id = some ctx → ctx.a7 ≠ 17) : ∀ e ∈ w.heap, e.taskId ≠ id := by
  rintro e he rfl
  obtain ⟨ctx, hctx, hcall⟩ := h.sleeping e he
  exact hid ctx hctx hcall

/-- **Where reads have no timeout, only tasks that sleep have wake-up times.** A tick is given by
what it does exactly. A byte goes to a reader, which has no entry. -/
theorem WaitStep.onlySleepers (hstep : WaitStep w label w') (h : w.OnlySleepers)
    (hreaders : w.ReadersWait) (huntimed : label.Untimed)
    (htick : ∀ now, label = .tick now → w' = w.afterTick now) : w'.OnlySleepers := by
  cases hstep with
  | quiet | store | drop | take => exact ⟨h.ordered, h.unique, h.sleeping⟩
  | @tick now blocked heap hnot hor hheap =>
    rw [htick now rfl]
    exact h.afterTick now
  | @deliver id byte readers hqueue =>
    have hreading : w.Reading id := by
      rw [← hreaders.mem_iff, hqueue]
      exact List.mem_append_right _ (List.mem_singleton_self id)
    obtain ⟨ctx, hctx, hcall⟩ := hreading
    have hne := h.taskId_ne id fun ctx' hctx' heq => by
      rw [hctx, Option.some.injEq] at hctx'
      rw [hctx', heq] at hcall
      cases hcall
    refine ⟨h.ordered, h.unique, fun e he => ?_⟩
    obtain ⟨ctx', hctx', hcall'⟩ := h.sleeping e he
    exact ⟨ctx', (Function.update_of_ne (hne e he) _ _).trans hctx', hcall'⟩
  | @sleep id wakeTime ctx hid hcall =>
    have hne := h.taskId_ne id fun ctx' hctx' _ => by
      rw [hid] at hctx'
      cases hctx'
    refine ⟨h.ordered.pushEntry _, fun e he e' he' heq => ?_, fun e he => ?_⟩
    · rcases mem_pushEntry.mp he with rfl | he <;> rcases mem_pushEntry.mp he' with rfl | he'
      · rfl
      · exact absurd heq.symm (hne e' he')
      · exact absurd heq (hne e he)
      · exact h.unique e he e' he' heq
    · rcases mem_pushEntry.mp he with rfl | he
      · exact ⟨ctx, Function.update_self .., hcall⟩
      · obtain ⟨ctx', hctx', hcall'⟩ := h.sleeping e he
        exact ⟨ctx', (Function.update_of_ne (hne e he) _ _).trans hctx', hcall'⟩
  | @wait id wakeTime ctx hid hbytes hcall =>
    obtain rfl : wakeTime = none := huntimed
    have hne := h.taskId_ne id fun ctx' hctx' _ => by
      rw [hid] at hctx'
      cases hctx'
    refine ⟨h.ordered, h.unique, fun e he => ?_⟩
    obtain ⟨ctx', hctx', hcall'⟩ := h.sleeping e he
    exact ⟨ctx', (Function.update_of_ne (hne e he) _ _).trans hctx', hcall'⟩

/-! ## What `finish_sleep` does to the waiting tasks -/

namespace Scheduler

/-- The blocked tasks after `finish_sleep`. -/
theorem SleepFinished.blocked {s s' : Scheduler} {l : List SleepEntry} {now : ℕ} {woken : List ℕ}
    (h : SleepFinished s l now s' woken) :
    s'.blocked = fun id => if Due l now id then none else s.blocked id := by
  funext id
  have htask := h.task id
  by_cases hdue : Due l now id
  · rw [if_pos hdue]
    refine blocked_eq_none ?_
    rw [status, htask]
    by_cases hst : s.status id = some .blocked
    · obtain ⟨tcb, ht, -⟩ := exists_of_status hst
      rw [if_pos ⟨hst, hdue⟩, ht]
      simp
    · rw [if_neg fun h => hst h.1]
      exact hst
  · rw [if_neg hdue, Scheduler.blocked, htask, if_neg fun h => hdue h.2]
    rfl

end Scheduler

variable {M : Set ℕ} {L₀ : List Block} {k k' : Kernel} {q : RunQueue}

/-- **A tick** wakes exactly the tasks whose time has come. -/
theorem KernelInv.wait_tick (h : KernelInv M L₀ k q) (hheap : HeapOrdered k.wait.heap)
    {regs : TaskContext} {scause : ℕ} {io : Inputs}
    (hcause : parseTrapCause scause = .supervisorTimerInterrupt)
    (hk' : k.step (.trap regs scause io) = .ok k') : k'.wait = k.wait.afterTick io.time := by
  obtain ⟨k₁, hk₁, hinv₁, hwait₁, -⟩ := h.store regs
  rw [← hwait₁] at hheap ⊢
  obtain ⟨s, q', hs, hinv, hcur, hrun, -, -, -, hlen⟩ := hinv₁.sched.finishSleep io.time
  have hcurrent : s.currentTaskId = q'.running := (hcur.trans hinv₁.current).trans hrun.symm
  obtain ⟨pc, k₂, q₂, hk₂, -, hwait₂⟩ := scheduleOnInterrupt_spec (k := { k₁ with scheduler := s })
    hinv (Or.inr hcurrent) (hinv.current_lt hcurrent) (hinv₁.uart.of_length rfl hlen.ge)
  obtain ⟨s', woken, hs', hfin⟩ := finishSleepLoop_finished io.time hheap hinv₁.sched.heap
  cases hs'.symm.trans hs
  have hhandler : k₁.trapHandler k₁.sscratch scause io = .ok (pc, k₂) := by
    rw [trapHandler, hcause]
    dsimp only
    rw [hs, ok_bind]
    exact hk₂
  rw [Kernel.step, trapEntry, hk₁, ok_bind, hhandler, ok_bind] at hk'
  obtain ⟨⟨ctx, k₃⟩, hk₃, hk'⟩ := exists_of_bind_eq_ok hk'
  obtain ⟨ctx', -, hk₃⟩ := exists_of_bind_eq_ok hk₃
  cases hk₃
  cases hk'
  rw [hwait₂, Kernel.wait, hfin.blocked, hfin.heap]
  rfl

/-! ## The line of readers -/

/-- The task that gets in line with a step. -/
def WaitLabel.enters : WaitLabel → List ℕ
  | .wait id _ => [id]
  | _ => []

/-- The kernel, and the tasks that are blocked in `uart_read` in the order in which they got into
`wait_queue`. -/
structure ReaderSystem where
  kernel : Kernel
  line : List ℕ

namespace ReaderSystem

/-- One event. A task that blocks in `uart_read` goes to the end of the line, and who is no longer
blocked there leaves it. -/
def step (t : ReaderSystem) (e : Event) : Except Fault ReaderSystem := do
  let kernel ← t.kernel.step e
  .ok ⟨kernel, (t.line ++ (t.kernel.label e).enters).filter fun id => kernel.wait.Reading id⟩

/-- The events from boot on, with reads that have no timeout. -/
def Allowed (t : ReaderSystem) (e : Event) : Prop :=
  t.kernel.Allowed e ∧ (t.kernel.label e).Untimed

instance (t : ReaderSystem) (e : Event) : Decidable (t.Allowed e) :=
  inferInstanceAs (Decidable (_ ∧ _))

/-- **The condition**: a byte that is received finds at most one task in `wait_queue`. -/
def OneReader (t : ReaderSystem) (e : Event) : Prop :=
  e.received.isSome → t.kernel.uart.waitQueue.length ≤ 1

instance (t : ReaderSystem) (e : Event) : Decidable (t.OneReader e) :=
  inferInstanceAs (Decidable (_ → _))

/-- **First come, first served**: a byte that is received while tasks are blocked in `uart_read` is
the result of the one that has been in line longest, which gets ready, and of no other. -/
def FirstServed (t : ReaderSystem) (e : Event) : Prop :=
  ∃ t', t.step e = .ok t' ∧ ∀ byte id rest, e.received = some byte → t.line = id :: rest →
    (∃ tcb, t.kernel.scheduler.task id = some tcb ∧ t'.kernel.scheduler.task id =
      some { tcb with status := .ready, context := { tcb.context with a0 := byte } }) ∧
    ∀ id' ≠ id, t'.kernel.scheduler.blocked id' = t.kernel.scheduler.blocked id'

/-- The invariant: the kernel's, `wait_queue` lists the tasks blocked in `uart_read`, only tasks
that sleep have wake-up times, and the line is `wait_queue`. -/
structure Inv (M : Set ℕ) (L₀ : List Block) (t : ReaderSystem) : Prop where
  kernel : ∃ q, KernelInv M L₀ t.kernel q
  readers : t.kernel.wait.ReadersWait
  sleepers : t.kernel.wait.OnlySleepers
  line : t.line = t.kernel.wait.readers

variable {t t' : ReaderSystem} {e : Event}

/-- The line stays `wait_queue`. -/
theorem line_eq (hstep : WaitStep w label w') (hreaders : w.ReadersWait)
    (hreaders' : w'.ReadersWait) :
    (w.readers ++ label.enters).filter (fun id => w'.Reading id) = w'.readers := by
  have hself : w'.readers.filter (fun id => w'.Reading id) = w'.readers :=
    List.filter_eq_self.mpr fun id hid => decide_eq_true ((hreaders'.mem_iff id).mp hid)
  cases hstep with
  | quiet | tick | store | drop | take | sleep =>
    show (w.readers ++ []).filter _ = _
    rw [List.append_nil]
    exact hself
  | wait => exact hself
  | @deliver id byte readers hqueue =>
    have hnot : id ∉ readers := by
      have hnodup := hreaders.nodup
      rw [hqueue, List.nodup_append] at hnodup
      exact fun hid => hnodup.2.2 id hid id (List.mem_singleton_self id) rfl
    show (w.readers ++ []).filter _ = readers
    rw [List.append_nil, hqueue, List.filter_append]
    refine (congrArg₂ _ hself ?_).trans (List.append_nil _)
    exact List.filter_cons_of_neg fun hid =>
      hnot ((hreaders'.mem_iff id).mpr (of_decide_eq_true hid))

theorem label_eq_tick {now : ℕ} (h : k.label e = .tick now) : ∃ regs scause io,
    e = .trap regs scause io ∧ parseTrapCause scause = .supervisorTimerInterrupt ∧
      now = io.time := by
  rcases k.label_cases e with hlabel | ⟨regs, scause, io, rfl, ⟨hcause, hlabel⟩ |
    ⟨byte, -, -, hlabel⟩ | ⟨c, -, -, hlabel⟩⟩
  · cases hlabel.symm.trans h
  · cases hlabel.symm.trans h
    exact ⟨regs, scause, io, rfl, hcause, rfl⟩
  · rw [hlabel] at h
    rcases k.receiveLabel_cases byte with ⟨id, hreceive⟩ | hreceive | hreceive <;>
      cases hreceive.symm.trans h
  · rw [hlabel] at h
    rcases k.callLabel_cases c regs io.time with hcall | ⟨t, hcall⟩ | ⟨byte, hcall⟩ | ⟨t, hcall⟩ <;>
      cases hcall.symm.trans h

/-- **One event** keeps the invariant. -/
theorem Inv.step (h : t.Inv M L₀) (hallowed : t.Allowed e) :
    ∃ t', t.step e = .ok t' ∧ t'.Inv M L₀ := by
  obtain ⟨q, hinv⟩ := h.kernel
  obtain ⟨k', q', hk', hinv', hstep⟩ := hinv.step hallowed.1
  have hreaders := hstep.readersWait h.readers (h.sleepers.noReadTimeout _)
  refine ⟨⟨k', _⟩, by rw [ReaderSystem.step, hk', ok_bind], ⟨q', hinv'⟩, hreaders, ?_, ?_⟩
  · refine hstep.onlySleepers h.sleepers h.readers hallowed.2 fun now hlabel => ?_
    obtain ⟨regs, scause, io, rfl, hcause, rfl⟩ := label_eq_tick hlabel
    exact hinv.wait_tick h.sleepers.ordered hcause hk'
  · show (t.line ++ _).filter _ = _
    rw [h.line]
    exact line_eq hstep h.readers hreaders

/-- **A received byte** while tasks are in `wait_queue`: the last of them gets it, and no other task
that is blocked is touched. -/
theorem Inv.received (h : t.Inv M L₀) (hallowed : t.Allowed e) {byte id : ℕ} {readers : List ℕ}
    (hbyte : e.received = some byte) (hqueue : t.kernel.wait.readers = readers ++ [id])
    (ht' : t.step e = .ok t') :
    (∃ tcb, t.kernel.scheduler.task id = some tcb ∧ t'.kernel.scheduler.task id =
      some { tcb with status := .ready, context := { tcb.context with a0 := byte } }) ∧
    ∀ id' ≠ id, t'.kernel.scheduler.blocked id' = t.kernel.scheduler.blocked id' := by
  obtain ⟨q, hinv⟩ := h.kernel
  obtain ⟨k', hk', ht'⟩ := exists_of_bind_eq_ok ht'
  cases ht'
  have hlabel : t.kernel.label e = .deliver id byte := by
    have hlast : t.kernel.uart.waitQueue.getLast? = some id := by
      show t.kernel.wait.readers.getLast? = some id
      rw [hqueue, List.getLast?_concat]
    rw [UartSystem.label_of_received hbyte, receiveLabel, hlast]
  cases e with
  | runScheduler | spawn => cases hbyte
  | trap regs scause io =>
    obtain ⟨k₁, k'', q', hk₁, hk'', -, hstep, hresults⟩ := hinv.trap hallowed.1
    cases hk'.symm.trans hk''
    obtain ⟨k₂, hk₂, -, -, -, -, -, htask₁⟩ := hinv.store regs
    cases hk₁.symm.trans hk₂
    rw [hlabel] at hstep hresults
    obtain ⟨ctx, hctx, -⟩ := hstep.reading_of_deliver h.readers
    obtain ⟨tcb, ht, hst, -⟩ := blocked_eq_some.mp hctx
    constructor
    · refine ⟨tcb, ht, ?_⟩
      have hsame : k₁.scheduler.task id = some tcb := by
        cases hc : t.kernel.scheduler.currentTaskId with
        | none =>
          rw [hinv.sscratch, hc] at hk₁
          cases hk₁
          exact ht
        | some c =>
          have hne : id ≠ c := by
            rintro rfl
            cases (hinv.blocked_current hc).symm.trans hctx
          rw [htask₁ c hc, Function.update_of_ne hne, ht]
      have htask : k'.scheduler.task = _ := hresults
      rw [htask, Function.update_self, hsame, Option.map_some, TaskControlBlock.wake, if_pos hst]
    · intro id' hne
      show k'.wait.blocked id' = t.kernel.wait.blocked id'
      generalize k'.wait = w' at hstep
      cases hstep with
      | deliver hreaders => exact Function.update_of_ne hne _ _

/-- **One event** serves the first of the line exactly if a byte that it receives finds at most one
task in `wait_queue`. -/
theorem Inv.firstServed_iff (h : t.Inv M L₀) (hallowed : t.Allowed e) :
    t.OneReader e ↔ t.FirstServed e := by
  obtain ⟨t', ht', -⟩ := h.step hallowed
  constructor
  · intro hone
    refine ⟨t', ht', fun byte id rest hbyte hline => ?_⟩
    rw [h.line] at hline
    have hlen : (id :: rest).length ≤ 1 := by
      rw [← hline]
      exact hone (by rw [hbyte]; rfl)
    obtain rfl : rest = [] := List.length_eq_zero_iff.mp (by simpa using hlen)
    have hqueue : t.kernel.wait.readers = [] ++ [id] := hline
    exact h.received hallowed hbyte hqueue ht'
  · rintro ⟨t'', ht'', hfirst⟩ hsome
    cases ht'.symm.trans ht''
    obtain ⟨byte, hbyte⟩ := Option.isSome_iff_exists.mp hsome
    show t.kernel.wait.readers.length ≤ 1
    rcases List.eq_nil_or_concat t.kernel.wait.readers with hnil | ⟨readers, id, hqueue⟩
    · rw [hnil]
      exact Nat.zero_le 1
    · rw [List.concat_eq_append] at hqueue
      cases hreaders : readers with
      | nil =>
        rw [hqueue, hreaders]
        exact le_rfl
      | cons first rest =>
        -- the first of the line is another than the one that gets the byte, and stays blocked
        have hline : t.line = first :: (rest ++ [id]) := by
          rw [h.line, hqueue, hreaders]
          rfl
        have hnodup := h.readers.nodup
        rw [hqueue, hreaders, List.nodup_append] at hnodup
        have hne : first ≠ id := hnodup.2.2 first List.mem_cons_self id (List.mem_singleton_self id)
        have hreading : t.kernel.wait.Reading first := by
          rw [← h.readers.mem_iff, hqueue, hreaders]
          exact List.mem_append_left _ List.mem_cons_self
        obtain ⟨ctx, hctx, -⟩ := hreading
        have hstill := (h.received hallowed hbyte hqueue ht').2 first hne
        obtain ⟨⟨tcb, -, hserved⟩, -⟩ := hfirst byte first _ hbyte hline
        rw [blocked_eq_none (by simp [status, hserved])] at hstill
        cases hstill.trans hctx

/-- **Bytes go to the first of the line**, in a run from boot on with reads that have no timeout,
exactly if no byte finds two tasks in `wait_queue`. -/
theorem firstServed_along_iff {free : ℕ → List ℕ} {buddy buddy' : BuddySystemFrameAllocator}
    {trampoline : ℕ} {entry : ℕ × ℕ} {s : Scheduler} (howns : Owns buddy free M L₀)
    (hinit : Scheduler.new.init buddy trampoline entry = .ok (.ok (), s, buddy')) (ier : ℕ)
    (ctx : TaskContext) (events : List Event)
    (hevents : Along step Allowed ⟨Kernel.boot s buddy' ier ctx, []⟩ events) :
    Along step OneReader ⟨Kernel.boot s buddy' ier ctx, []⟩ events ↔
      Along step FirstServed ⟨Kernel.boot s buddy' ier ctx, []⟩ events := by
  obtain ⟨hinv, hwait⟩ := KernelInv.boot howns hinit ier ctx
  refine Along.iff_of_invariant (I := Inv M L₀) (fun t e ht hallowed => ht.firstServed_iff hallowed)
    (fun t e t' ht hallowed _ ht' => ?_) ⟨⟨_, hinv⟩, ?_, ?_, ?_⟩ hevents
  · obtain ⟨t'', ht'', hinv'⟩ := ht.step hallowed
    cases ht'.symm.trans ht''
    exact hinv'
  · rw [hwait]
    exact ⟨List.nodup_nil, fun id => by simp [WaitState.Reading]⟩
  · rw [hwait]
    exact ⟨List.Pairwise.nil, by simp, by simp⟩
  · rw [hwait]

/-- The kernel after boot. -/
def sample : ReaderSystem :=
  ⟨Kernel.boot SchedSystem.sample.scheduler SchedSystem.sample.buddy 0 TaskContext.zero, []⟩

/-- Two tasks read in turn, and each gets its byte before the other one reads. -/
theorem firstServed_along_iff_sample : Along step FirstServed sample
    [.spawn 0 (1, 1) 4096 1, .spawn 0 (2, 2) 4096 1, .runScheduler, .call 27 usizeMax 0,
      .receive 65 10000, .call 27 usizeMax 20000, .receive 66 30000] := by
  obtain ⟨free, howns⟩ := @Owns.ofRegion 0x80000 0x80008 (by decide) (by decide)
  exact (firstServed_along_iff howns SchedSystem.sample_init 0 TaskContext.zero _
    (by decide +kernel)).mp (by decide +kernel)

/-- Task `1` blocks in `uart_read` and then task `2` does. The byte goes to task `2`, and task `1`
stays blocked. -/
theorem last_reader_served :
    Along step Allowed sample
      [.spawn 0 (1, 1) 4096 1, .spawn 0 (2, 2) 4096 1, .runScheduler, .call 27 usizeMax 0,
        .call 27 usizeMax 10000, .receive 65 20000] ∧
    ¬ Along step FirstServed sample
      [.spawn 0 (1, 1) 4096 1, .spawn 0 (2, 2) 4096 1, .runScheduler, .call 27 usizeMax 0,
        .call 27 usizeMax 10000, .receive 65 20000] := by
  refine ⟨by decide +kernel, fun hall => ?_⟩
  obtain ⟨t, ht, hstate⟩ := exists_of_map_eq_ok
    (x := exec step sample [.spawn 0 (1, 1) 4096 1, .spawn 0 (2, 2) 4096 1, .runScheduler,
      .call 27 usizeMax 0, .call 27 usizeMax 10000])
    (f := fun t => (t.line, (t.step (.receive 65 20000)).toOption.map
      (·.kernel.scheduler.status 1)))
    (a := ([1, 2], some (some .blocked))) (by decide +kernel)
  obtain ⟨hline, hafter⟩ := Prod.mk.inj hstate
  have hrest : Along step FirstServed t [.receive 65 20000] := Along.of_append hall ht
  obtain ⟨t', ht', hfirst⟩ := hrest.1
  obtain ⟨⟨tcb, -, hserved⟩, -⟩ := hfirst 65 1 [2] (by decide +kernel) hline
  rw [ht'] at hafter
  have hblocked : t'.kernel.scheduler.status 1 = some .blocked := Option.some.inj hafter
  rw [status, hserved] at hblocked
  cases hblocked

end ReaderSystem

end CharlotteOs
