import CharlotteOs.Task.SleepQueue

/-!
# The order in which tasks run

The idle task goes round in the ready queue with the others and gives way to any other task that is
ready. Without it the queue is a line: who comes is put at its end, and a dispatch takes its head.

## Main definitions

* `SchedOp.isDispatch`: the operations that choose the next task
* `SchedOp.line`: the tasks other than the idle one that a dispatch chooses from, in their order
* `SchedOp.dispatches`: how often a run chooses the next task

## Main results

* `SchedSystem.step_line`: a dispatch runs the head of the line, and the rest of it stays
* `SchedSystem.step_waiting`: the other operations put tasks at the end of the line
* `SchedSystem.dispatch_fifo`: in every reachable state dispatches are served first come, first
  served, and a task that is ready runs when those before it have run
-/

namespace CharlotteOs

open DyadicTiling FallibleRun BuddySystemFrameAllocator

namespace Scheduler

/-- The ready queue without the idle task. -/
def waiting (s : Scheduler) : List ℕ := s.readyQueue.filter (· ≠ 0)

/-- The current task, where it runs. -/
def stillRunning (s : Scheduler) : List ℕ :=
  s.currentTaskId.toList.filter fun cur => s.status cur = some .running

/-- The next task is the head of the queue without the idle task, or the idle task where there is no
other. The idle task is in the queue only once, so the one behind it is another. -/
theorem nextTask_filter {l : List ℕ} (h : l.Nodup) :
    (nextTask l).1 = (l.filter (· ≠ 0)).headD 0 ∧
      (nextTask l).2.filter (· ≠ 0) = (l.filter (· ≠ 0)).tail := by
  match l, h with
  | [], _ => exact ⟨rfl, rfl⟩
  | [0], _ => exact ⟨rfl, rfl⟩
  | 0 :: id :: rest, h =>
    have hne : id ≠ 0 := fun heq =>
      (List.nodup_cons.mp h).1 (heq ▸ List.mem_cons_self)
    simp [nextTask, hne]
  | (n + 1) :: rest, _ => simp [nextTask]

variable {s s' : Scheduler} {buddy buddy' : BuddySystemFrameAllocator}

/-- `dispatch` takes the next task from the queue. -/
theorem dispatch_queue (h : s.dispatch = .ok s') :
    s'.readyQueue = (nextTask s.readyQueue).2 ∧
      s'.currentTaskId = some (nextTask s.readyQueue).1 := by
  rw [Scheduler.dispatch] at h
  obtain ⟨slot, -, h⟩ := exists_of_bind_eq_ok h
  cases slot with
  | none => cases h
  | some tcb =>
    cases h
    exact ⟨rfl, rfl⟩

/-- A task that stops does not change the queue before the next one is taken from it. -/
theorem stopCurrent_queue {heap : ℕ → List SleepEntry} (h : s.stopCurrent heap = .ok s') :
    s'.readyQueue = (nextTask s.readyQueue).2 ∧
      s'.currentTaskId = some (nextTask s.readyQueue).1 := by
  rw [Scheduler.stopCurrent] at h
  split at h
  · cases h
  · obtain ⟨slot, -, h⟩ := exists_of_bind_eq_ok h
    cases slot with
    | none => cases h
    | some tcb =>
      dsimp only at h
      split at h
      · have hqueue := dispatch_queue h
        exact hqueue
      · cases h

/-- Reaping takes a zombie out of the queue and empties its slot, and touches no other slot. -/
theorem reap_queue {zombieId : ℕ} (h : s.reap buddy zombieId = .ok (s', buddy')) :
    s'.readyQueue = s.readyQueue.filter (· ≠ zombieId) ∧ s'.currentTaskId = s.currentTaskId ∧
      ∀ id ≠ zombieId, s'.status id = s.status id := by
  rw [Scheduler.reap] at h
  dsimp only at h
  split at h
  · rename_i tcb hslot
    obtain ⟨ppn, -, h⟩ := exists_of_bind_eq_ok h
    split at h
    · cases h
    · obtain ⟨buddy₁, -, h⟩ := exists_of_bind_eq_ok h
      cases h
      refine ⟨rfl, rfl, fun id hid => ?_⟩
      show ((s.taskList.set zombieId none)[id]?.join).map _ = _
      rw [List.getElem?_set_ne (Ne.symm hid)]
      rfl
  · cases h
    exact ⟨rfl, rfl, fun _ _ => rfl⟩

/-- The reaping loop does not change a queue without zombies, nor whether the current task runs. -/
theorem reapLoop_queue {zs : List ℕ} (hzs : ∀ z ∈ zs, z ∉ s.readyQueue)
    (h : reapLoop s.currentTaskId zs s buddy = .ok (s', buddy')) :
    s'.readyQueue = s.readyQueue ∧ s'.stillRunning = s.stillRunning := by
  induction zs generalizing s buddy with
  | nil =>
    cases h
    exact ⟨rfl, rfl⟩
  | cons z zs ih =>
    rw [reapLoop] at h
    split at h
    · cases h
      exact ⟨rfl, rfl⟩
    · rename_i hne
      obtain ⟨⟨s₁, buddy₁⟩, hs₁, h⟩ := exists_of_bind_eq_ok h
      obtain ⟨hready, hcur, hstatus⟩ := reap_queue hs₁
      have hready : s₁.readyQueue = s.readyQueue := by
        rw [hready, List.filter_eq_self]
        exact fun id hid => decide_eq_true fun heq => hzs z List.mem_cons_self (heq ▸ hid)
      dsimp only at h
      rw [← hcur] at h
      obtain ⟨hready', hrunning'⟩ := ih (fun z' hz' => by
        rw [hready]
        exact hzs z' (List.mem_cons_of_mem _ hz')) h
      refine ⟨hready'.trans hready, hrunning'.trans ?_⟩
      rw [stillRunning, stillRunning, hcur]
      refine List.filter_congr fun c hc => ?_
      rw [hstatus c fun heq => hne ?_]
      rw [← heq]
      exact (Option.mem_toList.mp hc).symm

/-- The current task goes to the end of the queue where it runs. -/
theorem requeueCurrent_queue (h : s.requeueCurrent = .ok s') :
    s'.readyQueue = s.readyQueue ++ s.stillRunning := by
  rw [Scheduler.requeueCurrent] at h
  rw [stillRunning]
  split at h
  · rename_i hcur
    cases h
    simp [hcur]
  · rename_i c hcur
    obtain ⟨slot, hslot, h⟩ := exists_of_bind_eq_ok h
    have hlt : c < s.taskList.length := by
      by_contra hge
      rw [Scheduler.slot, List.getElem?_eq_none (Nat.not_lt.mp hge)] at hslot
      cases hslot
    rw [slot_of_lt hlt] at hslot
    obtain rfl := Except.ok.inj hslot
    cases ht : s.task c with
    | none =>
      rw [ht] at h
      cases h
      simp [hcur, status, ht]
    | some tcb =>
      rw [ht] at h
      dsimp only at h
      split at h
      · rename_i hst
        cases h
        simp [hcur, status, ht, hst]
      · rename_i hst
        cases h
        simp [hcur, status, ht, hst]

/-- **`prepare_next_task`** takes the next task from the queue to whose end the current task has
been put where it runs. -/
theorem prepareNextTask_queue (hzs : ∀ z ∈ s.zombieQueue, z ∉ s.readyQueue)
    (h : s.prepareNextTask buddy = .ok (s', buddy')) :
    s'.readyQueue = (nextTask (s.readyQueue ++ s.stillRunning)).2 ∧
      s'.currentTaskId = some (nextTask (s.readyQueue ++ s.stillRunning)).1 := by
  rw [Scheduler.prepareNextTask] at h
  obtain ⟨⟨s₁, buddy₁⟩, hs₁, h⟩ := exists_of_bind_eq_ok h
  obtain ⟨s₂, hs₂, h⟩ := exists_of_bind_eq_ok h
  obtain ⟨s₃, hs₃, h⟩ := exists_of_bind_eq_ok h
  cases h
  obtain ⟨hready₁, hrunning₁⟩ := reapLoop_queue (fun z hz => hzs z (List.mem_reverse.mp hz)) hs₁
  rw [← hready₁, ← hrunning₁, ← requeueCurrent_queue hs₂]
  exact dispatch_queue hs₃

end Scheduler

namespace SchedInv

variable {M : Set ℕ} {L₀ : List Block} {s : Scheduler} {buddy : BuddySystemFrameAllocator}
  {q : RunQueue}

theorem not_ready_of_zombie (h : SchedInv M L₀ s buddy q) (z : ℕ) (hz : z ∈ s.zombieQueue) :
    z ∉ s.readyQueue := by
  intro hready
  rw [h.zombies] at hz
  rw [h.ready] at hready
  have hstatus := (q.mem_zombies z).mp hz
  rw [(q.mem_ready z).mp hready] at hstatus
  cases hstatus

/-- The queue with the current task at its end has every task once. -/
theorem nodup_queue (h : SchedInv M L₀ s buddy q) : (s.readyQueue ++ s.stillRunning).Nodup := by
  rw [List.nodup_append]
  refine ⟨h.ready ▸ q.ready_nodup, List.Nodup.filter _ ?_, ?_⟩
  · cases s.currentTaskId with
    | none => exact List.nodup_nil
    | some c => exact List.nodup_singleton c
  · rintro id hready id' hrunning rfl
    have hrunning : s.status id = some .running :=
      of_decide_eq_true (List.mem_filter.mp hrunning).2
    rw [h.ready] at hready
    rw [h.status, (q.mem_ready id).mp hready] at hrunning
    cases hrunning

/-- Where no task runs, none is put back. -/
theorem stillRunning_eq_nil (h : SchedInv M L₀ s buddy q) (hrun : q.running = none) :
    s.stillRunning = [] := by
  rw [Scheduler.stillRunning, List.filter_eq_nil_iff]
  intro c _ hc
  have hrunning : s.status c = some .running := of_decide_eq_true hc
  rw [h.status, ← q.running_iff, hrun] at hrunning
  cases hrunning

end SchedInv

namespace SchedOp

/-- The operations that choose the next task. -/
def isDispatch : SchedOp → Bool
  | .prepareNextTask | .setCurrentTaskSleep _ | .blockCurrentTask | .exit => true
  | .spawn .. | .finishSleep _ | .wakeUpTaskWithResult .. => false

/-- **The line**: the tasks other than the idle one that a dispatch chooses from. The current task
goes to its end where `prepare_next_task` finds it running. -/
def line (s : Scheduler) : SchedOp → List ℕ
  | .prepareNextTask => s.waiting ++ s.stillRunning.filter (· ≠ 0)
  | _ => s.waiting

/-- How often a run chooses the next task. -/
def dispatches (ops : List SchedOp) : ℕ := ops.countP isDispatch

end SchedOp

namespace SchedSystem

variable {M : Set ℕ} {L₀ : List Block} {t t' : SchedSystem} {op : SchedOp}

/-- The next task of a queue without repetitions, seen without the idle task. -/
theorem line_of_nextTask {s' : Scheduler} {l : List ℕ} (hl : l.Nodup)
    (h : s'.readyQueue = (Scheduler.nextTask l).2 ∧
      s'.currentTaskId = some (Scheduler.nextTask l).1) :
    s'.currentTaskId = some ((l.filter (· ≠ 0)).headD 0) ∧
      s'.waiting = (l.filter (· ≠ 0)).tail := by
  obtain ⟨hhead, htail⟩ := Scheduler.nextTask_filter hl
  rw [Scheduler.waiting, h.1, h.2, hhead, htail]
  exact ⟨rfl, rfl⟩

/-- **A dispatch** runs the head of the line, and the rest of the line stays as it is. -/
theorem step_line (h : t.Inv M L₀) (hop : t.Allowed op) (hd : op.isDispatch)
    (ht' : t.step op = .ok t') :
    t'.scheduler.currentTaskId = some ((op.line t.scheduler).headD 0) ∧
      t'.scheduler.waiting = (op.line t.scheduler).tail := by
  obtain ⟨q, hinv, hcur, -⟩ := h
  have hready : t.scheduler.readyQueue.Nodup := hinv.ready ▸ q.ready_nodup
  cases op with
  | spawn trampoline entry stackSize priority => cases hd
  | finishSleep currentMtime => cases hd
  | wakeUpTaskWithResult taskId result => cases hd
  | prepareNextTask =>
    obtain ⟨⟨s', buddy'⟩, hs', ht'⟩ := exists_of_bind_eq_ok ht'
    cases ht'
    have hline := line_of_nextTask hinv.nodup_queue
      (Scheduler.prepareNextTask_queue hinv.not_ready_of_zombie hs')
    rw [List.filter_append] at hline
    exact hline
  | setCurrentTaskSleep wakeTime =>
    obtain ⟨s', hs', ht'⟩ := exists_of_bind_eq_ok ht'
    cases ht'
    exact line_of_nextTask hready (Scheduler.stopCurrent_queue hs')
  | blockCurrentTask =>
    obtain ⟨s', hs', ht'⟩ := exists_of_bind_eq_ok ht'
    cases ht'
    exact line_of_nextTask hready (Scheduler.stopCurrent_queue hs')
  | exit =>
    obtain ⟨c, hc, hzero⟩ := UserCurrent.exists hop
    have hrun := hcur.symm.trans hc
    obtain ⟨s₁, s', buddy', q', hs₁, hinv₁, -, hs', -⟩ := hinv.exit hcur hrun hzero
    rw [step, hs₁, ok_bind, hs', ok_bind] at ht'
    cases ht'
    have hline := line_of_nextTask hinv₁.nodup_queue
      (Scheduler.prepareNextTask_queue hinv₁.not_ready_of_zombie hs')
    rw [hinv₁.stillRunning_eq_nil rfl, List.append_nil, hinv₁.ready] at hline
    have hqueue : (q.exit c hrun hzero).ready = t.scheduler.readyQueue := hinv.ready.symm
    rw [hqueue] at hline
    exact hline

/-- A wake-up puts tasks at the end of the queue. -/
theorem wake_queue {s s' : Scheduler} {id : ℕ} {context : TaskContext → TaskContext}
    (h : s.wake id context = .ok s') : s.readyQueue <+: s'.readyQueue := by
  rw [Scheduler.wake] at h
  obtain ⟨slot, -, h⟩ := exists_of_bind_eq_ok h
  cases slot with
  | none =>
    cases h
    exact List.prefix_rfl
  | some tcb =>
    dsimp only at h
    split at h
    · cases h
      exact List.prefix_append _ _
    · cases h
      exact List.prefix_rfl

/-- **The other operations** leave the line as it is, up to tasks that come to its end. -/
theorem step_waiting (h : t.Inv M L₀) (hheap : Scheduler.HeapOrdered t.scheduler.blockedQueue)
    (hd : op.isDispatch = false) (ht' : t.step op = .ok t') :
    ∃ l, t'.scheduler.waiting = t.scheduler.waiting ++ l := by
  suffices hq : t.scheduler.readyQueue <+: t'.scheduler.readyQueue by
    obtain ⟨l, hl⟩ := hq
    refine ⟨l.filter (· ≠ 0), ?_⟩
    rw [Scheduler.waiting, Scheduler.waiting, ← hl, List.filter_append]
  obtain ⟨q, hinv, hcur, -⟩ := h
  cases op with
  | prepareNextTask => cases hd
  | setCurrentTaskSleep wakeTime => cases hd
  | blockCurrentTask => cases hd
  | exit => cases hd
  | spawn trampoline entry stackSize priority =>
    obtain ⟨free, howns⟩ := hinv.owns
    rcases SchedInv.spawn_spec t.scheduler howns trampoline stackSize priority entry with
      ⟨tcb, s', buddy', free', hs', -, heq, -⟩ | herror
    · rw [step, hs', ok_bind] at ht'
      cases ht'
      show _ <+: s'.readyQueue
      rw [heq]
      exact List.prefix_append _ _
    · rw [step, herror, ok_bind] at ht'
      cases ht'
      exact List.prefix_rfl
  | finishSleep currentMtime =>
    obtain ⟨s', woken, hs', hfin⟩ := Scheduler.finishSleepLoop_finished currentMtime hheap
      hinv.heap
    rw [step, Scheduler.finishSleep, hs', ok_bind] at ht'
    cases ht'
    show _ <+: s'.readyQueue
    rw [hfin.ready]
    exact List.prefix_append _ _
  | wakeUpTaskWithResult taskId result =>
    obtain ⟨s', hs', ht'⟩ := exists_of_bind_eq_ok ht'
    cases ht'
    exact wake_queue hs'

/-- **A task in the line runs** when those before it have: the induction is over the run, and each
dispatch takes one task from before it. -/
theorem exists_served {ops : List SchedOp} {id : ℕ} {l₁ l₂ : List ℕ} (h : t.Inv M L₀)
    (hheap : Scheduler.HeapOrdered t.scheduler.blockedQueue)
    (hw : t.scheduler.waiting = l₁ ++ id :: l₂) (hops : Along step Allowed t ops)
    (hn : l₁.length < SchedOp.dispatches ops) :
    ∃ ops₁ ops₂ t₁, ops = ops₁ ++ ops₂ ∧ SchedOp.dispatches ops₁ = l₁.length + 1 ∧
      exec step t ops₁ = .ok t₁ ∧ t₁.scheduler.currentTaskId = some id := by
  induction ops generalizing t l₁ l₂ with
  | nil => cases hn
  | cons op ops ih =>
    obtain ⟨hop, hrest⟩ := along_cons.mp hops
    obtain ⟨t', ht', hinv'⟩ := step_inv h hop
    have hheap' := step_heapOrdered h hop hheap ht'
    by_cases hd : op.isDispatch
    · obtain ⟨l, hl⟩ : ∃ l, op.line t.scheduler = l₁ ++ id :: l := by
        cases op with
        | prepareNextTask => exact ⟨l₂ ++ t.scheduler.stillRunning.filter (· ≠ 0), by
            rw [SchedOp.line, hw, List.append_assoc, List.cons_append]⟩
        | _ => exact ⟨l₂, hw⟩
      obtain ⟨hcur, htail⟩ := step_line h hop hd ht'
      rw [hl] at hcur htail
      cases l₁ with
      | nil =>
        refine ⟨[op], ops, t', rfl, ?_, (exec_singleton t op).trans ht', hcur⟩
        rw [SchedOp.dispatches, List.countP_cons_of_pos hd]
        rfl
      | cons x l₁ =>
        have hn' : l₁.length < SchedOp.dispatches ops := by
          rw [SchedOp.dispatches, List.countP_cons_of_pos hd] at hn
          exact Nat.lt_of_succ_lt_succ hn
        obtain ⟨ops₁, ops₂, t₁, rfl, hcount, ht₁, hserved⟩ :=
          ih hinv' hheap' htail (hrest t' ht') hn'
        refine ⟨op :: ops₁, ops₂, t₁, rfl, ?_, (exec_cons_of_ok ht' ops₁).trans ht₁, hserved⟩
        rw [SchedOp.dispatches, List.countP_cons_of_pos hd]
        exact congrArg (· + 1) hcount
    · obtain ⟨l, hl⟩ := step_waiting h hheap (Bool.eq_false_iff.mpr hd) ht'
      rw [hw, List.append_assoc, List.cons_append] at hl
      have hn' : l₁.length < SchedOp.dispatches ops := by
        rw [SchedOp.dispatches, List.countP_cons_of_neg hd] at hn
        exact hn
      obtain ⟨ops₁, ops₂, t₁, rfl, hcount, ht₁, hserved⟩ :=
        ih hinv' hheap' hl (hrest t' ht') hn'
      refine ⟨op :: ops₁, ops₂, t₁, rfl, ?_, (exec_cons_of_ok ht' ops₁).trans ht₁, hserved⟩
      rw [SchedOp.dispatches, List.countP_cons_of_neg hd]
      exact hcount

/-- The idle task is not in the line. -/
theorem zero_notMem_line (s : Scheduler) (op : SchedOp) : 0 ∉ op.line s := by
  cases op <;> simp [SchedOp.line, Scheduler.waiting]

/-- **First come, first served.** In every state that a run after `init` reaches, each operation
that chooses the next task runs the head of the line and leaves the rest of it in order, and the
idle task runs exactly where the line is empty. A task that is ready runs when the tasks before it
in the line have been taken from it, whatever the other operations are. -/
theorem dispatch_fifo {M : Set ℕ} {L₀ : List Block} {free : ℕ → List ℕ}
    {buddy buddy' : BuddySystemFrameAllocator} {trampoline : ℕ} {entry : ℕ × ℕ} {s : Scheduler}
    (howns : Owns buddy free M L₀)
    (hinit : Scheduler.new.init buddy trampoline entry = .ok (.ok (), s, buddy'))
    {ops : List SchedOp} (hops : Along step Allowed ⟨s, buddy', false⟩ ops) {t : SchedSystem}
    (ht : exec step ⟨s, buddy', false⟩ ops = .ok t) :
    (∀ op : SchedOp, op.isDispatch → t.Allowed op → ∃ t', t.step op = .ok t' ∧
      t'.scheduler.currentTaskId = some ((op.line t.scheduler).headD 0) ∧
      t'.scheduler.waiting = (op.line t.scheduler).tail ∧
      (t'.scheduler.currentTaskId = some 0 ↔ op.line t.scheduler = [])) ∧
    ∀ id ≠ 0, t.scheduler.status id = some .ready →
      ∀ ops', Along step Allowed t ops' →
        t.scheduler.waiting.idxOf id + 1 ≤ SchedOp.dispatches ops' →
        ∃ ops₁ ops₂ t₁, ops' = ops₁ ++ ops₂ ∧
          SchedOp.dispatches ops₁ ≤ t.scheduler.waiting.idxOf id + 1 ∧
          exec step t ops₁ = .ok t₁ ∧ t₁.scheduler.currentTaskId = some id := by
  obtain ⟨hinv, hheap⟩ := exec_inv howns hinit hops ht
  refine ⟨fun op hd hop => ?_, fun id hid hstatus ops' hops' hn => ?_⟩
  · obtain ⟨t', ht', -⟩ := step_inv hinv hop
    obtain ⟨hcur, htail⟩ := step_line hinv hop hd ht'
    refine ⟨t', ht', hcur, htail, ?_⟩
    rw [hcur, Option.some.injEq]
    have hzero := zero_notMem_line t.scheduler op
    cases hl : op.line t.scheduler with
    | nil => exact iff_of_true rfl rfl
    | cons id l =>
      rw [hl] at hzero
      exact iff_of_false (fun heq => hzero (heq ▸ List.mem_cons_self)) (List.cons_ne_nil _ _)
  · have hmem : id ∈ t.scheduler.waiting := by
      obtain ⟨q, hq, -⟩ := hinv
      rw [Scheduler.waiting, List.mem_filter, hq.ready, q.mem_ready, ← hq.status]
      exact ⟨hstatus, decide_eq_true hid⟩
    have hlt := List.idxOf_lt_length_iff.mpr hmem
    set j := t.scheduler.waiting.idxOf id with hj
    have hw : t.scheduler.waiting =
        t.scheduler.waiting.take j ++ id :: t.scheduler.waiting.drop (j + 1) := by
      conv_lhs => rw [← List.take_append_drop j t.scheduler.waiting, List.drop_eq_getElem_cons hlt]
      rw [List.getElem_idxOf hlt]
    have hlen : (t.scheduler.waiting.take j).length = j := List.length_take_of_le hlt.le
    obtain ⟨ops₁, ops₂, t₁, hsplit, hcount, ht₁, hserved⟩ :=
      exists_served hinv hheap hw hops' (by rw [hlen]; exact hn)
    exact ⟨ops₁, ops₂, t₁, hsplit, by rw [hcount, hlen], ht₁, hserved⟩

/-- Three tasks are ready, with the idle task among them. -/
def three : List SchedOp :=
  [.spawn 0 (1, 1) 4096 1, .spawn 0 (2, 2) 4096 1, .prepareNextTask, .spawn 0 (3, 3) 4096 1]

/-- With the tasks `2` and `3` in the line and task `1` running, the next task is `2`, and task `3`
runs at the second of two dispatches, the first of which is for a task that sleeps. -/
theorem dispatch_fifo_sample : ∃ t, exec step sample three = .ok t ∧
    (∃ t', t.step .prepareNextTask = .ok t' ∧ t'.scheduler.currentTaskId = some 2 ∧
      t'.scheduler.waiting = [3, 1]) ∧
    ∃ ops₁ ops₂ t₁,
      [.setCurrentTaskSleep 9, .finishSleep 4, .prepareNextTask] = ops₁ ++ ops₂ ∧
      SchedOp.dispatches ops₁ ≤ 2 ∧ exec step t ops₁ = .ok t₁ ∧
      t₁.scheduler.currentTaskId = some 3 := by
  have hrun : (exec step sample three).map (fun t => (t.scheduler.waiting,
      SchedOp.line t.scheduler .prepareNextTask, t.scheduler.status 3)) =
      .ok ([2, 3], [2, 3, 1], some .ready) := by decide +kernel
  obtain ⟨t, ht, hview⟩ := exists_of_map_eq_ok hrun
  obtain ⟨hwaiting, hview⟩ := Prod.mk.inj hview
  obtain ⟨hline, hready⟩ := Prod.mk.inj hview
  have hops : Along step Allowed sample
      (three ++ [.setCurrentTaskSleep 9, .finishSleep 4, .prepareNextTask]) := by decide +kernel
  have hidx : t.scheduler.waiting.idxOf 3 = 1 := by
    rw [hwaiting]
    rfl
  obtain ⟨free, howns⟩ := @Owns.ofRegion 0x80000 0x80008 (by decide) (by decide)
  obtain ⟨hstep, hserved⟩ := dispatch_fifo howns sample_init (by decide +kernel) ht
  obtain ⟨t', ht', hcur, htail, -⟩ := hstep .prepareNextTask rfl trivial
  rw [hline] at hcur htail
  have h3 := hserved 3 (by decide) hready _ (hops.of_append ht) (by rw [hidx]; decide)
  rw [hidx] at h3
  exact ⟨t, ht, ⟨t', ht', hcur, htail⟩, h3⟩

end SchedSystem

end CharlotteOs
