import CharlotteOs.Task.RunQueue
import CharlotteOs.Task.SchedulerState

/-!
# What the scheduler's functions do to the run queue

Each function of the scheduler is one operation of `RunQueue`, or a few of them. `SchedInv` ties
the scheduler to a run queue and its tasks' stacks to blocks of the buddy allocator that are in
use, so no function of it panics.

## Main definitions

* `SchedInv`: the scheduler, the run queue it keeps and the stacks it owns

## Main results

* `SchedInv.dispatch`, `SchedInv.stopCurrent`, `SchedInv.wake`, `SchedInv.finishSleep`,
  `SchedInv.exitCurrentTask`, `SchedInv.prepareNextTask`, `SchedInv.spawn`
-/

namespace CharlotteOs

open DyadicTiling BuddySystemFrameAllocator

/-- **The scheduler's invariant**: it keeps the run queue `q`, its tasks are in their own slots,
and the stacks of the tasks are in use beside the blocks `L₀`. -/
structure SchedInv (M : Set ℕ) (L₀ : List Block) (s : Scheduler)
    (buddy : BuddySystemFrameAllocator) (q : RunQueue) : Prop where
  status : s.status = q.status
  ready : s.readyQueue = q.ready
  zombies : s.zombieQueue = q.zombies
  tasks : ∀ id tcb, s.task id = some tcb → tcb.taskId = id ∧ tcb.StackOk
  heap : ∀ e ∈ s.blockedQueue, e.taskId < s.taskList.length
  owns : ∃ free, Owns buddy free M (s.stackBlocks ++ L₀)

namespace SchedInv

open Scheduler

variable {M : Set ℕ} {L₀ : List Block} {s : Scheduler} {buddy : BuddySystemFrameAllocator}
  {q : RunQueue} {id : ℕ} {tcb : TaskControlBlock}

/-- **A task changes** its status or context, and the queues change with it. -/
theorem setTcb (h : SchedInv M L₀ s buddy q) (ht : s.task id = some tcb) {tcb' : TaskControlBlock}
    {q' : RunQueue} {heap : List SleepEntry} {current : Option ℕ} {ready zombies : List ℕ}
    (hid : tcb'.taskId = tcb.taskId) (hbase : tcb'.stackBase = tcb.stackBase)
    (hpages : tcb'.pageCount = tcb.pageCount)
    (hstatus : q'.status = Function.update q.status id (some tcb'.status))
    (hready : ready = q'.ready) (hzombies : zombies = q'.zombies)
    (hheap : ∀ e ∈ heap, e.taskId < s.taskList.length) :
    SchedInv M L₀ { s.setTcb id tcb' with
      readyQueue := ready, zombieQueue := zombies, blockedQueue := heap, currentTaskId := current }
      buddy q' := by
  have hblock : tcb'.stackBlock = tcb.stackBlock := by
    rw [TaskControlBlock.stackBlock, TaskControlBlock.stackBlock, hbase, hpages]
  have htask := task_setTcb (lt_of_task ht) tcb'
  refine ⟨?_, hready, hzombies, forall_task_of_update htask h.tasks fun t ht' => ?_,
    fun e he => ?_, ?_⟩
  · rw [hstatus, ← h.status]
    exact status_of_update htask
  · cases ht'
    obtain ⟨hold, hstack⟩ := h.tasks id tcb ht
    refine ⟨hid.trans hold, ?_, ?_, ?_, ?_⟩
    · rw [hpages]
      exact hstack.pos
    · rw [hpages]
      exact hstack.lt
    · rw [hbase, hblock]
      exact hstack.base
    · rw [hblock]
      exact hstack.base_lt
  · rw [Scheduler.setTcb, List.length_set]
    exact hheap e he
  · obtain ⟨free, howns⟩ := h.owns
    refine ⟨free, ?_⟩
    have hstacks := filterMap_set_of_eq (f := TaskControlBlock.stackBlock) (task_eq_some.mp ht)
      hblock
    show Owns buddy free M ((s.taskList.set id (some tcb')).filterMap _ ++ L₀)
    rw [hstacks]
    exact howns

/-- The saved registers of a task that is not blocked change. -/
theorem setContext (h : SchedInv M L₀ s buddy q) (ht : s.task id = some tcb)
    (hst : tcb.status ≠ .blocked) (ctx : TaskContext) :
    SchedInv M L₀ (s.setTcb id { tcb with context := ctx }) buddy q ∧
      SameBlocked s (s.setTcb id { tcb with context := ctx }) := by
  have hstatus : q.status = Function.update q.status id (some tcb.status) := by
    rw [← h.status, ← status_of_task ht, Function.update_eq_self]
  refine ⟨h.setTcb ht rfl rfl rfl hstatus h.ready h.zombies h.heap,
    .of_update (task_setTcb (lt_of_task ht) _) ?_ (fun t ht' => ?_) rfl⟩
  · rw [status_of_task ht]
    exact fun heq => hst (Option.some.inj heq)
  · cases ht'
    exact hst

/-! ## Switching tasks -/

/-- With no task running, `dispatch` runs the next one. -/
theorem dispatch (h : SchedInv M L₀ s buddy q) (hrun : q.running = none) :
    ∃ s', s.dispatch = .ok s' ∧ SchedInv M L₀ s' buddy (q.dispatch hrun) ∧
      s'.currentTaskId = (q.dispatch hrun).running ∧ SameBlocked s s' ∧
      s'.taskList.length = s.taskList.length := by
  have hnext := (q.nextTask_spec hrun).1
  rw [← h.status, ← h.ready] at hnext
  obtain ⟨tcb, ht, -⟩ := exists_of_status hnext
  refine ⟨{ s.setTcb (nextTask s.readyQueue).1 { tcb with status := .running } with
    readyQueue := (nextTask s.readyQueue).2
    currentTaskId := some (nextTask s.readyQueue).1 }, ?_, ?_, ?_, ?_, List.length_set⟩
  · rw [Scheduler.dispatch]
    dsimp only
    rw [slot_of_task ht, ok_bind]
  · refine h.setTcb ht rfl rfl rfl ?_ ?_ h.zombies h.heap
    · rw [h.ready]
      rfl
    · rw [h.ready]
      rfl
  · show some (nextTask s.readyQueue).1 = _
    rw [h.ready]
    rfl
  · refine .of_update (task_setTcb (lt_of_task ht) _) (by simp [hnext]) (fun t ht' => ?_) rfl
    cases ht'
    simp

/-- A task other than task `0` that runs is blocked, and the next one runs. -/
theorem stopCurrent (h : SchedInv M L₀ s buddy q) (hcur : s.currentTaskId = q.running) {c : ℕ}
    (hc : q.running = some c) (hzero : c ≠ 0) {heap : ℕ → List SleepEntry}
    (hheap : ∀ e ∈ heap c, e.taskId < s.taskList.length) :
    ∃ s' q' tcb, s.stopCurrent heap = .ok s' ∧ SchedInv M L₀ s' buddy q' ∧
      s'.currentTaskId = q'.running ∧ q'.running.isSome ∧ s.task c = some tcb ∧
      s'.blocked = Function.update s.blocked c (some tcb.context) ∧ s'.blockedQueue = heap c ∧
      s'.taskList.length = s.taskList.length := by
  have hstatus := q.status_running hc
  rw [← h.status] at hstatus
  obtain ⟨tcb, ht, hrunning⟩ := exists_of_status hstatus
  have hstopped : SchedInv M L₀ { s.setTcb c { tcb with status := .blocked } with
      blockedQueue := heap c } buddy (q.stop c hc hzero) :=
    h.setTcb ht rfl rfl rfl rfl h.ready h.zombies hheap
  obtain ⟨s', hs', hinv, hcur', hsame, hlen⟩ := hstopped.dispatch rfl
  refine ⟨s', _, tcb, ?_, hinv, hcur', rfl, ht, ?_, hsame.heap, hlen.trans List.length_set⟩
  · rw [Scheduler.stopCurrent, hcur, hc]
    dsimp only
    rw [slot_of_task ht, ok_bind]
    dsimp only
    rw [if_pos hrunning]
    exact hs'
  · exact hsame.blocked.trans (blocked_of_update (task_setTcb (lt_of_task ht) _))

theorem current_lt (h : SchedInv M L₀ s buddy q) (hcur : s.currentTaskId = q.running) (c : ℕ)
    (hc : s.currentTaskId = some c) : c < s.taskList.length := by
  have hstatus := q.status_running (hcur.symm.trans hc)
  rw [← h.status] at hstatus
  obtain ⟨tcb, ht, -⟩ := exists_of_status hstatus
  exact lt_of_task ht

/-- **`set_current_task_sleep`** by a task other than task `0`. -/
theorem setCurrentTaskSleep (h : SchedInv M L₀ s buddy q) (hcur : s.currentTaskId = q.running)
    {c : ℕ} (hc : s.currentTaskId = some c) (hzero : c ≠ 0) (wakeTime : ℕ) :
    ∃ s' q' tcb, s.setCurrentTaskSleep wakeTime = .ok s' ∧ SchedInv M L₀ s' buddy q' ∧
      s'.currentTaskId = q'.running ∧ q'.running.isSome ∧ s.task c = some tcb ∧
      s'.blocked = Function.update s.blocked c (some tcb.context) ∧
      s'.blockedQueue = pushEntry ⟨wakeTime, c⟩ s.blockedQueue ∧
      s'.taskList.length = s.taskList.length := by
  refine h.stopCurrent hcur (hcur.symm.trans hc) hzero fun e he => ?_
  rcases mem_pushEntry.mp he with rfl | he
  · exact h.current_lt hcur c hc
  · exact h.heap e he

/-- **`block_current_task`** by a task other than task `0`. -/
theorem blockCurrentTask (h : SchedInv M L₀ s buddy q) (hcur : s.currentTaskId = q.running)
    {c : ℕ} (hc : s.currentTaskId = some c) (hzero : c ≠ 0) :
    ∃ s' q' tcb, s.blockCurrentTask = .ok s' ∧ SchedInv M L₀ s' buddy q' ∧
      s'.currentTaskId = q'.running ∧ q'.running.isSome ∧ s.task c = some tcb ∧
      s'.blocked = Function.update s.blocked c (some tcb.context) ∧
      s'.blockedQueue = s.blockedQueue ∧ s'.taskList.length = s.taskList.length :=
  h.stopCurrent hcur (hcur.symm.trans hc) hzero h.heap

/-! ## Waking -/

/-- A wake-up makes a blocked task ready and does nothing to others. -/
theorem wake (h : SchedInv M L₀ s buddy q) (hid : id < s.taskList.length)
    (context : TaskContext → TaskContext) :
    ∃ s' q', s.wake id context = .ok s' ∧ SchedInv M L₀ s' buddy q' ∧
      s'.currentTaskId = s.currentTaskId ∧ q'.running = q.running ∧
      s'.task = Function.update s.task id ((s.task id).map (·.wake context)) ∧
      s'.blocked = Function.update s.blocked id none ∧ s'.blockedQueue = s.blockedQueue ∧
      s'.taskList.length = s.taskList.length := by
  rw [Scheduler.wake, slot_of_lt hid, ok_bind]
  cases ht : s.task id with
  | none =>
    refine ⟨s, q, rfl, h, rfl, rfl, ?_, ?_, rfl, rfl⟩
    · rw [Option.map_none, ← ht, Function.update_eq_self]
    · have hnone : s.blocked id = none := blocked_eq_none (by simp [Scheduler.status, ht])
      rw [← hnone, Function.update_eq_self]
  | some tcb =>
    by_cases hst : tcb.status = .blocked
    · have hblocked : q.status id = some .blocked := by
        rw [← h.status, status_of_task ht, hst]
      dsimp only
      rw [if_pos hst]
      have htask := task_setTcb (lt_of_task ht)
        { tcb with status := .ready, context := context tcb.context }
      refine ⟨_, q.add id (Or.inr hblocked), rfl, ?_, rfl, rfl, ?_, ?_, rfl, List.length_set⟩
      · exact h.setTcb ht rfl rfl rfl rfl (by rw [h.ready]; rfl) h.zombies h.heap
      · rw [Option.map_some, TaskControlBlock.wake, if_pos hst]
        exact htask
      · exact blocked_of_update htask
    · dsimp only
      rw [if_neg hst]
      refine ⟨s, q, rfl, h, rfl, rfl, ?_, ?_, rfl, rfl⟩
      · rw [Option.map_some, TaskControlBlock.wake, if_neg hst, ← ht, Function.update_eq_self]
      · have hnone : s.blocked id = none :=
          blocked_eq_none (by rw [status_of_task ht]; simpa using hst)
        rw [← hnone, Function.update_eq_self]

/-- The heap may be replaced by one with tasks that have slots. -/
theorem setHeap (h : SchedInv M L₀ s buddy q) {heap : List SleepEntry}
    (hheap : ∀ e ∈ heap, e.taskId < s.taskList.length) :
    SchedInv M L₀ { s with blockedQueue := heap } buddy q :=
  ⟨h.status, h.ready, h.zombies, h.tasks, hheap, h.owns⟩

/-- The loop of `finish_sleep` wakes tasks whose time has come and no others. -/
theorem finishSleepLoop {now : ℕ} {l : List SleepEntry} (h : SchedInv M L₀ s buddy q)
    (hl : ∀ e ∈ l, e.taskId < s.taskList.length) :
    ∃ s' q', finishSleepLoop now l s = .ok s' ∧ SchedInv M L₀ s' buddy q' ∧
      s'.currentTaskId = s.currentTaskId ∧ q'.running = q.running ∧
      (∀ id, ¬ Due l now id → s'.blocked id = s.blocked id) ∧
      (∀ id, s'.blocked id = s.blocked id ∨ s'.blocked id = none) ∧
      (∀ e ∈ s'.blockedQueue, e ∈ l) ∧ s'.taskList.length = s.taskList.length := by
  induction l generalizing s q with
  | nil =>
    exact ⟨_, q, rfl, h.setHeap (by simp), rfl, rfl, fun _ _ => rfl, fun _ => Or.inl rfl, by simp,
      rfl⟩
  | cons e l ih =>
    rw [Scheduler.finishSleepLoop]
    split
    · exact ⟨_, q, rfl, h.setHeap hl, rfl, rfl, fun _ _ => rfl, fun _ => Or.inl rfl,
        fun _ he => he, rfl⟩
    · rename_i hdue
      obtain ⟨s₁, q₁, hs₁, hinv₁, hcur₁, hrun₁, -, hblocked₁, -, hlen₁⟩ :=
        h.wake (hl e List.mem_cons_self) fun context => context
      obtain ⟨s₂, q₂, hs₂, hinv₂, hcur₂, hrun₂, hnot₂, hor₂, hheap₂, hlen₂⟩ :=
        ih hinv₁ fun e' he' => by
          rw [hlen₁]
          exact hl e' (List.mem_cons_of_mem _ he')
      have hs₁ : s.setTaskReady e.taskId = .ok s₁ := hs₁
      refine ⟨s₂, q₂, by rw [hs₁, ok_bind]; exact hs₂, hinv₂, hcur₂.trans hcur₁,
        hrun₂.trans hrun₁, fun id hid => ?_, fun id => ?_,
        fun e' he' => List.mem_cons_of_mem _ (hheap₂ e' he'), hlen₂.trans hlen₁⟩
      · have hne : id ≠ e.taskId := fun heq =>
          hid ⟨e, List.mem_cons_self, heq.symm, Nat.not_lt.mp hdue⟩
        rw [hnot₂ id fun ⟨e', he', hdue'⟩ => hid ⟨e', List.mem_cons_of_mem _ he', hdue'⟩,
          hblocked₁, Function.update_of_ne hne]
      · rcases hor₂ id with heq | hnone
        · rw [heq, hblocked₁]
          by_cases hid : id = e.taskId
          · right
            rw [hid, Function.update_self]
          · left
            rw [Function.update_of_ne hid]
        · exact Or.inr hnone

/-- **`finish_sleep`** wakes tasks whose time has come and stops none. -/
theorem finishSleep (h : SchedInv M L₀ s buddy q) (now : ℕ) :
    ∃ s' q', s.finishSleep now = .ok s' ∧ SchedInv M L₀ s' buddy q' ∧
      s'.currentTaskId = s.currentTaskId ∧ q'.running = q.running ∧
      (∀ id, ¬ Due s.blockedQueue now id → s'.blocked id = s.blocked id) ∧
      (∀ id, s'.blocked id = s.blocked id ∨ s'.blocked id = none) ∧
      (∀ e ∈ s'.blockedQueue, e ∈ s.blockedQueue) ∧ s'.taskList.length = s.taskList.length :=
  h.finishSleepLoop h.heap

/-! ## Exit and reaping -/

/-- A task other than task `0` that runs becomes a zombie. It stays the current task until the next
dispatch. -/
theorem exitCurrentTask (h : SchedInv M L₀ s buddy q) (hcur : s.currentTaskId = q.running) {c : ℕ}
    (hc : q.running = some c) (hzero : c ≠ 0) :
    ∃ s', s.exitCurrentTask = .ok s' ∧ SchedInv M L₀ s' buddy (q.exit c hc hzero) ∧
      s'.currentTaskId = some c ∧ SameBlocked s s' ∧
      s'.taskList.length = s.taskList.length := by
  have hstatus := q.status_running hc
  rw [← h.status] at hstatus
  obtain ⟨tcb, ht, -⟩ := exists_of_status hstatus
  refine ⟨{ s.setTcb c { tcb with status := .terminated } with
    zombieQueue := s.zombieQueue ++ [c] }, ?_, ?_, hcur.trans hc, ?_, List.length_set⟩
  · rw [Scheduler.exitCurrentTask, getCurrentTaskId, hcur, hc]
    dsimp only
    rw [ok_bind, slot_of_task ht, ok_bind]
  · exact h.setTcb ht rfl rfl rfl rfl h.ready (by rw [h.zombies]; rfl) h.heap
  · refine .of_update (task_setTcb (lt_of_task ht) _) (by simp [hstatus]) (fun t ht' => ?_) rfl
    cases ht'
    simp

/-- A zombie's slot is emptied and its stack goes back. The zombie queue is updated when all have
been reaped, so it is given separately. A zombie is not in the ready queue, so the filter there
changes nothing. -/
theorem reap {zs : List ℕ}
    (h : SchedInv M L₀ { s with zombieQueue := (id :: zs).reverse } buddy q) :
    ∃ s' buddy' q', s.reap buddy id = .ok (s', buddy') ∧
      SchedInv M L₀ { s' with zombieQueue := zs.reverse } buddy' q' ∧
      s'.currentTaskId = s.currentTaskId ∧ q'.running = q.running ∧ SameBlocked s s' ∧
      s'.taskList.length = s.taskList.length := by
  have hzombies : q.zombies = zs.reverse ++ [id] := by
    rw [← h.zombies, List.reverse_cons]
  have hmem : id ∈ q.zombies := by
    rw [hzombies]
    exact List.mem_append_right _ (List.mem_singleton_self id)
  have hstatus := (q.mem_zombies id).mp hmem
  rw [← h.status] at hstatus
  obtain ⟨tcb, ht, -⟩ := exists_of_status hstatus
  have ht : s.task id = some tcb := ht
  have hstack := (h.tasks id tcb ht).2
  have hfilter : s.readyQueue.filter (· ≠ id) = s.readyQueue := by
    rw [List.filter_eq_self]
    intro id' hid'
    have hready : q.status id' = some .ready := (q.mem_ready id').mp (h.ready ▸ hid')
    refine decide_eq_true fun heq => ?_
    rw [heq, (q.mem_zombies id).mp hmem] at hready
    cases hready
  obtain ⟨free, howns⟩ := h.owns
  have hperm : (Scheduler.stackBlocks { s with zombieQueue := (id :: zs).reverse } ++ L₀).Perm
      (tcb.stackBlock ::
        ((s.taskList.set id none).filterMap (Option.map TaskControlBlock.stackBlock) ++ L₀)) :=
    (filterMap_set_none (f := TaskControlBlock.stackBlock) (task_eq_some.mp ht)).append_right L₀
  have htask : (Scheduler.mk s.currentTaskId (s.readyQueue.filter (· ≠ id))
      (s.taskList.set id none) zs.reverse s.blockedQueue).task = Function.update s.task id none :=
    funext (getElem?_set_join (lt_of_task ht) none)
  obtain ⟨buddy', free', hdealloc, howns', -⟩ := howns.dealloc hperm hstack.pos hstack.lt rfl
  refine ⟨{ s with readyQueue := s.readyQueue.filter (· ≠ id),
                   taskList := s.taskList.set id none }, buddy', q.reap id hmem, ?_,
    ⟨?_, ?_, ?_, ?_, ?_, free', howns'⟩, rfl, rfl, ?_, List.length_set⟩
  · rw [Scheduler.reap]
    dsimp only
    rw [task_eq_some.mp ht]
    dsimp only
    rw [hstack.ppn, ok_bind, if_neg hstack.pos.ne', hdealloc, ok_bind]
  · show _ = Function.update q.status id none
    rw [← h.status]
    exact status_of_update htask
  · exact hfilter.trans h.ready
  · show zs.reverse = q.zombies.erase id
    have hnodup := q.zombies_nodup
    rw [hzombies, List.nodup_append] at hnodup
    rw [hzombies, List.erase_append_right _ fun hid => hnodup.2.2 id hid id (by simp) rfl]
    simp
  · exact forall_task_of_update htask h.tasks fun t ht' => nomatch ht'
  · intro e he
    rw [List.length_set]
    exact h.heap e he
  · have hstatus : s.status id = some .terminated := hstatus
    exact .of_update htask (by simp [hstatus]) (fun t ht' => nomatch ht') rfl

/-- The reaping loop, which stops at the current task. -/
theorem reapLoop (current : Option ℕ) {zs : List ℕ}
    (h : SchedInv M L₀ { s with zombieQueue := zs.reverse } buddy q) :
    ∃ s' buddy' q', reapLoop current zs s buddy = .ok (s', buddy') ∧
      SchedInv M L₀ s' buddy' q' ∧ s'.currentTaskId = s.currentTaskId ∧
      q'.running = q.running ∧ SameBlocked s s' ∧ s'.taskList.length = s.taskList.length := by
  induction zs generalizing s buddy q with
  | nil => exact ⟨_, buddy, q, rfl, h, rfl, rfl, ⟨rfl, rfl⟩, rfl⟩
  | cons id zs ih =>
    rw [Scheduler.reapLoop]
    split
    · exact ⟨_, buddy, q, rfl, h, rfl, rfl, ⟨rfl, rfl⟩, rfl⟩
    · obtain ⟨s₁, buddy₁, q₁, hs₁, hinv₁, hcur₁, hrun₁, hsame₁, hlen₁⟩ := h.reap
      obtain ⟨s₂, buddy₂, q₂, hs₂, hinv₂, hcur₂, hrun₂, hsame₂, hlen₂⟩ := ih hinv₁
      refine ⟨s₂, buddy₂, q₂, ?_, hinv₂, hcur₂.trans hcur₁, hrun₂.trans hrun₁,
        hsame₁.trans hsame₂, hlen₂.trans hlen₁⟩
      rw [hs₁, ok_bind]
      exact hs₂

/-- The current task goes back to the queue if it runs. -/
theorem requeueCurrent (h : SchedInv M L₀ s buddy q)
    (hcur : q.running = none ∨ s.currentTaskId = q.running)
    (hlt : ∀ c, s.currentTaskId = some c → c < s.taskList.length) :
    ∃ s' q', s.requeueCurrent = .ok s' ∧ SchedInv M L₀ s' buddy q' ∧ q'.running = none ∧
      SameBlocked s s' ∧ s'.taskList.length = s.taskList.length := by
  rw [Scheduler.requeueCurrent]
  cases hc : s.currentTaskId with
  | none =>
    refine ⟨s, q, rfl, h, ?_, .refl s, rfl⟩
    rcases hcur with hnone | heq
    · exact hnone
    · exact heq.symm.trans hc
  | some c =>
    dsimp only
    rw [slot_of_lt (hlt c hc), ok_bind]
    by_cases hrunning : s.status c = some .running
    · obtain ⟨tcb, ht, hst⟩ := exists_of_status hrunning
      have hrun : q.running = some c := by
        rw [q.running_iff, ← h.status, hrunning]
      rw [ht]
      dsimp only
      rw [if_pos hst]
      refine ⟨_, q.requeue c hrun, rfl, ?_, rfl, ?_, List.length_set⟩
      · exact h.setTcb ht rfl rfl rfl rfl (by rw [h.ready]; rfl) h.zombies h.heap
      · refine .of_update (task_setTcb (lt_of_task ht) _) (by simp [hrunning]) (fun t ht' => ?_) rfl
        cases ht'
        simp
    · have hnone : q.running = none := by
        rcases hcur with hnone | heq
        · exact hnone
        · have hstatus := q.status_running (heq.symm.trans hc)
          rw [← h.status] at hstatus
          exact absurd hstatus hrunning
      refine ⟨s, q, ?_, h, hnone, .refl s, rfl⟩
      cases ht : s.task c with
      | none => rfl
      | some tcb => exact if_neg fun hst => hrunning (by rw [status_of_task ht, hst])

/-- **`prepare_next_task`** reaps, puts the current task back if it runs, and runs the next. -/
theorem prepareNextTask (h : SchedInv M L₀ s buddy q)
    (hcur : q.running = none ∨ s.currentTaskId = q.running)
    (hlt : ∀ c, s.currentTaskId = some c → c < s.taskList.length) :
    ∃ s' buddy' q', s.prepareNextTask buddy = .ok (s', buddy') ∧ SchedInv M L₀ s' buddy' q' ∧
      s'.currentTaskId = q'.running ∧ q'.running.isSome ∧ SameBlocked s s' ∧
      s'.taskList.length = s.taskList.length := by
  have hrev : SchedInv M L₀ { s with zombieQueue := s.zombieQueue.reverse.reverse } buddy q := by
    rw [List.reverse_reverse]
    exact h
  obtain ⟨s₁, buddy₁, q₁, hs₁, hinv₁, hcur₁, hrun₁, hsame₁, hlen₁⟩ :=
    hrev.reapLoop s.currentTaskId
  obtain ⟨s₂, q₂, hs₂, hinv₂, hrun₂, hsame₂, hlen₂⟩ := hinv₁.requeueCurrent
    (by rw [hcur₁, hrun₁]; exact hcur) (by rw [hcur₁, hlen₁]; exact hlt)
  obtain ⟨s₃, hs₃, hinv₃, hcur₃, hsame₃, hlen₃⟩ := hinv₂.dispatch hrun₂
  refine ⟨s₃, buddy₁, _, ?_, hinv₃, hcur₃, rfl, (hsame₁.trans hsame₂).trans hsame₃,
    hlen₃.trans (hlen₂.trans hlen₁)⟩
  rw [Scheduler.prepareNextTask, hs₁, ok_bind]
  dsimp only
  rw [hs₂, ok_bind, hs₃, ok_bind]

/-- A task exits and the next one runs. In between, the task is still the current one, but no task
runs. -/
theorem exit (h : SchedInv M L₀ s buddy q) (hcur : s.currentTaskId = q.running) {c : ℕ}
    (hc : q.running = some c) (hzero : c ≠ 0) :
    ∃ s₁ s' buddy' q', s.exitCurrentTask = .ok s₁ ∧ SchedInv M L₀ s₁ buddy (q.exit c hc hzero) ∧
      s₁.currentTaskId = some c ∧ s₁.prepareNextTask buddy = .ok (s', buddy') ∧
      SchedInv M L₀ s' buddy' q' ∧ s'.currentTaskId = q'.running ∧ q'.running.isSome ∧
      SameBlocked s s' := by
  obtain ⟨s₁, hs₁, hinv₁, hcur₁, hsame₁, hlen₁⟩ := h.exitCurrentTask hcur hc hzero
  have hlt : ∀ c', s₁.currentTaskId = some c' → c' < s₁.taskList.length := by
    intro c' hc'
    rw [hcur₁, Option.some.injEq] at hc'
    rw [hlen₁, ← hc']
    exact h.current_lt hcur c (hcur.trans hc)
  obtain ⟨s', buddy', q', hs', hinv', hcur', hsome, hsame, -⟩ :=
    hinv₁.prepareNextTask (Or.inl rfl) hlt
  exact ⟨s₁, s', buddy', q', hs₁, hinv₁, hcur₁, hs', hinv', hcur', hsome, hsame₁.trans hsame⟩

/-! ## New tasks -/

/-- The slot of a new task, where it is not a new one, is empty. -/
theorem getElem?_freeId {s : Scheduler} (hne : s.freeId ≠ s.taskList.length) :
    s.freeId < s.taskList.length ∧ s.taskList[s.freeId]? = some none := by
  have hlt : s.freeId < s.taskList.length := lt_of_le_of_ne List.findIdx_le_length hne
  refine ⟨hlt, ?_⟩
  rw [List.getElem?_eq_getElem hlt]
  exact congrArg some (Option.isNone_iff_eq_none.mp (List.findIdx_getElem (w := hlt)))

/-- No task has the id of a new one. -/
theorem task_freeId (s : Scheduler) : s.task s.freeId = none := by
  by_cases hfull : s.freeId = s.taskList.length
  · rw [hfull, task, List.getElem?_eq_none le_rfl]
    rfl
  · rw [task, (getElem?_freeId hfull).2]
    rfl

/-- `spawn` puts the new task into a free slot and leaves the other slots as they were. -/
theorem addTask_spec {s s' : Scheduler} {tcb : TaskControlBlock}
    (hl : s'.taskList = if s.freeId = s.taskList.length then s.taskList ++ [some tcb]
      else s.taskList.set s.freeId (some tcb)) :
    s'.task = Function.update s.task s.freeId (some tcb) ∧
      s'.stackBlocks.Perm (tcb.stackBlock :: s.stackBlocks) ∧
      s.taskList.length ≤ s'.taskList.length := by
  by_cases hfull : s.freeId = s.taskList.length
  · rw [if_pos hfull] at hl
    refine ⟨funext fun id => ?_, ?_, ?_⟩
    · rw [task, hl, hfull]
      rcases lt_trichotomy id s.taskList.length with hlt | heq | hgt
      · rw [Function.update_of_ne hlt.ne, List.getElem?_append_left hlt]
        rfl
      · rw [heq, Function.update_self, List.getElem?_concat_length]
        rfl
      · rw [Function.update_of_ne hgt.ne', task, List.getElem?_eq_none hgt.le,
          List.getElem?_eq_none (by rw [List.length_append]; exact hgt)]
    · rw [stackBlocks, hl, List.filterMap_append]
      exact List.perm_append_comm
    · rw [hl, List.length_append]
      exact Nat.le_add_right _ _
  · rw [if_neg hfull] at hl
    obtain ⟨hlt, hnone⟩ := getElem?_freeId hfull
    refine ⟨funext fun id => ?_, ?_, ?_⟩
    · rw [task, hl, getElem?_set_join hlt]
      rfl
    · rw [stackBlocks, hl]
      exact filterMap_set_some hnone
    · rw [hl, List.length_set]

/-- The stack of a new task is the block that the allocator gave. -/
theorem newTcb_stack (trampoline id priority : ℕ) (entry : ℕ × ℕ) {pages : ℕ} {r : Block}
    (hpos : 0 < pages) (hlt : pages < 2 ^ 64) (horder : r.order = Nat.clog 2 pages)
    (hbase : r.base < 2 ^ 20) :
    (newTcb trampoline id (physToVirt (r.base * pageSize)) pages entry priority).stackBlock = r ∧
      (newTcb trampoline id (physToVirt (r.base * pageSize)) pages entry priority).StackOk := by
  have hblock :
      (newTcb trampoline id (physToVirt (r.base * pageSize)) pages entry priority).stackBlock =
        r := by
    have hdvd : 2 ^ Nat.clog 2 pages ∣ r.base := horder ▸ r.aligned
    have hphys := virtToPhys_physToVirt ((mul_pageSize_lt hbase).trans (by decide))
    rw [TaskControlBlock.stackBlock]
    show Block.containing (Nat.clog 2 pages) (virtToPhys (physToVirt _) / pageSize) = r
    rw [hphys, Nat.mul_div_cancel _ (by decide)]
    exact Block.ext (Block.containing_base hdvd) horder.symm
  refine ⟨hblock, hpos, hlt, ?_, ?_⟩
  · rw [hblock]
    rfl
  · rw [hblock]
    exact hbase

/-- What `spawn` does to any scheduler: a new block, with a stack that was free, goes into a free
slot and its id to the end of the ready queue, or there is an error and nothing changes. -/
theorem spawn_spec (s : Scheduler) {free : ℕ → List ℕ} {L : List Block}
    (howns : Owns buddy free M L) (trampoline stackSize priority : ℕ) (entry : ℕ × ℕ) :
    (∃ tcb s' buddy' free',
      s.spawn buddy trampoline entry stackSize priority = .ok (.ok (), s', buddy') ∧
      s'.taskList = (if s.freeId = s.taskList.length then s.taskList ++ [some tcb]
        else s.taskList.set s.freeId (some tcb)) ∧
      s' = { s with taskList := s'.taskList, readyQueue := s.readyQueue ++ [s.freeId] } ∧
      tcb.taskId = s.freeId ∧ tcb.status = .ready ∧ tcb.StackOk ∧
      Owns buddy' free' M (tcb.stackBlock :: L)) ∨
    s.spawn buddy trampoline entry stackSize priority =
      .ok (.error .memoryAllocationError, s, buddy) := by
  rw [Scheduler.spawn]
  dsimp only
  set pages := ((stackSize + pageSize - 1) % 2 ^ 64) / pageSize with hpages
  by_cases hzero : pages = 0
  · right
    rw [if_pos hzero]
  rw [if_neg hzero]
  have hlt : pages < 2 ^ 64 := (Nat.div_le_self _ _).trans_lt (Nat.mod_lt _ (by decide))
  rcases howns.alloc (Nat.pos_of_ne_zero hzero) hlt with
    ⟨buddy', free', r, halloc, horder, howns', -, -⟩ | hnone
  · left
    have hbase := howns'.addressable.lt
      (howns'.subset r List.mem_cons_self r.base_mem_cells)
    obtain ⟨hblock, hstack⟩ := newTcb_stack trampoline s.freeId priority entry
      (Nat.pos_of_ne_zero hzero) hlt horder hbase
    have hne : physToVirt (r.base * pageSize) ≠ 0 := by
      rw [physToVirt_eq (mul_pageSize_lt hbase)]
      exact (Nat.add_pos_right _ (by decide)).ne'
    rw [halloc, ok_bind]
    dsimp only
    rw [PhysAddr.ofPpn_eq (hbase.trans (by decide)), if_neg hne]
    exact ⟨_, _, buddy', free', rfl, rfl, rfl, rfl, rfl, hstack, hblock.symm ▸ howns'⟩
  · right
    rw [hnone, ok_bind]

/-- **`spawn`** adds a ready task in a free slot, or returns an error and changes nothing. -/
theorem spawn (h : SchedInv M L₀ s buddy q) (trampoline stackSize priority : ℕ) (entry : ℕ × ℕ) :
    (∃ s' buddy' q', s.spawn buddy trampoline entry stackSize priority = .ok (.ok (), s', buddy') ∧
      SchedInv M L₀ s' buddy' q' ∧ s'.currentTaskId = s.currentTaskId ∧
      q'.running = q.running ∧ SameBlocked s s' ∧ s.taskList.length ≤ s'.taskList.length) ∨
    s.spawn buddy trampoline entry stackSize priority =
      .ok (.error .memoryAllocationError, s, buddy) := by
  obtain ⟨free, howns⟩ := h.owns
  refine (spawn_spec s howns trampoline stackSize priority entry).imp_left ?_
  rintro ⟨tcb, s', buddy', free', hspawn, hl, hs', hid, hready, hstack, howns'⟩
  have hfree := task_freeId s
  obtain ⟨htask, hperm, hlen⟩ := addTask_spec hl
  have hstatus : q.status s.freeId = none := by
    rw [← h.status, Scheduler.status, hfree]
    rfl
  refine ⟨s', buddy', q.add s.freeId (Or.inl hstatus), hspawn, ⟨?_, ?_, ?_, ?_, ?_, free', ?_⟩,
    hs' ▸ rfl, rfl, ?_, hlen⟩
  · rw [status_of_update htask, h.status, Option.map_some, hready]
    rfl
  · rw [hs', h.ready]
    rfl
  · rw [hs']
    exact h.zombies
  · refine forall_task_of_update htask h.tasks fun t ht => ?_
    cases ht
    exact ⟨hid, hstack⟩
  · rw [hs']
    exact fun e he => (h.heap e he).trans_le hlen
  · exact howns'.perm (hperm.append_right L₀).symm
  · refine .of_update htask (by simp [Scheduler.status, hfree]) (fun t ht => ?_) (by rw [hs'])
    cases ht
    simp [hready]

/-- **`init`** leaves a scheduler with one task, which is ready. -/
theorem init {free : ℕ → List ℕ} (h : Owns buddy free M L₀) {trampoline : ℕ} {entry : ℕ × ℕ}
    {s' : Scheduler} {buddy' : BuddySystemFrameAllocator}
    (hinit : Scheduler.new.init buddy trampoline entry = .ok (.ok (), s', buddy')) :
    SchedInv M L₀ s' buddy' RunQueue.initial ∧ s'.currentTaskId = none ∧ s'.blockedQueue = [] := by
  rw [Scheduler.init] at hinit
  rcases spawn_spec Scheduler.new h trampoline 4096 0 entry with
    ⟨tcb, s₁, buddy₁, free', hspawn, hl, hs₁, hid, hready, hstack, howns'⟩ | herror
  · obtain ⟨htask, hperm, -⟩ := addTask_spec hl
    rw [hspawn] at hinit
    cases hinit
    refine ⟨⟨?_, ?_, ?_, ?_, ?_, free', ?_⟩, hs₁ ▸ rfl, hs₁ ▸ rfl⟩
    · rw [status_of_update htask, Option.map_some, hready]
      rfl
    · rw [hs₁]
      rfl
    · rw [hs₁]
      rfl
    · refine forall_task_of_update htask (fun id t ht => nomatch ht) fun t ht => ?_
      cases ht
      exact ⟨hid, hstack⟩
    · rw [hs₁]
      exact fun e he => nomatch he
    · exact howns'.perm (hperm.append_right L₀).symm
  · rw [herror] at hinit
    cases hinit

end SchedInv

end CharlotteOs
