import CharlotteOs.Task.SchedulerRuns

/-!
# Scheduling does not look at registers

The scheduler keeps the registers of a task in its block, and `src/trap` writes to them through a
pointer. No operation of the scheduler reads them: two schedulers that agree up to the registers of
their tasks take each operation to schedulers that agree again.

## Main definitions

* `Scheduler.Agrees`: two schedulers are the same up to the registers of their tasks
* `SchedSystem.Agrees`: the same with the allocator

## Main results

* `SchedSystem.Agrees.step`: each operation keeps the agreement
-/

namespace CharlotteOs

open FallibleRun

/-- The block of a task without its registers. -/
def TaskControlBlock.bare (tcb : TaskControlBlock) : TaskControlBlock :=
  { tcb with context := TaskContext.zero }

namespace Scheduler

/-- **The same up to registers.** -/
structure Agrees (s t : Scheduler) : Prop where
  current : s.currentTaskId = t.currentTaskId
  ready : s.readyQueue = t.readyQueue
  tasks : s.taskList.map (Option.map TaskControlBlock.bare) =
    t.taskList.map (Option.map TaskControlBlock.bare)
  zombies : s.zombieQueue = t.zombieQueue
  heap : s.blockedQueue = t.blockedQueue

namespace Agrees

variable {s s' t : Scheduler} {a b : TaskControlBlock} {id : ℕ}
  {buddy buddy' : BuddySystemFrameAllocator}

theorem refl (s : Scheduler) : s.Agrees s := ⟨rfl, rfl, rfl, rfl, rfl⟩

theorem symm (h : s.Agrees t) : t.Agrees s :=
  ⟨h.current.symm, h.ready.symm, h.tasks.symm, h.zombies.symm, h.heap.symm⟩

theorem trans {u : Scheduler} (h : s.Agrees t) (h' : t.Agrees u) : s.Agrees u :=
  ⟨h.current.trans h'.current, h.ready.trans h'.ready, h.tasks.trans h'.tasks,
    h.zombies.trans h'.zombies, h.heap.trans h'.heap⟩

theorem length (h : s.Agrees t) : s.taskList.length = t.taskList.length := by
  have hlen := congrArg List.length h.tasks
  rwa [List.length_map, List.length_map] at hlen

theorem getElem (h : s.Agrees t) (id : ℕ) :
    s.taskList[id]?.map (Option.map TaskControlBlock.bare) =
      t.taskList[id]?.map (Option.map TaskControlBlock.bare) := by
  rw [← List.getElem?_map, ← List.getElem?_map, h.tasks]

theorem setTcb (h : s.Agrees t) (id : ℕ) (hab : a.bare = b.bare) :
    (s.setTcb id a).Agrees (t.setTcb id b) where
  current := h.current
  ready := h.ready
  tasks := by
    rw [Scheduler.setTcb, Scheduler.setTcb, List.map_set, List.map_set, h.tasks, Option.map_some,
      Option.map_some, hab]
  zombies := h.zombies
  heap := h.heap

/-- A slot that can be read can be read in the other scheduler, and is empty in both or has blocks
that are the same up to registers. -/
theorem slot (h : s.Agrees t) {slot : Option TaskControlBlock} (hs : s.slot id = .ok slot) :
    ∃ slot', t.slot id = .ok slot' ∧
      slot.map TaskControlBlock.bare = slot'.map TaskControlBlock.bare := by
  have hget := h.getElem id
  rw [Scheduler.slot] at hs ⊢
  cases hslot : s.taskList[id]? with
  | none =>
    rw [hslot] at hs
    cases hs
  | some x =>
    rw [hslot] at hs hget
    cases hs
    obtain ⟨y, hy, hxy⟩ := Option.map_eq_some_iff.mp hget.symm
    rw [hy]
    exact ⟨y, rfl, hxy.symm⟩

theorem bare_eq_some {slot : Option TaskControlBlock}
    (h : (some a).map TaskControlBlock.bare = slot.map TaskControlBlock.bare) :
    ∃ b, slot = some b ∧ a.bare = b.bare := by
  obtain ⟨b, hb, hab⟩ := Option.map_eq_some_iff.mp h.symm
  exact ⟨b, hb, hab.symm⟩

theorem status_of_bare (h : a.bare = b.bare) : a.status = b.status := by
  have hstatus : a.bare.status = b.bare.status := by rw [h]
  exact hstatus

/-- The stack of a task is not in its registers. -/
theorem stack_of_bare (h : a.bare = b.bare) :
    a.stackBase = b.stackBase ∧ a.pageCount = b.pageCount := by
  have hbase : a.bare.stackBase = b.bare.stackBase := by rw [h]
  have hpages : a.bare.pageCount = b.bare.pageCount := by rw [h]
  exact ⟨hbase, hpages⟩

theorem bare_withStatus (h : a.bare = b.bare) (status : TaskStatus) :
    TaskControlBlock.bare { a with status } = TaskControlBlock.bare { b with status } :=
  congrArg (fun tcb : TaskControlBlock => { tcb with status }) h

theorem dispatch (h : s.Agrees t) (hs : s.dispatch = .ok s') :
    ∃ t', t.dispatch = .ok t' ∧ s'.Agrees t' := by
  rw [Scheduler.dispatch, h.ready] at hs
  rw [Scheduler.dispatch]
  generalize nextTask t.readyQueue = next at hs ⊢
  obtain ⟨nextId, readyQueue⟩ := next
  obtain ⟨slot, hslot, hs⟩ := exists_of_bind_eq_ok hs
  obtain ⟨slot', hslot', hbare⟩ := h.slot hslot
  dsimp only
  rw [hslot', ok_bind]
  cases slot with
  | none => cases hs
  | some a =>
    obtain ⟨b, rfl, hab⟩ := bare_eq_some hbare
    cases hs
    have hset := h.setTcb nextId (bare_withStatus hab .running)
    exact ⟨_, rfl, rfl, rfl, hset.tasks, hset.zombies, hset.heap⟩

theorem stopCurrent (h : s.Agrees t) {heap : ℕ → List SleepEntry}
    (hs : s.stopCurrent heap = .ok s') : ∃ t', t.stopCurrent heap = .ok t' ∧ s'.Agrees t' := by
  rw [Scheduler.stopCurrent, h.current] at hs
  rw [Scheduler.stopCurrent]
  cases hcur : t.currentTaskId with
  | none =>
    rw [hcur] at hs
    cases hs
  | some cur =>
    rw [hcur] at hs
    obtain ⟨slot, hslot, hs⟩ := exists_of_bind_eq_ok hs
    obtain ⟨slot', hslot', hbare⟩ := h.slot hslot
    dsimp only
    rw [hslot', ok_bind]
    cases slot with
    | none => cases hs
    | some a =>
      obtain ⟨b, rfl, hab⟩ := bare_eq_some hbare
      dsimp only at hs ⊢
      rw [← status_of_bare hab]
      split at hs
      · rename_i hrunning
        rw [if_pos hrunning]
        have hset := h.setTcb cur (bare_withStatus hab .blocked)
        exact dispatch (s := { s.setTcb cur _ with blockedQueue := heap cur })
          ⟨hset.current, hset.ready, hset.tasks, hset.zombies, rfl⟩ hs
      · cases hs

theorem wake (h : s.Agrees t) {context : TaskContext → TaskContext}
    (hs : s.wake id context = .ok s') : ∃ t', t.wake id context = .ok t' ∧ s'.Agrees t' := by
  obtain ⟨slot, hslot, hs⟩ := exists_of_bind_eq_ok hs
  obtain ⟨slot', hslot', hbare⟩ := h.slot hslot
  rw [Scheduler.wake, hslot', ok_bind]
  cases slot with
  | none =>
    cases hs
    rw [Option.map_eq_none_iff.mp hbare.symm]
    exact ⟨t, rfl, h⟩
  | some a =>
    obtain ⟨b, rfl, hab⟩ := bare_eq_some hbare
    dsimp only at hs ⊢
    rw [← status_of_bare hab]
    split at hs
    · rename_i hblocked
      cases hs
      rw [if_pos hblocked]
      have hwoken :
          TaskControlBlock.bare { a with status := .ready, context := context a.context } =
          TaskControlBlock.bare { b with status := .ready, context := context b.context } :=
        bare_withStatus hab .ready
      have hset := h.setTcb id hwoken
      exact ⟨_, rfl, hset.current, congrArg (· ++ [id]) h.ready, hset.tasks, hset.zombies,
        hset.heap⟩
    · rename_i hblocked
      cases hs
      rw [if_neg hblocked]
      exact ⟨t, rfl, h⟩

theorem finishSleepLoop {now : ℕ} {l : List SleepEntry} (h : s.Agrees t)
    (hs : finishSleepLoop now l s = .ok s') :
    ∃ t', Scheduler.finishSleepLoop now l t = .ok t' ∧ s'.Agrees t' := by
  induction l generalizing s t with
  | nil =>
    cases hs
    exact ⟨_, rfl, h.current, h.ready, h.tasks, h.zombies, rfl⟩
  | cons entry rest ih =>
    rw [Scheduler.finishSleepLoop] at hs ⊢
    split at hs
    · rename_i hlater
      cases hs
      rw [if_pos hlater]
      exact ⟨_, rfl, h.current, h.ready, h.tasks, h.zombies, rfl⟩
    · rename_i hlater
      obtain ⟨s₁, hs₁, hs⟩ := exists_of_bind_eq_ok hs
      obtain ⟨t₁, ht₁, h₁⟩ := wake h hs₁
      rw [if_neg hlater, setTaskReady, ht₁, ok_bind]
      exact ih h₁ hs

theorem exitCurrentTask (h : s.Agrees t) (hs : s.exitCurrentTask = .ok s') :
    ∃ t', t.exitCurrentTask = .ok t' ∧ s'.Agrees t' := by
  obtain ⟨c, hc, hs⟩ := exists_of_bind_eq_ok hs
  obtain ⟨slot, hslot, hs⟩ := exists_of_bind_eq_ok hs
  obtain ⟨slot', hslot', hbare⟩ := h.slot hslot
  have hc' : t.getCurrentTaskId = .ok c := by
    rw [getCurrentTaskId, ← h.current]
    exact hc
  rw [Scheduler.exitCurrentTask, hc', ok_bind, hslot', ok_bind]
  cases slot with
  | none =>
    cases hs
    rw [Option.map_eq_none_iff.mp hbare.symm]
    exact ⟨t, rfl, h⟩
  | some a =>
    obtain ⟨b, rfl, hab⟩ := bare_eq_some hbare
    cases hs
    have hset := h.setTcb c (bare_withStatus hab .terminated)
    exact ⟨_, rfl, hset.current, hset.ready, hset.tasks, congrArg (· ++ [c]) h.zombies, hset.heap⟩

theorem requeueCurrent (h : s.Agrees t) (hs : s.requeueCurrent = .ok s') :
    ∃ t', t.requeueCurrent = .ok t' ∧ s'.Agrees t' := by
  rw [Scheduler.requeueCurrent, h.current] at hs
  rw [Scheduler.requeueCurrent]
  cases hcur : t.currentTaskId with
  | none =>
    rw [hcur] at hs
    cases hs
    exact ⟨t, rfl, h⟩
  | some cur =>
    rw [hcur] at hs
    obtain ⟨slot, hslot, hs⟩ := exists_of_bind_eq_ok hs
    obtain ⟨slot', hslot', hbare⟩ := h.slot hslot
    dsimp only
    rw [hslot', ok_bind]
    cases slot with
    | none =>
      cases hs
      rw [Option.map_eq_none_iff.mp hbare.symm]
      exact ⟨t, rfl, h⟩
    | some a =>
      obtain ⟨b, rfl, hab⟩ := bare_eq_some hbare
      dsimp only at hs ⊢
      rw [← status_of_bare hab]
      split at hs
      · rename_i hrunning
        cases hs
        rw [if_pos hrunning]
        have hset := h.setTcb cur (bare_withStatus hab .ready)
        exact ⟨_, rfl, hset.current, congrArg (· ++ [cur]) h.ready, hset.tasks, hset.zombies,
          hset.heap⟩
      · rename_i hrunning
        cases hs
        rw [if_neg hrunning]
        exact ⟨t, rfl, h⟩

theorem reap (h : s.Agrees t) (hs : s.reap buddy id = .ok (s', buddy')) :
    ∃ t', t.reap buddy id = .ok (t', buddy') ∧ s'.Agrees t' := by
  have hready : s.readyQueue.filter (· ≠ id) = t.readyQueue.filter (· ≠ id) := by rw [h.ready]
  have hget := h.getElem id
  rw [Scheduler.reap] at hs ⊢
  dsimp only at hs ⊢
  cases hslot : s.taskList[id]? with
  | none =>
    rw [hslot] at hs hget
    cases hs
    rw [Option.map_eq_none_iff.mp hget.symm]
    exact ⟨_, rfl, h.current, hready, h.tasks, h.zombies, h.heap⟩
  | some slot =>
    rw [hslot] at hs hget
    obtain ⟨slot', hslot', hbare⟩ := Option.map_eq_some_iff.mp hget.symm
    rw [hslot']
    cases slot with
    | none =>
      cases hs
      rw [Option.map_eq_none_iff.mp hbare]
      exact ⟨_, rfl, h.current, hready, h.tasks, h.zombies, h.heap⟩
    | some a =>
      obtain ⟨b, rfl, hab⟩ := bare_eq_some hbare.symm
      obtain ⟨hstack, hpages⟩ := stack_of_bare hab
      dsimp only at hs ⊢
      rw [← hstack, ← hpages]
      obtain ⟨ppn, hppn, hs⟩ := exists_of_bind_eq_ok hs
      rw [hppn, ok_bind]
      split at hs
      · cases hs
      · rename_i hzero
        obtain ⟨buddy₁, hbuddy, hs⟩ := exists_of_bind_eq_ok hs
        cases hs
        rw [if_neg hzero, hbuddy, ok_bind]
        refine ⟨_, rfl, h.current, hready, ?_, h.zombies, h.heap⟩
        show (s.taskList.set id none).map _ = (t.taskList.set id none).map _
        rw [List.map_set, List.map_set, h.tasks]

theorem reapLoop {current : Option ℕ} {zs : List ℕ} (h : s.Agrees t)
    (hs : reapLoop current zs s buddy = .ok (s', buddy')) :
    ∃ t', Scheduler.reapLoop current zs t buddy = .ok (t', buddy') ∧ s'.Agrees t' := by
  induction zs generalizing s t buddy with
  | nil =>
    cases hs
    exact ⟨_, rfl, h.current, h.ready, h.tasks, rfl, h.heap⟩
  | cons z zs ih =>
    rw [Scheduler.reapLoop] at hs ⊢
    split at hs
    · rename_i hcur
      cases hs
      rw [if_pos hcur]
      exact ⟨_, rfl, h.current, h.ready, h.tasks, rfl, h.heap⟩
    · rename_i hcur
      obtain ⟨⟨s₁, buddy₁⟩, hs₁, hs⟩ := exists_of_bind_eq_ok hs
      obtain ⟨t₁, ht₁, h₁⟩ := reap h hs₁
      rw [if_neg hcur, ht₁, ok_bind]
      exact ih h₁ hs

theorem prepareNextTask (h : s.Agrees t) (hs : s.prepareNextTask buddy = .ok (s', buddy')) :
    ∃ t', t.prepareNextTask buddy = .ok (t', buddy') ∧ s'.Agrees t' := by
  obtain ⟨⟨s₁, buddy₁⟩, hs₁, hs⟩ := exists_of_bind_eq_ok hs
  obtain ⟨s₂, hs₂, hs⟩ := exists_of_bind_eq_ok hs
  obtain ⟨s₃, hs₃, hs⟩ := exists_of_bind_eq_ok hs
  cases hs
  obtain ⟨t₁, ht₁, h₁⟩ := reapLoop h hs₁
  obtain ⟨t₂, ht₂, h₂⟩ := requeueCurrent h₁ hs₂
  obtain ⟨t₃, ht₃, h₃⟩ := dispatch h₂ hs₃
  rw [h.current, h.zombies] at ht₁
  refine ⟨t₃, ?_, h₃⟩
  rw [Scheduler.prepareNextTask, ht₁, ok_bind]
  dsimp only
  rw [ht₂, ok_bind, ht₃, ok_bind]

theorem freeId (h : s.Agrees t) : s.freeId = t.freeId := by
  have hnone : ∀ l : List (Option TaskControlBlock),
      (l.map (Option.map TaskControlBlock.bare)).findIdx Option.isNone =
      l.findIdx Option.isNone := by
    intro l
    rw [List.findIdx_map]
    congr 1
    funext slot
    exact Option.isNone_map
  rw [Scheduler.freeId, Scheduler.freeId, ← hnone, h.tasks, hnone]

theorem spawn (h : s.Agrees t) {trampoline stackSize priority : ℕ} {entry : ℕ × ℕ}
    {r : Except SchedulerError Unit}
    (hs : s.spawn buddy trampoline entry stackSize priority = .ok (r, s', buddy')) :
    ∃ t', t.spawn buddy trampoline entry stackSize priority = .ok (r, t', buddy') ∧
      s'.Agrees t' := by
  rw [Scheduler.spawn, h.freeId, h.length, h.ready] at hs
  rw [Scheduler.spawn]
  dsimp only at hs ⊢
  split at hs
  · rename_i hzero
    cases hs
    rw [if_pos hzero]
    exact ⟨t, rfl, h⟩
  · rename_i hzero
    obtain ⟨⟨found, buddy₁⟩, halloc, hs⟩ := exists_of_bind_eq_ok hs
    rw [if_neg hzero, halloc, ok_bind]
    cases found with
    | none =>
      cases hs
      exact ⟨t, rfl, h⟩
    | some ppn =>
      dsimp only at hs ⊢
      split at hs
      · cases hs
      · rename_i hnull
        cases hs
        rw [if_neg hnull]
        refine ⟨_, rfl, h.current, rfl, ?_, h.zombies, h.heap⟩
        dsimp only
        split
        · rw [List.map_append, List.map_append, h.tasks]
        · rw [List.map_set, List.map_set, h.tasks]

end Agrees

end Scheduler

namespace SchedSystem

/-- **The same up to registers**, with the same allocator. -/
structure Agrees (t u : SchedSystem) : Prop where
  scheduler : t.scheduler.Agrees u.scheduler
  buddy : t.buddy = u.buddy
  dispatched : t.dispatched = u.dispatched

variable {t t' u : SchedSystem}

/-- **Every operation keeps the agreement.** -/
theorem Agrees.step (h : t.Agrees u) {op : SchedOp} (ht' : t.step op = .ok t') :
    ∃ u', u.step op = .ok u' ∧ t'.Agrees u' := by
  cases op with
  | spawn trampoline entry stackSize priority =>
    obtain ⟨⟨r, s, buddy⟩, hs, ht'⟩ := exists_of_bind_eq_ok ht'
    cases ht'
    obtain ⟨s', hs', hagrees⟩ := h.scheduler.spawn hs
    rw [h.buddy] at hs'
    rw [SchedSystem.step, hs', ok_bind]
    exact ⟨_, rfl, hagrees, rfl, h.dispatched⟩
  | prepareNextTask =>
    obtain ⟨⟨s, buddy⟩, hs, ht'⟩ := exists_of_bind_eq_ok ht'
    cases ht'
    obtain ⟨s', hs', hagrees⟩ := h.scheduler.prepareNextTask hs
    rw [h.buddy] at hs'
    rw [SchedSystem.step, hs', ok_bind]
    exact ⟨_, rfl, hagrees, rfl, rfl⟩
  | setCurrentTaskSleep wakeTime =>
    obtain ⟨s, hs, ht'⟩ := exists_of_bind_eq_ok ht'
    cases ht'
    obtain ⟨s', hs', hagrees⟩ := h.scheduler.stopCurrent hs
    rw [h.scheduler.heap] at hs'
    rw [SchedSystem.step, Scheduler.setCurrentTaskSleep, hs', ok_bind]
    exact ⟨_, rfl, hagrees, h.buddy, rfl⟩
  | blockCurrentTask =>
    obtain ⟨s, hs, ht'⟩ := exists_of_bind_eq_ok ht'
    cases ht'
    obtain ⟨s', hs', hagrees⟩ := h.scheduler.stopCurrent hs
    rw [h.scheduler.heap] at hs'
    rw [SchedSystem.step, Scheduler.blockCurrentTask, hs', ok_bind]
    exact ⟨_, rfl, hagrees, h.buddy, rfl⟩
  | finishSleep currentMtime =>
    obtain ⟨s, hs, ht'⟩ := exists_of_bind_eq_ok ht'
    cases ht'
    obtain ⟨s', hs', hagrees⟩ := h.scheduler.finishSleepLoop hs
    rw [h.scheduler.heap] at hs'
    rw [SchedSystem.step, Scheduler.finishSleep, hs', ok_bind]
    exact ⟨_, rfl, hagrees, h.buddy, h.dispatched⟩
  | wakeUpTaskWithResult taskId result =>
    obtain ⟨s, hs, ht'⟩ := exists_of_bind_eq_ok ht'
    cases ht'
    obtain ⟨s', hs', hagrees⟩ := h.scheduler.wake hs
    rw [SchedSystem.step, Scheduler.wakeUpTaskWithResult, hs', ok_bind]
    exact ⟨_, rfl, hagrees, h.buddy, h.dispatched⟩
  | exit =>
    obtain ⟨s₁, hs₁, ht'⟩ := exists_of_bind_eq_ok ht'
    obtain ⟨⟨s, buddy⟩, hs, ht'⟩ := exists_of_bind_eq_ok ht'
    cases ht'
    obtain ⟨s₁', hs₁', hagrees₁⟩ := h.scheduler.exitCurrentTask hs₁
    obtain ⟨s', hs', hagrees⟩ := hagrees₁.prepareNextTask hs
    rw [h.buddy] at hs'
    rw [SchedSystem.step, hs₁', ok_bind, hs', ok_bind]
    exact ⟨_, rfl, hagrees, rfl, rfl⟩

end SchedSystem

end CharlotteOs
