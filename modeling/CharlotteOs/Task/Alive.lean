import CharlotteOs.Task.Fifo
import CharlotteOs.Task.SavedContexts

/-!
# No task comes back to life

A task is alive from the `spawn` that makes it until it exits. No operation of the scheduler looks
at whether the task that it dispatches has exited: `dispatch` takes an id from the ready queue and
sets the status of the block in that slot. It is the queue that is right. Here it is shown that only
`spawn` makes a task that is alive, and that an exit ends it.

## Main definitions

* `Scheduler.Alive`: there is a task in the slot that has not exited
* `Scheduler.NoneBorn`: every task that is alive has been so before

## Main results

* `SchedSystem.alive_step`: a task that is alive after an operation was so before, or is new
* `SchedSystem.not_alive_exit`: a task that exits is not alive
-/

namespace CharlotteOs

open DyadicTiling FallibleRun BuddySystemFrameAllocator

namespace Scheduler

/-- There is a task in the slot that has not exited. -/
def Alive (s : Scheduler) (id : ℕ) : Prop := ∃ st, s.status id = some st ∧ st ≠ .terminated

/-- Every task that is alive after has been so before. -/
def NoneBorn (s s' : Scheduler) : Prop := ∀ id, s'.Alive id → s.Alive id

variable {s s' s₁ : Scheduler} {id : ℕ} {tcb tcb' : TaskControlBlock}
  {buddy buddy' : BuddySystemFrameAllocator}

theorem Alive.of_status {st : TaskStatus} (h : s.status id = some st) (hst : st ≠ .terminated) :
    s.Alive id := ⟨st, h, hst⟩

theorem Alive.of_task (h : s.task id = some tcb) (hst : tcb.status ≠ .terminated) : s.Alive id :=
  .of_status (status_of_task h) hst

theorem not_alive_of_terminated (h : s.status id = some .terminated) : ¬ s.Alive id := by
  rintro ⟨st, hst, hne⟩
  rw [h] at hst
  cases hst
  exact hne rfl

/-- Where one slot is overwritten, the others are as before. -/
theorem Alive.of_set {x : Option TaskControlBlock} {id' : ℕ} (h : s'.Alive id')
    (hl : s'.taskList = s.taskList.set id x) (hne : id' ≠ id) : s.Alive id' := by
  rwa [Alive, status, task, hl, List.getElem?_set_ne hne.symm] at h

/-- **`spawn`** fails and leaves the scheduler as it is, or fills the first free slot. -/
theorem spawn_cases {trampoline stackSize priority : ℕ} {entry : ℕ × ℕ}
    {r : Except SchedulerError Unit}
    (h : s.spawn buddy trampoline entry stackSize priority = .ok (r, s', buddy')) :
    s'.currentTaskId = s.currentTaskId ∧ (s' = s ∨ ∃ stackBase pages,
      s'.task = Function.update s.task s.freeId
        (some (newTcb trampoline s.freeId stackBase pages entry priority))) := by
  rw [Scheduler.spawn] at h
  dsimp only at h
  split at h
  · cases h
    exact ⟨rfl, Or.inl rfl⟩
  · obtain ⟨⟨_ | ppn, buddy₁⟩, -, h⟩ := exists_of_bind_eq_ok h
    · cases h
      exact ⟨rfl, Or.inl rfl⟩
    · dsimp only at h
      split at h
      · cases h
      · simp only [Except.ok.injEq, Prod.mk.injEq] at h
        obtain ⟨-, hs', -⟩ := h
        exact ⟨(congrArg currentTaskId hs').symm,
          Or.inr ⟨_, _, (SchedInv.addTask_spec (congrArg taskList hs'.symm)).1⟩⟩

namespace NoneBorn

theorem refl (s : Scheduler) : NoneBorn s s := fun _ h => h

theorem trans (h : NoneBorn s s₁) (h' : NoneBorn s₁ s') : NoneBorn s s' :=
  fun id hid => h id (h' id hid)

theorem of_taskList (h : s'.taskList = s.taskList) : NoneBorn s s' := by
  intro id hid
  rwa [Alive, status, task, h] at hid

/-- One slot is overwritten. -/
theorem of_set {x : Option TaskControlBlock} (hl : s'.taskList = s.taskList.set id x)
    (hx : (∃ tcb', x = some tcb' ∧ tcb'.status ≠ .terminated) → s.Alive id) : NoneBorn s s' := by
  intro id' hid'
  by_cases hid : id' = id
  · subst hid
    obtain ⟨st, hst, hne⟩ := hid'
    obtain ⟨tcb', ht', hst'⟩ := exists_of_status hst
    have hget := task_eq_some.mp ht'
    rw [hl, List.getElem?_set_self'] at hget
    obtain ⟨_, -, hx'⟩ := Option.map_eq_some_iff.mp hget
    exact hx ⟨tcb', hx', hst' ▸ hne⟩
  · exact hid'.of_set hl hid

theorem wake {context : TaskContext → TaskContext} (h : s.wake id context = .ok s') :
    NoneBorn s s' := by
  obtain ⟨slot, hslot, h⟩ := exists_of_bind_eq_ok h
  cases slot with
  | none =>
    cases h
    exact .refl s
  | some tcb =>
    dsimp only at h
    split at h
    · rename_i hblocked
      cases h
      refine .of_set rfl fun _ => ?_
      exact .of_task (task_of_slot hslot) (by simp [hblocked])
    · cases h
      exact .refl s

theorem finishSleepLoop {now : ℕ} {l : List SleepEntry} (h : finishSleepLoop now l s = .ok s') :
    NoneBorn s s' := by
  induction l generalizing s with
  | nil =>
    cases h
    exact .of_taskList rfl
  | cons e l ih =>
    rw [Scheduler.finishSleepLoop] at h
    split at h
    · cases h
      exact .of_taskList rfl
    · obtain ⟨s₁, hs₁, h⟩ := exists_of_bind_eq_ok h
      exact (wake hs₁).trans (ih h)

theorem reap {z : ℕ} (h : s.reap buddy z = .ok (s', buddy')) : NoneBorn s s' := by
  rw [Scheduler.reap] at h
  dsimp only at h
  split at h
  · obtain ⟨ppn, -, h⟩ := exists_of_bind_eq_ok h
    split at h
    · cases h
    · obtain ⟨buddy₁, -, h⟩ := exists_of_bind_eq_ok h
      cases h
      refine .of_set (x := none) rfl ?_
      rintro ⟨tcb', hnone, -⟩
      cases hnone
  · cases h
    exact .of_taskList rfl

theorem reapLoop {current : Option ℕ} {zs : List ℕ}
    (h : reapLoop current zs s buddy = .ok (s', buddy')) : NoneBorn s s' := by
  induction zs generalizing s buddy with
  | nil =>
    cases h
    exact .of_taskList rfl
  | cons z zs ih =>
    rw [Scheduler.reapLoop] at h
    split at h
    · cases h
      exact .of_taskList rfl
    · obtain ⟨⟨s₁, buddy₁⟩, hs₁, h⟩ := exists_of_bind_eq_ok h
      exact (reap hs₁).trans (ih h)

theorem requeueCurrent (h : s.requeueCurrent = .ok s') : NoneBorn s s' := by
  rw [Scheduler.requeueCurrent] at h
  split at h
  · cases h
    exact .refl s
  · obtain ⟨slot, hslot, h⟩ := exists_of_bind_eq_ok h
    cases slot with
    | none =>
      cases h
      exact .refl s
    | some tcb =>
      dsimp only at h
      split at h
      · rename_i hrunning
        cases h
        refine .of_set rfl fun _ => ?_
        exact .of_task (task_of_slot hslot) (by simp [hrunning])
      · cases h
        exact .refl s

/-- A dispatch does not look at the status of the task that it takes from the queue. -/
theorem dispatch (h₁ : NoneBorn s s₁) (hnext : s.Alive (nextTask s₁.readyQueue).1)
    (h : s₁.dispatch = .ok s') : NoneBorn s s' := by
  rw [Scheduler.dispatch] at h
  obtain ⟨slot, -, h⟩ := exists_of_bind_eq_ok h
  cases slot with
  | none => cases h
  | some tcb =>
    cases h
    intro id hid
    by_cases heq : id = (nextTask s₁.readyQueue).1
    · rw [heq]
      exact hnext
    · exact h₁ id (hid.of_set rfl heq)

theorem stopCurrent {heap : ℕ → List SleepEntry} (hnext : s.Alive (nextTask s.readyQueue).1)
    (h : s.stopCurrent heap = .ok s') : NoneBorn s s' := by
  rw [Scheduler.stopCurrent] at h
  split at h
  · cases h
  · obtain ⟨slot, hslot, h⟩ := exists_of_bind_eq_ok h
    cases slot with
    | none => cases h
    | some tcb =>
      dsimp only at h
      split at h
      · rename_i cur _ _ hrunning
        have hstop : NoneBorn s { s.setTcb cur { tcb with status := .blocked } with
            blockedQueue := heap cur } :=
          .of_set rfl fun _ => .of_task (task_of_slot hslot) (by simp [hrunning])
        exact dispatch hstop hnext h
      · cases h

theorem prepareNextTask (hnext : ∀ id, s'.currentTaskId = some id → s.Alive id)
    (h : s.prepareNextTask buddy = .ok (s', buddy')) : NoneBorn s s' := by
  obtain ⟨⟨s₁, buddy₁⟩, hs₁, h⟩ := exists_of_bind_eq_ok h
  obtain ⟨s₂, hs₂, h⟩ := exists_of_bind_eq_ok h
  obtain ⟨s₃, hs₃, h⟩ := exists_of_bind_eq_ok h
  cases h
  refine dispatch ((reapLoop hs₁).trans (requeueCurrent hs₂)) (hnext _ ?_) hs₃
  exact (dispatch_queue hs₃).2

theorem exitCurrentTask (h : s.exitCurrentTask = .ok s') : NoneBorn s s' := by
  obtain ⟨id, -, h⟩ := exists_of_bind_eq_ok h
  obtain ⟨slot, -, h⟩ := exists_of_bind_eq_ok h
  cases slot with
  | none =>
    cases h
    exact .refl s
  | some tcb =>
    cases h
    refine .of_set rfl ?_
    rintro ⟨tcb', heq, hne⟩
    cases heq
    exact absurd rfl hne

end NoneBorn

end Scheduler

namespace SchedInv

open Scheduler

variable {M : Set ℕ} {L₀ : List Block} {s s' : Scheduler} {buddy buddy' : BuddySystemFrameAllocator}
  {q : RunQueue}

theorem alive_of_ready (h : SchedInv M L₀ s buddy q) {id : ℕ} (hid : id ∈ s.readyQueue) :
    s.Alive id := by
  rw [h.ready, q.mem_ready, ← h.status] at hid
  exact .of_status hid (by simp)

/-- The idle task runs or is in the queue. -/
theorem alive_zero (h : SchedInv M L₀ s buddy q) : s.Alive 0 := by
  rcases q.idle with hrunning | hready
  · rw [q.running_iff, ← h.status] at hrunning
    exact .of_status hrunning (by simp)
  · rw [← h.ready] at hready
    exact h.alive_of_ready hready

/-- **The next task is alive**, where those are that it is chosen from. -/
theorem alive_nextTask (h : SchedInv M L₀ s buddy q) {l : List ℕ} (hl : ∀ id ∈ l, s.Alive id) :
    s.Alive (nextTask l).1 := by
  match l, hl with
  | [], _ => exact h.alive_zero
  | [0], _ => exact h.alive_zero
  | 0 :: id :: rest, hl => exact hl id (by simp)
  | (n + 1) :: rest, hl => exact hl (n + 1) (by simp)

theorem noneBorn_stopCurrent (h : SchedInv M L₀ s buddy q) {heap : ℕ → List SleepEntry}
    (hs' : s.stopCurrent heap = .ok s') : NoneBorn s s' :=
  .stopCurrent (h.alive_nextTask fun _ => h.alive_of_ready) hs'

theorem noneBorn_prepareNextTask (h : SchedInv M L₀ s buddy q)
    (hs' : s.prepareNextTask buddy = .ok (s', buddy')) : NoneBorn s s' := by
  refine .prepareNextTask (fun id hid => ?_) hs'
  rw [(prepareNextTask_queue h.not_ready_of_zombie hs').2] at hid
  cases hid
  refine h.alive_nextTask fun id hid => ?_
  rcases List.mem_append.mp hid with hready | hrunning
  · exact h.alive_of_ready hready
  · exact .of_status (of_decide_eq_true (List.mem_filter.mp hrunning).2) (by simp)

end SchedInv

namespace SchedOp

/-- The slot that an operation may fill. -/
def fills (s : Scheduler) : SchedOp → Option ℕ
  | .spawn .. => some s.freeId
  | _ => none

end SchedOp

namespace SchedSystem

open Scheduler

variable {M : Set ℕ} {L₀ : List Block} {t t' : SchedSystem} {op : SchedOp} {id : ℕ}

/-- **A task that is alive after an operation** was so before, or is in the slot that the operation
fills. -/
theorem alive_step (h : t.Inv M L₀) (hop : t.Allowed op) (ht' : t.step op = .ok t')
    (hid : t'.scheduler.Alive id) : t.scheduler.Alive id ∨ op.fills t.scheduler = some id := by
  obtain ⟨q, hinv, hcur, -⟩ := h
  cases op with
  | spawn trampoline entry stackSize priority =>
    obtain ⟨⟨r, s', buddy'⟩, hs', ht'⟩ := exists_of_bind_eq_ok ht'
    cases ht'
    by_cases heq : id = t.scheduler.freeId
    · exact Or.inr (congrArg some heq.symm)
    · refine Or.inl ?_
      obtain ⟨-, rfl | ⟨stackBase, pages, htask⟩⟩ := spawn_cases hs'
      · exact hid
      · rwa [Alive, status, htask, Function.update_of_ne heq] at hid
  | prepareNextTask =>
    obtain ⟨⟨s', buddy'⟩, hs', ht'⟩ := exists_of_bind_eq_ok ht'
    cases ht'
    exact Or.inl (hinv.noneBorn_prepareNextTask hs' id hid)
  | setCurrentTaskSleep wakeTime =>
    obtain ⟨s', hs', ht'⟩ := exists_of_bind_eq_ok ht'
    cases ht'
    exact Or.inl (hinv.noneBorn_stopCurrent hs' id hid)
  | blockCurrentTask =>
    obtain ⟨s', hs', ht'⟩ := exists_of_bind_eq_ok ht'
    cases ht'
    exact Or.inl (hinv.noneBorn_stopCurrent hs' id hid)
  | finishSleep currentMtime =>
    obtain ⟨s', hs', ht'⟩ := exists_of_bind_eq_ok ht'
    cases ht'
    exact Or.inl (NoneBorn.finishSleepLoop hs' id hid)
  | wakeUpTaskWithResult taskId result =>
    obtain ⟨s', hs', ht'⟩ := exists_of_bind_eq_ok ht'
    cases ht'
    exact Or.inl (NoneBorn.wake hs' id hid)
  | exit =>
    obtain ⟨c, hc, hzero⟩ := UserCurrent.exists hop
    have hrun := hcur.symm.trans hc
    obtain ⟨s₁, s', buddy', q', hs₁, hinv₁, -, hs', -⟩ := hinv.exit hcur hrun hzero
    rw [step, hs₁, ok_bind, hs', ok_bind] at ht'
    cases ht'
    exact Or.inl (NoneBorn.exitCurrentTask hs₁ id (hinv₁.noneBorn_prepareNextTask hs' id hid))

/-- **A task that exits** is not alive. -/
theorem not_alive_exit (h : t.Inv M L₀) (hop : t.Allowed .exit) (ht' : t.step .exit = .ok t')
    (hc : t.scheduler.currentTaskId = some id) : ¬ t'.scheduler.Alive id := by
  obtain ⟨q, hinv, hcur, -⟩ := h
  have hrun := hcur.symm.trans hc
  have hzero : id ≠ 0 := fun heq => hop.2 (heq ▸ hc)
  obtain ⟨s₁, s', buddy', q', hs₁, hinv₁, -, hs', -⟩ := hinv.exit hcur hrun hzero
  rw [step, hs₁, ok_bind, hs', ok_bind] at ht'
  cases ht'
  intro hid
  refine not_alive_of_terminated ?_ (hinv₁.noneBorn_prepareNextTask hs' id hid)
  rw [hinv₁.status]
  exact Function.update_self ..

end SchedSystem

end CharlotteOs
