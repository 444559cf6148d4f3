import CharlotteOs.Task.SchedulerSpec

/-!
# Saved registers

The registers of a task that does not run are in its control block. The scheduler moves tasks
between its queues, wakes and reaps them, and does not touch the registers of a task that has not
exited, but for the result that `wake_up_task_with_result` puts into `a0` of a blocked task.

## Main definitions

* `Scheduler.saved`: the saved registers of the tasks that have not exited
* `Kept`: what was saved is still saved

## Main results

* `Kept.prepareNextTask`, `Kept.stopCurrent`, `Kept.finishSleepLoop`, `Kept.spawn`
-/

namespace CharlotteOs

open DyadicTiling BuddySystemFrameAllocator

/-- Registers that were saved are still saved. -/
def Kept (f g : ℕ → Option TaskContext) : Prop := ∀ id ctx, f id = some ctx → g id = some ctx

theorem Kept.refl (f : ℕ → Option TaskContext) : Kept f f := fun _ _ h => h

theorem Kept.trans {f g h : ℕ → Option TaskContext} (hfg : Kept f g) (hgh : Kept g h) : Kept f h :=
  fun id ctx hid => hgh id ctx (hfg id ctx hid)

/-- A place that was empty is filled. -/
theorem Kept.update {f : ℕ → Option TaskContext} {id : ℕ} {x : Option TaskContext}
    (h : ∀ ctx, f id = some ctx → x = some ctx) : Kept f (Function.update f id x) := by
  intro id' ctx hctx
  by_cases hid : id' = id
  · subst hid
    rw [Function.update_self]
    exact h ctx hctx
  · rw [Function.update_of_ne hid]
    exact hctx

namespace Scheduler

/-- The saved registers of a task that has not exited. -/
def saved (s : Scheduler) (id : ℕ) : Option TaskContext :=
  (s.task id).bind fun tcb => if tcb.status = .terminated then none else some tcb.context

variable {s s' : Scheduler} {id : ℕ} {tcb tcb' : TaskControlBlock}
  {buddy buddy' : BuddySystemFrameAllocator}

theorem saved_of_task (ht : s.task id = some tcb) (hst : tcb.status ≠ .terminated) :
    s.saved id = some tcb.context := by
  rw [saved, ht, Option.bind_some, if_neg hst]

theorem saved_eq_none (h : s.status id = some .terminated) : s.saved id = none := by
  obtain ⟨tcb, ht, hst⟩ := exists_of_status h
  rw [saved, ht, Option.bind_some, if_pos hst]

/-- One slot is overwritten: the saved registers. -/
theorem saved_of_update {x : Option TaskControlBlock} (h : s'.task = Function.update s.task id x) :
    s'.saved = Function.update s.saved id
      (x.bind fun tcb => if tcb.status = .terminated then none else some tcb.context) := by
  show (fun o : Option TaskControlBlock => o.bind _) ∘ s'.task = _
  rw [h, Function.comp_update]
  rfl

/-- A task that has not exited gets another status or other registers. -/
theorem saved_of_set (ht : s.task id = some tcb) (hl : s'.taskList = s.taskList.set id (some tcb'))
    (hst : tcb'.status ≠ .terminated) :
    s'.saved = Function.update s.saved id (some tcb'.context) := by
  rw [saved_of_update (task_of_set ht hl), Option.bind_some, if_neg hst]

end Scheduler

namespace Kept

open Scheduler

variable {s s' : Scheduler} {id : ℕ} {tcb tcb' : TaskControlBlock}
  {buddy buddy' : BuddySystemFrameAllocator}

/-- A task gets another status, and has not exited. -/
theorem setTcb (ht : s.task id = some tcb) (hl : s'.taskList = s.taskList.set id (some tcb'))
    (hctx : tcb'.context = tcb.context) (hst : tcb'.status ≠ .terminated) :
    Kept s.saved s'.saved := by
  rw [saved_of_set ht hl hst, hctx]
  refine .update fun ctx hsaved => ?_
  rw [saved, ht, Option.bind_some] at hsaved
  split at hsaved
  · cases hsaved
  · exact hsaved

theorem of_taskList (h : s'.taskList = s.taskList) : Kept s.saved s'.saved := by
  have hsame : s'.saved = s.saved := by
    funext id
    rw [saved, saved, task, task, h]
  rw [hsame]
  exact .refl _

theorem dispatch (h : s.dispatch = .ok s') : Kept s.saved s'.saved := by
  unfold Scheduler.dispatch at h
  dsimp only at h
  obtain ⟨slot, hslot, h⟩ := exists_of_bind_eq_ok h
  cases slot with
  | none => cases h
  | some tcb =>
    cases h
    exact .setTcb (task_of_slot hslot) rfl rfl (by simp)

/-- A task that blocks keeps its registers. -/
theorem stopCurrent {heap : ℕ → List SleepEntry} (h : s.stopCurrent heap = .ok s') :
    Kept s.saved s'.saved := by
  unfold Scheduler.stopCurrent at h
  split at h
  · cases h
  rename_i cur _
  obtain ⟨slot, hslot, h⟩ := exists_of_bind_eq_ok h
  cases slot with
  | none => cases h
  | some tcb =>
    dsimp only at h
    split at h
    · have hstopped : Kept s.saved (Scheduler.saved
          { s.setTcb cur { tcb with status := .blocked } with blockedQueue := heap cur }) :=
        .setTcb (task_of_slot hslot) rfl rfl (by simp)
      exact hstopped.trans (.dispatch h)
    · cases h

theorem setTaskReady (h : s.setTaskReady id = .ok s') : Kept s.saved s'.saved := by
  obtain ⟨slot, hslot, h⟩ := exists_of_bind_eq_ok h
  cases slot with
  | none =>
    cases h
    exact .refl _
  | some tcb =>
    dsimp only at h
    split at h
    · cases h
      exact .setTcb (task_of_slot hslot) rfl rfl (by simp)
    · cases h
      exact .refl _

theorem finishSleepLoop {now : ℕ} {l : List SleepEntry}
    (h : finishSleepLoop now l s = .ok s') : Kept s.saved s'.saved := by
  induction l generalizing s with
  | nil =>
    cases h
    exact .of_taskList rfl
  | cons e l ih =>
    rw [Scheduler.finishSleepLoop] at h
    split at h
    · cases h
      exact .of_taskList rfl
    · obtain ⟨s₁, hs₁, h⟩ := exists_of_bind_eq_ok h
      exact (Kept.setTaskReady hs₁).trans (ih h)

theorem requeueCurrent (h : s.requeueCurrent = .ok s') : Kept s.saved s'.saved := by
  unfold Scheduler.requeueCurrent at h
  split at h
  · cases h
    exact .refl _
  obtain ⟨slot, hslot, h⟩ := exists_of_bind_eq_ok h
  cases slot with
  | none =>
    cases h
    exact .refl _
  | some tcb =>
    dsimp only at h
    split at h
    · cases h
      exact .setTcb (task_of_slot hslot) rfl rfl (by simp)
    · cases h
      exact .refl _

/-- The slot of a task that has exited is emptied. -/
theorem reap {z : ℕ} (hz : s.saved z = none) (h : s.reap buddy z = .ok (s', buddy')) :
    Kept s.saved s'.saved ∧ Kept s'.saved s.saved := by
  unfold Scheduler.reap at h
  dsimp only at h
  split at h
  · rename_i tcb hslot
    obtain ⟨ppn, -, h⟩ := exists_of_bind_eq_ok h
    split at h
    · cases h
    obtain ⟨buddy₁, -, h⟩ := exists_of_bind_eq_ok h
    cases h
    have htask : Scheduler.task { s with
        readyQueue := s.readyQueue.filter (· ≠ z), taskList := s.taskList.set z none } =
          Function.update s.task z none :=
      funext (getElem?_set_join (lt_of_task (task_eq_some.mpr hslot)) none)
    have hsaved := saved_of_update htask
    rw [Option.bind_none, ← hz, Function.update_eq_self] at hsaved
    rw [hsaved]
    exact ⟨.refl _, .refl _⟩
  · cases h
    exact ⟨.of_taskList rfl, .of_taskList rfl⟩

theorem reapLoop {current : Option ℕ} {zs : List ℕ} (hzs : ∀ z ∈ zs, s.saved z = none)
    (h : reapLoop current zs s buddy = .ok (s', buddy')) : Kept s.saved s'.saved := by
  induction zs generalizing s buddy with
  | nil =>
    cases h
    exact .of_taskList rfl
  | cons z zs ih =>
    rw [Scheduler.reapLoop] at h
    split at h
    · cases h
      exact .of_taskList rfl
    · obtain ⟨⟨s₁, buddy₁⟩, hs₁, h⟩ := exists_of_bind_eq_ok h
      obtain ⟨hkept, hback⟩ := Kept.reap (hzs z List.mem_cons_self) hs₁
      refine hkept.trans (ih (fun z' hz' => ?_) h)
      rw [Option.eq_none_iff_forall_ne_some]
      intro ctx hctx
      have hold := hback z' ctx hctx
      rw [hzs z' (List.mem_cons_of_mem _ hz')] at hold
      cases hold

/-- **`prepare_next_task`**, where the zombies are tasks that have exited. -/
theorem prepareNextTask (hzs : ∀ z ∈ s.zombieQueue, s.saved z = none)
    (h : s.prepareNextTask buddy = .ok (s', buddy')) : Kept s.saved s'.saved := by
  obtain ⟨⟨s₁, buddy₁⟩, hs₁, h⟩ := exists_of_bind_eq_ok h
  obtain ⟨s₂, hs₂, h⟩ := exists_of_bind_eq_ok h
  obtain ⟨s₃, hs₃, h⟩ := exists_of_bind_eq_ok h
  cases h
  have hreap := Kept.reapLoop (fun z hz => hzs z (List.mem_reverse.mp hz)) hs₁
  exact (hreap.trans (.requeueCurrent hs₂)).trans (.dispatch hs₃)

/-- `spawn` fills a slot that is free. -/
theorem spawn {trampoline stackSize priority : ℕ} {entry : ℕ × ℕ}
    {r : Except SchedulerError Unit}
    (h : s.spawn buddy trampoline entry stackSize priority = .ok (r, s', buddy')) :
    Kept s.saved s'.saved := by
  unfold Scheduler.spawn at h
  dsimp only at h
  split at h
  · cases h
    exact .refl _
  obtain ⟨⟨ppn, buddy₁⟩, -, h⟩ := exists_of_bind_eq_ok h
  cases ppn with
  | none =>
    cases h
    exact .refl _
  | some ppn =>
    dsimp only at h
    split at h
    · cases h
    · simp only [Except.ok.injEq, Prod.mk.injEq] at h
      obtain ⟨-, hs', -⟩ := h
      rw [saved_of_update (SchedInv.addTask_spec (congrArg taskList hs'.symm)).1]
      refine .update fun ctx hctx => ?_
      rw [saved, SchedInv.task_freeId] at hctx
      cases hctx

end Kept

/-- The zombies of the scheduler have exited. -/
theorem SchedInv.saved_zombie {M : Set ℕ} {L₀ : List Block} {s : Scheduler}
    {buddy : BuddySystemFrameAllocator} {q : RunQueue} (h : SchedInv M L₀ s buddy q) :
    ∀ z ∈ s.zombieQueue, s.saved z = none := by
  intro z hz
  refine Scheduler.saved_eq_none ?_
  rw [h.status, ← q.mem_zombies, ← h.zombies]
  exact hz

end CharlotteOs
