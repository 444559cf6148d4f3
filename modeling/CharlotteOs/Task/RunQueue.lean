import Mathlib.Logic.Function.Basic
import CharlotteOs.Task.Scheduler

/-!
# What the scheduler's queues are for

The scheduler keeps the status of a task in its slot, and three views of the statuses: the queue
of ready tasks, the queue of zombies and the current task. `RunQueue` is a state in which the
views agree with the statuses, and task `0` can always run. Its operations are what the functions
of the scheduler do to it, each with what has to hold for it as an argument.

## Main definitions

* `RunQueue`: statuses and queues that agree
* `RunQueue.initial`: task `0` is ready and there is no other
* `RunQueue.add`, `RunQueue.stop`, `RunQueue.exit`, `RunQueue.requeue`, `RunQueue.dispatch`,
  `RunQueue.reap`: the operations
-/

namespace CharlotteOs

/-- **Statuses and queues that agree.** `running` is the task that runs, if any does. -/
structure RunQueue where
  status : ℕ → Option TaskStatus
  ready : List ℕ
  zombies : List ℕ
  running : Option ℕ
  ready_nodup : ready.Nodup
  mem_ready : ∀ id, id ∈ ready ↔ status id = some .ready
  running_iff : ∀ id, running = some id ↔ status id = some .running
  zombies_nodup : zombies.Nodup
  mem_zombies : ∀ id, id ∈ zombies ↔ status id = some .terminated
  idle : running = some 0 ∨ 0 ∈ ready

namespace RunQueue

variable (q : RunQueue)

/-- A status changes, and with it the membership of that task in a view and of no other. -/
theorem update_iff {status : ℕ → Option TaskStatus} {P : ℕ → Prop} {st : TaskStatus}
    (h : ∀ id, P id ↔ status id = some st) {c : ℕ} {o : Option TaskStatus} {R : ℕ → Prop}
    (hc : R c ↔ o = some st) (hne : ∀ id ≠ c, R id ↔ P id) (id : ℕ) :
    R id ↔ Function.update status c o id = some st := by
  by_cases hid : id = c
  · rw [hid, Function.update_self, hc]
  · rw [Function.update_of_ne hid, hne id hid, h]

/-- A view in which the changed task neither was nor is. -/
theorem same_iff {status : ℕ → Option TaskStatus} {P : ℕ → Prop} {st : TaskStatus}
    (h : ∀ id, P id ↔ status id = some st) {c : ℕ} {o : Option TaskStatus}
    (hwas : status c ≠ some st) (his : o ≠ some st) (id : ℕ) :
    P id ↔ Function.update status c o id = some st :=
  update_iff h (iff_of_false ((h c).not.mpr hwas) his) (fun _ _ => Iff.rfl) id

/-- A view to the end of which the changed task is put. -/
theorem concat_iff {status : ℕ → Option TaskStatus} {l : List ℕ} {st : TaskStatus}
    (h : ∀ id, id ∈ l ↔ status id = some st) (c id : ℕ) :
    id ∈ l ++ [c] ↔ Function.update status c (some st) id = some st :=
  update_iff h (R := fun id => id ∈ l ++ [c]) (by simp) (fun id hid => by simp [hid]) id

theorem concat_nodup {status : ℕ → Option TaskStatus} {l : List ℕ} {st : TaskStatus}
    (h : ∀ id, id ∈ l ↔ status id = some st) (hl : l.Nodup) {c : ℕ} (hc : status c ≠ some st) :
    (l ++ [c]).Nodup := by
  rw [List.nodup_append]
  refine ⟨hl, List.nodup_singleton c, ?_⟩
  rintro id hid c' hc' rfl
  obtain rfl := List.mem_singleton.mp hc'
  exact hc ((h id).mp hid)

/-- Task `0` is ready, and there is no other task. -/
def initial : RunQueue where
  status := Function.update (fun _ => none) 0 (some .ready)
  ready := [0]
  zombies := []
  running := none
  ready_nodup := List.nodup_singleton 0
  mem_ready := concat_iff (l := []) (by simp) 0
  running_iff := same_iff (P := fun id => (none : Option ℕ) = some id) (by simp) (by simp) (by simp)
  zombies_nodup := List.nodup_nil
  mem_zombies := same_iff (P := fun id => id ∈ []) (by simp) (by simp) (by simp)
  idle := Or.inr (List.mem_singleton_self 0)

/-- A task becomes ready that was not, was not running and was not a zombie: a new one, or one
that was blocked. -/
def add (id : ℕ) (h : q.status id = none ∨ q.status id = some .blocked) : RunQueue where
  status := Function.update q.status id (some .ready)
  ready := q.ready ++ [id]
  zombies := q.zombies
  running := q.running
  ready_nodup := concat_nodup q.mem_ready q.ready_nodup (by rcases h with h | h <;> simp [h])
  mem_ready := concat_iff q.mem_ready id
  running_iff := same_iff q.running_iff (by rcases h with h | h <;> simp [h]) (by simp)
  zombies_nodup := q.zombies_nodup
  mem_zombies := same_iff q.mem_zombies (by rcases h with h | h <;> simp [h]) (by simp)
  idle := q.idle.imp_right (List.mem_append_left _)

/-- The task that runs gets another status and leaves the processor. -/
theorem stop_running {c : ℕ} (h : q.running = some c) {o : Option TaskStatus}
    (ho : o ≠ some .running) (id : ℕ) :
    (none : Option ℕ) = some id ↔ Function.update q.status c o id = some .running := by
  refine update_iff q.running_iff (R := fun id => (none : Option ℕ) = some id)
    (iff_of_false (by simp) ho) (fun id hid => ?_) id
  rw [h]
  exact iff_of_false (by simp) fun heq => hid (Option.some.inj heq).symm

theorem status_running {c : ℕ} (h : q.running = some c) : q.status c = some .running :=
  (q.running_iff c).mp h

/-- Where a task other than task `0` runs, task `0` is ready. -/
theorem zero_mem_ready {c : ℕ} (h : q.running = some c) (hc : c ≠ 0) : 0 ∈ q.ready := by
  refine q.idle.resolve_left fun h0 => hc ?_
  rw [h] at h0
  exact Option.some.inj h0

/-- The task that runs blocks. -/
def stop (c : ℕ) (h : q.running = some c) (hc : c ≠ 0) : RunQueue where
  status := Function.update q.status c (some .blocked)
  ready := q.ready
  zombies := q.zombies
  running := none
  ready_nodup := q.ready_nodup
  mem_ready := same_iff q.mem_ready (by simp [q.status_running h]) (by simp)
  running_iff := q.stop_running h (by simp)
  zombies_nodup := q.zombies_nodup
  mem_zombies := same_iff q.mem_zombies (by simp [q.status_running h]) (by simp)
  idle := Or.inr (q.zero_mem_ready h hc)

/-- The task that runs ends. -/
def exit (c : ℕ) (h : q.running = some c) (hc : c ≠ 0) : RunQueue where
  status := Function.update q.status c (some .terminated)
  ready := q.ready
  zombies := q.zombies ++ [c]
  running := none
  ready_nodup := q.ready_nodup
  mem_ready := same_iff q.mem_ready (by simp [q.status_running h]) (by simp)
  running_iff := q.stop_running h (by simp)
  zombies_nodup := concat_nodup q.mem_zombies q.zombies_nodup (by simp [q.status_running h])
  mem_zombies := concat_iff q.mem_zombies c
  idle := Or.inr (q.zero_mem_ready h hc)

/-- The task that runs goes to the end of the queue. -/
def requeue (c : ℕ) (h : q.running = some c) : RunQueue where
  status := Function.update q.status c (some .ready)
  ready := q.ready ++ [c]
  zombies := q.zombies
  running := none
  ready_nodup := concat_nodup q.mem_ready q.ready_nodup (by simp [q.status_running h])
  mem_ready := concat_iff q.mem_ready c
  running_iff := q.stop_running h (by simp)
  zombies_nodup := q.zombies_nodup
  mem_zombies := same_iff q.mem_zombies (by simp [q.status_running h]) (by simp)
  idle := by
    right
    by_cases hc : c = 0
    · simp [hc]
    · exact List.mem_append_left _ (q.zero_mem_ready h hc)

/-- The next task and the rest of a queue are the queue, in some order. -/
theorem nextTask_perm {l : List ℕ} (h : l ≠ []) :
    ((Scheduler.nextTask l).1 :: (Scheduler.nextTask l).2).Perm l := by
  match l, h with
  | 0 :: id :: rest, _ =>
    have hcomm : (id :: rest ++ [0]).Perm ([0] ++ id :: rest) := List.perm_append_comm
    exact hcomm
  | [0], _ => exact List.Perm.refl _
  | (n + 1) :: rest, _ => exact List.Perm.refl _

/-- With no task running, the next task is a ready one and the rest of the queue are the others. -/
theorem nextTask_spec (h : q.running = none) :
    q.status (Scheduler.nextTask q.ready).1 = some .ready ∧
      (Scheduler.nextTask q.ready).1 ∉ (Scheduler.nextTask q.ready).2 ∧
      (Scheduler.nextTask q.ready).2.Nodup ∧
      ∀ id, id ∈ q.ready ↔
        id = (Scheduler.nextTask q.ready).1 ∨ id ∈ (Scheduler.nextTask q.ready).2 := by
  have hzero : 0 ∈ q.ready := q.idle.resolve_left (by simp [h])
  have hperm := nextTask_perm (List.ne_nil_of_mem hzero)
  obtain ⟨hnot, hnodup⟩ := List.nodup_cons.mp (hperm.nodup_iff.mpr q.ready_nodup)
  refine ⟨(q.mem_ready _).mp (hperm.mem_iff.mp List.mem_cons_self), hnot, hnodup, fun id => ?_⟩
  rw [← hperm.mem_iff, List.mem_cons]

/-- The next task runs. -/
def dispatch (h : q.running = none) : RunQueue where
  status := Function.update q.status (Scheduler.nextTask q.ready).1 (some .running)
  ready := (Scheduler.nextTask q.ready).2
  zombies := q.zombies
  running := some (Scheduler.nextTask q.ready).1
  ready_nodup := (q.nextTask_spec h).2.2.1
  mem_ready := by
    obtain ⟨-, hnot, -, hmem⟩ := q.nextTask_spec h
    refine update_iff q.mem_ready (iff_of_false hnot (by simp)) fun id hid => ?_
    rw [hmem id, or_iff_right hid]
  running_iff := by
    refine update_iff q.running_iff (R := fun id => some (Scheduler.nextTask q.ready).1 = some id)
      (by simp) fun id hid => ?_
    rw [h]
    exact iff_of_false (fun heq => hid (Option.some.inj heq).symm) (by simp)
  zombies_nodup := q.zombies_nodup
  mem_zombies := same_iff q.mem_zombies (by simp [(q.nextTask_spec h).1]) (by simp)
  idle := by
    have hzero : 0 ∈ q.ready := q.idle.resolve_left (by simp [h])
    rcases ((q.nextTask_spec h).2.2.2 0).mp hzero with heq | hmem
    · exact Or.inl (congrArg some heq.symm)
    · exact Or.inr hmem

/-- A zombie is gone. -/
def reap (id : ℕ) (h : id ∈ q.zombies) : RunQueue where
  status := Function.update q.status id none
  ready := q.ready
  zombies := q.zombies.erase id
  running := q.running
  ready_nodup := q.ready_nodup
  mem_ready := same_iff q.mem_ready (by simp [(q.mem_zombies id).mp h]) (by simp)
  running_iff := same_iff q.running_iff (by simp [(q.mem_zombies id).mp h]) (by simp)
  zombies_nodup := q.zombies_nodup.erase id
  mem_zombies := update_iff q.mem_zombies (R := fun id' => id' ∈ q.zombies.erase id)
    (by simp [q.zombies_nodup.mem_erase_iff]) fun id' hne => by
      simp [q.zombies_nodup.mem_erase_iff, hne]
  idle := q.idle

end RunQueue

end CharlotteOs
