import CharlotteOs.Mm.BuddyUse
import CharlotteOs.Task.Scheduler

/-!
# Views of the scheduler's state

What the slots of `task_list` hold, seen as functions of the task id: the task, its status, and the
saved registers of a task that is blocked. The functions of the scheduler overwrite one slot at a
time, so each view is described by what it is after one slot is overwritten.

## Main definitions

* `Scheduler.task`, `Scheduler.status`, `Scheduler.blocked`: the views
* `Scheduler.stackBlocks`: the blocks of all stacks
* `Scheduler.SameBlocked`: no task is blocked or woken
* `Scheduler.Due`: a task has a wake-up time that has come

## Main results

* `status_of_update`, `blocked_of_update`, `SameBlocked.of_update`: one slot is overwritten
-/

namespace CharlotteOs

open DyadicTiling BuddySystemFrameAllocator

/-! ## Slots -/

section Slots

variable {α β : Type} {l : List (Option α)} {i : ℕ} {f : α → β} {a b : α}

/-- A list around one of its slots, and with that slot overwritten. -/
theorem exists_append_of_getElem? {γ : Type} {l : List γ} {i : ℕ} {x : γ} (h : l[i]? = some x) :
    ∃ l₁ l₂, l = l₁ ++ x :: l₂ ∧ ∀ y, l.set i y = l₁ ++ y :: l₂ := by
  obtain ⟨hi, rfl⟩ := List.getElem?_eq_some_iff.mp h
  refine ⟨l.take i, l.drop (i + 1), ?_, fun y => ?_⟩
  · rw [← List.drop_eq_getElem_cons hi, List.take_append_drop]
  · rw [List.set_eq_take_append_cons_drop, if_pos hi]

/-- A slot is filled. -/
theorem filterMap_set_some (h : l[i]? = some none) :
    ((l.set i (some a)).filterMap (Option.map f)).Perm (f a :: l.filterMap (Option.map f)) := by
  obtain ⟨l₁, l₂, hl, hset⟩ := exists_append_of_getElem? h
  rw [hset, hl, List.filterMap_append, List.filterMap_append]
  exact List.perm_middle

/-- A slot is emptied. -/
theorem filterMap_set_none (h : l[i]? = some (some a)) :
    (l.filterMap (Option.map f)).Perm (f a :: (l.set i none).filterMap (Option.map f)) := by
  obtain ⟨l₁, l₂, hl, hset⟩ := exists_append_of_getElem? h
  rw [hset]
  conv_lhs => rw [hl]
  rw [List.filterMap_append, List.filterMap_append]
  exact List.perm_middle

/-- What a slot holds is changed. -/
theorem filterMap_set_of_eq (h : l[i]? = some (some a)) (hf : f b = f a) :
    (l.set i (some b)).filterMap (Option.map f) = l.filterMap (Option.map f) := by
  obtain ⟨l₁, l₂, hl, hset⟩ := exists_append_of_getElem? h
  rw [hset]
  conv_rhs => rw [hl]
  rw [List.filterMap_append, List.filterMap_append]
  simp [hf]

end Slots

/-! ## Tasks and their stacks -/

/-- The block of a task's stack. -/
def TaskControlBlock.stackBlock (tcb : TaskControlBlock) : Block :=
  Block.containing (Nat.clog 2 tcb.pageCount) (virtToPhys tcb.stackBase / pageSize)

/-- The stack of a task is a block: its base is the address of the block's first page. -/
structure TaskControlBlock.StackOk (tcb : TaskControlBlock) : Prop where
  pos : 0 < tcb.pageCount
  lt : tcb.pageCount < 2 ^ 64
  base : tcb.stackBase = physToVirt (tcb.stackBlock.base * pageSize)
  base_lt : tcb.stackBlock.base < 2 ^ 20

/-- The page number that the stack is released with is that of its block. -/
theorem TaskControlBlock.StackOk.ppn {tcb : TaskControlBlock} (h : tcb.StackOk) :
    PhysPageNum.ofPhysAddr (virtToPhys tcb.stackBase) = .ok tcb.stackBlock.base := by
  have hlt := mul_pageSize_lt h.base_lt
  rw [h.base, virtToPhys_physToVirt (hlt.trans (by decide))]
  exact PhysPageNum.ofPhysAddr_mul _

/-- What a wake-up does to a task. -/
def TaskControlBlock.wake (tcb : TaskControlBlock) (context : TaskContext → TaskContext) :
    TaskControlBlock :=
  if tcb.status = .blocked then { tcb with status := .ready, context := context tcb.context }
  else tcb

namespace Scheduler

/-- The task in a slot. -/
def task (s : Scheduler) (id : ℕ) : Option TaskControlBlock := s.taskList[id]?.join

/-- The status of the task in a slot. -/
def status (s : Scheduler) (id : ℕ) : Option TaskStatus := (s.task id).map TaskControlBlock.status

/-- The blocks of the stacks of all tasks. -/
def stackBlocks (s : Scheduler) : List Block :=
  s.taskList.filterMap (Option.map TaskControlBlock.stackBlock)

variable {s : Scheduler} {id : ℕ} {tcb : TaskControlBlock}

theorem task_eq_some : s.task id = some tcb ↔ s.taskList[id]? = some (some tcb) := by
  rw [task]
  cases s.taskList[id]? with
  | none => simp
  | some slot => simp

theorem slot_of_task (h : s.task id = some tcb) : s.slot id = .ok (some tcb) := by
  rw [slot, task_eq_some.mp h]

theorem slot_of_lt (h : id < s.taskList.length) : s.slot id = .ok (s.task id) := by
  rw [slot, task, List.getElem?_eq_getElem h]
  rfl

theorem lt_of_task (h : s.task id = some tcb) : id < s.taskList.length :=
  (List.getElem?_eq_some_iff.mp (task_eq_some.mp h)).1

theorem exists_of_status {st : TaskStatus} (h : s.status id = some st) :
    ∃ tcb, s.task id = some tcb ∧ tcb.status = st := Option.map_eq_some_iff.mp h

theorem status_of_task (h : s.task id = some tcb) : s.status id = some tcb.status := by
  rw [status, h, Option.map_some]

/-- What is in the slots after one is overwritten. -/
theorem getElem?_set_join {l : List (Option TaskControlBlock)} (h : id < l.length)
    (x : Option TaskControlBlock) (id' : ℕ) :
    (l.set id x)[id']?.join = Function.update (fun i => l[i]?.join) id x id' := by
  by_cases hid : id' = id
  · rw [hid, Function.update_self, List.getElem?_set_self h]
    rfl
  · rw [Function.update_of_ne hid, List.getElem?_set_ne (Ne.symm hid)]

theorem task_setTcb (h : id < s.taskList.length) (tcb : TaskControlBlock) :
    (s.setTcb id tcb).task = Function.update s.task id (some tcb) :=
  funext (getElem?_set_join h (some tcb))

theorem task_of_slot (h : s.slot id = .ok (some tcb)) : s.task id = some tcb := by
  rw [slot] at h
  split at h
  · cases h
    exact task_eq_some.mpr ‹_›
  · cases h

theorem task_of_set {s' : Scheduler} {tcb' : TaskControlBlock} (ht : s.task id = some tcb)
    (hl : s'.taskList = s.taskList.set id (some tcb')) :
    s'.task = Function.update s.task id (some tcb') := by
  funext id'
  rw [task, hl, getElem?_set_join (lt_of_task ht)]
  rfl

/-- One slot is overwritten: the statuses. -/
theorem status_of_update {s' : Scheduler} {x : Option TaskControlBlock}
    (h : s'.task = Function.update s.task id x) :
    s'.status = Function.update s.status id (x.map TaskControlBlock.status) := by
  show Option.map TaskControlBlock.status ∘ s'.task = _
  rw [h, Function.comp_update]
  rfl

/-- One slot is overwritten: what holds of the tasks that were there and of the one that is put
there holds of all. -/
theorem forall_task_of_update {s' : Scheduler} {x : Option TaskControlBlock}
    {P : ℕ → TaskControlBlock → Prop} (h : s'.task = Function.update s.task id x)
    (hs : ∀ i t, s.task i = some t → P i t) (hx : ∀ t, x = some t → P id t) (i : ℕ)
    (t : TaskControlBlock) (ht : s'.task i = some t) : P i t := by
  rw [h] at ht
  by_cases hi : i = id
  · subst hi
    rw [Function.update_self] at ht
    exact hx t ht
  · rw [Function.update_of_ne hi] at ht
    exact hs i t ht

/-- The saved registers of a task that is blocked. -/
def blocked (s : Scheduler) (id : ℕ) : Option TaskContext :=
  (s.task id).bind fun tcb => if tcb.status = .blocked then some tcb.context else none

theorem blocked_eq_some {ctx : TaskContext} : s.blocked id = some ctx ↔
    ∃ tcb, s.task id = some tcb ∧ tcb.status = .blocked ∧ tcb.context = ctx := by
  rw [blocked, Option.bind_eq_some_iff]
  refine exists_congr fun tcb => and_congr_right fun _ => ?_
  rw [Option.ite_none_right_eq_some, Option.some.injEq]

theorem blocked_eq_none (h : s.status id ≠ some .blocked) : s.blocked id = none := by
  rw [Option.eq_none_iff_forall_ne_some]
  intro ctx hctx
  obtain ⟨tcb, ht, hst, -⟩ := blocked_eq_some.mp hctx
  exact h (by rw [status_of_task ht, hst])

/-- One slot is overwritten: the blocked tasks. -/
theorem blocked_of_update {s' : Scheduler} {x : Option TaskControlBlock}
    (h : s'.task = Function.update s.task id x) : s'.blocked = Function.update s.blocked id
      (x.bind fun tcb => if tcb.status = .blocked then some tcb.context else none) := by
  show (fun o : Option TaskControlBlock => o.bind _) ∘ s'.task = _
  rw [h, Function.comp_update]
  rfl

/-- No task is blocked or woken, and no wake-up time comes or goes. -/
structure SameBlocked (s s' : Scheduler) : Prop where
  blocked : s'.blocked = s.blocked
  heap : s'.blockedQueue = s.blockedQueue

theorem SameBlocked.refl (s : Scheduler) : SameBlocked s s := ⟨rfl, rfl⟩

theorem SameBlocked.trans {s₁ s₂ s₃ : Scheduler} (h : SameBlocked s₁ s₂) (h' : SameBlocked s₂ s₃) :
    SameBlocked s₁ s₃ := ⟨h'.blocked.trans h.blocked, h'.heap.trans h.heap⟩

/-- One slot is overwritten whose task neither was nor is blocked. -/
theorem SameBlocked.of_update {s' : Scheduler} {x : Option TaskControlBlock}
    (h : s'.task = Function.update s.task id x) (hwas : s.status id ≠ some .blocked)
    (his : ∀ t, x = some t → t.status ≠ .blocked) (hheap : s'.blockedQueue = s.blockedQueue) :
    SameBlocked s s' := by
  refine ⟨?_, hheap⟩
  have hnone : (x.bind fun tcb => if tcb.status = .blocked then some tcb.context else none) =
      s.blocked id := by
    rw [blocked_eq_none hwas]
    cases x with
    | none => rfl
    | some t => exact if_neg (his t rfl)
  rw [blocked_of_update h, hnone, Function.update_eq_self]

/-- A task has a wake-up time in the heap that has come. -/
def Due (l : List SleepEntry) (now id : ℕ) : Prop := ∃ e ∈ l, e.taskId = id ∧ e.wakeTime ≤ now

instance (l : List SleepEntry) (now id : ℕ) : Decidable (Due l now id) :=
  inferInstanceAs (Decidable (∃ e ∈ l, _))

/-- The heap after an entry is put in. -/
theorem perm_pushEntry (e : SleepEntry) (l : List SleepEntry) : (pushEntry e l).Perm (e :: l) := by
  induction l with
  | nil => exact List.Perm.refl _
  | cons e' l ih =>
    rw [pushEntry]
    split
    · exact List.Perm.refl _
    · exact (ih.cons e').trans (List.Perm.swap e e' l)

theorem mem_pushEntry {e e' : SleepEntry} {l : List SleepEntry} :
    e' ∈ pushEntry e l ↔ e' = e ∨ e' ∈ l :=
  (perm_pushEntry e l).mem_iff.trans List.mem_cons

end Scheduler

end CharlotteOs
