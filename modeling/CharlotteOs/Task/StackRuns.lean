import CharlotteOs.Task.SchedulerRuns

/-!
# Stacks and slots over whole runs

The stack of a task comes from the buddy allocator in `spawn` and goes back when `prepare_next_task`
reaps the task. The exit itself runs on that stack, so the reaping comes later, and the slot of the
task is taken by another one after it.

What may happen to stacks is kept in a ledger: a slot without a stack takes one, its task exits, and
the same stack goes back. The ledger refuses everything else: a second return, a return before the
exit, a return of another block, and a slot taken while it still has a stack. The events of a run
are the calls that the scheduler makes of the allocator, and the ledger accepts all of them.

## Main definitions

* `StackEvent`, `StackLedger.post`: the events and the ledger that accepts or refuses them
* `SchedSystem.stackEvents`: the events of one operation of the scheduler
* `StackEvent.apply`: the call of the allocator behind an event
* `StackSystem.Recycles`: what an operation does with stacks and slots

## Main results

* `Scheduler.reapLoop_events`: the reaping loop and the events it causes
* `StackSystem.recycled_along`: every operation of every run recycles as it should
-/

namespace CharlotteOs

open DyadicTiling FallibleRun BuddySystemFrameAllocator

/-! ## The ledger -/

/-- What happens to the stack of the task in a slot. Stacks are given by their first page and
their page count. -/
inductive StackEvent
  | taken (id ppn pages : ℕ)
  | exited (id : ℕ)
  | returned (id ppn pages : ℕ)
  deriving DecidableEq, Repr

/-- A stack that is in use, and whether its task has exited. -/
structure StackEntry where
  ppn : ℕ
  pages : ℕ
  exited : Bool
  deriving DecidableEq, Repr

/-- Why an event is refused. -/
inductive Refusal
  | slotInUse
  | noStack
  | notExited
  | otherBlock
  deriving DecidableEq, Repr

/-- The stacks in use, by slot. -/
abbrev StackLedger := ℕ → Option StackEntry

/-- **The ledger** after an event. What goes back is the block that was taken: it begins with the
same page and its page count has the same order. -/
def StackLedger.post (L : StackLedger) : StackEvent → Except Refusal StackLedger
  | .taken id ppn pages =>
    match L id with
    | some _ => .error .slotInUse
    | none => .ok (Function.update L id (some ⟨ppn, pages, false⟩))
  | .exited id =>
    match L id with
    | none => .error .noStack
    | some e => .ok (Function.update L id (some { e with exited := true }))
  | .returned id ppn pages =>
    match L id with
    | none => .error .noStack
    | some e =>
      if e.exited = false then .error .notExited
      else if e.ppn = ppn ∧ Nat.clog 2 e.pages = Nat.clog 2 pages then
        .ok (Function.update L id none)
      else .error .otherBlock

/-- The call of the allocator behind an event. -/
def StackEvent.apply (buddy : BuddySystemFrameAllocator) :
    StackEvent → Except Fault BuddySystemFrameAllocator
  | .taken _ _ pages => do
    let (_, buddy) ← buddy.alloc pages
    .ok buddy
  | .exited _ => .ok buddy
  | .returned _ ppn pages => buddy.dealloc ppn pages

/-! ## The events of the scheduler -/

/-- The first page and the page count of a task's stack. -/
def TaskControlBlock.stack (tcb : TaskControlBlock) : ℕ × ℕ :=
  (PhysAddr.floor (virtToPhys tcb.stackBase), tcb.pageCount)

namespace Scheduler

/-- The stacks by slot. -/
def stackAt (s : Scheduler) (id : ℕ) : Option (ℕ × ℕ) := (s.task id).map TaskControlBlock.stack

/-- The ledger of stacks `st` where the tasks `zs` have exited. -/
def ledgerOf (st : ℕ → Option (ℕ × ℕ)) (zs : List ℕ) : StackLedger := fun id =>
  (st id).map fun stack => ⟨stack.1, stack.2, decide (id ∈ zs)⟩

/-- The ledger of the scheduler. -/
def ledger (s : Scheduler) : StackLedger := ledgerOf s.stackAt s.zombieQueue

/-- The returns of the reaping loop over the zombies `zs`, which stops at the current task. -/
def reapReturns (currentId : Option ℕ) : List ℕ → (ℕ → Option (ℕ × ℕ)) → List StackEvent
  | [], _ => []
  | z :: zs, st =>
    if some z = currentId then []
    else
      match st z with
      | none => reapReturns currentId zs st
      | some (ppn, pages) =>
        .returned z ppn pages :: reapReturns currentId zs (Function.update st z none)

/-- The returns of `prepare_next_task`. -/
def returns (s : Scheduler) : List StackEvent :=
  reapReturns s.currentTaskId s.zombieQueue.reverse s.stackAt

end Scheduler

/-- The events of one operation. -/
def SchedSystem.stackEvents (t : SchedSystem) : SchedOp → List StackEvent
  | .spawn _ _ stackSize _ =>
    let pages := ((stackSize + pageSize - 1) % 2 ^ 64) / pageSize
    if pages = 0 then []
    else
      match t.buddy.alloc pages with
      | .ok (some ppn, _) => [.taken t.scheduler.freeId ppn pages]
      | _ => []
  | .prepareNextTask => t.scheduler.returns
  | .exit =>
    match t.scheduler.currentTaskId, t.scheduler.exitCurrentTask with
    | some c, .ok s => .exited c :: s.returns
    | _, _ => []
  | .setCurrentTaskSleep _ | .blockCurrentTask | .finishSleep _ | .wakeUpTaskWithResult .. => []

/-! ## Functions that leave the stacks alone -/

namespace Scheduler

/-- No stack is taken or returned, and no task exits. -/
structure SameStacks (s s' : Scheduler) : Prop where
  stackAt : s'.stackAt = s.stackAt
  zombies : s'.zombieQueue = s.zombieQueue

variable {s s' : Scheduler} {buddy buddy' : BuddySystemFrameAllocator}

theorem SameStacks.trans {s'' : Scheduler} (h : SameStacks s s') (h' : SameStacks s' s'') :
    SameStacks s s'' := ⟨h'.stackAt.trans h.stackAt, h'.zombies.trans h.zombies⟩

theorem SameStacks.ledger (h : SameStacks s s') : s'.ledger = s.ledger := by
  rw [Scheduler.ledger, h.stackAt, h.zombies]
  rfl

/-- One slot is overwritten: the stacks. -/
theorem stackAt_of_update {id : ℕ} {x : Option TaskControlBlock}
    (h : s'.task = Function.update s.task id x) :
    s'.stackAt = Function.update s.stackAt id (x.map TaskControlBlock.stack) := by
  show Option.map TaskControlBlock.stack ∘ s'.task = _
  rw [h, Function.comp_update]
  rfl

/-- A task gets another status or context, and the queues but that of the zombies change. -/
theorem SameStacks.setTcb {id : ℕ} {tcb tcb' : TaskControlBlock} (ht : s.slot id = .ok (some tcb))
    (hl : s'.taskList = s.taskList.set id (some tcb')) (hstack : tcb'.stack = tcb.stack)
    (hz : s'.zombieQueue = s.zombieQueue) : SameStacks s s' := by
  have hid := task_of_slot ht
  refine ⟨?_, hz⟩
  rw [stackAt_of_update (task_of_set hid hl), Option.map_some, hstack,
    ← Option.map_some (f := TaskControlBlock.stack), ← hid]
  exact Function.update_eq_self id s.stackAt

theorem SameStacks.dispatch (h : s.dispatch = .ok s') : SameStacks s s' := by
  rw [Scheduler.dispatch] at h
  dsimp only at h
  obtain ⟨slot, hslot, h⟩ := exists_of_bind_eq_ok h
  cases slot with
  | none => cases h
  | some tcb =>
    cases h
    exact .setTcb hslot rfl rfl rfl

theorem SameStacks.stopCurrent {heap : ℕ → List SleepEntry} (h : s.stopCurrent heap = .ok s') :
    SameStacks s s' := by
  unfold Scheduler.stopCurrent at h
  split at h
  · cases h
  rename_i cur _
  obtain ⟨slot, hslot, h⟩ := exists_of_bind_eq_ok h
  cases slot with
  | none => cases h
  | some tcb =>
    dsimp only at h
    split at h
    · have hstopped : SameStacks s { s.setTcb cur { tcb with status := .blocked } with
          blockedQueue := heap cur } := .setTcb hslot rfl rfl rfl
      exact hstopped.trans (.dispatch h)
    · cases h

theorem SameStacks.wake {id : ℕ} {context : TaskContext → TaskContext}
    (h : s.wake id context = .ok s') : SameStacks s s' := by
  obtain ⟨slot, hslot, h⟩ := exists_of_bind_eq_ok h
  cases slot with
  | none =>
    cases h
    exact ⟨rfl, rfl⟩
  | some tcb =>
    dsimp only at h
    split at h
    · cases h
      exact .setTcb hslot rfl rfl rfl
    · cases h
      exact ⟨rfl, rfl⟩

theorem SameStacks.finishSleepLoop {now : ℕ} {l : List SleepEntry}
    (h : finishSleepLoop now l s = .ok s') : SameStacks s s' := by
  induction l generalizing s with
  | nil =>
    cases h
    exact ⟨rfl, rfl⟩
  | cons e l ih =>
    rw [Scheduler.finishSleepLoop] at h
    split at h
    · cases h
      exact ⟨rfl, rfl⟩
    · obtain ⟨s₁, hs₁, h⟩ := exists_of_bind_eq_ok h
      exact (SameStacks.wake hs₁).trans (ih h)

theorem SameStacks.requeueCurrent (h : s.requeueCurrent = .ok s') : SameStacks s s' := by
  unfold Scheduler.requeueCurrent at h
  split at h
  · cases h
    exact ⟨rfl, rfl⟩
  obtain ⟨slot, hslot, h⟩ := exists_of_bind_eq_ok h
  cases slot with
  | none =>
    cases h
    exact ⟨rfl, rfl⟩
  | some tcb =>
    dsimp only at h
    split at h
    · cases h
      exact .setTcb hslot rfl rfl rfl
    · cases h
      exact ⟨rfl, rfl⟩

/-! ## The reaping loop -/

/-- A zombie is marked in the ledger until its turn comes. -/
theorem ledgerOf_none {st : ℕ → Option (ℕ × ℕ)} {z : ℕ} {zs : List ℕ} (h : st z = none) :
    ledgerOf st (z :: zs) = ledgerOf st zs := by
  funext id
  by_cases hid : id = z
  · rw [ledgerOf, ledgerOf, hid, h]
    rfl
  · simp [ledgerOf, hid]

theorem ledgerOf_update (st : ℕ → Option (ℕ × ℕ)) (z : ℕ) (zs : List ℕ) :
    Function.update (ledgerOf st (z :: zs)) z none = ledgerOf (Function.update st z none) zs := by
  funext id
  by_cases hid : id = z
  · rw [hid, Function.update_self, ledgerOf, Function.update_self]
    rfl
  · rw [Function.update_of_ne hid, ledgerOf, ledgerOf, Function.update_of_ne hid]
    simp [hid]

/-- The ledger accepts the return of a zombie's stack. -/
theorem post_returned {st : ℕ → Option (ℕ × ℕ)} {z ppn pages : ℕ} (zs : List ℕ)
    (h : st z = some (ppn, pages)) : (ledgerOf st (z :: zs)).post (.returned z ppn pages) =
      .ok (ledgerOf (Function.update st z none) zs) := by
  have hz : ledgerOf st (z :: zs) z = some ⟨ppn, pages, true⟩ := by simp [ledgerOf, h]
  rw [StackLedger.post, hz]
  dsimp only
  rw [if_neg (by simp), if_pos ⟨rfl, rfl⟩, ledgerOf_update]

/-- The body of the reaping loop: the stack in the slot, if there is one, goes back. -/
theorem reap_cases {z : ℕ} (h : s.reap buddy z = .ok (s', buddy')) :
    s'.currentTaskId = s.currentTaskId ∧
    ((s.stackAt z = none ∧ buddy' = buddy ∧ s'.stackAt = s.stackAt) ∨
      ∃ ppn pages, s.stackAt z = some (ppn, pages) ∧ buddy.dealloc ppn pages = .ok buddy' ∧
        s'.stackAt = Function.update s.stackAt z none) := by
  unfold Scheduler.reap at h
  dsimp only at h
  split at h
  · rename_i tcb hslot
    have ht : s.task z = some tcb := task_eq_some.mpr hslot
    obtain ⟨ppn, hppn, h⟩ := exists_of_bind_eq_ok h
    split at h
    · cases h
    obtain ⟨buddy₁, hdealloc, h⟩ := exists_of_bind_eq_ok h
    cases h
    rw [PhysPageNum.ofPhysAddr] at hppn
    split at hppn
    · cases hppn
      refine ⟨rfl, Or.inr ⟨_, _, ?_, hdealloc, ?_⟩⟩
      · rw [stackAt, ht]
        rfl
      · have htask : Scheduler.task { s with
            readyQueue := s.readyQueue.filter (· ≠ z), taskList := s.taskList.set z none } =
              Function.update s.task z none :=
          funext (getElem?_set_join (lt_of_task ht) none)
        exact stackAt_of_update htask
    · cases hppn
  · rename_i hslot
    cases h
    refine ⟨rfl, Or.inl ⟨?_, rfl, rfl⟩⟩
    cases ht : s.task z with
    | none => rw [stackAt, ht, Option.map_none]
    | some tcb => exact absurd (task_eq_some.mp ht) (hslot tcb)

/-- **The reaping loop**: its events are accepted, they are what it does to the allocator, none is
of the current task, and where the current task is not among the zombies, no zombie is left. -/
theorem reapLoop_events {current : Option ℕ} {zs : List ℕ}
    (h : reapLoop current zs s buddy = .ok (s', buddy')) :
    s'.currentTaskId = s.currentTaskId ∧
    exec StackLedger.post (ledgerOf s.stackAt zs) (reapReturns current zs s.stackAt) =
      .ok s'.ledger ∧
    exec StackEvent.apply buddy (reapReturns current zs s.stackAt) = .ok buddy' ∧
    (∀ id ppn pages, .returned id ppn pages ∈ reapReturns current zs s.stackAt →
      current ≠ some id) ∧
    (∀ id, s.stackAt id = none → s'.stackAt id = none) ∧
    ((∀ c, current = some c → c ∉ zs) → s'.zombieQueue = [] ∧ ∀ z ∈ zs, s'.stackAt z = none) := by
  induction zs generalizing s buddy with
  | nil =>
    cases h
    exact ⟨rfl, rfl, rfl, by simp [reapReturns], fun _ h => h, fun _ => ⟨rfl, by simp⟩⟩
  | cons z zs ih =>
    rw [reapLoop] at h
    rw [reapReturns]
    by_cases hz : some z = current
    · rw [if_pos hz] at h ⊢
      cases h
      refine ⟨rfl, ?_, rfl, by simp, fun _ h => h, fun hno => ?_⟩
      · rw [exec_nil]
        congr 1
        funext id
        simp [Scheduler.ledger, ledgerOf, Scheduler.stackAt, Scheduler.task, or_comm]
      · exact absurd List.mem_cons_self (hno z hz.symm)
    · rw [if_neg hz] at h ⊢
      obtain ⟨⟨s₁, buddy₁⟩, hs₁, h⟩ := exists_of_bind_eq_ok h
      obtain ⟨hcur₁, hcases⟩ := reap_cases hs₁
      obtain ⟨hcur, hpost, happly, hother, hnone, hempty⟩ := ih h
      have hrest : (∀ c, current = some c → c ∉ z :: zs) → ∀ c, current = some c → c ∉ zs :=
        fun hno c hc hmem => hno c hc (List.mem_cons_of_mem _ hmem)
      rcases hcases with ⟨hz₁, rfl, hst₁⟩ | ⟨ppn, pages, hz₁, hdealloc, hst₁⟩
      · rw [hz₁, ledgerOf_none hz₁]
        dsimp only
        rw [hst₁] at hpost happly hother hnone
        refine ⟨hcur.trans hcur₁, hpost, happly, hother, hnone, fun hno => ?_⟩
        obtain ⟨hqueue, hslots⟩ := hempty (hrest hno)
        refine ⟨hqueue, fun z' hz' => ?_⟩
        rcases List.mem_cons.mp hz' with rfl | hz'
        · exact hnone z' hz₁
        · exact hslots z' hz'
      · rw [hz₁]
        dsimp only
        rw [hst₁] at hpost happly hother hnone
        refine ⟨hcur.trans hcur₁, ?_, ?_, fun id p n hmem => ?_, fun id hid => ?_, fun hno => ?_⟩
        · rw [exec_cons_of_ok (post_returned zs hz₁)]
          exact hpost
        · rw [exec_cons_of_ok (show StackEvent.apply buddy (.returned z ppn pages) = .ok buddy₁ from
            hdealloc)]
          exact happly
        · rcases List.mem_cons.mp hmem with heq | hmem
          · cases heq
            exact fun hc => hz hc.symm
          · exact hother id p n hmem
        · apply hnone id
          by_cases hidz : id = z
          · rw [hidz, Function.update_self]
          · rw [Function.update_of_ne hidz, hid]
        · obtain ⟨hqueue, hslots⟩ := hempty (hrest hno)
          refine ⟨hqueue, fun z' hz' => ?_⟩
          rcases List.mem_cons.mp hz' with rfl | hz'
          · exact hnone z' (Function.update_self ..)
          · exact hslots z' hz'

/-- `prepare_next_task`: what its reaping loop does, since the rest leaves the stacks alone. -/
theorem prepareNextTask_events (h : s.prepareNextTask buddy = .ok (s', buddy')) :
    exec StackLedger.post s.ledger s.returns = .ok s'.ledger ∧
    exec StackEvent.apply buddy s.returns = .ok buddy' ∧
    (∀ id ppn pages, .returned id ppn pages ∈ s.returns → s.currentTaskId ≠ some id) ∧
    ((∀ c, s.currentTaskId = some c → c ∉ s.zombieQueue) →
      s'.zombieQueue = [] ∧ ∀ z ∈ s.zombieQueue, s'.task z = none) := by
  obtain ⟨⟨s₁, buddy₁⟩, hs₁, h⟩ := exists_of_bind_eq_ok h
  obtain ⟨s₂, hs₂, h⟩ := exists_of_bind_eq_ok h
  obtain ⟨s₃, hs₃, h⟩ := exists_of_bind_eq_ok h
  cases h
  obtain ⟨-, hpost, happly, hother, -, hempty⟩ := reapLoop_events hs₁
  have hsame : SameStacks s₁ s' := (SameStacks.requeueCurrent hs₂).trans (.dispatch hs₃)
  have hledger : ledgerOf s.stackAt s.zombieQueue.reverse = s.ledger := by
    funext id
    simp [ledgerOf, ledger]
  refine ⟨?_, happly, hother, fun hno => ?_⟩
  · rw [hsame.ledger, ← hledger]
    exact hpost
  · obtain ⟨hqueue, hslots⟩ := hempty fun c hc => by
      rw [List.mem_reverse]
      exact hno c hc
    refine ⟨hsame.zombies.trans hqueue, fun z hz => ?_⟩
    have hz' := hslots z (List.mem_reverse.mpr hz)
    rw [← hsame.stackAt] at hz'
    exact Option.map_eq_none_iff.mp hz'

/-- `exit_current_task` by a task that has a slot. -/
theorem exitCurrentTask_events {c : ℕ} {tcb : TaskControlBlock} (hcur : s.currentTaskId = some c)
    (ht : s.task c = some tcb) (h : s.exitCurrentTask = .ok s') :
    s.ledger.post (.exited c) = .ok s'.ledger ∧ s'.currentTaskId = some c := by
  rw [exitCurrentTask, getCurrentTaskId, hcur] at h
  dsimp only at h
  rw [ok_bind, slot_of_task ht, ok_bind] at h
  cases h
  refine ⟨?_, hcur⟩
  have hc : s.ledger c = some ⟨tcb.stack.1, tcb.stack.2, decide (c ∈ s.zombieQueue)⟩ := by
    simp [ledger, ledgerOf, stackAt, ht]
  have hsame : SameStacks s (s.setTcb c { tcb with status := .terminated }) :=
    .setTcb (slot_of_task ht) rfl rfl rfl
  have hstack : ∀ id, (s.setTcb c { tcb with status := .terminated }).stackAt id = s.stackAt id :=
    congrFun hsame.stackAt
  rw [StackLedger.post, hc]
  refine congrArg Except.ok (funext fun id => ?_)
  show _ = Option.map
    (fun stack => StackEntry.mk stack.1 stack.2 (decide (id ∈ s.zombieQueue ++ [c])))
    ((s.setTcb c { tcb with status := .terminated }).stackAt id)
  rw [hstack id]
  by_cases hid : id = c
  · rw [hid, Function.update_self, stackAt, ht]
    simp
  · rw [Function.update_of_ne hid, ledger, ledgerOf]
    simp [hid]

/-- A new task enters a slot that no zombie has. -/
theorem post_taken {tcb : TaskControlBlock} {ppn pages : ℕ}
    (hl : s'.taskList = if s.freeId = s.taskList.length then s.taskList ++ [some tcb]
      else s.taskList.set s.freeId (some tcb))
    (hz : s'.zombieQueue = s.zombieQueue) (hfree : s.freeId ∉ s.zombieQueue)
    (hstack : tcb.stack = (ppn, pages)) :
    s.ledger.post (.taken s.freeId ppn pages) = .ok s'.ledger := by
  obtain ⟨htask, -, -⟩ := SchedInv.addTask_spec hl
  have hledger : s.ledger s.freeId = none := by
    simp [ledger, ledgerOf, stackAt, SchedInv.task_freeId]
  rw [StackLedger.post, hledger]
  refine congrArg Except.ok (funext fun id => ?_)
  rw [ledger, ledger, stackAt_of_update htask, hz]
  by_cases hid : id = s.freeId
  · rw [hid, Function.update_self]
    simp [ledgerOf, hstack, hfree]
  · rw [Function.update_of_ne hid]
    simp [ledgerOf, hid]

/-- `spawn` where no zombie has the free slot: the stack that the allocator gives is entered in the
ledger. -/
theorem spawn_events {M : Set ℕ} {L : List Block} {free : ℕ → List ℕ} {dispatched : Bool}
    (howns : Owns buddy free M L) (hz : s.freeId ∉ s.zombieQueue)
    {trampoline stackSize priority : ℕ} {entry : ℕ × ℕ} {r : Except SchedulerError Unit}
    (h : s.spawn buddy trampoline entry stackSize priority = .ok (r, s', buddy')) :
    exec StackLedger.post s.ledger (SchedSystem.stackEvents ⟨s, buddy, dispatched⟩
      (.spawn trampoline entry stackSize priority)) = .ok s'.ledger ∧
    exec StackEvent.apply buddy (SchedSystem.stackEvents ⟨s, buddy, dispatched⟩
      (.spawn trampoline entry stackSize priority)) = .ok buddy' ∧
    ∀ id ppn n, .returned id ppn n ∉ SchedSystem.stackEvents ⟨s, buddy, dispatched⟩
      (.spawn trampoline entry stackSize priority) := by
  unfold Scheduler.spawn at h
  unfold SchedSystem.stackEvents
  dsimp only at h ⊢
  set pages := ((stackSize + pageSize - 1) % 2 ^ 64) / pageSize with hpages
  by_cases hzero : pages = 0
  · rw [if_pos hzero] at h ⊢
    cases h
    exact ⟨rfl, rfl, by simp⟩
  rw [if_neg hzero] at h ⊢
  have hlt : pages < 2 ^ 64 := (Nat.div_le_self _ _).trans_lt (Nat.mod_lt _ (by decide))
  rcases howns.alloc (Nat.pos_of_ne_zero hzero) hlt with
    ⟨buddy₁, free₁, b, halloc, -, howns₁, -, -⟩ | hnone
  · rw [halloc, ok_bind] at h
    rw [halloc]
    dsimp only at h ⊢
    split at h
    · cases h
    simp only [Except.ok.injEq, Prod.mk.injEq] at h
    obtain ⟨-, hs', rfl⟩ := h
    have hbase := howns₁.addressable.lt (howns₁.subset b List.mem_cons_self b.base_mem_cells)
    have hphys : PhysAddr.floor (virtToPhys (physToVirt (PhysAddr.ofPpn b.base))) = b.base := by
      rw [PhysAddr.ofPpn_eq (hbase.trans (by decide)),
        virtToPhys_physToVirt ((mul_pageSize_lt hbase).trans (by decide)), PhysAddr.floor_eq,
        Nat.mul_div_cancel _ (by decide)]
    have hpost : s.ledger.post (.taken s.freeId b.base pages) = .ok s'.ledger := by
      rw [← hs']
      exact post_taken rfl rfl hz (Prod.ext hphys rfl)
    refine ⟨?_, ?_, by simp⟩
    · rw [exec_cons_of_ok hpost, exec_nil]
    · rw [exec, StackEvent.apply, halloc]
      rfl
  · rw [hnone, ok_bind] at h
    rw [hnone]
    cases h
    exact ⟨rfl, rfl, by simp⟩

end Scheduler

/-! ## Runs -/

/-- The scheduler with the ledger of its stacks. -/
structure StackSystem where
  sched : SchedSystem
  ledger : StackLedger

namespace StackSystem

/-- One operation. An event that the ledger refuses leaves it as it is. -/
def step (t : StackSystem) (op : SchedOp) : Except Fault StackSystem := do
  let sched ← t.sched.step op
  match exec StackLedger.post t.ledger (t.sched.stackEvents op) with
  | .ok ledger => .ok ⟨sched, ledger⟩
  | .error _ => .ok ⟨sched, t.ledger⟩

/-- **What an operation does with stacks and slots**, from one state to the next: the ledger accepts
its events, they are what it does to the allocator, none of them returns the stack of the task that
is current when the operation begins, and `prepare_next_task` under a task that is no zombie leaves
no zombie and empties their slots. -/
structure Recycles (t t' : StackSystem) (op : SchedOp) : Prop where
  accepted : exec StackLedger.post t.ledger (t.sched.stackEvents op) = .ok t'.ledger
  applied : exec StackEvent.apply t.sched.buddy (t.sched.stackEvents op) = .ok t'.sched.buddy
  notCurrent : ∀ id ppn pages, .returned id ppn pages ∈ t.sched.stackEvents op →
    t.sched.scheduler.currentTaskId ≠ some id
  reaped : op = .prepareNextTask →
    (∀ c, t.sched.scheduler.currentTaskId = some c → c ∉ t.sched.scheduler.zombieQueue) →
    t'.sched.scheduler.zombieQueue = [] ∧
      ∀ z ∈ t.sched.scheduler.zombieQueue, t'.sched.scheduler.task z = none

/-- The invariant of the runs: the ledger is that of the scheduler. -/
def Inv (M : Set ℕ) (L₀ : List Block) (t : StackSystem) : Prop :=
  t.sched.Inv M L₀ ∧ t.ledger = t.sched.scheduler.ledger

variable {M : Set ℕ} {L₀ : List Block} {t : StackSystem}

/-- An operation without events. -/
theorem recycles_of_same {op : SchedOp} {sched : SchedSystem}
    (hledger : t.ledger = t.sched.scheduler.ledger) (hevents : t.sched.stackEvents op = [])
    (hop : op ≠ .prepareNextTask) (hbuddy : sched.buddy = t.sched.buddy)
    (hsame : Scheduler.SameStacks t.sched.scheduler sched.scheduler) :
    Recycles t ⟨sched, sched.scheduler.ledger⟩ op where
  accepted := by rw [hevents, exec_nil, hledger, hsame.ledger]
  applied := by rw [hevents, exec_nil, hbuddy]
  notCurrent := by simp [hevents]
  reaped h := absurd h hop

/-- What the scheduler does in one operation, as the ledger sees it. -/
theorem recycles_of_step {op : SchedOp} {sched : SchedSystem} (h : t.Inv M L₀)
    (hop : t.sched.Allowed op) (hstep : t.sched.step op = .ok sched) :
    Recycles t ⟨sched, sched.scheduler.ledger⟩ op := by
  obtain ⟨⟨q, hinv, hcur, -⟩, hledger⟩ := h
  cases op with
  | spawn trampoline entry stackSize priority =>
    obtain ⟨⟨r, s', buddy'⟩, hs', hstep⟩ := exists_of_bind_eq_ok hstep
    cases hstep
    obtain ⟨free, howns⟩ := hinv.owns
    have hz : t.sched.scheduler.freeId ∉ t.sched.scheduler.zombieQueue := by
      intro hmem
      rw [hinv.zombies, q.mem_zombies, ← hinv.status] at hmem
      obtain ⟨tcb, ht, -⟩ := Scheduler.exists_of_status hmem
      rw [SchedInv.task_freeId] at ht
      cases ht
    obtain ⟨haccept, happly, hmem⟩ := Scheduler.spawn_events howns hz hs'
    exact ⟨hledger ▸ haccept, happly, fun id ppn pages h => absurd h (hmem id ppn pages),
      fun h => nomatch h⟩
  | prepareNextTask =>
    obtain ⟨⟨s', buddy'⟩, hs', hstep⟩ := exists_of_bind_eq_ok hstep
    cases hstep
    obtain ⟨haccept, happly, hother, hempty⟩ := Scheduler.prepareNextTask_events hs'
    exact ⟨hledger ▸ haccept, happly, hother, fun _ => hempty⟩
  | setCurrentTaskSleep wakeTime =>
    obtain ⟨s', hs', hstep⟩ := exists_of_bind_eq_ok hstep
    cases hstep
    exact recycles_of_same hledger rfl (by simp) rfl (.stopCurrent hs')
  | blockCurrentTask =>
    obtain ⟨s', hs', hstep⟩ := exists_of_bind_eq_ok hstep
    cases hstep
    exact recycles_of_same hledger rfl (by simp) rfl (.stopCurrent hs')
  | finishSleep currentMtime =>
    obtain ⟨s', hs', hstep⟩ := exists_of_bind_eq_ok hstep
    cases hstep
    exact recycles_of_same hledger rfl (by simp) rfl (.finishSleepLoop hs')
  | wakeUpTaskWithResult taskId result =>
    obtain ⟨s', hs', hstep⟩ := exists_of_bind_eq_ok hstep
    cases hstep
    exact recycles_of_same hledger rfl (by simp) rfl (.wake hs')
  | exit =>
    obtain ⟨s₁, hs₁, hstep⟩ := exists_of_bind_eq_ok hstep
    obtain ⟨⟨s', buddy'⟩, hs', hstep⟩ := exists_of_bind_eq_ok hstep
    cases hstep
    obtain ⟨c, hc, -⟩ := SchedSystem.UserCurrent.exists hop
    have hstatus := q.status_running (hcur.symm.trans hc)
    rw [← hinv.status] at hstatus
    obtain ⟨tcb, ht, -⟩ := Scheduler.exists_of_status hstatus
    obtain ⟨hexit, hcur₁⟩ := Scheduler.exitCurrentTask_events hc ht hs₁
    obtain ⟨haccept, happly, hother, -⟩ := Scheduler.prepareNextTask_events hs'
    have hevents : t.sched.stackEvents .exit = .exited c :: s₁.returns := by
      rw [SchedSystem.stackEvents, hc, hs₁]
    refine ⟨?_, ?_, fun id ppn pages hmem => ?_, fun h => nomatch h⟩
    · rw [hevents, hledger, exec_cons_of_ok hexit]
      exact haccept
    · rw [hevents, exec_cons_of_ok (show StackEvent.apply t.sched.buddy (.exited c) = _ from rfl)]
      exact happly
    · rw [hevents] at hmem
      rcases List.mem_cons.mp hmem with heq | hmem
      · cases heq
      · rw [hc, ← hcur₁]
        exact hother id ppn pages hmem

/-- **One operation** that its caller may use recycles as it should and keeps the invariant. -/
theorem step_recycles {op : SchedOp} (h : t.Inv M L₀) (hop : t.sched.Allowed op) :
    ∃ t', t.step op = .ok t' ∧ Recycles t t' op ∧ t'.Inv M L₀ := by
  obtain ⟨sched, hsched, hinv⟩ := SchedSystem.step_inv h.1 hop
  have hrec := recycles_of_step h hop hsched
  refine ⟨⟨sched, sched.scheduler.ledger⟩, ?_, hrec, hinv, rfl⟩
  rw [step, hsched, ok_bind, hrec.accepted]

/-- **Stacks and slots are recycled exactly once, and never under the running task.** After a
successful `init`, every operation returns, and what it takes from the allocator, gives back to it
and does to the slots is what the ledger allows. -/
theorem recycled_along {M : Set ℕ} {L₀ : List Block} {free : ℕ → List ℕ}
    {buddy buddy' : BuddySystemFrameAllocator} {trampoline : ℕ} {entry : ℕ × ℕ} {s : Scheduler}
    (howns : Owns buddy free M L₀)
    (hinit : Scheduler.new.init buddy trampoline entry = .ok (.ok (), s, buddy'))
    (ops : List SchedOp)
    (hops : Along step (fun t op => t.sched.Allowed op) ⟨⟨s, buddy', false⟩, s.ledger⟩ ops) :
    Along step (fun t op => ∃ t', t.step op = .ok t' ∧ Recycles t t' op)
      ⟨⟨s, buddy', false⟩, s.ledger⟩ ops := by
  obtain ⟨hinv, hcur, -⟩ := SchedInv.init howns hinit
  have hstart : Inv M L₀ ⟨⟨s, buddy', false⟩, s.ledger⟩ :=
    ⟨⟨RunQueue.initial, hinv, hcur, by simp⟩, rfl⟩
  refine Along.of_invariant (I := Inv M L₀) ?_ hstart hops
  intro t op ht hop
  obtain ⟨t', ht', hrec, hinv'⟩ := step_recycles ht hop
  refine ⟨⟨t', ht', hrec⟩, fun u hu => ?_⟩
  rw [ht'] at hu
  cases hu
  exact hinv'

/-- Two tasks run; one exits and is reaped at the next dispatch, and a third takes its slot. -/
theorem recycled_along_sample :
    Along step (fun t op => ∃ t', t.step op = .ok t' ∧ Recycles t t' op)
      ⟨SchedSystem.sample, SchedSystem.sample.scheduler.ledger⟩
      [.spawn 0 (1, 1) 4096 1, .spawn 0 (2, 2) 8192 1, .prepareNextTask, .exit, .prepareNextTask,
        .spawn 0 (3, 3) 4096 1, .setCurrentTaskSleep 5, .finishSleep 7] := by
  obtain ⟨free, howns⟩ := @Owns.ofRegion 0x80000 0x80008 (by decide) (by decide)
  exact recycled_along howns SchedSystem.sample_init _ (by decide +kernel)

end StackSystem

end CharlotteOs
