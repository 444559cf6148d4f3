import CharlotteOs.Mm.Buddy

/-!
# Tasks and the scheduler

`src/task`: a task is a slot of `task_list` with a status, a saved register file and a stack from
the buddy allocator. `Scheduler` keeps the ids of the tasks that are ready in a queue, those of
the tasks that have exited in another, and the wake-up times in a heap.

Pointers to a `TaskContext` of a slot are task ids here. The heap orders its entries by wake-up
time and then by id, and equal entries are the same, so it is the sorted list of its entries.

## Main definitions

* `TaskContext`, `TaskStatus`, `TaskControlBlock`, `Scheduler`
* `Scheduler.spawn`, `Scheduler.prepareNextTask`: a task enters; the next task runs and exited
  tasks are reaped
* `Scheduler.setCurrentTaskSleep`, `Scheduler.blockCurrentTask`: the current task stops
* `Scheduler.finishSleep`, `Scheduler.wakeUpTaskWithResult`: blocked tasks become ready
* `Scheduler.exitCurrentTask`: the current task ends
-/

namespace CharlotteOs

/-- `TaskContext`: the registers `x1`, `x2`, `x4` to `x31` and the program counter. -/
structure TaskContext where
  ra : ℕ
  sp : ℕ
  tp : ℕ
  t0 : ℕ
  t1 : ℕ
  t2 : ℕ
  s0 : ℕ
  s1 : ℕ
  a0 : ℕ
  a1 : ℕ
  a2 : ℕ
  a3 : ℕ
  a4 : ℕ
  a5 : ℕ
  a6 : ℕ
  a7 : ℕ
  s2 : ℕ
  s3 : ℕ
  s4 : ℕ
  s5 : ℕ
  s6 : ℕ
  s7 : ℕ
  s8 : ℕ
  s9 : ℕ
  s10 : ℕ
  s11 : ℕ
  t3 : ℕ
  t4 : ℕ
  t5 : ℕ
  t6 : ℕ
  sepc : ℕ
  deriving DecidableEq, Repr

/-- `TaskContext::zero`. -/
def TaskContext.zero : TaskContext :=
  ⟨0, 0, 0, 0, 0, 0, 0, 0, 0, 0, 0, 0, 0, 0, 0, 0, 0, 0, 0, 0, 0, 0, 0, 0, 0, 0, 0, 0, 0, 0, 0⟩

/-- `TaskStatus`. -/
inductive TaskStatus
  | ready
  | running
  | blocked
  | terminated
  deriving DecidableEq, Repr

/-- `TaskControlBlock`. The entry point is the pair of words of the task's closure. -/
structure TaskControlBlock where
  taskId : ℕ
  entryPoint : ℕ × ℕ
  stackBase : ℕ
  pageCount : ℕ
  priority : ℕ
  status : TaskStatus
  context : TaskContext
  deriving DecidableEq, Repr

/-- `SleepEntry`. -/
structure SleepEntry where
  wakeTime : ℕ
  taskId : ℕ
  deriving DecidableEq, Repr

/-- The derived order of `SleepEntry`: by wake-up time, then by id. -/
def SleepEntry.le (e e' : SleepEntry) : Bool :=
  e.wakeTime < e'.wakeTime || e.wakeTime == e'.wakeTime && e.taskId ≤ e'.taskId

/-- `SchedulerError`, without the layout errors, which no path returns. -/
inductive SchedulerError
  | memoryAllocationError
  deriving DecidableEq, Repr

/-- `Scheduler`. The last element of `zombieQueue` is the one that was pushed last. -/
structure Scheduler where
  currentTaskId : Option ℕ
  readyQueue : List ℕ
  taskList : List (Option TaskControlBlock)
  zombieQueue : List ℕ
  blockedQueue : List SleepEntry
  deriving DecidableEq, Repr

/-- Insertion into the heap. -/
def pushEntry (e : SleepEntry) : List SleepEntry → List SleepEntry
  | [] => [e]
  | e' :: rest => if e.le e' then e :: e' :: rest else e' :: pushEntry e rest

namespace Scheduler

/-- `Scheduler::new`. -/
def new : Scheduler := ⟨none, [], [], [], []⟩

/-- `task_list[id]`. -/
def slot (s : Scheduler) (id : ℕ) : Except Fault (Option TaskControlBlock) :=
  match s.taskList[id]? with
  | some slot => .ok slot
  | none => .error .indexOutOfBounds

/-- The scheduler after the block in a slot is overwritten. -/
def setTcb (s : Scheduler) (id : ℕ) (tcb : TaskControlBlock) : Scheduler :=
  { s with taskList := s.taskList.set id (some tcb) }

/-- `get_current_task_id`. -/
def getCurrentTaskId (s : Scheduler) : Except Fault ℕ :=
  match s.currentTaskId with
  | some id => .ok id
  | none => .error .noCurrentTask

/-! ## New tasks -/

/-- The id of a new task: the first free slot, or a new one. -/
def freeId (s : Scheduler) : ℕ := s.taskList.findIdx Option.isNone

/-- The block of a new task. It begins at the address of `trampoline`. -/
def newTcb (trampoline taskId stackBase pages : ℕ) (entry : ℕ × ℕ) (priority : ℕ) :
    TaskControlBlock where
  taskId := taskId
  entryPoint := entry
  stackBase := stackBase
  pageCount := pages
  priority := priority
  status := .ready
  context := { TaskContext.zero with
    sp := (stackBase + pages * pageSize) % 2 ^ 64
    ra := trampoline
    a0 := entry.1
    a1 := entry.2
    sepc := trampoline }

/-- `spawn`. The closure of the task is given by the two words of its fat pointer. -/
def spawn (s : Scheduler) (buddy : BuddySystemFrameAllocator) (trampoline : ℕ) (entry : ℕ × ℕ)
    (stackSize priority : ℕ) :
    Except Fault (Except SchedulerError Unit × Scheduler × BuddySystemFrameAllocator) :=
  let taskId := s.freeId
  let pages := ((stackSize + pageSize - 1) % 2 ^ 64) / pageSize
  if pages = 0 then .ok (.error .memoryAllocationError, s, buddy)
  else do
    match ← buddy.alloc pages with
    | (none, buddy) => .ok (.error .memoryAllocationError, s, buddy)
    | (some stackPpn, buddy) =>
      let stackBaseVa := physToVirt (PhysAddr.ofPpn stackPpn)
      if stackBaseVa = 0 then .error .stackNull
      else
        let tcb := newTcb trampoline taskId stackBaseVa pages entry priority
        let taskList :=
          if taskId = s.taskList.length then s.taskList ++ [some tcb]
          else s.taskList.set taskId (some tcb)
        .ok (.ok (), { s with taskList, readyQueue := s.readyQueue ++ [taskId] }, buddy)

/-- `Scheduler::init`, with the closure of `idle_task`. -/
def init (s : Scheduler) (buddy : BuddySystemFrameAllocator) (trampoline : ℕ) (entry : ℕ × ℕ) :
    Except Fault (Except SchedulerError Unit × Scheduler × BuddySystemFrameAllocator) :=
  s.spawn buddy trampoline entry 4096 0

/-! ## Dispatch -/

/-- The next id of a ready queue and the queue without it: task `0` gives way to any other. -/
def nextTask : List ℕ → ℕ × List ℕ
  | [] => (0, [])
  | 0 :: id :: rest => (id, rest ++ [0])
  | id :: rest => (id, rest)

/-- The common end of the functions that switch tasks. -/
def dispatch (s : Scheduler) : Except Fault Scheduler := do
  let (nextId, readyQueue) := nextTask s.readyQueue
  match ← s.slot nextId with
  | none => .error .nextTaskMissing
  | some nextTcb =>
    .ok { s.setTcb nextId { nextTcb with status := .running } with
      readyQueue, currentTaskId := some nextId }

/-- The common body of `set_current_task_sleep` and `block_current_task`, with the heap that the
first changes. -/
def stopCurrent (s : Scheduler) (heap : ℕ → List SleepEntry) : Except Fault Scheduler :=
  match s.currentTaskId with
  | none => .error .unreachable
  | some cur => do
    match ← s.slot cur with
    | none => .error .unreachable
    | some tcb =>
      if tcb.status = .running then
        dispatch { s.setTcb cur { tcb with status := .blocked } with blockedQueue := heap cur }
      else .error .unreachable

/-- `set_current_task_sleep`. -/
def setCurrentTaskSleep (s : Scheduler) (wakeTime : ℕ) : Except Fault Scheduler :=
  s.stopCurrent fun cur => pushEntry ⟨wakeTime, cur⟩ s.blockedQueue

/-- `block_current_task`. -/
def blockCurrentTask (s : Scheduler) : Except Fault Scheduler :=
  s.stopCurrent fun _ => s.blockedQueue

/-! ## Waking -/

/-- `wake_up_task_with_result` and `set_task_ready`, which differ in the context they leave. -/
def wake (s : Scheduler) (taskId : ℕ) (context : TaskContext → TaskContext) :
    Except Fault Scheduler := do
  match ← s.slot taskId with
  | none => .ok s
  | some tcb =>
    if tcb.status = .blocked then
      .ok { s.setTcb taskId { tcb with status := .ready, context := context tcb.context } with
        readyQueue := s.readyQueue ++ [taskId] }
    else .ok s

/-- `set_task_ready`. -/
def setTaskReady (s : Scheduler) (taskId : ℕ) : Except Fault Scheduler := s.wake taskId id

/-- `wake_up_task_with_result`. -/
def wakeUpTaskWithResult (s : Scheduler) (taskId result : ℕ) : Except Fault Scheduler :=
  s.wake taskId fun context => { context with a0 := result }

/-- The loop of `finish_sleep`, over the heap in its order. -/
def finishSleepLoop (currentMtime : ℕ) : List SleepEntry → Scheduler → Except Fault Scheduler
  | [], s => .ok { s with blockedQueue := [] }
  | entry :: rest, s =>
    if currentMtime < entry.wakeTime then .ok { s with blockedQueue := entry :: rest }
    else do
      let s ← s.setTaskReady entry.taskId
      finishSleepLoop currentMtime rest s

/-- `finish_sleep`. -/
def finishSleep (s : Scheduler) (currentMtime : ℕ) : Except Fault Scheduler :=
  finishSleepLoop currentMtime s.blockedQueue s

/-! ## Exit and reaping -/

/-- `exit_current_task`. -/
def exitCurrentTask (s : Scheduler) : Except Fault Scheduler := do
  let id ← s.getCurrentTaskId
  match ← s.slot id with
  | none => .ok s
  | some tcb =>
    .ok { s.setTcb id { tcb with status := .terminated } with zombieQueue := s.zombieQueue ++ [id] }

/-- The body of the reaping loop: the slot is freed and its stack goes back. -/
def reap (s : Scheduler) (buddy : BuddySystemFrameAllocator) (zombieId : ℕ) :
    Except Fault (Scheduler × BuddySystemFrameAllocator) :=
  let s := { s with readyQueue := s.readyQueue.filter (· ≠ zombieId) }
  match s.taskList[zombieId]? with
  | some (some tcb) => do
    let s := { s with taskList := s.taskList.set zombieId none }
    let stackPpn ← PhysPageNum.ofPhysAddr (virtToPhys tcb.stackBase)
    if tcb.pageCount = 0 then .error .unwrapZero
    else do
      let buddy ← buddy.dealloc stackPpn tcb.pageCount
      .ok (s, buddy)
  | _ => .ok (s, buddy)

/-- The reaping loop of `prepare_next_task`, over the zombies from the last to the first. It stops
at the current task, whose stack is in use. -/
def reapLoop (currentId : Option ℕ) : List ℕ → Scheduler → BuddySystemFrameAllocator →
    Except Fault (Scheduler × BuddySystemFrameAllocator)
  | [], s, buddy => .ok ({ s with zombieQueue := [] }, buddy)
  | zombieId :: rest, s, buddy =>
    if some zombieId = currentId then
      .ok ({ s with zombieQueue := (zombieId :: rest).reverse }, buddy)
    else do
      let (s, buddy) ← s.reap buddy zombieId
      reapLoop currentId rest s buddy

/-- The step of `prepare_next_task` that puts the current task back into the queue. -/
def requeueCurrent (s : Scheduler) : Except Fault Scheduler :=
  match s.currentTaskId with
  | none => .ok s
  | some cur => do
    match ← s.slot cur with
    | none => .ok s
    | some tcb =>
      if tcb.status = .running then
        .ok { s.setTcb cur { tcb with status := .ready } with readyQueue := s.readyQueue ++ [cur] }
      else .ok s

/-- `prepare_next_task`. -/
def prepareNextTask (s : Scheduler) (buddy : BuddySystemFrameAllocator) :
    Except Fault (Scheduler × BuddySystemFrameAllocator) := do
  let (s, buddy) ← reapLoop s.currentTaskId s.zombieQueue.reverse s buddy
  let s ← s.requeueCurrent
  let s ← s.dispatch
  .ok (s, buddy)

end Scheduler

end CharlotteOs
