import CharlotteOs.Task.SchedulerRuns

/-!
# The wake-up times

`blocked_queue` is a heap of wake-up times. Nothing is ever taken out of its middle: a task that is
woken early leaves its entry behind, and may put in another. `finish_sleep` takes the entries whose
time has come from the top, one at a time, and wakes the tasks that are blocked when it meets them.

## Main definitions

* `Scheduler.HeapOrdered`: the heap is in the order in which it gives its entries out
* `Scheduler.IsFirstEntry`: the smallest entry of a task
* `Scheduler.SleepFinished`: what `finish_sleep` is to do

## Main results

* `finishSleepLoop_finished`: the loop does it, for a heap in order
* `SchedSystem.finishSleep_exact`: `finish_sleep` does it in every state that a run reaches
-/

namespace CharlotteOs

open DyadicTiling FallibleRun BuddySystemFrameAllocator

namespace SleepEntry

variable {e e₁ e₂ e₃ : SleepEntry}

theorem le_iff : e₁.le e₂ ↔
    e₁.wakeTime < e₂.wakeTime ∨ e₁.wakeTime = e₂.wakeTime ∧ e₁.taskId ≤ e₂.taskId := by
  simp [SleepEntry.le]

theorem le_self (e : SleepEntry) : e.le e := le_iff.mpr (Or.inr ⟨rfl, le_rfl⟩)

theorem le_of_not_le (h : ¬ e₁.le e₂) : e₂.le e₁ := by
  rw [le_iff] at h ⊢
  omega

theorem le_trans (h : e₁.le e₂) (h' : e₂.le e₃) : e₁.le e₃ := by
  rw [le_iff] at h h' ⊢
  omega

theorem wakeTime_le (h : e₁.le e₂) : e₁.wakeTime ≤ e₂.wakeTime := by
  rw [le_iff] at h
  omega

end SleepEntry

namespace Scheduler

/-- The entries are in the order in which the heap gives them out. -/
def HeapOrdered (l : List SleepEntry) : Prop := l.Pairwise fun e e' => e.le e'

theorem HeapOrdered.pushEntry {l : List SleepEntry} (h : HeapOrdered l) (e : SleepEntry) :
    HeapOrdered (pushEntry e l) := by
  induction l with
  | nil => exact List.pairwise_singleton _ e
  | cons e' l ih =>
    obtain ⟨hfirst, hrest⟩ := List.pairwise_cons.mp h
    rw [CharlotteOs.pushEntry]
    split
    · rename_i hle
      refine List.pairwise_cons.mpr ⟨fun e₁ he₁ => ?_, h⟩
      rcases List.mem_cons.mp he₁ with rfl | he₁
      · exact hle
      · exact SleepEntry.le_trans hle (hfirst e₁ he₁)
    · rename_i hle
      refine List.pairwise_cons.mpr ⟨fun e₁ he₁ => ?_, ih hrest⟩
      rcases mem_pushEntry.mp he₁ with rfl | he₁
      · exact SleepEntry.le_of_not_le hle
      · exact hfirst e₁ he₁

/-- `e` is the smallest entry of the task. -/
def IsFirstEntry (l : List SleepEntry) (id : ℕ) (e : SleepEntry) : Prop :=
  e ∈ l ∧ e.taskId = id ∧ ∀ e' ∈ l, e'.taskId = id → e.le e'

/-- An entry of another task makes no difference. -/
theorem IsFirstEntry.cons {l : List SleepEntry} {id : ℕ} {e e' : SleepEntry}
    (h : IsFirstEntry l id e) (hne : e'.taskId ≠ id) : IsFirstEntry (e' :: l) id e := by
  refine ⟨List.mem_cons_of_mem _ h.1, h.2.1, fun e₁ he₁ hid => ?_⟩
  rcases List.mem_cons.mp he₁ with rfl | he₁
  · exact absurd hid hne
  · exact h.2.2 e₁ he₁ hid

/-- The top of the heap is the smallest entry of its task. -/
theorem HeapOrdered.isFirstEntry {l : List SleepEntry} {e : SleepEntry}
    (h : HeapOrdered (e :: l)) : IsFirstEntry (e :: l) e.taskId e := by
  refine ⟨List.mem_cons_self, rfl, fun e' he' _ => ?_⟩
  rcases List.mem_cons.mp he' with rfl | he'
  · exact e'.le_self
  · exact (List.pairwise_cons.mp h).1 e' he'

/-- A task with an entry has a smallest one. -/
theorem HeapOrdered.exists_isFirstEntry {l : List SleepEntry} {e : SleepEntry}
    (h : HeapOrdered l) (he : e ∈ l) : ∃ e', IsFirstEntry l e.taskId e' := by
  induction l with
  | nil => cases he
  | cons e₁ l ih =>
    by_cases hid : e₁.taskId = e.taskId
    · exact ⟨e₁, hid ▸ h.isFirstEntry⟩
    · have hmem : e ∈ l := (List.mem_cons.mp he).resolve_left fun heq => hid (heq ▸ rfl)
      obtain ⟨e', hfirst⟩ := ih (List.pairwise_cons.mp h).2 hmem
      exact ⟨e', hfirst.cons hid⟩

theorem due_cons {l : List SleepEntry} {now id : ℕ} {e : SleepEntry} (h : e.wakeTime ≤ now) :
    Due (e :: l) now id ↔ id = e.taskId ∨ Due l now id := by
  simp [Due, h, eq_comm]

/-- **What `finish_sleep` is to do** with the heap `l` at the time `now`: the entries that have not
come stay, the blocked tasks with an entry that has come get ready, `woken` is those tasks in the
order of their smallest entries and goes to the end of the queue, and nothing else changes. -/
structure SleepFinished (s : Scheduler) (l : List SleepEntry) (now : ℕ) (s' : Scheduler)
    (woken : List ℕ) : Prop where
  heap : s'.blockedQueue = l.filter (now < ·.wakeTime)
  task : ∀ id, s'.task id =
    if s.status id = some .blocked ∧ Due l now id then
      (s.task id).map fun tcb => { tcb with status := .ready }
    else s.task id
  length : s'.taskList.length = s.taskList.length
  ready : s'.readyQueue = s.readyQueue ++ woken
  nodup : woken.Nodup
  mem_woken : ∀ id, id ∈ woken ↔ s.status id = some .blocked ∧ Due l now id
  ordered : woken.Pairwise fun id id' =>
    ∃ e e', IsFirstEntry l id e ∧ IsFirstEntry l id' e' ∧ e.le e'
  current : s'.currentTaskId = s.currentTaskId
  zombies : s'.zombieQueue = s.zombieQueue

variable {s s' : Scheduler} {l : List SleepEntry} {now : ℕ} {woken : List ℕ} {e : SleepEntry}

/-- No entry has come: the loop stops at once. -/
theorem SleepFinished.of_not_due (h : ∀ e ∈ l, now < e.wakeTime) :
    SleepFinished s l now { s with blockedQueue := l } [] := by
  have hnot : ∀ id, ¬ Due l now id := fun id ⟨e, he, _, hle⟩ => absurd (h e he) hle.not_gt
  refine ⟨?_, fun id => ?_, rfl, (List.append_nil _).symm, List.nodup_nil, fun id => ?_,
    List.Pairwise.nil, rfl, rfl⟩
  · exact (List.filter_eq_self.mpr fun e he => decide_eq_true (h e he)).symm
  · rw [if_neg fun hdue => hnot id hdue.2]
    rfl
  · exact iff_of_false List.not_mem_nil fun hdue => hnot id hdue.2

/-- The top of the heap has come and its task is not blocked: it has been woken already, has ended
or is gone. The entry is dropped. -/
theorem SleepFinished.drop (he : e.wakeTime ≤ now) (hst : s.status e.taskId ≠ some .blocked)
    (h : SleepFinished s l now s' woken) : SleepFinished s (e :: l) now s' woken := by
  have hiff : ∀ id, (s.status id = some .blocked ∧ Due (e :: l) now id) ↔
      (s.status id = some .blocked ∧ Due l now id) := fun id => by
    refine and_congr_right fun hid => ?_
    have hne : id ≠ e.taskId := fun heq => hst (heq ▸ hid)
    rw [due_cons he, or_iff_right hne]
  have hne : ∀ id ∈ woken, e.taskId ≠ id := fun id hid heq =>
    hst (heq ▸ ((h.mem_woken id).mp hid).1)
  refine ⟨?_, fun id => ?_, h.length, h.ready, h.nodup, fun id => ?_, ?_, h.current, h.zombies⟩
  · rw [h.heap, List.filter_cons_of_neg (by simpa using he)]
  · rw [h.task id]
    simp only [hiff id]
  · rw [h.mem_woken, hiff]
  · refine h.ordered.imp_of_mem fun hid hid' ⟨e₁, e₂, h₁, h₂, hle⟩ => ?_
    exact ⟨e₁, e₂, h₁.cons (hne _ hid), h₂.cons (hne _ hid'), hle⟩

/-- The top of the heap has come and its task is blocked: the task gets ready before all others that
are still to be woken. It is ready then, so it is not woken a second time. -/
theorem SleepFinished.wake {s₁ : Scheduler} {tcb : TaskControlBlock} (hl : HeapOrdered (e :: l))
    (he : e.wakeTime ≤ now) (ht : s.task e.taskId = some tcb) (hst : tcb.status = .blocked)
    (hs₁ : s₁ = { s.setTcb e.taskId { tcb with status := .ready } with
      readyQueue := s.readyQueue ++ [e.taskId] })
    (h : SleepFinished s₁ l now s' woken) :
    SleepFinished s (e :: l) now s' (e.taskId :: woken) := by
  have htask : s₁.task = Function.update s.task e.taskId (some { tcb with status := .ready }) := by
    rw [hs₁]
    exact task_setTcb (lt_of_task ht) _
  have hstatus : s₁.status = Function.update s.status e.taskId (some .ready) :=
    status_of_update htask
  have hblocked : s.status e.taskId = some .blocked := by rw [status_of_task ht, hst]
  have hnot : e.taskId ∉ woken := fun hid => by
    have hready := ((h.mem_woken _).mp hid).1
    rw [hstatus, Function.update_self] at hready
    cases hready
  have hne : ∀ id ∈ woken, e.taskId ≠ id := fun id hid heq => hnot (heq ▸ hid)
  have hiff : ∀ id ≠ e.taskId, (s.status id = some .blocked ∧ Due (e :: l) now id) ↔
      (s₁.status id = some .blocked ∧ Due l now id) := fun id hid => by
    rw [hstatus, Function.update_of_ne hid, due_cons he, or_iff_right hid]
  have hself : s.status e.taskId = some .blocked ∧ Due (e :: l) now e.taskId :=
    ⟨hblocked, (due_cons he).mpr (Or.inl rfl)⟩
  refine ⟨?_, fun id => ?_, ?_, ?_, List.nodup_cons.mpr ⟨hnot, h.nodup⟩, fun id => ?_, ?_, ?_, ?_⟩
  · rw [h.heap, List.filter_cons_of_neg (by simpa using he)]
  · rw [h.task id]
    by_cases hid : id = e.taskId
    · have hnot' : ¬ (s₁.status id = some .blocked ∧ Due l now id) := fun hdue =>
        hnot (hid ▸ (h.mem_woken id).mpr hdue)
      rw [if_neg hnot', hid, if_pos hself, htask, Function.update_self, ht]
      rfl
    · simp only [hiff id hid]
      rw [htask, Function.update_of_ne hid]
  · rw [h.length, hs₁]
    exact List.length_set
  · rw [h.ready, hs₁, List.append_assoc, List.singleton_append]
  · by_cases hid : id = e.taskId
    · rw [hid]
      exact iff_of_true List.mem_cons_self hself
    · rw [List.mem_cons, or_iff_right hid, h.mem_woken, hiff id hid]
  · refine List.pairwise_cons.mpr ⟨fun id hid => ?_, h.ordered.imp_of_mem ?_⟩
    · obtain ⟨e', he', rfl, -⟩ := ((h.mem_woken id).mp hid).2
      obtain ⟨e₂, hfirst⟩ := HeapOrdered.exists_isFirstEntry (List.pairwise_cons.mp hl).2 he'
      exact ⟨e, e₂, hl.isFirstEntry, hfirst.cons (hne _ hid),
        (List.pairwise_cons.mp hl).1 e₂ hfirst.1⟩
    · rintro id id' hid hid' ⟨e₁, e₂, h₁, h₂, hle⟩
      exact ⟨e₁, e₂, h₁.cons (hne _ hid), h₂.cons (hne _ hid'), hle⟩
  · rw [h.current, hs₁]
    rfl
  · rw [h.zombies, hs₁]
    rfl

/-- **The loop of `finish_sleep`** does what it is to do with a heap that is in order. -/
theorem finishSleepLoop_finished (now : ℕ) (hl : HeapOrdered l)
    (hlt : ∀ e ∈ l, e.taskId < s.taskList.length) :
    ∃ s' woken, finishSleepLoop now l s = .ok s' ∧ SleepFinished s l now s' woken := by
  induction l generalizing s with
  | nil => exact ⟨_, [], rfl, .of_not_due (by simp)⟩
  | cons e l ih =>
    obtain ⟨hfirst, hrest⟩ := List.pairwise_cons.mp hl
    rw [finishSleepLoop]
    split
    · rename_i htop
      refine ⟨_, [], rfl, .of_not_due fun e' he' => ?_⟩
      rcases List.mem_cons.mp he' with rfl | he'
      · exact htop
      · exact htop.trans_le (SleepEntry.wakeTime_le (hfirst e' he'))
    · rename_i htop
      have htop : e.wakeTime ≤ now := Nat.not_lt.mp htop
      have hlt' : ∀ e' ∈ l, e'.taskId < s.taskList.length := fun e' he' =>
        hlt e' (List.mem_cons_of_mem _ he')
      rw [setTaskReady, Scheduler.wake, slot_of_lt (hlt e List.mem_cons_self), ok_bind]
      by_cases hst : s.status e.taskId = some .blocked
      · obtain ⟨tcb, ht, hblocked⟩ := exists_of_status hst
        rw [ht]
        dsimp only
        rw [if_pos hblocked, ok_bind]
        obtain ⟨s', woken, hs', hfin⟩ := ih (s := { s.setTcb e.taskId
          { tcb with status := .ready, context := id tcb.context } with
            readyQueue := s.readyQueue ++ [e.taskId] }) hrest fun e' he' => by
          show _ < (s.taskList.set _ _).length
          rw [List.length_set]
          exact hlt' e' he'
        exact ⟨s', _, hs', .wake hl htop ht hblocked rfl hfin⟩
      · obtain ⟨s', woken, hs', hfin⟩ := ih hrest hlt'
        refine ⟨s', woken, ?_, hfin.drop htop hst⟩
        cases ht : s.task e.taskId with
        | none => exact hs'
        | some tcb =>
          dsimp only
          rw [if_neg fun hb => hst (by rw [status_of_task ht, hb]), ok_bind]
          exact hs'

end Scheduler

namespace SchedSystem

variable {M : Set ℕ} {L₀ : List Block} {t t' : SchedSystem}

/-- Every operation leaves the heap in order. -/
theorem step_heapOrdered {op : SchedOp} (h : t.Inv M L₀) (hop : t.Allowed op)
    (hheap : Scheduler.HeapOrdered t.scheduler.blockedQueue) (ht' : t.step op = .ok t') :
    Scheduler.HeapOrdered t'.scheduler.blockedQueue := by
  obtain ⟨q, hinv, hcur, -⟩ := h
  cases op with
  | spawn trampoline entry stackSize priority =>
    rcases hinv.spawn trampoline stackSize priority entry with
      ⟨s', buddy', q', hs', -, -, -, hsame, -⟩ | herror
    · rw [step, hs', ok_bind] at ht'
      cases ht'
      exact hsame.heap ▸ hheap
    · rw [step, herror, ok_bind] at ht'
      cases ht'
      exact hheap
  | prepareNextTask =>
    obtain ⟨s', buddy', q', hs', -, -, -, hsame, -⟩ :=
      hinv.prepareNextTask (Or.inr hcur) (hinv.current_lt hcur)
    rw [step, hs', ok_bind] at ht'
    cases ht'
    exact hsame.heap ▸ hheap
  | setCurrentTaskSleep wakeTime =>
    obtain ⟨c, hc, hzero⟩ := UserCurrent.exists hop
    obtain ⟨s', q', -, hs', -, -, -, -, -, hpush, -⟩ :=
      hinv.setCurrentTaskSleep hcur hc hzero wakeTime
    rw [step, hs', ok_bind] at ht'
    cases ht'
    exact hpush ▸ hheap.pushEntry _
  | blockCurrentTask =>
    obtain ⟨c, hc, hzero⟩ := UserCurrent.exists hop
    obtain ⟨s', q', -, hs', -, -, -, -, -, hsame, -⟩ := hinv.blockCurrentTask hcur hc hzero
    rw [step, hs', ok_bind] at ht'
    cases ht'
    exact hsame ▸ hheap
  | finishSleep currentMtime =>
    obtain ⟨s', woken, hs', hfin⟩ := Scheduler.finishSleepLoop_finished currentMtime hheap
      hinv.heap
    rw [step, Scheduler.finishSleep, hs', ok_bind] at ht'
    cases ht'
    exact hfin.heap ▸ hheap.filter _
  | wakeUpTaskWithResult taskId result =>
    obtain ⟨s', q', hs', -, -, -, -, -, hsame, -⟩ :=
      hinv.wake hop fun context => { context with a0 := result }
    rw [step, Scheduler.wakeUpTaskWithResult, hs', ok_bind] at ht'
    cases ht'
    exact hsame ▸ hheap
  | exit =>
    obtain ⟨c, hc, hzero⟩ := UserCurrent.exists hop
    obtain ⟨s₁, s', buddy', q', hs₁, -, -, hs', -, -, -, hsame⟩ :=
      hinv.exit hcur (hcur.symm.trans hc) hzero
    rw [step, hs₁, ok_bind, hs', ok_bind] at ht'
    cases ht'
    exact hsame.heap ▸ hheap

/-- What is kept along the runs after `init`. -/
theorem exec_inv {free : ℕ → List ℕ} {buddy buddy' : BuddySystemFrameAllocator} {trampoline : ℕ}
    {entry : ℕ × ℕ} {s : Scheduler} (howns : Owns buddy free M L₀)
    (hinit : Scheduler.new.init buddy trampoline entry = .ok (.ok (), s, buddy'))
    {ops : List SchedOp} (hops : Along step Allowed ⟨s, buddy', false⟩ ops)
    (ht : exec step ⟨s, buddy', false⟩ ops = .ok t) :
    t.Inv M L₀ ∧ Scheduler.HeapOrdered t.scheduler.blockedQueue := by
  obtain ⟨hinv, hcur, hheap⟩ := SchedInv.init howns hinit
  refine Along.invariant_exec
    (I := fun t => t.Inv M L₀ ∧ Scheduler.HeapOrdered t.scheduler.blockedQueue) ?_
    ⟨⟨RunQueue.initial, hinv, hcur, by simp⟩, ?_⟩ hops ht
  · rintro t op t' ⟨hinv, hheap⟩ hop ht'
    obtain ⟨u, hu, hinv'⟩ := step_inv hinv hop
    rw [ht'] at hu
    cases hu
    exact ⟨hinv', step_heapOrdered hinv hop hheap ht'⟩
  · show Scheduler.HeapOrdered s.blockedQueue
    rw [hheap]
    exact List.Pairwise.nil

/-- **`finish_sleep` is exact** in every state that a run after `init` reaches, at every time. -/
theorem finishSleep_exact {M : Set ℕ} {L₀ : List Block} {free : ℕ → List ℕ}
    {buddy buddy' : BuddySystemFrameAllocator} {trampoline : ℕ} {entry : ℕ × ℕ} {s : Scheduler}
    (howns : Owns buddy free M L₀)
    (hinit : Scheduler.new.init buddy trampoline entry = .ok (.ok (), s, buddy'))
    {ops : List SchedOp} (hops : Along step Allowed ⟨s, buddy', false⟩ ops) {t : SchedSystem}
    (ht : exec step ⟨s, buddy', false⟩ ops = .ok t) (currentMtime : ℕ) :
    ∃ s' woken, t.scheduler.finishSleep currentMtime = .ok s' ∧
      t.scheduler.SleepFinished t.scheduler.blockedQueue currentMtime s' woken := by
  obtain ⟨⟨q, hinv, -, -⟩, hheap⟩ := exec_inv howns hinit hops ht
  exact Scheduler.finishSleepLoop_finished currentMtime hheap hinv.heap

/-- Two tasks sleep, the first is woken by a byte and sleeps again, so that it has two entries, and
all of them come at once. -/
def sleepers : List SchedOp :=
  [.spawn 0 (1, 1) 4096 1, .spawn 0 (2, 2) 4096 1, .prepareNextTask, .setCurrentTaskSleep 7,
    .setCurrentTaskSleep 6, .wakeUpTaskWithResult 1 65, .prepareNextTask, .setCurrentTaskSleep 5]

theorem finishSleep_exact_sample : ∃ t, exec step sample sleepers = .ok t ∧
    t.scheduler.blockedQueue = [⟨5, 1⟩, ⟨6, 2⟩, ⟨7, 1⟩] ∧
    ∃ s' woken, t.scheduler.finishSleep 7 = .ok s' ∧
      t.scheduler.SleepFinished t.scheduler.blockedQueue 7 s' woken := by
  have hrun : (exec step sample sleepers).map (fun t => t.scheduler.blockedQueue) =
      .ok [⟨5, 1⟩, ⟨6, 2⟩, ⟨7, 1⟩] := by decide +kernel
  obtain ⟨t, ht, hheap⟩ := exists_of_map_eq_ok hrun
  obtain ⟨free, howns⟩ := @Owns.ofRegion 0x80000 0x80008 (by decide) (by decide)
  exact ⟨t, ht, hheap, finishSleep_exact howns sample_init (by decide +kernel) ht 7⟩

end SchedSystem

end CharlotteOs
