import CharlotteOs.Task.SchedulerState

/-!
# Waiting tasks

What traps do to the tasks that wait, without the rest of the kernel: which tasks are blocked and
with what saved registers, the wake-up times, the queue of readers and the received bytes that
nobody has read. Each trap is one labelled step of it, or none.

## Main definitions

* `WaitState`, `WaitLabel`, `WaitStep`: the states and the steps
* `WaitState.Reading`: a task is blocked in `uart_read`
* `WaitState.Timely`: no blocked task has a wake-up time before the end of its blocked period
* `WaitState.ReadersWait`: the queue of readers is that of the tasks blocked in `uart_read`

## Main results

* `WaitStep.timely`: a step after which no task has an old wake-up time keeps `Timely`
* `WaitStep.readersWait`: a step that ends no read by a wake-up time keeps `ReadersWait`
-/

namespace CharlotteOs

open Scheduler

/-- The tasks that are blocked with their saved registers, the wake-up times, the queue of readers
and the bytes that have been received and not read. -/
structure WaitState where
  blocked : ℕ → Option TaskContext
  heap : List SleepEntry
  readers : List ℕ
  bytes : List ℕ

/-- What a trap does to the waiting tasks. -/
inductive WaitLabel
  /-- Nothing. -/
  | quiet
  /-- `finish_sleep` at a time. -/
  | tick (now : ℕ)
  /-- A received byte goes to a reader. -/
  | deliver (id byte : ℕ)
  /-- A received byte goes to the buffer. -/
  | store (byte : ℕ)
  /-- A received byte is dropped. -/
  | drop (byte : ℕ)
  /-- A task gets a byte from the buffer. -/
  | take (id byte : ℕ)
  /-- A task blocks in `sleep` until a time. -/
  | sleep (id wakeTime : ℕ)
  /-- A task blocks in `uart_read`, until a time or without end. -/
  | wait (id : ℕ) (wakeTime : Option ℕ)
  deriving DecidableEq, Repr

/-- The heap with the wake-up time of a task that blocks. -/
def pushWake (id : ℕ) : Option ℕ → List SleepEntry → List SleepEntry
  | some wakeTime, heap => pushEntry ⟨wakeTime, id⟩ heap
  | none, heap => heap

/-- The steps. The registers that a task blocks with have the number of its system call in `a7`. -/
inductive WaitStep (w : WaitState) : WaitLabel → WaitState → Prop
  | quiet : WaitStep w .quiet w
  | tick {now : ℕ} {blocked : ℕ → Option TaskContext} {heap : List SleepEntry}
      (hnot : ∀ id, ¬ Due w.heap now id → blocked id = w.blocked id)
      (hor : ∀ id, blocked id = w.blocked id ∨ blocked id = none)
      (hheap : ∀ e ∈ heap, e ∈ w.heap) : WaitStep w (.tick now) { w with blocked, heap }
  | deliver {id byte : ℕ} {readers : List ℕ} (hreaders : w.readers = readers ++ [id]) :
      WaitStep w (.deliver id byte)
        { w with blocked := Function.update w.blocked id none, readers }
  | store {byte : ℕ} (hbyte : byte < 0x80) (hreaders : w.readers = [])
      (hroom : w.bytes.length < 4096) :
      WaitStep w (.store byte) { w with bytes := w.bytes ++ [byte] }
  | drop {byte : ℕ} (hreaders : w.readers = []) (hfull : w.bytes.length = 4096) :
      WaitStep w (.drop byte) w
  | take {id byte : ℕ} {bytes : List ℕ} (hbytes : w.bytes = byte :: bytes) :
      WaitStep w (.take id byte) { w with bytes }
  | sleep {id wakeTime : ℕ} {ctx : TaskContext} (hid : w.blocked id = none) (hcall : ctx.a7 = 17) :
      WaitStep w (.sleep id wakeTime) { w with
        blocked := Function.update w.blocked id (some ctx)
        heap := pushWake id (some wakeTime) w.heap }
  | wait {id : ℕ} {wakeTime : Option ℕ} {ctx : TaskContext} (hid : w.blocked id = none)
      (hbytes : w.bytes = []) (hcall : ctx.a7 = 27) :
      WaitStep w (.wait id wakeTime) { w with
        blocked := Function.update w.blocked id (some ctx)
        heap := pushWake id wakeTime w.heap
        readers := w.readers ++ [id] }

namespace WaitState

/-- A task is blocked in `uart_read`. -/
def Reading (w : WaitState) (id : ℕ) : Prop := ∃ ctx, w.blocked id = some ctx ∧ ctx.a7 = 27

instance (w : WaitState) (id : ℕ) : Decidable (w.Reading id) :=
  decidable_of_iff ((w.blocked id).map TaskContext.a7 = some 27) Option.map_eq_some_iff

/-- The tasks are blocked until the times given, or without end where there is none. All wake-up
times of a blocked task are after the end of its blocked period. -/
def Timely (w : WaitState) (period : ℕ → Option ℕ) : Prop :=
  ∀ id, (w.blocked id).isSome → ∀ e ∈ w.heap, e.taskId = id →
    ∃ t, period id = some t ∧ t ≤ e.wakeTime

/-- **The queue of readers** lists the tasks that are blocked in `uart_read`, each once. -/
structure ReadersWait (w : WaitState) : Prop where
  nodup : w.readers.Nodup
  mem_iff : ∀ id, id ∈ w.readers ↔ w.Reading id

end WaitState

/-- The blocked periods after a step. -/
def WaitLabel.period : WaitLabel → (ℕ → Option ℕ) → ℕ → Option ℕ
  | .sleep id wakeTime, period => Function.update period id (some wakeTime)
  | .wait id wakeTime, period => Function.update period id wakeTime
  | _, period => period

/-- The task that blocks with a step. -/
def WaitLabel.blocks : WaitLabel → Option ℕ
  | .sleep id _ | .wait id _ => some id
  | _ => none

/-- The bytes that go into the buffer with a step. -/
def WaitLabel.stored : WaitLabel → List ℕ
  | .store byte => [byte]
  | _ => []

/-- The bytes that are read from the buffer with a step, with the tasks that get them. -/
def WaitLabel.returned : WaitLabel → List (ℕ × ℕ)
  | .take id byte => [(id, byte)]
  | _ => []

theorem WaitLabel.eq_take_of_returned {label : WaitLabel} {id byte : ℕ}
    (h : label.returned = [(id, byte)]) : label = .take id byte := by
  cases label with
  | take id' byte' =>
    rw [returned, List.cons.injEq, Prod.mk.injEq] at h
    rw [h.1.1, h.1.2]
  | quiet | tick | deliver | store | drop | sleep | wait => cases h

/-- No task blocks that has a wake-up time in the heap from before, unless that comes later than the
new one. -/
def WaitState.NoStaleWake (w : WaitState) : WaitLabel → Prop
  | .sleep id wakeTime | .wait id (some wakeTime) =>
    ∀ e ∈ w.heap, e.taskId = id → wakeTime ≤ e.wakeTime
  | .wait id none => ∀ e ∈ w.heap, e.taskId ≠ id
  | _ => True

instance (w : WaitState) : ∀ label, Decidable (w.NoStaleWake label)
  | .sleep .. | .wait _ (some _) => inferInstanceAs (Decidable (∀ e ∈ w.heap, _ → _))
  | .wait _ none => inferInstanceAs (Decidable (∀ e ∈ w.heap, _))
  | .quiet | .tick _ | .deliver .. | .store _ | .drop _ | .take .. =>
    inferInstanceAs (Decidable True)

/-- No wake-up time that has come is that of a task blocked in `uart_read`. -/
def WaitState.NoReadTimeout (w : WaitState) : WaitLabel → Prop
  | .tick now => ∀ e ∈ w.heap, e.wakeTime ≤ now → ¬ w.Reading e.taskId
  | _ => True

instance (w : WaitState) : ∀ label, Decidable (w.NoReadTimeout label)
  | .tick _ => inferInstanceAs (Decidable (∀ e ∈ w.heap, _ → _))
  | .quiet | .deliver .. | .store _ | .drop _ | .take .. | .sleep .. | .wait .. =>
    inferInstanceAs (Decidable True)

namespace WaitStep

variable {w w' : WaitState} {label : WaitLabel} {period : ℕ → Option ℕ}

/-- A task blocks: the wake-up times of the others are as before, and its own are as required. -/
theorem timely_block {id : ℕ} {wakeTime : Option ℕ} {ctx : TaskContext} (h : w.Timely period)
    (hstale : ∀ e ∈ w.heap, e.taskId = id → ∃ t, wakeTime = some t ∧ t ≤ e.wakeTime) (id' : ℕ)
    (hid' : (Function.update w.blocked id (some ctx) id').isSome) (e : SleepEntry)
    (he : e ∈ pushWake id wakeTime w.heap) (heid : e.taskId = id') :
    ∃ t, Function.update period id wakeTime id' = some t ∧ t ≤ e.wakeTime := by
  have hcases : e ∈ w.heap ∨ (e.taskId = id ∧ wakeTime = some e.wakeTime) := by
    cases wakeTime with
    | none => exact Or.inl he
    | some t =>
      rcases mem_pushEntry.mp he with rfl | he
      · exact Or.inr ⟨rfl, rfl⟩
      · exact Or.inl he
  by_cases hid : id' = id
  · rw [hid, Function.update_self]
    rcases hcases with he | ⟨-, ht⟩
    · exact hstale e he (heid.trans hid)
    · exact ⟨e.wakeTime, ht, le_rfl⟩
  · rw [Function.update_of_ne hid] at hid' ⊢
    rcases hcases with he | ⟨hown, -⟩
    · exact h id' hid' e he heid
    · exact absurd (heid.symm.trans hown) hid

/-- **Periods are kept** by a step, if a task that blocks has no earlier wake-up time left. -/
theorem timely (hstep : WaitStep w label w') (h : w.Timely period) (hstale : w.NoStaleWake label) :
    w'.Timely (label.period period) := by
  cases hstep with
  | quiet | store | drop | take => exact h
  | @tick now blocked heap hnot hor hheap =>
    intro id hid e he heid
    have hid : (blocked id).isSome := hid
    refine h id ?_ e (hheap e he) heid
    rcases hor id with heq | hnone
    · rwa [heq] at hid
    · rw [hnone] at hid
      cases hid
  | @deliver id byte readers hreaders =>
    intro id' hid'
    have hid' : (Function.update w.blocked id none id').isSome := hid'
    refine h id' ?_
    by_cases hid : id' = id
    · rw [hid, Function.update_self] at hid'
      cases hid'
    · rwa [Function.update_of_ne hid] at hid'
  | sleep hid hcall =>
    exact timely_block h fun e he heid => ⟨_, rfl, hstale e he heid⟩
  | @wait id wakeTime ctx hid hbytes hcall =>
    refine timely_block h fun e he heid => ?_
    cases wakeTime with
    | none => exact absurd heid (hstale e he)
    | some t => exact ⟨t, rfl, hstale e he heid⟩

/-- A task that is not blocked stays so, unless it blocks. -/
theorem blocked_eq_none {id : ℕ} (hstep : WaitStep w label w') (hid : w.blocked id = none)
    (hlabel : label.blocks ≠ some id) : w'.blocked id = none := by
  cases hstep with
  | quiet | store | drop | take => exact hid
  | tick hnot hor hheap =>
    rcases hor id with heq | hnone
    · exact heq.trans hid
    · exact hnone
  | deliver hreaders =>
    show Function.update w.blocked _ none id = none
    rw [Function.update_apply]
    split
    · rfl
    · exact hid
  | sleep | wait =>
    have hne : id ≠ _ := fun heq => hlabel (congrArg some heq.symm)
    exact (Function.update_of_ne hne _ _).trans hid

/-- At a tick a blocked task that is woken has reached the end of its period. -/
theorem period_le_of_woken {now id : ℕ} (hstep : WaitStep w (.tick now) w') (h : w.Timely period)
    (hid : (w.blocked id).isSome) (hwoken : w'.blocked id = none) :
    ∃ t, period id = some t ∧ t ≤ now := by
  cases hstep with
  | @tick _ blocked heap hnot hor hheap =>
    by_cases hdue : Due w.heap now id
    · obtain ⟨e, he, heid, hle⟩ := hdue
      obtain ⟨t, ht, hte⟩ := h id hid e he heid
      exact ⟨t, ht, hte.trans hle⟩
    · have hwoken : blocked id = none := hwoken
      rw [← hnot id hdue, hwoken] at hid
      cases hid

/-- **The queue of readers stays that of the tasks blocked in `uart_read`**, as long as no read
ends by a wake-up time. -/
theorem readersWait (hstep : WaitStep w label w') (h : w.ReadersWait)
    (htimeout : w.NoReadTimeout label) : w'.ReadersWait := by
  cases hstep with
  | quiet | store | drop | take => exact ⟨h.nodup, h.mem_iff⟩
  | @tick now blocked heap hnot hor hheap =>
    refine ⟨h.nodup, fun id => (h.mem_iff id).trans ⟨?_, ?_⟩⟩
    · rintro ⟨ctx, hctx, hcall⟩
      refine ⟨ctx, (hnot id ?_).trans hctx, hcall⟩
      rintro ⟨e, he, heid, hle⟩
      exact htimeout e he hle (heid ▸ ⟨ctx, hctx, hcall⟩)
    · rintro ⟨ctx, hctx, hcall⟩
      have hctx : blocked id = some ctx := hctx
      refine ⟨ctx, ?_, hcall⟩
      rcases hor id with heq | hnone
      · rw [← heq, hctx]
      · rw [hnone] at hctx
        cases hctx
  | @deliver id byte readers hreaders =>
    have hnodup := h.nodup
    rw [hreaders, List.nodup_append] at hnodup
    refine ⟨hnodup.1, fun id' => ?_⟩
    have hmem := h.mem_iff id'
    rw [hreaders, List.mem_append, List.mem_singleton] at hmem
    by_cases hid : id' = id
    · refine iff_of_false (fun hin => hnodup.2.2 id' hin id (by simp) hid) ?_
      rintro ⟨ctx, hctx, -⟩
      have hctx : Function.update w.blocked id none id' = some ctx := hctx
      rw [hid, Function.update_self] at hctx
      cases hctx
    · rw [or_iff_left hid] at hmem
      refine hmem.trans (exists_congr fun ctx => ?_)
      show _ ↔ Function.update w.blocked id none id' = some ctx ∧ _
      rw [Function.update_of_ne hid]
  | @sleep id wakeTime ctx hid hcall =>
    refine ⟨h.nodup, fun id' => (h.mem_iff id').trans (exists_congr fun ctx' => ?_)⟩
    show _ ↔ Function.update w.blocked id (some ctx) id' = some ctx' ∧ _
    by_cases hid' : id' = id
    · rw [hid', hid, Function.update_self]
      refine iff_of_false (by simp) ?_
      rintro ⟨hctx, hcall'⟩
      cases hctx
      omega
    · rw [Function.update_of_ne hid']
  | @wait id wakeTime ctx hid hbytes hcall =>
    have hnot : id ∉ w.readers := by
      rw [h.mem_iff]
      rintro ⟨ctx', hctx', -⟩
      rw [hid] at hctx'
      cases hctx'
    refine ⟨?_, fun id' => ?_⟩
    · rw [List.nodup_append]
      refine ⟨h.nodup, List.nodup_singleton id, ?_⟩
      rintro id' hid' _ hsingle rfl
      rw [List.mem_singleton] at hsingle
      exact hnot (hsingle ▸ hid')
    · show id' ∈ w.readers ++ [id] ↔
        ∃ ctx', Function.update w.blocked id (some ctx) id' = some ctx' ∧ _
      rw [List.mem_append, List.mem_singleton, h.mem_iff]
      by_cases hid' : id' = id
      · rw [hid', Function.update_self]
        exact iff_of_true (Or.inr rfl) ⟨ctx, rfl, hcall⟩
      · rw [or_iff_left hid', Function.update_of_ne hid']
        rfl

/-- **The buffer is a queue**: what is in it and what goes into it is what is read from it and what
is in it then. -/
theorem bytes (hstep : WaitStep w label w') :
    w.bytes ++ label.stored = label.returned.map Prod.snd ++ w'.bytes := by
  cases hstep with
  | quiet | tick | deliver | drop | sleep | wait => exact List.append_nil _
  | store => rfl
  | take hbytes =>
    rw [hbytes]
    exact List.append_nil _

theorem ascii (hstep : WaitStep w label w') (h : ∀ byte ∈ w.bytes, byte < 0x80) :
    ∀ byte ∈ w'.bytes, byte < 0x80 := by
  cases hstep with
  | quiet | tick | deliver | drop | sleep | wait => exact h
  | store hbyte =>
    intro byte hmem
    rcases List.mem_append.mp hmem with hmem | hmem
    · exact h byte hmem
    · rwa [List.mem_singleton.mp hmem]
  | take hbytes =>
    intro byte hmem
    exact h byte (hbytes ▸ List.mem_cons_of_mem _ hmem)

theorem mem_of_take {id byte : ℕ} (hstep : WaitStep w (.take id byte) w') : byte ∈ w.bytes := by
  cases hstep with
  | take hbytes =>
    rw [hbytes]
    exact List.mem_cons_self

/-- The task that a byte goes to is blocked in `uart_read`, if the queue of readers is right. -/
theorem reading_of_deliver {id byte : ℕ} (hstep : WaitStep w (.deliver id byte) w')
    (h : w.ReadersWait) : w.Reading id := by
  cases hstep with
  | deliver hreaders =>
    rw [← h.mem_iff, hreaders]
    exact List.mem_append_right _ (List.mem_singleton_self id)

/-- A task that is blocked in another call is not touched by a received byte. -/
theorem blocked_of_deliver {id byte id' : ℕ} {ctx : TaskContext}
    (hstep : WaitStep w (.deliver id byte) w') (h : w.ReadersWait)
    (hctx : w.blocked id' = some ctx) (hcall : ctx.a7 ≠ 27) : w'.blocked id' = some ctx := by
  obtain ⟨ctx', hctx', hcall'⟩ := hstep.reading_of_deliver h
  cases hstep with
  | deliver hreaders =>
    refine (Function.update_of_ne ?_ _ _).trans hctx
    rintro rfl
    rw [hctx, Option.some.injEq] at hctx'
    exact hcall (hctx' ▸ hcall')

end WaitStep

end CharlotteOs
