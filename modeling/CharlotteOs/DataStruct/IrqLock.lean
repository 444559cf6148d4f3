import CharlotteOs.Lib.Run
import CharlotteOs.Trap.Interrupts
import Mathlib.Data.List.Perm.Basic

/-!
# Critical sections without interrupts

`src/data_struct/lock.rs`: an `IrqLock` is a spin lock whose guard also holds the status register
from before the lock was taken. Code on a hart is cut into the steps at which an interrupt can come
in: `lock` clears `SIE` and then acquires the inner mutex; the destruction of a guard runs
`Drop::drop`, which restores `SIE`, and then drops the fields, of which `_guard` releases the mutex.

So a guard that sets `SIE` again does it while the mutex is still locked. A guard that was taken
with interrupts off does not touch `SIE`, and as long as only such guards are dropped no interrupt
comes in while a mutex is locked.

## Main definitions

* `IrqLockGuard`, `Frame`, `Hart`: guards, the code that holds them, and the hart
* `Hart.step`: one step, of `lock`, of the destruction of a guard, or of the hart itself
* `Hart.Excludes`: what the lock is for

## Main results

* `Hart.Inv.step`: guards and locked mutexes correspond, in every run
* `Hart.Inv.restored`: with all guards dropped, `SIE` is as it was at first, in every run
* `Hart.excludes_along_iff`: interrupts are excluded exactly if no dropped guard sets `SIE`
-/

namespace CharlotteOs

open FallibleRun Sstatus

/-- `IrqLockGuard`: the mutex that `_guard` keeps locked, and the saved status. -/
structure IrqLockGuard (L : Type*) where
  lock : L
  savedStatus : Sstatus
  deriving DecidableEq

/-- What the code is in the middle of. -/
inductive Doing (L : Type*)
  | idle
  /-- In `lock`, interrupts are off and the mutex is not acquired yet. -/
  | locking (lock : L) (savedStatus : Sstatus)
  /-- `Drop::drop` of the guard has returned, its fields are not dropped yet. -/
  | dropping (guard : IrqLockGuard L)
  deriving DecidableEq

/-- A flow of control on the hart: the guards it owns, and what it is doing. -/
structure Frame (L : Type*) where
  guards : List (IrqLockGuard L)
  doing : Doing L
  deriving DecidableEq

/-- A hart: the status register, the inner mutexes, the code that runs, and the code that was
interrupted for it, the last one first. -/
structure Hart (L : Type*) where
  sstatus : Sstatus
  locked : L → Bool
  current : Frame L
  interrupted : List (Frame L)

/-- The steps of a hart. -/
inductive HartStep (L : Type*)
  | disable (lock : L)
  | acquire
  | spin
  | dropBody (guard : IrqLockGuard L)
  | dropFields
  | interrupt
  | sret

/-- A step that the state of the hart does not allow. -/
inductive Blocked
  | blocked
  deriving DecidableEq

namespace Hart

variable {L : Type*} [DecidableEq L]

/-- The hart before the first lock. -/
def start (sstatus : Sstatus) : Hart L := ⟨sstatus, fun _ => false, ⟨[], .idle⟩, []⟩

/-- One step of the hart. -/
def step (h : Hart L) : HartStep L → Except Blocked (Hart L)
  -- `lock`: `read_and_disable_supervisor_interrupts`
  | .disable l =>
    match h.current.doing with
    | .idle =>
      let (saved, sstatus) := readAndDisableSupervisorInterrupts h.sstatus
      .ok { h with sstatus, current.doing := .locking l saved }
    | _ => .error .blocked
  -- `lock`: `inner.lock()` finds the mutex free, and the guard is built
  | .acquire =>
    match h.current.doing with
    | .locking l saved =>
      if h.locked l then .error .blocked
      else .ok { h with
        locked := Function.update h.locked l true
        current := ⟨⟨l, saved⟩ :: h.current.guards, .idle⟩ }
    | _ => .error .blocked
  -- `lock`: `inner.lock()` finds the mutex locked, and tries again
  | .spin =>
    match h.current.doing with
    | .locking l _ => if h.locked l then .ok h else .error .blocked
    | _ => .error .blocked
  -- the destruction of a guard, in any order: `Drop::drop`
  | .dropBody g =>
    match h.current.doing with
    | .idle =>
      if g ∈ h.current.guards then
        .ok { h with
          sstatus := restoreInterrupts g.savedStatus h.sstatus
          current := ⟨h.current.guards.erase g, .dropping g⟩ }
      else .error .blocked
    | _ => .error .blocked
  -- the destruction of a guard: the drop of `_guard` releases the mutex
  | .dropFields =>
    match h.current.doing with
    | .dropping g =>
      .ok { h with locked := Function.update h.locked g.lock false, current.doing := .idle }
    | _ => .error .blocked
  -- an interrupt comes in between two steps
  | .interrupt =>
    if h.sstatus.sie then
      .ok { h with
        sstatus := h.sstatus.takeTrap true
        current := ⟨[], .idle⟩
        interrupted := h.current :: h.interrupted }
    else .error .blocked
  -- the handler has dropped its guards and returns
  | .sret =>
    match h.interrupted with
    | frame :: rest =>
      if h.current = ⟨[], .idle⟩ then
        .ok { h with sstatus := h.sstatus.sret, current := frame, interrupted := rest }
      else .error .blocked
    | [] => .error .blocked

end Hart

/-- The guards of a frame whose mutex is locked. -/
def Frame.live {L : Type*} (f : Frame L) : List (IrqLockGuard L) :=
  match f.doing with
  | .dropping g => g :: f.guards
  | _ => f.guards

/-- The status values that a frame will restore. -/
def Frame.saves {L : Type*} (f : Frame L) : List Sstatus :=
  match f.doing with
  | .locking _ saved => saved :: f.guards.map IrqLockGuard.savedStatus
  | _ => f.guards.map IrqLockGuard.savedStatus

namespace Hart

variable {L : Type*} [DecidableEq L] {h h' : Hart L} {s₀ : Sstatus}

/-- The mutexes that guards keep locked, on the whole hart. -/
def owned (h : Hart L) : List L :=
  (h.current :: h.interrupted).flatMap fun f => f.live.map IrqLockGuard.lock

/-! ## What a step can do -/

/-- A step of the hart, read off its states. -/
inductive Moves : Hart L → HartStep L → Hart L → Prop
  | disable {s lk gs fs} (l : L) :
      Moves ⟨s, lk, ⟨gs, .idle⟩, fs⟩ (.disable l)
        ⟨(readAndDisableSupervisorInterrupts s).2, lk, ⟨gs, .locking l s⟩, fs⟩
  | acquire {s lk gs l saved fs} (hfree : lk l = false) :
      Moves ⟨s, lk, ⟨gs, .locking l saved⟩, fs⟩ .acquire
        ⟨s, Function.update lk l true, ⟨⟨l, saved⟩ :: gs, .idle⟩, fs⟩
  | spin {s lk gs l saved fs} (hlocked : lk l = true) :
      Moves ⟨s, lk, ⟨gs, .locking l saved⟩, fs⟩ .spin ⟨s, lk, ⟨gs, .locking l saved⟩, fs⟩
  | dropBody {s lk gs g fs} (hg : g ∈ gs) :
      Moves ⟨s, lk, ⟨gs, .idle⟩, fs⟩ (.dropBody g)
        ⟨restoreInterrupts g.savedStatus s, lk, ⟨gs.erase g, .dropping g⟩, fs⟩
  | dropFields {s lk gs g fs} :
      Moves ⟨s, lk, ⟨gs, .dropping g⟩, fs⟩ .dropFields
        ⟨s, Function.update lk g.lock false, ⟨gs, .idle⟩, fs⟩
  | interrupt {s lk f fs} (hon : s.sie = true) :
      Moves ⟨s, lk, f, fs⟩ .interrupt ⟨s.takeTrap true, lk, ⟨[], .idle⟩, f :: fs⟩
  | sret {s lk f fs} :
      Moves ⟨s, lk, ⟨[], .idle⟩, f :: fs⟩ .sret ⟨s.sret, lk, f, fs⟩

theorem moves_of_step {op : HartStep L} (hstep : h.step op = .ok h') : Moves h op h' := by
  obtain ⟨s, lk, ⟨gs, doing⟩, fs⟩ := h
  cases op with
  | disable l =>
    cases doing <;> cases hstep
    exact .disable l
  | acquire =>
    cases doing with
    | locking l saved =>
      simp only [step] at hstep
      split at hstep <;> cases hstep
      exact .acquire (Bool.eq_false_iff.2 ‹_›)
    | _ => cases hstep
  | spin =>
    cases doing with
    | locking l saved =>
      simp only [step] at hstep
      split at hstep <;> cases hstep
      exact .spin ‹_›
    | _ => cases hstep
  | dropBody g =>
    cases doing with
    | idle =>
      simp only [step] at hstep
      split at hstep <;> cases hstep
      exact .dropBody ‹_›
    | _ => cases hstep
  | dropFields =>
    cases doing <;> cases hstep
    exact .dropFields
  | interrupt =>
    simp only [step] at hstep
    split at hstep <;> cases hstep
    exact .interrupt ‹_›
  | sret =>
    cases fs with
    | nil => cases hstep
    | cons f fs =>
      simp only [step] at hstep
      split at hstep
      · rename_i hidle
        cases hidle
        cases hstep
        exact .sret
      · cases hstep

/-! ## What holds in every run -/

/-- Interrupts are off, and the guards of the code that runs keep them off. -/
def Quiet (h : Hart L) : Prop :=
  h.sstatus.sie = false ∧ ∀ saved ∈ h.current.saves, saved.sie = false

/-- **What the steps keep**, whatever guards are dropped and when. -/
structure Inv (s₀ : Sstatus) (h : Hart L) : Prop where
  /-- The mutexes that are locked are those of the guards. -/
  locked_iff : ∀ l, h.locked l = true ↔ l ∈ h.owned
  nodup : h.owned.Nodup
  /-- With interrupts off at first, they stay off. -/
  off : s₀.sie = false → h.interrupted = [] ∧ h.Quiet
  /-- With interrupts on at first, they are on or will be turned on by a guard. -/
  on : s₀.sie = true → h.interrupted = [] →
    h.sstatus.sie = true ∨ ∃ saved ∈ h.current.saves, saved.sie = true
  /-- A handler is not interrupted, and `sret` will turn interrupts on. -/
  handler : h.interrupted ≠ [] →
    (∃ f, h.interrupted = [f]) ∧ h.Quiet ∧ h.sstatus.spie = true

omit [DecidableEq L] in
theorem Inv.start (s₀ : Sstatus) : Inv s₀ (start s₀ : Hart L) where
  locked_iff l := by simp [Hart.start, owned, Frame.live]
  nodup := by simp [Hart.start, owned, Frame.live]
  off hoff := ⟨rfl, hoff, by simp [Hart.start, Frame.saves]⟩
  on hon _ := .inl hon
  handler hne := absurd rfl hne

variable {op : HartStep L}

/-- A quiet hart stays quiet, up to the return of the handler. -/
theorem Moves.quiet (hm : Moves h op h') (hq : h.Quiet) (hop : op ≠ .sret) :
    h'.Quiet ∧ h'.sstatus.spie = h.sstatus.spie ∧ h'.interrupted = h.interrupted := by
  obtain ⟨hsie, hsaves⟩ := hq
  cases hm with
  | disable l =>
    refine ⟨⟨sie_disable _, ?_⟩, spie_disable _, rfl⟩
    intro saved hsaved
    rcases List.mem_cons.1 hsaved with rfl | hsaved
    · exact hsie
    · exact hsaves saved hsaved
  | acquire => exact ⟨⟨hsie, hsaves⟩, rfl, rfl⟩
  | spin => exact ⟨⟨hsie, hsaves⟩, rfl, rfl⟩
  | @dropBody s lk gs g fs hg =>
    have hrestore := restoreInterrupts_of_off (hsaves _ (List.mem_map_of_mem hg)) s
    refine ⟨⟨(congrArg sie hrestore).trans hsie, fun saved hsaved => ?_⟩, congrArg spie hrestore,
      rfl⟩
    exact hsaves saved (List.map_subset _ List.erase_subset hsaved)
  | dropFields => exact ⟨⟨hsie, hsaves⟩, rfl, rfl⟩
  | interrupt hon => cases hsie.symm.trans hon
  | sret => exact absurd rfl hop

theorem update_true_iff {lk : L → Bool} {ls : List L} (hlk : ∀ l, lk l = true ↔ l ∈ ls) (a l : L) :
    Function.update lk a true l = true ↔ l ∈ a :: ls := by
  rw [List.mem_cons, ← hlk, Function.update_apply]
  by_cases hl : l = a <;> simp [hl]

theorem update_false_iff {lk : L → Bool} {ls : List L} {a : L}
    (hlk : ∀ l, lk l = true ↔ l ∈ a :: ls) (ha : a ∉ ls) (l : L) :
    Function.update lk a false l = true ↔ l ∈ ls := by
  by_cases hl : l = a
  · rw [hl, Function.update_self]
    exact iff_of_false Bool.false_ne_true ha
  · rw [Function.update_of_ne hl, hlk, List.mem_cons, or_iff_right hl]

/-- Locked mutexes and guards correspond after a step. -/
theorem Moves.owned (hm : Moves h op h') (hlocked : ∀ l, h.locked l = true ↔ l ∈ h.owned)
    (hnodup : h.owned.Nodup) : (∀ l, h'.locked l = true ↔ l ∈ h'.owned) ∧ h'.owned.Nodup := by
  cases hm with
  | disable l => exact ⟨hlocked, hnodup⟩
  | @acquire s lk gs l saved fs hfree =>
    refine ⟨update_true_iff hlocked l, List.nodup_cons.2 ⟨fun hl => ?_, hnodup⟩⟩
    cases hfree.symm.trans ((hlocked l).2 hl)
  | spin => exact ⟨hlocked, hnodup⟩
  | @dropBody s lk gs g fs hg =>
    have hperm : (Hart.owned ⟨s, lk, ⟨gs, .idle⟩, fs⟩).Perm (Hart.owned
        ⟨restoreInterrupts g.savedStatus s, lk, ⟨gs.erase g, .dropping g⟩, fs⟩) :=
      ((List.perm_cons_erase hg).map _).append_right _
    exact ⟨fun l => (hlocked l).trans hperm.mem_iff, hperm.nodup hnodup⟩
  | dropFields =>
    obtain ⟨hnot, hnodup⟩ := List.nodup_cons.1 hnodup
    exact ⟨update_false_iff hlocked hnot, hnodup⟩
  | interrupt hon => exact ⟨hlocked, hnodup⟩
  | sret => exact ⟨hlocked, hnodup⟩

/-- Between traps, what turned interrupts off will turn them on. -/
theorem Moves.on (hm : Moves h op h') (hop : op ≠ .interrupt) (hsret : op ≠ .sret)
    (hon : h.sstatus.sie = true ∨ ∃ saved ∈ h.current.saves, saved.sie = true) :
    h'.sstatus.sie = true ∨ ∃ saved ∈ h'.current.saves, saved.sie = true := by
  cases hm with
  | disable l =>
    right
    rcases hon with hsie | ⟨saved, hsaved, hsie⟩
    · exact ⟨_, List.mem_cons_self, hsie⟩
    · exact ⟨saved, List.mem_cons_of_mem _ hsaved, hsie⟩
  | acquire => exact hon
  | spin => exact hon
  | @dropBody s lk gs g fs hg =>
    cases hg' : g.savedStatus.sie with
    | true => exact .inl (sie_restoreInterrupts_of_on hg' s)
    | false =>
      rcases hon with hsie | ⟨saved, hsaved, hsie⟩
      · exact .inl ((congrArg sie (restoreInterrupts_of_off hg' s)).trans hsie)
      · obtain ⟨g', hmem, rfl⟩ := List.mem_map.1 hsaved
        have hne : g' ≠ g := by
          rintro rfl
          cases hg'.symm.trans hsie
        exact .inr ⟨_, List.mem_map_of_mem ((List.mem_erase_of_ne hne).2 hmem), hsie⟩
  | dropFields => exact hon
  | interrupt => exact absurd rfl hop
  | sret => exact absurd rfl hsret

/-- The frames that wait change only by traps. -/
theorem Moves.interrupted_eq (hm : Moves h op h') (hop : op ≠ .interrupt) (hsret : op ≠ .sret) :
    h'.interrupted = h.interrupted := by
  cases hm with
  | interrupt => exact absurd rfl hop
  | sret => exact absurd rfl hsret
  | _ => rfl

/-- **The step lemma**: the invariant is kept by every step. -/
theorem Inv.step (hI : Inv s₀ h) (hm : Moves h op h') : Inv s₀ h' := by
  obtain ⟨hlocked, hnodup⟩ := hm.owned hI.locked_iff hI.nodup
  by_cases hsret : op = .sret
  · subst hsret
    cases hm with
    | sret =>
      obtain ⟨⟨f, hf⟩, hquiet, hspie⟩ := hI.handler (List.cons_ne_nil _ _)
      cases hf
      refine ⟨hlocked, hnodup, fun hoff => ?_, fun _ _ => .inl ((sie_sret _).trans hspie),
        fun hne => absurd rfl hne⟩
      cases (hI.off hoff).1
  by_cases hop : op = .interrupt
  · subst hop
    cases hm with
    | @interrupt s lk f fs hon =>
      refine ⟨hlocked, hnodup, fun hoff => ?_, fun _ hnil => (by cases hnil), fun _ => ?_⟩
      · cases (hI.off hoff).2.1.symm.trans hon
      · have hfs : fs = [] := by
          by_contra hne
          cases (hI.handler hne).2.1.1.symm.trans hon
        exact ⟨⟨f, by rw [hfs]⟩, ⟨sie_takeTrap _ _, by simp [Frame.saves]⟩,
          (spie_takeTrap _ _).trans hon⟩
  have hsame := hm.interrupted_eq hop hsret
  refine ⟨hlocked, hnodup, fun hoff => ?_, fun hon hnil => ?_, fun hne => ?_⟩
  · obtain ⟨hnil, hquiet⟩ := hI.off hoff
    exact ⟨hsame.trans hnil, (hm.quiet hquiet hsret).1⟩
  · exact hm.on hop hsret (hI.on hon (hsame ▸ hnil))
  · obtain ⟨hone, hquiet, hspie⟩ := hI.handler (hsame ▸ hne)
    obtain ⟨hquiet', hspie', -⟩ := hm.quiet hquiet hsret
    exact ⟨hsame ▸ hone, hquiet', hspie'.trans hspie⟩

omit [DecidableEq L] in
/-- With all guards dropped and no handler running, `SIE` is as it was at first. -/
theorem Inv.restored (hI : Inv s₀ h) (hnil : h.interrupted = []) (hidle : h.current = ⟨[], .idle⟩) :
    h.sstatus.sie = s₀.sie := by
  cases hs₀ : s₀.sie with
  | false => exact (hI.off hs₀).2.1
  | true =>
    rcases hI.on hs₀ hnil with hon | ⟨saved, hsaved, -⟩
    · exact hon
    · rw [hidle] at hsaved
      cases hsaved

/-! ## Interrupts are excluded -/

/-- **What the lock is for.** -/
structure Excludes (s₀ : Sstatus) (h : Hart L) : Prop where
  /-- Interrupts are off while a mutex is locked. -/
  off : ∀ l, h.locked l = true → h.sstatus.sie = false
  /-- A handler does not wait for a mutex of the code it interrupted. -/
  no_wait : ∀ f ∈ h.interrupted, ∀ g ∈ f.live, ∀ saved, h.current.doing ≠ .locking g.lock saved
  /-- Once all guards are dropped, interrupts are as they were at first. -/
  restored : h.interrupted = [] → h.current = ⟨[], .idle⟩ → h.sstatus.sie = s₀.sie

/-- A guard that is dropped was taken with interrupts off. -/
def DropsOff (h : Hart L) (op : HartStep L) : Prop :=
  ∀ g, op = .dropBody g → h.current.doing = .idle → g ∈ h.current.guards → g.savedStatus.sie = false

/-- **What the steps keep** as long as no dropped guard turns interrupts on. -/
structure Masked (h : Hart L) : Prop where
  owned : ∀ l ∈ h.owned, h.sstatus.sie = false
  locking : ∀ l saved, h.current.doing = .locking l saved → h.sstatus.sie = false
  interrupted : ∀ f ∈ h.interrupted, f = ⟨[], .idle⟩

omit [DecidableEq L] in
theorem Masked.start (s₀ : Sstatus) : Masked (start s₀ : Hart L) where
  owned l hl := by simp [Hart.start, Hart.owned, Frame.live] at hl
  locking l saved hdoing := by cases hdoing
  interrupted f hf := by cases hf

omit [DecidableEq L] in
/-- Code that can be interrupted has no guard and is in the middle of nothing. -/
theorem Masked.idle (hM : Masked h) (hon : h.sstatus.sie = true) : h.current = ⟨[], .idle⟩ := by
  have hnone : h.owned = [] := List.eq_nil_iff_forall_not_mem.2 fun l hl => by
    cases (hM.owned l hl).symm.trans hon
  obtain ⟨s, lk, ⟨gs, doing⟩, fs⟩ := h
  cases doing with
  | idle =>
    have hgs : gs = [] := List.map_eq_nil_iff.1 (List.append_eq_nil_iff.1 hnone).1
    rw [hgs]
  | locking l saved => cases (hM.locking l saved rfl).symm.trans hon
  | dropping g => cases hnone

/-- The step lemma for runs that drop only guards taken with interrupts off. What a handler returns
to owns nothing then. -/
theorem Masked.step (hM : Masked h) (hm : Moves h op h') (hop : DropsOff h op) : Masked h' := by
  cases hm with
  | disable l => exact ⟨fun _ _ => sie_disable _, fun _ _ _ => sie_disable _, hM.interrupted⟩
  | acquire hfree =>
    have hoff := hM.locking _ _ rfl
    exact ⟨fun _ _ => hoff, fun _ _ _ => hoff, hM.interrupted⟩
  | spin => exact hM
  | @dropBody s lk gs g fs hg =>
    have hsame := restoreInterrupts_of_off (hop g rfl rfl hg) s
    have hoff : s.sie = false :=
      hM.owned g.lock (List.mem_append_left _ (List.mem_map_of_mem hg))
    have hoff' := (congrArg sie hsame).trans hoff
    exact ⟨fun _ _ => hoff', fun _ _ _ => hoff', hM.interrupted⟩
  | dropFields =>
    exact ⟨fun l hl => hM.owned l (List.mem_cons_of_mem _ hl), fun _ _ hdoing => (by cases hdoing),
      hM.interrupted⟩
  | @interrupt s lk f fs hon =>
    refine ⟨fun _ _ => sie_takeTrap _ _, fun _ _ _ => sie_takeTrap _ _, fun f' hf' => ?_⟩
    rcases List.mem_cons.1 hf' with rfl | hf'
    · exact hM.idle hon
    · exact hM.interrupted f' hf'
  | @sret s lk f fs =>
    have hidle := hM.interrupted f List.mem_cons_self
    have hrest : ∀ f' ∈ fs, f' = ⟨[], .idle⟩ := fun f' hf' =>
      hM.interrupted f' (List.mem_cons_of_mem _ hf')
    refine ⟨fun l hl => ?_, fun l saved hdoing => ?_, hrest⟩
    · obtain ⟨f', hf', hl⟩ := List.mem_flatMap.1 hl
      have hf' : f' = ⟨[], .idle⟩ := by
        rcases List.mem_cons.1 hf' with rfl | hf'
        · exact hidle
        · exact hrest f' hf'
      rw [hf'] at hl
      cases hl
    · rw [show Frame.doing f = .idle from congrArg Frame.doing hidle] at hdoing
      cases hdoing

omit [DecidableEq L] in
theorem Masked.excludes (hM : Masked h) (hI : Inv s₀ h) : h.Excludes s₀ where
  off l hl := hM.owned l ((hI.locked_iff l).1 hl)
  no_wait f hf g hg := by
    rw [hM.interrupted f hf] at hg
    cases hg
  restored := hI.restored

/-- A dropped guard that turns interrupts on does it while its mutex is locked. -/
theorem Inv.not_excludes (hI : Inv s₀ h) {g : IrqLockGuard L} (hm : Moves h (.dropBody g) h')
    (hg : g.savedStatus.sie = true) : ¬ h'.Excludes s₀ := by
  intro hex
  have hI' := hI.step hm
  cases hm with
  | @dropBody s lk gs _ fs hmem =>
    have hlocked := (hI'.locked_iff g.lock).2 List.mem_cons_self
    cases (hex.off g.lock hlocked).symm.trans (sie_restoreInterrupts_of_on hg s)

/-- A step that drops a guard can be taken when the code owns the guard and is idle. -/
theorem step_dropBody {g : IrqLockGuard L} (hidle : h.current.doing = .idle)
    (hg : g ∈ h.current.guards) : ∃ h', h.step (.dropBody g) = .ok h' := by
  unfold Hart.step
  rw [hidle]
  exact ⟨_, if_pos hg⟩

/-- **Interrupts are excluded exactly if no dropped guard turns them on**: in every run of lock
acquisitions, guard drops in any order and interrupts, from either value of `SIE`. -/
theorem excludes_along_iff (s₀ : Sstatus) (ops : List (HartStep L)) :
    ((start s₀ : Hart L).Excludes s₀ ∧
      Along step (fun h op => ∀ h', h.step op = .ok h' → h'.Excludes s₀) (start s₀) ops) ↔
    Along step DropsOff (start s₀ : Hart L) ops := by
  have hfirst := (Masked.start s₀ : Masked (start s₀ : Hart L)).excludes (Inv.start s₀)
  refine (and_iff_right hfirst).trans (Iff.symm ?_)
  refine Along.iff_of_invariant (I := fun h : Hart L => Inv s₀ h ∧ Masked h) (A := fun _ _ => True)
    ?_ ?_ ⟨Inv.start s₀, Masked.start s₀⟩ (along_true _ _)
  · rintro h op ⟨hI, hM⟩ -
    constructor
    · intro hop h' hh'
      have hm := moves_of_step hh'
      exact (hM.step hm hop).excludes (hI.step hm)
    · rintro hex g rfl hidle hg
      obtain ⟨h', hh'⟩ := step_dropBody hidle hg
      by_contra hon
      exact hI.not_excludes (moves_of_step hh') (Bool.eq_true_of_not_eq_false hon) (hex h' hh')
  · rintro h op h' ⟨hI, hM⟩ - hop hh'
    exact ⟨hI.step (moves_of_step hh'), hM.step (moves_of_step hh') hop⟩

/-- **The window in the destruction of a guard**: one mutex is locked with interrupts on, and its
guard is destroyed. Between `Drop::drop` and the drop of the fields interrupts are on and the mutex
is locked. A handler that comes in there and locks the same mutex waits for the code that it
interrupted. -/
theorem excludes_window :
    (∃ t : Hart ℕ, exec step (start sieMask) [.disable 0, .acquire, .dropBody ⟨0, sieMask⟩] =
        .ok t ∧ t.locked 0 = true ∧ t.sstatus.sie = true ∧ ¬ t.Excludes sieMask) ∧
    ∃ t : Hart ℕ, exec step (start sieMask)
        [.disable 0, .acquire, .dropBody ⟨0, sieMask⟩, .interrupt, .disable 0] = .ok t ∧
      t.step .acquire = .error .blocked ∧ ¬ t.Excludes sieMask := by
  constructor
  · obtain ⟨t, hrun, ht⟩ := exists_of_map_eq_ok
      (x := exec step (start sieMask : Hart ℕ) [.disable 0, .acquire, .dropBody ⟨0, sieMask⟩])
      (f := fun t => (t.locked 0, t.sstatus.sie)) (a := (true, true)) (by decide +kernel)
    obtain ⟨hlocked, hsie⟩ := Prod.mk.inj ht
    exact ⟨t, hrun, hlocked, hsie, fun hex => by cases (hex.off 0 hlocked).symm.trans hsie⟩
  · obtain ⟨t, hrun, ht⟩ := exists_of_map_eq_ok
      (x := exec step (start sieMask : Hart ℕ)
        [.disable 0, .acquire, .dropBody ⟨0, sieMask⟩, .interrupt, .disable 0])
      (f := fun t => (t.locked 0, t.current.doing, t.interrupted.flatMap Frame.live))
      (a := (true, .locking 0 (sieMask.takeTrap true), [⟨0, sieMask⟩])) (by decide +kernel)
    obtain ⟨hlocked, hrest⟩ := Prod.mk.inj ht
    obtain ⟨hdoing, hlive⟩ := Prod.mk.inj hrest
    refine ⟨t, hrun, ?_, fun hex => ?_⟩
    · simp only [step, hdoing, hlocked, if_true]
    · obtain ⟨f, hf, hg⟩ := List.mem_flatMap.1 (hlive ▸ List.mem_singleton_self _)
      exact hex.no_wait f hf _ hg _ hdoing

end Hart

end CharlotteOs
