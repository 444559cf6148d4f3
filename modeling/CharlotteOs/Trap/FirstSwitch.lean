import CharlotteOs.Trap.ResumeRuns

/-!
# `first_switch_to` up to any of its instructions

`first_switch_to` runs with interrupts on until its `sret`, so it can be interrupted before each of
its instructions. `switchUpTo` is `run_scheduler` up to an instruction, and `exec_switch` is a
stretch of `first_switch_to` from one instruction to another, as a task executes it that is resumed
inside.

From its second instruction on, `first_switch_to` leaves `sscratch` alone, `a0` points to the
context of the task until the last load, and `t1` is the mask that the next instruction of `sstatus`
takes. This is what a trap has to save and to give back for the rest to go as it should.

## Main definitions

* `Machine.switchUpTo`: `run_scheduler` up to an instruction of `first_switch_to`
* `InSwitch`: the registers before an instruction of `first_switch_to`
* `Machine.Switched`: what a stretch of `first_switch_to` leaves alone

## Main results

* `Machine.trap_keeps`: a trap returns with the privilege and the interrupt bit it was taken with
* `Machine.exec_switch`: a stretch of `first_switch_to`
* `Machine.switchUpTo_spec`: the hart before an instruction of `first_switch_to`
-/

namespace CharlotteOs

open DyadicTiling FallibleRun BuddySystemFrameAllocator Kernel Scheduler

/-! ## The bits of `sstatus` -/

namespace Sstatus

@[simp] theorem spp_takeTrap (s : Sstatus) (b : Bool) : (s.takeTrap b).spp = b := by
  simp only [takeTrap, spp, getLsbD_assign, Nat.reduceLT, reduceIte, Nat.reduceEqDiff]

@[simp] theorem spp_sret (s : Sstatus) : s.sret.spp = false := by
  simp only [sret, spp, getLsbD_assign, Nat.reduceLT, reduceIte]

@[simp] theorem spie_sret (s : Sstatus) : s.sret.spie = true := by
  simp only [sret, spie, getLsbD_assign, Nat.reduceLT, reduceIte, Nat.reduceEqDiff]

/-- `SIE` is as before, and `SPP` stays clear and `SPIE` stays set, as a return from a trap leaves
them. -/
structure Kept (s s' : Sstatus) : Prop where
  sie : s'.sie = s.sie
  spp : s.spp = false → s'.spp = false
  spie : s.spie = true → s'.spie = true

theorem Kept.refl (s : Sstatus) : Kept s s := ⟨rfl, id, id⟩

theorem Kept.trans {s₁ s₂ s₃ : Sstatus} (h : Kept s₁ s₂) (h' : Kept s₂ s₃) : Kept s₁ s₃ :=
  ⟨h'.sie.trans h.sie, h'.spp ∘ h.spp, h'.spie ∘ h.spie⟩

theorem kept_clear_spp (s : Sstatus) : Kept s (s &&& ~~~BitVec.ofNat 64 (1 <<< 8)) := by
  constructor <;> simp [sie, spp, spie]

theorem kept_set_spie (s : Sstatus) : Kept s (s ||| BitVec.ofNat 64 (1 <<< 5)) := by
  constructor <;> simp [sie, spp, spie]

end Sstatus

/-- The instructions of `sstatus`. -/
def Instr.writesStatus : Instr → Bool
  | .csrs _ | .csrc _ => true
  | _ => false

namespace Machine

variable {lay : ContextLayout} {m m' : Machine} {clobbered : Reg → ℕ} {io : Inputs}

/-! ## Traps -/

theorem instr_keeps {i : Instr} (h : m.instr lay i = .ok m') :
    m'.mode = m.mode ∧ (i.writesStatus = false → m'.sstatus = m.sstatus) := by
  cases i with
  | csrs | csrc =>
    cases h
    exact ⟨rfl, fun hi => by cases hi⟩
  | csrrw | csrr | csrw | li | mv =>
    cases h
    exact ⟨rfl, fun _ => rfl⟩
  | sd =>
    obtain ⟨_, -, h⟩ := exists_of_bind_eq_ok h
    obtain ⟨_, -, h⟩ := exists_of_bind_eq_ok h
    obtain ⟨_, -, h⟩ := exists_of_bind_eq_ok h
    obtain ⟨_, -, h⟩ := exists_of_bind_eq_ok h
    cases h
    exact ⟨rfl, fun _ => rfl⟩
  | ld =>
    obtain ⟨_, -, h⟩ := exists_of_bind_eq_ok h
    obtain ⟨_, -, h⟩ := exists_of_bind_eq_ok h
    obtain ⟨_, -, h⟩ := exists_of_bind_eq_ok h
    cases h
    exact ⟨rfl, fun _ => rfl⟩

/-- A sequence without instructions of `sstatus`. -/
theorem exec_keeps {l : List Instr} (hl : ∀ i ∈ l, i.writesStatus = false)
    (h : exec (instr lay) m l = .ok m') : m'.mode = m.mode ∧ m'.sstatus = m.sstatus := by
  refine invariant_exec (I := fun m₁ => m₁.mode = m.mode ∧ m₁.sstatus = m.sstatus)
    (fun m₁ m₂ i hi hI hstep => ?_) ⟨rfl, rfl⟩ h
  obtain ⟨hmode, hstatus⟩ := instr_keeps hstep
  exact ⟨hmode.trans hI.1, (hstatus (hl i hi)).trans hI.2⟩

theorem callTrapHandler_keeps (h : m.callTrapHandler lay clobbered io = .ok m') :
    m'.mode = m.mode ∧ m'.sstatus = m.sstatus := by
  obtain ⟨_, -, h⟩ := exists_of_bind_eq_ok h
  obtain ⟨_, -, h⟩ := exists_of_bind_eq_ok h
  obtain ⟨_, -, h⟩ := exists_of_bind_eq_ok h
  cases h
  exact ⟨rfl, rfl⟩

/-- **A trap returns with the privilege and the interrupt bit it was taken with**, to whichever
task. The `sret` at its end leaves `SPP` clear and `SPIE` set. -/
theorem trap_keeps {scause : ℕ} (h : (m.takeTrap scause).trapEntry lay clobbered io = .ok m') :
    m'.mode = m.mode ∧ m'.sstatus.sie = m.sstatus.sie ∧ m'.sstatus.spp = false ∧
      m'.sstatus.spie = true := by
  obtain ⟨m₁, hsave, h⟩ := exists_of_bind_eq_ok h
  obtain ⟨m₂, hcall, h⟩ := exists_of_bind_eq_ok h
  obtain ⟨m₃, hrestore, h⟩ := exists_of_bind_eq_ok h
  cases h
  have hstatus : m₃.sstatus = m.sstatus.takeTrap (m.mode = .supervisor) :=
    ((exec_keeps (by decide) hrestore).2.trans (callTrapHandler_keeps hcall).2).trans
      (exec_keeps (by decide) hsave).2
  refine ⟨?_, ?_, Sstatus.spp_sret _, Sstatus.spie_sret _⟩
  · rw [sret, hstatus, Sstatus.spp_takeTrap]
    cases m.mode <;> rfl
  · show m₃.sstatus.sret.sie = _
    rw [Sstatus.sie_sret, hstatus, Sstatus.spie_takeTrap]

end Machine

/-! ## A stretch of `first_switch_to` -/

/-- **The registers before the instruction with index `n` of `first_switch_to`**: `a0` points to the
context of the task, and `t1` is the mask if the instruction is one of `sstatus`. -/
structure InSwitch (lay : ContextLayout) (p : Option ℕ) (n : ℕ) (regs : TaskContext) : Prop where
  base : n < firstSwitchTo.length → regs.a0 = lay.addr p
  clear : n = 4 → regs.t1 = 1 <<< 8
  set : n = 6 → regs.t1 = 1 <<< 5

/-- Past the instructions of `sstatus`. -/
theorem InSwitch.of_base {lay : ContextLayout} {p : Option ℕ} {n : ℕ} {regs : TaskContext}
    (hn : 6 < n) (hbase : n < firstSwitchTo.length → regs.a0 = lay.addr p) :
    InSwitch lay p n regs :=
  ⟨hbase, by omega, by omega⟩

/-- The instructions from the eighth on are the loads, that of `a0` last. -/
theorem firstSwitchTo_load {n : ℕ} {i : Instr} (hn : 6 < n) (hi : firstSwitchTo[n]? = some i) :
    ∃ rd offset, i = .ld rd offset .a0 ∧ (8 ∣ offset ∧ offset < 248) ∧
      (n + 1 < firstSwitchTo.length → Reg.a0 ≠ rd) := by
  have hlt : n < firstSwitchTo.length := (List.getElem?_eq_some_iff.mp hi).1
  have hall : ∀ n < firstSwitchTo.length, 6 < n → ∃ x ∈ (Reg.a0, 64) :: loadedRegs,
      firstSwitchTo[n]? = some (.ld x.1 x.2 .a0) ∧
        (n + 1 < firstSwitchTo.length → Reg.a0 ≠ x.1) := by decide
  have hoff : ∀ x ∈ (Reg.a0, 64) :: loadedRegs, 8 ∣ x.2 ∧ x.2 < 248 := by decide
  obtain ⟨x, hx, hload, hother⟩ := hall n hlt hn
  exact ⟨x.1, x.2, Option.some.inj (hi.symm.trans hload), hoff x hx, hother⟩

namespace Machine

variable {lay : ContextLayout} {m m' m₁ : Machine} {p : Option ℕ} {ctx : TaskContext} {n : ℕ}

/-- What `first_switch_to` leaves alone after its first instruction. -/
structure Switched (m m' : Machine) : Prop where
  kernel : m'.kernel = m.kernel
  mode : m'.mode = m.mode
  sscratch : m'.csr .sscratch = m.csr .sscratch
  sstatus : Sstatus.Kept m.sstatus m'.sstatus

theorem Switched.refl (m : Machine) : Switched m m := ⟨rfl, rfl, rfl, .refl _⟩

theorem Switched.trans (h : Switched m m₁) (h' : Switched m₁ m') : Switched m m' :=
  ⟨h'.kernel.trans h.kernel, h'.mode.trans h.mode, h'.sscratch.trans h.sscratch,
    h.sstatus.trans h'.sstatus⟩

theorem switched_setReg (m : Machine) (rd : Reg) (value : ℕ) : Switched m (m.setReg rd value) :=
  ⟨rfl, rfl, rfl, .refl _⟩

/-- **One instruction**, after the first. -/
theorem instr_switch (hn : 0 < n) {i : Instr} (hi : firstSwitchTo[n]? = some i)
    (h : InSwitch lay p n m.context) (hload : m.kernel.loadContext p = .ok ctx) :
    ∃ m', m.instr lay i = .ok m' ∧ Switched m m' ∧ InSwitch lay p (n + 1) m'.context := by
  have hbase : m.reg .a0 = lay.addr p := h.base (List.getElem?_eq_some_iff.mp hi).1
  match n with
  | 1 =>
    cases hi
    exact ⟨_, exec_ld hbase hload (by decide), switched_setReg .., fun _ => hbase, by simp, by simp⟩
  | 2 =>
    cases hi
    exact ⟨_, rfl, ⟨rfl, rfl, rfl, .refl _⟩, fun _ => hbase, by simp, by simp⟩
  | 3 =>
    cases hi
    exact ⟨_, rfl, switched_setReg .., fun _ => hbase, fun _ => rfl, by simp⟩
  | 4 =>
    cases hi
    have hmask : m.reg .t1 = 1 <<< 8 := h.clear rfl
    refine ⟨_, rfl, ⟨rfl, rfl, rfl, ?_⟩, fun _ => hbase, by simp, by simp⟩
    rw [hmask]
    exact Sstatus.kept_clear_spp _
  | 5 =>
    cases hi
    exact ⟨_, rfl, switched_setReg .., fun _ => hbase, by simp, fun _ => rfl⟩
  | 6 =>
    cases hi
    have hmask : m.reg .t1 = 1 <<< 5 := h.set rfl
    refine ⟨_, rfl, ⟨rfl, rfl, rfl, ?_⟩, fun _ => hbase, by simp, by simp⟩
    rw [hmask]
    exact Sstatus.kept_set_spie _
  | n + 7 =>
    obtain ⟨rd, offset, rfl, hoff, hother⟩ := firstSwitchTo_load (by omega) hi
    refine ⟨_, exec_ld hbase hload hoff, switched_setReg .., .of_base (by omega) fun hlt => ?_⟩
    exact (Function.update_of_ne (hother hlt) _ _).trans hbase

/-- **A stretch of `first_switch_to`**, from one of its instructions after the first to another. -/
theorem exec_switch {n' : ℕ} (hn : 0 < n) (hle : n ≤ n') (h : InSwitch lay p n m.context)
    (hload : m.kernel.loadContext p = .ok ctx) :
    ∃ m', exec (instr lay) m ((firstSwitchTo.take n').drop n) = .ok m' ∧ Switched m m' ∧
      InSwitch lay p n' m'.context := by
  induction n', hle using Nat.le_induction with
  | base =>
    refine ⟨m, ?_, .refl m, h⟩
    rw [List.drop_take_self]
    rfl
  | succ n' hle ih =>
    obtain ⟨m₁, hm₁, hswitched, hin⟩ := ih
    cases hi : firstSwitchTo[n']? with
    | none =>
      have hlen : firstSwitchTo.length ≤ n' := List.getElem?_eq_none_iff.mp hi
      have h37 : firstSwitchTo.length = 37 := by decide
      refine ⟨m₁, ?_, hswitched, .of_base (by omega) fun hlt => by omega⟩
      rw [List.take_of_length_le (by omega)]
      rwa [List.take_of_length_le hlen] at hm₁
    | some i =>
      have hlt : n' < firstSwitchTo.length := (List.getElem?_eq_some_iff.mp hi).1
      obtain ⟨m₂, hm₂, hswitched', hin'⟩ :=
        instr_switch (by omega) hi hin (hswitched.kernel ▸ hload)
      refine ⟨m₂, ?_, hswitched.trans hswitched', hin'⟩
      have hlen : n ≤ (firstSwitchTo.take n').length := by
        rw [List.length_take]
        omega
      rw [List.take_add_one, hi, Option.toList_some, List.drop_append_of_le_length hlen,
        exec_append_of_ok hm₁, exec_singleton, hm₂]

/-- The rest of `first_switch_to`. -/
theorem exec_switch_rest (hn : 0 < n) (h : InSwitch lay p n m.context)
    (hload : m.kernel.loadContext p = .ok ctx) :
    ∃ m', exec (instr lay) m (firstSwitchTo.drop n) = .ok m' ∧ Switched m m' := by
  obtain ⟨m', hm', hswitched, -⟩ := exec_switch hn (Nat.le_add_right n firstSwitchTo.length) h hload
  rw [List.take_of_length_le (by omega)] at hm'
  exact ⟨m', hm', hswitched⟩

/-! ## `run_scheduler` up to an instruction -/

/-- `run_scheduler` up to the instruction with index `n` of `first_switch_to`. `sret` has the index
`firstSwitchTo.length`. -/
def switchUpTo (lay : ContextLayout) (m : Machine) (clobbered : Reg → ℕ) (n : ℕ) :
    Except Fault Machine := do
  let (scheduler, buddy) ← m.kernel.scheduler.prepareNextTask m.kernel.buddy
  let m := { m with
    reg := Function.update clobbered .a0 (lay.addr scheduler.currentTaskId)
    kernel := { m.kernel with scheduler, buddy } }
  let m ← exec (instr lay) m (firstSwitchTo.take n)
  let sscratch ← lay.deref (m.csr .sscratch)
  .ok { m with kernel := { m.kernel with sscratch } }

/-- The first instructions: `sscratch` points to the context of the task after the first one. -/
theorem exec_firstSwitchTo_take (hbase : m.reg .a0 = lay.addr p)
    (hload : m.kernel.loadContext p = .ok ctx) (n : ℕ) :
    ∃ m', exec (instr lay) m (firstSwitchTo.take n) = .ok m' ∧ m'.kernel = m.kernel ∧
      m'.mode = m.mode ∧ m'.sstatus.sie = m.sstatus.sie ∧
      m'.csr .sscratch = (if n = 0 then m.csr .sscratch else lay.addr p) ∧
      (0 < n → InSwitch lay p n m'.context) := by
  cases n with
  | zero => exact ⟨m, rfl, rfl, rfl, rfl, rfl, fun h => absurd h (lt_irrefl 0)⟩
  | succ n =>
    let m₁ := m.setCsr .sscratch (m.reg .a0)
    have hcsrw : m.instr lay (.csrw .sscratch .a0) = .ok m₁ := rfl
    have hin : InSwitch lay p 1 m₁.context := ⟨fun _ => hbase, by simp, by simp⟩
    obtain ⟨m', hm', hswitched, hin'⟩ :=
      exec_switch one_pos (Nat.le_add_left 1 n) hin (show m₁.kernel.loadContext p = _ from hload)
    refine ⟨m', ?_, hswitched.kernel, hswitched.mode, hswitched.sstatus.sie, ?_, fun _ => hin'⟩
    · have htake : firstSwitchTo.take (n + 1) =
          .csrw .sscratch .a0 :: (firstSwitchTo.take (n + 1)).drop 1 := rfl
      rw [htake, exec_cons_of_ok hcsrw, hm']
    · exact hswitched.sscratch.trans hbase

/-- **The hart before an instruction of `first_switch_to`.** -/
theorem switchUpTo_spec (hscratch : m.csr .sscratch = lay.addr none) {resumed : TaskContext}
    {k : Kernel} (h : m.kernel.runScheduler = .ok (resumed, k)) (clobbered : Reg → ℕ) (n : ℕ) :
    ∃ m', m.switchUpTo lay clobbered n = .ok m' ∧ m'.mode = m.mode ∧
      m'.sstatus.sie = m.sstatus.sie ∧
      m'.kernel = { k with sscratch := if n = 0 then none else k.sscratch } ∧
      m'.csr .sscratch = lay.addr m'.kernel.sscratch ∧
      (0 < n → InSwitch lay k.sscratch n m'.context) := by
  obtain ⟨⟨sepc, k₁⟩, hnext, h⟩ := exists_of_bind_eq_ok h
  obtain ⟨⟨scheduler, buddy⟩, hprepare, hswitch⟩ := exists_of_bind_eq_ok hnext
  obtain ⟨ctx, hload, hswitch⟩ := exists_of_bind_eq_ok hswitch
  cases hswitch
  obtain ⟨ctx', -, h⟩ := exists_of_bind_eq_ok h
  cases h
  let m₁ : Machine := { m with
    reg := Function.update clobbered .a0 (lay.addr scheduler.currentTaskId)
    kernel := { m.kernel with scheduler, buddy } }
  have hbase : m₁.reg .a0 = lay.addr scheduler.currentTaskId := rfl
  obtain ⟨m₂, hm₂, hkernel, hmode, hsie, hcsr, hin⟩ := exec_firstSwitchTo_take hbase hload n
  have hscratch₂ : m₂.csr .sscratch =
      lay.addr (if n = 0 then none else scheduler.currentTaskId) := by
    rw [hcsr]
    split
    · exact hscratch
    · rfl
  refine ⟨{ m₂ with kernel := { m₂.kernel with
    sscratch := if n = 0 then none else scheduler.currentTaskId } }, ?_, hmode, hsie, ?_, hscratch₂,
    hin⟩
  · rw [switchUpTo, hprepare, ok_bind]
    show (exec (instr lay) m₁ (firstSwitchTo.take n) >>= _) = _
    rw [hm₂, ok_bind, hscratch₂, ContextLayout.deref_addr, ok_bind]
  · show ({ m₂.kernel with sscratch := _ } : Kernel) = _
    rw [hkernel]

end Machine

end CharlotteOs
