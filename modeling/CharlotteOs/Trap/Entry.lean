import CharlotteOs.Lib.Run
import CharlotteOs.Trap.Interrupts
import CharlotteOs.Trap.Kernel

/-!
# The registers through a trap

`trap_entry` in `src/trap/mod.rs` and `first_switch_to` in `src/task/switch.rs`, instruction by
instruction. A context is the 31 words of a `TaskContext` in the order of its fields. Contexts lie
where `ContextLayout` says and do not move. `trap_handler` is compiled code: what it does to the
kernel is `Kernel.trapHandler`, it returns its result in `a0`, and it may leave anything in the
other registers.

The two register files that the sequences shuffle through `t5`, `t6`, `a0` and `sscratch` are what
`Kernel.trapEntry` says: the registers at the trap are saved where `sscratch` points to, and the
registers after it are those of the context that the handler leaves in `sscratch`.

## Main definitions

* `Instr`, `Machine.instr`: the instructions of the two sequences, on a hart
* `trapEntrySave`, `trapEntryRestore`, `firstSwitchTo`: the sequences
* `Machine.trapEntry`, `Machine.runScheduler`: a trap, and the first dispatch, on a hart

## Main results

* `Machine.exec_trapEntrySave`, `Machine.exec_loadRegs`: what the sequences do
* `Machine.trapEntry_refines`, `Machine.runScheduler_refines`: the hart does what the kernel model
  says
-/

namespace CharlotteOs

open FallibleRun

/-! ## Contexts as words -/

/-- The words of a context in memory (`#[repr(C)]`). -/
def TaskContext.words (ctx : TaskContext) : List ℕ :=
  [ctx.ra, ctx.sp, ctx.tp, ctx.t0, ctx.t1, ctx.t2, ctx.s0, ctx.s1, ctx.a0, ctx.a1, ctx.a2, ctx.a3,
    ctx.a4, ctx.a5, ctx.a6, ctx.a7, ctx.s2, ctx.s3, ctx.s4, ctx.s5, ctx.s6, ctx.s7, ctx.s8, ctx.s9,
    ctx.s10, ctx.s11, ctx.t3, ctx.t4, ctx.t5, ctx.t6, ctx.sepc]

/-- The context with given words. -/
def TaskContext.ofWords (w : List ℕ) : TaskContext :=
  let f (i : ℕ) := w.getD i 0
  ⟨f 0, f 1, f 2, f 3, f 4, f 5, f 6, f 7, f 8, f 9, f 10, f 11, f 12, f 13, f 14, f 15, f 16, f 17,
    f 18, f 19, f 20, f 21, f 22, f 23, f 24, f 25, f 26, f 27, f 28, f 29, f 30⟩

/-- The word at an offset, which is that of a field. -/
def TaskContext.word (ctx : TaskContext) (offset : ℕ) : Except Fault ℕ :=
  if 8 ∣ offset ∧ offset < 248 then .ok (ctx.words.getD (offset / 8) 0) else .error .danglingContext

/-- The context with another word at an offset. -/
def TaskContext.setWord (ctx : TaskContext) (offset value : ℕ) : Except Fault TaskContext :=
  if 8 ∣ offset ∧ offset < 248 then .ok (ofWords (ctx.words.set (offset / 8) value))
  else .error .danglingContext

/-! ## The hart -/

/-- The general registers. -/
inductive Reg
  | zero | ra | sp | gp | tp | t0 | t1 | t2 | s0 | s1 | a0 | a1 | a2 | a3 | a4 | a5 | a6 | a7
  | s2 | s3 | s4 | s5 | s6 | s7 | s8 | s9 | s10 | s11 | t3 | t4 | t5 | t6
  deriving DecidableEq, Repr

/-- The registers of a trap. -/
inductive Csr
  | sscratch
  | sepc
  | scause
  deriving DecidableEq, Repr

/-- The privilege a hart executes with. -/
inductive Privilege
  | user
  | supervisor
  deriving DecidableEq, Repr

/-- The instructions of the sequences, without those that transfer control. `csrs` and `csrc` are
of `sstatus`. -/
inductive Instr
  | csrrw (rd : Reg) (csr : Csr) (rs : Reg)
  | csrr (rd : Reg) (csr : Csr)
  | csrw (csr : Csr) (rs : Reg)
  | csrs (rs : Reg)
  | csrc (rs : Reg)
  | li (rd : Reg) (value : ℕ)
  | mv (rd rs : Reg)
  | sd (rs : Reg) (offset : ℕ) (base : Reg)
  | ld (rd : Reg) (offset : ℕ) (base : Reg)
  deriving DecidableEq, Repr

/-- A hart, and the kernel with the contexts that are in memory. -/
structure Machine where
  reg : Reg → ℕ
  pc : ℕ
  mode : Privilege
  sstatus : Sstatus
  csr : Csr → ℕ
  kernel : Kernel

/-- Where contexts lie: the address of each, and which one begins at an address. -/
structure ContextLayout where
  addr : Option ℕ → ℕ
  contextAt : ℕ → Option (Option ℕ)
  contextAt_addr : ∀ p, contextAt (addr p) = some p

namespace ContextLayout

/-- The context that a pointer points to. -/
def deref (lay : ContextLayout) (a : ℕ) : Except Fault (Option ℕ) :=
  match lay.contextAt a with
  | some p => .ok p
  | none => .error .danglingContext

@[simp] theorem deref_addr (lay : ContextLayout) (p : Option ℕ) :
    lay.deref (lay.addr p) = .ok p := by
  rw [deref, lay.contextAt_addr]

end ContextLayout

namespace Machine

/-- The registers that a context holds, with the program counter. -/
def context (m : Machine) : TaskContext :=
  ⟨m.reg .ra, m.reg .sp, m.reg .tp, m.reg .t0, m.reg .t1, m.reg .t2, m.reg .s0, m.reg .s1,
    m.reg .a0, m.reg .a1, m.reg .a2, m.reg .a3, m.reg .a4, m.reg .a5, m.reg .a6, m.reg .a7,
    m.reg .s2, m.reg .s3, m.reg .s4, m.reg .s5, m.reg .s6, m.reg .s7, m.reg .s8, m.reg .s9,
    m.reg .s10, m.reg .s11, m.reg .t3, m.reg .t4, m.reg .t5, m.reg .t6, m.pc⟩

/-- The machine with another value in a register. -/
def setReg (m : Machine) (r : Reg) (value : ℕ) : Machine :=
  { m with reg := Function.update m.reg r value }

/-- The machine with another value in a register of a trap. -/
def setCsr (m : Machine) (c : Csr) (value : ℕ) : Machine :=
  { m with csr := Function.update m.csr c value }

/-- One instruction. -/
def instr (lay : ContextLayout) (m : Machine) : Instr → Except Fault Machine
  | .csrrw rd csr rs => .ok ((m.setReg rd (m.csr csr)).setCsr csr (m.reg rs))
  | .csrr rd csr => .ok (m.setReg rd (m.csr csr))
  | .csrw csr rs => .ok (m.setCsr csr (m.reg rs))
  | .csrs rs => .ok { m with sstatus := m.sstatus ||| BitVec.ofNat 64 (m.reg rs) }
  | .csrc rs => .ok { m with sstatus := m.sstatus &&& ~~~BitVec.ofNat 64 (m.reg rs) }
  | .li rd value => .ok (m.setReg rd value)
  | .mv rd rs => .ok (m.setReg rd (m.reg rs))
  | .sd rs offset base => do
    let p ← lay.deref (m.reg base)
    let ctx ← m.kernel.loadContext p
    let ctx ← ctx.setWord offset (m.reg rs)
    let kernel ← m.kernel.storeContext ctx p
    .ok { m with kernel }
  | .ld rd offset base => do
    let p ← lay.deref (m.reg base)
    let ctx ← m.kernel.loadContext p
    let value ← ctx.word offset
    .ok (m.setReg rd value)

/-- The hart takes a trap. -/
def takeTrap (m : Machine) (scause : ℕ) : Machine :=
  { (m.setCsr .sepc m.pc).setCsr .scause scause with
    sstatus := m.sstatus.takeTrap (m.mode = .supervisor)
    mode := .supervisor }

/-- `sret`. -/
def sret (m : Machine) : Machine :=
  { m with
    pc := m.csr .sepc
    mode := if m.sstatus.spp then .supervisor else .user
    sstatus := m.sstatus.sret }

end Machine

/-! ## The sequences -/

/-- The registers that `trap_entry` stores through `t6`, with their offsets. -/
def savedRegs : List (Reg × ℕ) :=
  [(.ra, 0), (.sp, 8), (.tp, 16), (.t0, 24), (.t1, 32), (.t2, 40), (.s0, 48), (.s1, 56), (.a0, 64),
    (.a1, 72), (.a2, 80), (.a3, 88), (.a4, 96), (.a5, 104), (.a6, 112), (.a7, 120), (.s2, 128),
    (.s3, 136), (.s4, 144), (.s5, 152), (.s6, 160), (.s7, 168), (.s8, 176), (.s9, 184), (.s10, 192),
    (.s11, 200), (.t3, 208), (.t4, 216), (.t5, 224)]

/-- The registers that are loaded through `a0`, with their offsets. -/
def loadedRegs : List (Reg × ℕ) :=
  [(.ra, 0), (.sp, 8), (.tp, 16), (.t0, 24), (.t1, 32), (.t2, 40), (.s0, 48), (.s1, 56), (.a1, 72),
    (.a2, 80), (.a3, 88), (.a4, 96), (.a5, 104), (.a6, 112), (.a7, 120), (.s2, 128), (.s3, 136),
    (.s4, 144), (.s5, 152), (.s6, 160), (.s7, 168), (.s8, 176), (.s9, 184), (.s10, 192),
    (.s11, 200), (.t3, 208), (.t4, 216), (.t5, 224), (.t6, 232)]

/-- `trap_entry` up to the call of `trap_handler`. -/
def trapEntrySave : List Instr :=
  .csrrw .t6 .sscratch .t6 :: (savedRegs.map fun x => .sd x.1 x.2 .t6) ++
    [.mv .t5 .t6, .csrr .t6 .sscratch, .sd .t6 232 .t5, .csrw .sscratch .t5, .csrr .a0 .sepc,
      .sd .a0 240 .t5, .csrr .a1 .scause, .mv .a0 .t5]

/-- The loads at the end of both sequences. `a0` is the base, and loaded last. -/
def loadRegs : List Instr := (loadedRegs.map fun x => .ld x.1 x.2 .a0) ++ [.ld .a0 64 .a0]

/-- `trap_entry` from the return of `trap_handler` on, up to `sret`. -/
def trapEntryRestore : List Instr := [.csrw .sepc .a0, .csrr .a0 .sscratch] ++ loadRegs

/-- `first_switch_to`, up to `sret`. -/
def firstSwitchTo : List Instr :=
  [.csrw .sscratch .a0, .ld .t0 240 .a0, .csrw .sepc .t0, .li .t1 (1 <<< 8), .csrc .t1,
    .li .t1 (1 <<< 5), .csrs .t1] ++ loadRegs

namespace Machine

/-- The call of `trap_handler`. It sees in `sscratch` the context pointer that is there, leaves the
one it chose, and returns the program counter in `a0`. -/
def callTrapHandler (lay : ContextLayout) (m : Machine) (clobbered : Reg → ℕ) (io : Inputs) :
    Except Fault Machine := do
  let tcb ← lay.deref (m.reg .a0)
  let sscratch ← lay.deref (m.csr .sscratch)
  let (sepc, kernel) ← Kernel.trapHandler { m.kernel with sscratch } tcb (m.reg .a1) io
  .ok { m.setCsr .sscratch (lay.addr kernel.sscratch) with
    reg := Function.update clobbered .a0 sepc
    kernel }

/-- `trap_entry`. -/
def trapEntry (lay : ContextLayout) (m : Machine) (clobbered : Reg → ℕ) (io : Inputs) :
    Except Fault Machine := do
  let m ← exec (instr lay) m trapEntrySave
  let m ← m.callTrapHandler lay clobbered io
  let m ← exec (instr lay) m trapEntryRestore
  .ok m.sret

/-- `run_scheduler`: `prepare_next_task` returns the pointer to the context of the next task, and
`first_switch_to` gets it in `a0`. -/
def runScheduler (lay : ContextLayout) (m : Machine) (clobbered : Reg → ℕ) :
    Except Fault Machine := do
  let (scheduler, buddy) ← m.kernel.scheduler.prepareNextTask m.kernel.buddy
  let m := { m with
    reg := Function.update clobbered .a0 (lay.addr scheduler.currentTaskId)
    kernel := { m.kernel with scheduler, buddy } }
  let m ← exec (instr lay) m firstSwitchTo
  let sscratch ← lay.deref (m.csr .sscratch)
  .ok { m.sret with kernel := { m.kernel with sscratch } }

end Machine

/-! ## Loads and stores of contexts -/

namespace Kernel

variable {k : Kernel} {p : Option ℕ} {ctx : TaskContext}

/-- A context that can be loaded can be stored to. -/
theorem store_of_load (h : k.loadContext p = .ok ctx) (c : TaskContext) :
    ∃ k', k.storeContext c p = .ok k' ∧ k'.loadContext p = .ok c ∧
      ∀ c', k'.storeContext c' p = k.storeContext c' p := by
  cases p with
  | none => exact ⟨{ k with initContext := c }, rfl, rfl, fun _ => rfl⟩
  | some id =>
    unfold loadContext at h
    dsimp only at h
    split at h
    · rename_i tcb hslot
      have hlt : id < k.scheduler.taskList.length := (List.getElem?_eq_some_iff.mp hslot).1
      have hget : (k.scheduler.taskList.set id (some { tcb with context := c }))[id]? =
          some (some { tcb with context := c }) := List.getElem?_set_self hlt
      refine ⟨{ k with scheduler := k.scheduler.setTcb id { tcb with context := c } }, ?_, ?_,
        fun c' => ?_⟩
      · simp only [storeContext, hslot]
      · simp only [loadContext, Scheduler.setTcb, hget]
      · simp only [storeContext, Scheduler.setTcb, hget, hslot, List.set_set]
    · cases h

theorem load_of_store {c : TaskContext} {k' : Kernel} (h : k.storeContext c p = .ok k') :
    (∃ ctx, k.loadContext p = .ok ctx) ∧ k'.sscratch = k.sscratch := by
  cases p with
  | none =>
    cases h
    exact ⟨⟨_, rfl⟩, rfl⟩
  | some id =>
    unfold storeContext at h
    dsimp only at h
    split at h
    · rename_i tcb hslot
      cases h
      exact ⟨⟨tcb.context, by simp only [loadContext, hslot]⟩, rfl⟩
    · cases h

/-- A store of what is there changes nothing. -/
theorem store_self (h : k.loadContext p = .ok ctx) : k.storeContext ctx p = .ok k := by
  cases p with
  | none =>
    cases h
    rfl
  | some id =>
    unfold loadContext at h
    dsimp only at h
    split at h
    · rename_i tcb hslot
      cases h
      obtain ⟨hlt, hget⟩ := List.getElem?_eq_some_iff.mp hslot
      simp only [storeContext, hslot, Scheduler.setTcb]
      rw [← hget, List.set_getElem_self]
    · cases h

end Kernel

/-- The context after registers are stored to their offsets. -/
def storeWords (reg : Reg → ℕ) (l : List (Reg × ℕ)) (ctx : TaskContext) : TaskContext :=
  l.foldl (fun ctx x => .ofWords (ctx.words.set (x.2 / 8) (reg x.1))) ctx

/-- The registers after they are loaded from their offsets. -/
def loadWords (ctx : TaskContext) (l : List (Reg × ℕ)) (reg : Reg → ℕ) : Reg → ℕ :=
  l.foldl (fun reg x => Function.update reg x.1 (ctx.words.getD (x.2 / 8) 0)) reg

namespace Machine

variable {lay : ContextLayout} {m : Machine} {p : Option ℕ} {ctx : TaskContext} {base : Reg}

theorem exec_sd (hbase : m.reg base = lay.addr p) (hload : m.kernel.loadContext p = .ok ctx)
    {rs : Reg} {offset : ℕ} (hoff : 8 ∣ offset ∧ offset < 248) :
    m.instr lay (.sd rs offset base) =
      (m.kernel.storeContext (.ofWords (ctx.words.set (offset / 8) (m.reg rs))) p >>= fun kernel =>
        .ok { m with kernel }) := by
  rw [instr, hbase, ContextLayout.deref_addr, ok_bind, hload, ok_bind, TaskContext.setWord,
    if_pos hoff, ok_bind]

theorem exec_ld (hbase : m.reg base = lay.addr p) (hload : m.kernel.loadContext p = .ok ctx)
    {rd : Reg} {offset : ℕ} (hoff : 8 ∣ offset ∧ offset < 248) :
    m.instr lay (.ld rd offset base) = .ok (m.setReg rd (ctx.words.getD (offset / 8) 0)) := by
  rw [instr, hbase, ContextLayout.deref_addr, ok_bind, hload, ok_bind, TaskContext.word,
    if_pos hoff, ok_bind]

/-- A row of stores through one base register. -/
theorem exec_stores {l : List (Reg × ℕ)} (hoff : ∀ x ∈ l, 8 ∣ x.2 ∧ x.2 < 248)
    (hbase : m.reg base = lay.addr p) (hload : m.kernel.loadContext p = .ok ctx) :
    ∃ kernel, m.kernel.storeContext (storeWords m.reg l ctx) p = .ok kernel ∧
      exec (instr lay) m (l.map fun x => .sd x.1 x.2 base) = .ok { m with kernel } := by
  induction l generalizing m ctx with
  | nil => exact ⟨m.kernel, Kernel.store_self hload, rfl⟩
  | cons x l ih =>
    obtain ⟨k₁, hk₁, hload₁, hagain⟩ :=
      Kernel.store_of_load hload (.ofWords (ctx.words.set (x.2 / 8) (m.reg x.1)))
    have hstep : m.instr lay (.sd x.1 x.2 base) = .ok { m with kernel := k₁ } := by
      rw [exec_sd hbase hload (hoff x List.mem_cons_self), hk₁, ok_bind]
    obtain ⟨k', hk', hrest⟩ := ih (m := { m with kernel := k₁ })
      (fun y hy => hoff y (List.mem_cons_of_mem _ hy)) hbase hload₁
    refine ⟨k', ?_, ?_⟩
    · rw [← hagain]
      exact hk'
    · rw [List.map_cons, exec_cons_of_ok hstep]
      exact hrest

/-- A row of loads through a base register that none of them loads. -/
theorem exec_loads {l : List (Reg × ℕ)} (hoff : ∀ x ∈ l, 8 ∣ x.2 ∧ x.2 < 248)
    (hother : ∀ x ∈ l, base ≠ x.1) (hbase : m.reg base = lay.addr p)
    (hload : m.kernel.loadContext p = .ok ctx) :
    exec (instr lay) m (l.map fun x => .ld x.1 x.2 base) =
      .ok { m with reg := loadWords ctx l m.reg } := by
  induction l generalizing m with
  | nil => rfl
  | cons x l ih =>
    rw [List.map_cons, exec_cons_of_ok (exec_ld hbase hload (hoff x List.mem_cons_self))]
    refine ih (fun y hy => hoff y (List.mem_cons_of_mem _ hy))
      (fun y hy => hother y (List.mem_cons_of_mem _ hy)) ?_ hload
    exact (Function.update_of_ne (hother x List.mem_cons_self) _ _).trans hbase

/-- The loads of all registers of a context, through `a0`. -/
theorem exec_loadRegs (hbase : m.reg .a0 = lay.addr p) (hload : m.kernel.loadContext p = .ok ctx) :
    ∃ m', exec (instr lay) m loadRegs = .ok m' ∧
      (∀ pc, context { m' with pc } = { ctx with sepc := pc }) ∧ m'.kernel = m.kernel ∧
      m'.csr = m.csr ∧ m'.sstatus = m.sstatus := by
  have hloads := exec_loads (l := loadedRegs) (by decide) (by decide) hbase hload
  let m₁ : Machine := { m with reg := loadWords ctx loadedRegs m.reg }
  have hbase₁ : m₁.reg .a0 = lay.addr p := hbase
  have hlast : m₁.instr lay (.ld .a0 64 .a0) = .ok (m₁.setReg .a0 ctx.a0) :=
    exec_ld hbase₁ hload (by decide)
  refine ⟨m₁.setReg .a0 ctx.a0, ?_, fun pc => rfl, rfl, rfl, rfl⟩
  rw [loadRegs, exec_append_of_ok hloads, exec_cons_of_ok hlast, exec_nil]

/-- **The save sequence**: the registers at the trap go to the context that `sscratch` points to,
and `sscratch` points to it again. -/
theorem exec_trapEntrySave (hscratch : m.csr .sscratch = lay.addr p)
    (hload : m.kernel.loadContext p = .ok ctx) :
    ∃ m', exec (instr lay) m trapEntrySave = .ok m' ∧
      m.kernel.storeContext { m.context with sepc := m.csr .sepc } p = .ok m'.kernel ∧
      m'.reg .a0 = lay.addr p ∧ m'.reg .a1 = m.csr .scause ∧ m'.csr .sscratch = lay.addr p := by
  -- `t6` and `sscratch` change places, and the registers but `t6` are stored
  let m₁ := (m.setReg .t6 (m.csr .sscratch)).setCsr .sscratch (m.reg .t6)
  obtain ⟨k₁, hk₁, hload₁, hagain₁⟩ := Kernel.store_of_load hload (storeWords m₁.reg savedRegs ctx)
  have hstores : exec (instr lay) m (.csrrw .t6 .sscratch .t6 ::
      savedRegs.map fun x => .sd x.1 x.2 .t6) = .ok { m₁ with kernel := k₁ } := by
    have hbase : m₁.reg .t6 = lay.addr p := hscratch
    obtain ⟨k, hk, hrun⟩ := exec_stores (l := savedRegs) (by decide) hbase hload
    cases hk.symm.trans hk₁
    exact hrun
  -- the old `t6` is stored through `t5`
  let m₂ := ({ m₁ with kernel := k₁ }.setReg .t5 (m.csr .sscratch)).setReg .t6 (m.reg .t6)
  obtain ⟨k₂, hk₂, hload₂, hagain₂⟩ := Kernel.store_of_load hload₁
    (.ofWords ((storeWords m₁.reg savedRegs ctx).words.set (232 / 8) (m.reg .t6)))
  have hsd₂ : m₂.instr lay (.sd .t6 232 .t5) = .ok { m₂ with kernel := k₂ } := by
    have hbase : m₂.reg .t5 = lay.addr p := hscratch
    rw [exec_sd hbase hload₁ (by decide)]
    exact congrArg (· >>= _) hk₂
  let m₃ := ({ m₂ with kernel := k₂ }.setCsr .sscratch (m.csr .sscratch)).setReg .a0 (m.csr .sepc)
  obtain ⟨k₃, hk₃, -, -⟩ := Kernel.store_of_load hload₂ { m.context with sepc := m.csr .sepc }
  have hsd₃ : m₃.instr lay (.sd .a0 240 .t5) = .ok { m₃ with kernel := k₃ } := by
    have hbase : m₃.reg .t5 = lay.addr p := hscratch
    rw [exec_sd hbase hload₂ (by decide)]
    exact congrArg (· >>= _) hk₃
  refine ⟨({ m₃ with kernel := k₃ }.setReg .a1 (m.csr .scause)).setReg .a0 (m.csr .sscratch), ?_,
    ?_, hscratch, rfl, hscratch⟩
  · rw [trapEntrySave, exec_append_of_ok hstores]
    show exec (instr lay) m₂ (.sd .t6 232 .t5 :: _) = _
    rw [exec_cons_of_ok hsd₂]
    show exec (instr lay) m₃ (.sd .a0 240 .t5 :: _) = _
    rw [exec_cons_of_ok hsd₃]
    rfl
  · rw [← hagain₁, ← hagain₂]
    exact hk₃

/-- **A trap on the hart** is a trap of the kernel model: the registers at the trap go in, and those
that come out are in the hart's registers, with `sscratch` pointing to their context. -/
theorem trapEntry_refines (hscratch : m.csr .sscratch = lay.addr m.kernel.sscratch) {io : Inputs}
    {resumed : TaskContext} {kernel : Kernel}
    (h : m.kernel.trapEntry { m.context with sepc := m.csr .sepc } (m.csr .scause) io =
      .ok (resumed, kernel)) (clobbered : Reg → ℕ) :
    ∃ m', m.trapEntry lay clobbered io = .ok m' ∧ m'.context = resumed ∧ m'.kernel = kernel ∧
      m'.csr .sscratch = lay.addr kernel.sscratch := by
  obtain ⟨k₁, hstore, h⟩ := exists_of_bind_eq_ok h
  obtain ⟨⟨sepc, k₂⟩, hhandler, h⟩ := exists_of_bind_eq_ok h
  obtain ⟨ctx₂, hload₂, h⟩ := exists_of_bind_eq_ok h
  cases h
  obtain ⟨⟨ctx, hload⟩, hsame⟩ := Kernel.load_of_store hstore
  obtain ⟨m₁, hsave, hstore₁, ha0, ha1, hscratch₁⟩ := exec_trapEntrySave hscratch hload
  cases hstore₁.symm.trans hstore
  let m₂ : Machine := { m₁.setCsr .sscratch (lay.addr kernel.sscratch) with
    reg := Function.update clobbered .a0 sepc
    kernel := kernel }
  have hcall : m₁.callTrapHandler lay clobbered io = .ok m₂ := by
    rw [callTrapHandler, ha0, ha1, hscratch₁, ContextLayout.deref_addr, ok_bind, ok_bind]
    have hkernel : { m₁.kernel with sscratch := m.kernel.sscratch } = m₁.kernel := by
      rw [← hsame]
    rw [hkernel, ← hsame, hhandler, ok_bind]
  -- its result goes to `sepc`, and the registers are loaded from the context it chose
  let m₃ := (m₂.setCsr .sepc sepc).setReg .a0 (lay.addr kernel.sscratch)
  have hbase : m₃.reg .a0 = lay.addr kernel.sscratch := rfl
  obtain ⟨m₄, hrestore, hcontext, hkernel, hcsr, -⟩ := exec_loadRegs hbase hload₂
  have hrestore : exec (instr lay) m₂ trapEntryRestore = .ok m₄ := hrestore
  have hsepc : m₄.csr .sepc = sepc := congrFun hcsr .sepc
  refine ⟨m₄.sret, ?_, ?_, hkernel, congrFun hcsr .sscratch⟩
  · rw [trapEntry, hsave, ok_bind, hcall, ok_bind, hrestore, ok_bind]
  · rw [← hsepc]
    exact hcontext (m₄.csr .sepc)

variable (lay) in
/-- **The first dispatch on the hart** is that of the kernel model, and it enters user mode with
interrupts on. -/
theorem runScheduler_refines {resumed : TaskContext} {kernel : Kernel}
    (h : m.kernel.runScheduler = .ok (resumed, kernel)) (clobbered : Reg → ℕ) :
    ∃ m', m.runScheduler lay clobbered = .ok m' ∧ m'.context = resumed ∧ m'.kernel = kernel ∧
      m'.csr .sscratch = lay.addr kernel.sscratch ∧ m'.mode = .user ∧ m'.sstatus.sie = true := by
  obtain ⟨⟨sepc, k₁⟩, hnext, h⟩ := exists_of_bind_eq_ok h
  obtain ⟨⟨scheduler, buddy⟩, hprepare, hswitch⟩ := exists_of_bind_eq_ok hnext
  obtain ⟨ctx, hload, hswitch⟩ := exists_of_bind_eq_ok hswitch
  cases hswitch
  obtain ⟨ctx', hload', h⟩ := exists_of_bind_eq_ok h
  cases hload'.symm.trans hload
  cases h
  let m₁ : Machine := { m with
    reg := Function.update clobbered .a0 (lay.addr scheduler.currentTaskId)
    kernel := { m.kernel with scheduler, buddy } }
  let m₂ : Machine := { ((((m₁.setCsr .sscratch (lay.addr scheduler.currentTaskId)).setReg .t0
    ctx.sepc).setCsr .sepc ctx.sepc).setReg .t1 (1 <<< 8)).setReg .t1 (1 <<< 5) with
      sstatus := m.sstatus &&& ~~~BitVec.ofNat 64 (1 <<< 8) ||| BitVec.ofNat 64 (1 <<< 5) }
  have hbase₁ : (m₁.setCsr .sscratch (lay.addr scheduler.currentTaskId)).reg .a0 =
      lay.addr scheduler.currentTaskId := rfl
  have hld : (m₁.setCsr .sscratch (lay.addr scheduler.currentTaskId)).instr lay (.ld .t0 240 .a0) =
      .ok ((m₁.setCsr .sscratch (lay.addr scheduler.currentTaskId)).setReg .t0 ctx.sepc) :=
    exec_ld hbase₁ hload (by decide)
  have hbase₂ : m₂.reg .a0 = lay.addr scheduler.currentTaskId := rfl
  obtain ⟨m₃, hrest, hcontext, hkernel, hcsr, hsstatus⟩ := exec_loadRegs hbase₂ hload
  have hrun : exec (instr lay) m₁ firstSwitchTo = .ok m₃ := by
    show exec (instr lay) (m₁.setCsr .sscratch (lay.addr scheduler.currentTaskId))
      (.ld .t0 240 .a0 :: _) = _
    rw [exec_cons_of_ok hld]
    exact hrest
  have hscratch : m₃.csr .sscratch = lay.addr scheduler.currentTaskId := congrFun hcsr .sscratch
  have hsepc : m₃.csr .sepc = ctx.sepc := congrFun hcsr .sepc
  refine ⟨{ m₃.sret with kernel := { m₃.kernel with sscratch := scheduler.currentTaskId } }, ?_, ?_,
    ?_, hscratch, ?_, ?_⟩
  · rw [runScheduler, hprepare, ok_bind]
    show (exec (instr lay) m₁ firstSwitchTo >>= _) = _
    rw [hrun, ok_bind, hscratch, ContextLayout.deref_addr, ok_bind]
  · exact (hcontext (m₃.csr .sepc)).trans (by rw [hsepc])
  · exact congrArg (fun k : Kernel => { k with sscratch := scheduler.currentTaskId }) hkernel
  · have hspp : m₃.sstatus.spp = false := by
      rw [hsstatus]
      simp [m₂, Sstatus.spp]
    simp only [sret, hspp]
    rfl
  · show m₃.sstatus.sret.sie = true
    rw [Sstatus.sie_sret, hsstatus]
    simp [m₂, Sstatus.spie]

end Machine

end CharlotteOs
