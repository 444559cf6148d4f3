import CharlotteOs.Mm.BootTables
import CharlotteOs.Mm.Segments
import CharlotteOs.Task.SchedulerSpec
import CharlotteOs.Trap.ResumeRuns

/-!
# Tasks in user mode

`first_switch_to` clears `SPP`, so its `sret` enters a task in user mode, where Sv39 lets a page be
used only if its leaf has the flag `U`. The boot code never sets that flag: the tables are cleared
pages, every entry in them is a table that was made like this or a leaf with the flags of a
`map_segment` call, and taking the identity area out clears entries.

So under the final page table no task can execute its first instruction or use its stack.

## Main definitions

* `NoUser m T`: no leaf in the tables `T` has `U`, and they name no other tables
* `permits`, `Accessible`: what the hardware allows in a mode
* `CanRun`: a task can begin

## Main results

* `boot_noUser`: no page of the final page table has `U`
* `not_canRun_of_spawn`: no task that `spawn` creates can begin in the mode it is entered with
-/

namespace CharlotteOs

open FallibleRun TableTree PageTableEntry

/-! ## The tables of the boot code -/

/-- No leaf in the tables `T` has the flag `U`, and tables in `T` name only tables in `T`. -/
structure NoUser (m : Mem) (T : Set ℕ) : Prop where
  leaf : ∀ f ∈ T, ∀ i w, decode (tables m f i) = .leaf w →
    PTEFlags.contains (flags w) PTEFlags.u = false
  table : ∀ f ∈ T, ∀ i g, decode (tables m f i) = .table g → g ∈ T

namespace NoUser

variable {m : Mem} {T : Set ℕ}

/-- A word is overwritten by one that is empty or a leaf without `U`. -/
theorem update (h : NoUser m T) (addr : ℕ) {w : ℕ} (htable : ∀ g, decode w ≠ .table g)
    (hleaf : ∀ l, decode w = .leaf l → PTEFlags.contains (flags l) PTEFlags.u = false) :
    NoUser (Function.update m addr w) T := by
  have hcases : ∀ f i, tables (Function.update m addr w) f i = w ∨
      tables (Function.update m addr w) f i = tables m f i := by
    intro f i
    rw [tables, tables, Function.update_apply]
    split
    · exact .inl rfl
    · exact .inr rfl
  refine ⟨fun f hf i l hl => ?_, fun f hf i g hg => ?_⟩
  · rcases hcases f i with hw | hw <;> rw [hw] at hl
    · exact hleaf l hl
    · exact h.leaf f hf i l hl
  · rcases hcases f i with hw | hw <;> rw [hw] at hg
    · exact absurd hg (htable g)
    · exact h.table f hf i g hg

/-- A page is cleared and entered as a table. -/
theorem withTable (h : NoUser m T) {a b : ℕ} (hb : b < 2 ^ 44) (j : Fin 512) :
    NoUser (withTable m a j b) (insert b T) := by
  have hcases : ∀ f ∈ insert b T, ∀ i,
      decode (tables (CharlotteOs.withTable m a j b) f i) = .table b ∨
      decode (tables (CharlotteOs.withTable m a j b) f i) = .empty ∨
      f ∈ T ∧ tables (CharlotteOs.withTable m a j b) f i = tables m f i := by
    intro f hf i
    rw [tables_withTable]
    split
    · exact .inl (decode_new_table hb)
    · split
      · exact .inr (.inl decode_empty)
      · rename_i hne
        exact .inr (.inr ⟨hf.resolve_left hne, rfl⟩)
  refine ⟨fun f hf i l hl => ?_, fun f hf i g hg => ?_⟩
  · rcases hcases f hf i with hw | hw | ⟨hfT, hw⟩ <;> rw [hw] at hl
    · cases hl
    · cases hl
    · exact h.leaf f hfT i l hl
  · rcases hcases f hf i with hw | hw | ⟨hfT, hw⟩ <;> rw [hw] at hg
    · cases hg
      exact .inl rfl
    · cases hg
    · exact .inr (h.table f hfT i g hg)

/-- Along a path tables are followed and made. -/
theorem made {kernel a c : ℕ} {s t : Boot} {p : List (Fin 512)} (hkernel : kernel < 2 ^ 32)
    (hmade : Made kernel s a p t c) (h : NoUser s.mem T) (ha : a ∈ T) :
    ∃ T', T ⊆ T' ∧ NoUser t.mem T' ∧ c ∈ T' := by
  induction hmade generalizing T with
  | done hin => exact ⟨T, subset_rfl, h, ha⟩
  | follow hin hword rest ih => exact ih h (h.table _ ha _ _ hword)
  | make hin hword halloc rest ih =>
    have hb := rest.inGiB.frame_lt hkernel
    obtain ⟨T', hT', hnext, hc⟩ :=
      ih (h.withTable (hb.trans (by decide)) _) (Set.mem_insert _ _)
    exact ⟨T', (Set.subset_insert _ _).trans hT', hnext, hc⟩

end NoUser

/-- The tables of a boot state: a set that the root is in, without `U`. -/
def Boot.NoUser (root : ℕ) (m : Mem) : Prop := ∃ T, root ∈ T ∧ CharlotteOs.NoUser m T

section Boot

variable {image : KernelImage} {dt : DeviceTree} {sizeOfPage root : ℕ} {m m' : Mem}

/-- A step keeps the tables without `U`. -/
theorem Boot.NoUser.step {kernel : ℕ} (hkernel : kernel < 2 ^ 32) (hroot : root < 2 ^ 44)
    {s s' : Boot} {op : BootStep}
    (hop : ∀ mapType f pa size, op = .map mapType f pa size → KernelFlags f)
    (h : Boot.NoUser root s.mem) (hstep : s.step kernel (root * pageSize) op = .ok s') :
    Boot.NoUser root s'.mem := by
  cases op with
  | reserve base size =>
    obtain ⟨memblock, -, hstep⟩ := exists_of_bind_eq_ok hstep
    cases hstep
    exact h
  | map mapType f pa size =>
    obtain ⟨vpn, -, hstep⟩ := exists_of_bind_eq_ok hstep
    obtain ⟨ppn, -, hstep⟩ := exists_of_bind_eq_ok hstep
    obtain ⟨p, i, hpath, -⟩ := VirtPageNum.exists_take vpn size
    obtain ⟨t, c, hmade, -, rfl⟩ := (PageTable.bumpMap_eq_ok hkernel hroot hpath).mp hstep
    obtain ⟨T, hT, hno⟩ := h
    obtain ⟨T', hsub, hno', -⟩ := hno.made hkernel hmade hT
    have hf := hop mapType f pa size rfl
    have hleaf := hf.leaf.decode_new ppn
    refine ⟨T', hsub hT, hno'.update _ (fun g hg => ?_) (fun l hl => ?_)⟩
    · rw [hleaf] at hg
      cases hg
    · rw [hleaf] at hl
      cases hl
      rw [flags_new (or_v_lt hf.leaf.lt), contains_or_v (by decide), hf.user]

/-- The root table is a cleared page. -/
theorem Boot.NoUser.setupRoot {s : Boot} (hroot : root < 2 ^ 44)
    (h : setupRoot image dt m = .ok (root * pageSize, s)) : Boot.NoUser root s.mem := by
  obtain ⟨mb, mb', -, -, hclear⟩ := setupRoot_cases h
  have hkernel : image.skernel < 2 ^ 32 := image.skernel_le.trans_lt image.ekernel_lt
  have hin : InGiB image.skernel (root * pageSize) := by
    obtain ⟨_, hphys, -⟩ := exists_of_bind_eq_ok hclear
    exact Boot.inGiB_of_physical hkernel hroot (i := 0) (by simpa using hphys)
  rw [Boot.clear_page hkernel _ hin] at hclear
  cases hclear
  have hempty : ∀ i, decode (tables (fun x =>
      if root * pageSize ≤ x ∧ x < root * pageSize + pageSize then 0 else m x) root i) =
        .empty := by
    intro i
    have hin := i.isLt
    rw [tables, if_pos (by simp only [pageSize]; omega)]
    rfl
  refine ⟨{root}, rfl, ⟨?_, ?_⟩⟩
  · rintro f rfl i w hw
    rw [hempty] at hw
    cases hw
  · rintro f rfl i g hg
    rw [hempty] at hg
    cases hg

/-- Taking a page out clears an entry. -/
theorem Boot.NoUser.unmap {self vpn : ℕ} {size : PageSize} (h : Boot.NoUser root m)
    (hrun : PageTable.unmap m self vpn size = .ok m') : Boot.NoUser root m' := by
  obtain ⟨T, hT, hno⟩ := h
  rw [PageTable.unmap] at hrun
  split at hrun
  · cases hrun
  · split at hrun
    · cases hrun
      refine ⟨T, hT, hno.update _ (fun g hg => ?_) (fun l hl => ?_)⟩
      · cases hg
      · cases hl
    · cases hrun

/-- **No page of the final page table has the flag `U`.** -/
theorem boot_noUser (h : boot image dt sizeOfPage m = .ok (root, m')) {va pa f : ℕ}
    (hva : sv39 (tables m') root va = some (pa, f)) : PTEFlags.contains f PTEFlags.u = false := by
  obtain ⟨t, ht, hppn, hlt, hunmap⟩ := boot_cases h
  obtain ⟨rootPa, s, s', mb, hroot, hexec, hrootPa, -, hboot⟩ := setupMemoryAndMapping_cases ht
  rw [hppn, PhysPageNum.ofPhysAddr_eq_ok] at hrootPa
  subst hrootPa
  have hkernel : image.skernel < 2 ^ 32 := image.skernel_le.trans_lt image.ekernel_lt
  have hmapped : Boot.NoUser root s'.mem :=
    invariant_exec (I := fun s => Boot.NoUser root s.mem) (fun _ _ op hop hI hstep =>
      hI.step hkernel hlt (fun _ _ _ _ heq => kernelFlags_of_mem (heq ▸ hop)) hstep)
      (.setupRoot hlt hroot) hexec
  have hunmapped : Boot.NoUser root m' := by
    refine invariant_exec (I := Boot.NoUser root) (fun m₁ m₂ page _ hI hstep => ?_) ?_ hunmap
    · obtain ⟨vpn, -, hstep⟩ := exists_of_bind_eq_ok hstep
      exact hI.unmap hstep
    · rw [hboot]
      exact hmapped
  obtain ⟨T, hT, hno⟩ := hunmapped
  obtain ⟨pte, rest, hlookup, rfl, -⟩ := lookup_of_sv39 hva
  exact lookup_of_closed (P := fun w => PTEFlags.contains (flags w) PTEFlags.u = false) hT
    hno.leaf hno.table hlookup

end Boot

/-! ## Tasks -/

/-- What the hardware allows a leaf to be used for. A page with `U` is for user mode, and all others
are for supervisor mode. -/
def permits (mode : Privilege) (f access : ℕ) : Bool :=
  PTEFlags.contains f access &&
    match mode with
    | .user => PTEFlags.contains f PTEFlags.u
    | .supervisor => !PTEFlags.contains f PTEFlags.u

/-- An address is translated, with a permission. -/
def Accessible (t : ℕ → Fin 512 → ℕ) (root : ℕ) (mode : Privilege) (va access : ℕ) : Prop :=
  ∃ pa f, sv39 t root va = some (pa, f) ∧ permits mode f access = true

/-- A task can begin: its entry can be executed, and all of its stack can be read and written. -/
structure CanRun (t : ℕ → Fin 512 → ℕ) (root : ℕ) (mode : Privilege) (tcb : TaskControlBlock) :
    Prop where
  entry : Accessible t root mode tcb.context.sepc PTEFlags.x
  stack : ∀ k < tcb.pageCount, Accessible t root mode ((tcb.stackBase + k * pageSize) % 2 ^ 64)
    (PTEFlags.r ||| PTEFlags.w)

theorem not_accessible_user {image : KernelImage} {dt : DeviceTree} {sizeOfPage root : ℕ}
    {m m' : Mem} (h : boot image dt sizeOfPage m = .ok (root, m')) (va access : ℕ) :
    ¬ Accessible (tables m') root .user va access := by
  rintro ⟨pa, f, hva, hpermits⟩
  have hno := boot_noUser h hva
  simp [permits, hno] at hpermits

/-- The block of a task that `spawn` created. -/
theorem Scheduler.task_of_spawn {s s' : Scheduler} {buddy buddy' : BuddySystemFrameAllocator}
    {trampoline stackSize priority : ℕ} {entry : ℕ × ℕ}
    (h : s.spawn buddy trampoline entry stackSize priority = .ok (.ok (), s', buddy')) :
    ∃ stackBase pages,
      s'.task s.freeId = some (newTcb trampoline s.freeId stackBase pages entry priority) := by
  unfold spawn at h
  dsimp only at h
  split at h
  · cases h
  · obtain ⟨⟨r, buddy₁⟩, -, h⟩ := exists_of_bind_eq_ok h
    cases r with
    | none => cases h
    | some stackPpn =>
      dsimp only at h
      split at h
      · cases h
      · obtain ⟨rfl, rfl⟩ := Prod.mk.inj (Prod.mk.inj (Except.ok.inj h)).2
        exact ⟨_, _, (congrFun (SchedInv.addTask_spec rfl).1 _).trans (Function.update_self ..)⟩

/-- **No task can begin.** Whatever the layout is that the kernel boots with, a task that `spawn`
creates can neither execute its entry nor use its stack in the mode that `first_switch_to`
enters. -/
theorem not_canRun_of_spawn (image : KernelImage) (dt : DeviceTree) (sizeOfPage root : ℕ)
    (m m' : Mem) (hboot : boot image dt sizeOfPage m = .ok (root, m'))
    (s s' : Scheduler) (buddy buddy' : BuddySystemFrameAllocator)
    (trampoline stackSize priority : ℕ) (entry : ℕ × ℕ)
    (hspawn : s.spawn buddy trampoline entry stackSize priority = .ok (.ok (), s', buddy'))
    (lay : ContextLayout) (hart : Machine) (clobbered : Reg → ℕ) (resumed : TaskContext)
    (kernel : Kernel) (hrun : hart.kernel.runScheduler = .ok (resumed, kernel)) :
    ∃ tcb hart', s'.task s.freeId = some tcb ∧ hart.runScheduler lay clobbered = .ok hart' ∧
      hart'.mode = .user ∧ ¬ CanRun (tables m') root hart'.mode tcb := by
  obtain ⟨stackBase, pages, htask⟩ := Scheduler.task_of_spawn hspawn
  obtain ⟨hart', hhart', -, -, -, hmode, -⟩ := Machine.runScheduler_refines lay hrun clobbered
  refine ⟨_, hart', htask, hhart', hmode, fun hcan => ?_⟩
  rw [hmode] at hcan
  exact not_accessible_user hboot _ _ hcan.entry

/-- A hart with a kernel that has just booted. -/
def sampleHart (s : Scheduler) (buddy : BuddySystemFrameAllocator) : Machine :=
  ⟨fun _ => 0, 0, .supervisor, 0, fun _ => 0, Kernel.boot s buddy 0 TaskContext.zero⟩

/-- A task that begins at the start of the kernel text is spawned and dispatched. -/
theorem sample_spawn : ∃ s buddy resumed kernel,
    SchedSystem.sample.scheduler.spawn SchedSystem.sample.buddy 0xFFFFFFFF80200000 (1, 1) 4096 1 =
      .ok (.ok (), s, buddy) ∧
    (sampleHart s buddy).kernel.runScheduler = .ok (resumed, kernel) ∧
    resumed.sepc = 0xFFFFFFFF80200000 := by
  obtain ⟨⟨resumed, kernel⟩, hrun, hsepc⟩ := exists_of_map_eq_ok
    (f := fun r : TaskContext × Kernel => r.1.sepc) (show (SchedSystem.sample.scheduler.spawn
      SchedSystem.sample.buddy 0xFFFFFFFF80200000 (1, 1) 4096 1 >>= fun r =>
        match r with
        | (.ok (), s, buddy) => (sampleHart s buddy).kernel.runScheduler
        | (.error _, _, _) => .error .unreachable).map _ = .ok 0xFFFFFFFF80200000 by decide +kernel)
  obtain ⟨⟨r, s, buddy⟩, hspawn, hrun⟩ := exists_of_bind_eq_ok hrun
  cases r with
  | ok => exact ⟨s, buddy, resumed, kernel, hspawn, hrun, hsepc⟩
  | error e => cases hrun

/-- The kernel boots with 16 MiB of RAM and one device. -/
theorem sample_boot : ∃ root m,
    boot sampleImage (sampleTree [(0x10000000, 0x100)]) 40 (fun _ => 0) = .ok (root, m) ∧
    sv39 (tables m) root 0xFFFFFFFF80200000 =
      some (0x80200000, PTEFlags.r ||| PTEFlags.x ||| PTEFlags.v) := by
  obtain ⟨⟨root, m⟩, hboot, hva⟩ := exists_of_map_eq_ok
    (f := fun r : ℕ × Mem => sv39 (tables r.2) r.1 0xFFFFFFFF80200000) (show
      (boot sampleImage (sampleTree [(0x10000000, 0x100)]) 40 (fun _ => 0)).map _ =
        .ok (some (0x80200000, PTEFlags.r ||| PTEFlags.x ||| PTEFlags.v)) by decide +kernel)
  exact ⟨root, m, hboot, hva⟩

/-- The theorem for the first task after the idle task. -/
theorem not_canRun_of_spawn_sample : ∃ root m s buddy tcb hart,
    boot sampleImage (sampleTree [(0x10000000, 0x100)]) 40 (fun _ => 0) = .ok (root, m) ∧
    SchedSystem.sample.scheduler.spawn SchedSystem.sample.buddy 0xFFFFFFFF80200000 (1, 1) 4096 1 =
      .ok (.ok (), s, buddy) ∧
    s.task SchedSystem.sample.scheduler.freeId = some tcb ∧
    (sampleHart s buddy).runScheduler TrapSystem.sampleLayout (fun _ => 0) = .ok hart ∧
    hart.mode = .user ∧ ¬ CanRun (tables m) root hart.mode tcb := by
  obtain ⟨root, m, hboot, -⟩ := sample_boot
  obtain ⟨s, buddy, resumed, kernel, hspawn, hrun, -⟩ := sample_spawn
  obtain ⟨tcb, hart, hrest⟩ := not_canRun_of_spawn _ _ 40 root _ m hboot _ s _ buddy _ _ _ _ hspawn
    TrapSystem.sampleLayout (sampleHart s buddy) (fun _ => 0) resumed kernel hrun
  exact ⟨root, m, s, buddy, tcb, hart, hboot, hspawn, hrest⟩

/-- The task is entered at the start of the kernel text, which is mapped as executable but not for
user mode. -/
theorem canRun_refuted : ∃ root m s buddy tcb hart,
    boot sampleImage (sampleTree [(0x10000000, 0x100)]) 40 (fun _ => 0) = .ok (root, m) ∧
    SchedSystem.sample.scheduler.spawn SchedSystem.sample.buddy 0xFFFFFFFF80200000 (1, 1) 4096 1 =
      .ok (.ok (), s, buddy) ∧
    s.task SchedSystem.sample.scheduler.freeId = some tcb ∧
    (sampleHart s buddy).runScheduler TrapSystem.sampleLayout (fun _ => 0) = .ok hart ∧
    hart.pc = 0xFFFFFFFF80200000 ∧
    sv39 (tables m) root hart.pc = some (0x80200000, PTEFlags.r ||| PTEFlags.x ||| PTEFlags.v) ∧
    permits hart.mode (PTEFlags.r ||| PTEFlags.x ||| PTEFlags.v) PTEFlags.x = false ∧
    ¬ CanRun (tables m) root hart.mode tcb := by
  obtain ⟨root, m, hboot, hva⟩ := sample_boot
  obtain ⟨s, buddy, resumed, kernel, hspawn, hrun, hsepc⟩ := sample_spawn
  obtain ⟨stackBase, pages, htask⟩ := Scheduler.task_of_spawn hspawn
  obtain ⟨hart, hhart, hcontext, -, -, hmode, -⟩ :=
    Machine.runScheduler_refines TrapSystem.sampleLayout hrun (fun _ => 0)
  have hpc : hart.pc = 0xFFFFFFFF80200000 := (congrArg TaskContext.sepc hcontext).trans hsepc
  refine ⟨root, m, s, buddy, _, hart, hboot, hspawn, htask, hhart, hpc, ?_, ?_, fun hcan => ?_⟩
  · rw [hpc, hva]
  · rw [hmode]
    decide
  · rw [hmode] at hcan
    exact not_accessible_user hboot _ _ hcan.entry

end CharlotteOs
