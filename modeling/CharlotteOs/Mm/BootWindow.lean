import CharlotteOs.Mm.BootSpace
import CharlotteOs.Mm.EarlyAlloc

/-!
# The pages that the boot tables are made of

`early_alloc` hands out the highest page that is free, wherever that is. The boot code then clears
the page and follows the table in it at its physical address, which `BOOT_PT` maps only in the
gigabyte that the kernel is in. Nothing compares the two. So the tables stay in the gigabyte exactly
as long as the highest free page is in it, and with more RAM above the kernel the first one is
already outside.

## Main definitions

* `TableCall`, `Boot.tableCalls`: the calls of `early_alloc` for tables, up to the fault if there is
  one
* `EveryTableCall`: what holds of the call for the root table and of those for all other tables
* `HighestIn`: the highest page that is free is in the gigabyte

## Main results

* `inGiB_iff_highestIn`: where one call takes its page from
* `PageTable.chained_bumpFindCreateCalls`: the calls of one walk follow each other
* `tables_inGiB_of_ram`: RAM in the gigabyte is enough
* `tables_inGiB_iff`: when all tables of a boot are in the gigabyte
-/

namespace CharlotteOs

open FallibleRun TableTree PageTableEntry PageTable

/-! ## The calls -/

/-- A call of `early_alloc` for a table: `MEMBLOCK` before it, and the page that it returns. -/
structure TableCall where
  memblock : Memblock
  frame : ℕ

namespace PageTable

/-- The page for a new table is cleared and entered: the state after it, and where the table is. -/
def enterTable (kernel : ℕ) (s : Boot) (pte allocatedAddr : ℕ) : Except Fault (Boot × ℕ) := do
  let s ← s.clear kernel allocatedAddr
  let ppn ← PhysPageNum.ofPhysAddr allocatedAddr
  let bits := PageTableEntry.new ppn PTEFlags.v
  let s ← s.store kernel pte bits
  .ok (s, PhysAddr.ofPpn (PageTableEntry.ppn bits))

/-- The calls of `early_alloc` in the loop of `bump_find_create_pte`. -/
def bumpFindCreateCalls (kernel : ℕ) (s : Boot) (entries : ℕ) : List (Fin 512) → List TableCall
  | [] => []
  | [_] => []
  | i :: rest =>
    match s.load kernel (entries + 8 * i) with
    | .error _ => []
    | .ok pte =>
      if !isValid pte then
        match s.memblock.earlyAlloc pageSize pageSize with
        | .ok (some allocatedAddr, memblock) =>
          ⟨s.memblock, allocatedAddr⟩ ::
            match enterTable kernel { s with memblock } (entries + 8 * i) allocatedAddr with
            | .ok (s, entries) => bumpFindCreateCalls kernel s entries rest
            | .error _ => []
        | _ => []
      else if isLeaf pte then []
      else bumpFindCreateCalls kernel s (PhysAddr.ofPpn (ppn pte)) rest

/-- The calls lead from one `MEMBLOCK` to another. -/
def Leads : Memblock → List TableCall → Memblock → Prop
  | mb, [], mb' => mb = mb'
  | mb, call :: calls, mb' => call.memblock = mb ∧
    ∃ mb₁, mb.earlyAlloc pageSize pageSize = .ok (some call.frame, mb₁) ∧ Leads mb₁ calls mb'

/-- **The calls are all of them**: where the loop returns, they lead from its first `MEMBLOCK` to
its last one. -/
theorem leads_bumpFindCreateCalls {kernel e : ℕ} {s t : Boot} {r : Option ℕ} {p : List (Fin 512)}
    (h : bumpFindCreateLoop kernel s e p = .ok (r, t)) :
    Leads s.memblock (bumpFindCreateCalls kernel s e p) t.memblock := by
  induction p generalizing s e with
  | nil =>
    cases h
    rfl
  | cons j p ih =>
    cases p with
    | nil =>
      cases h
      rfl
    | cons i p =>
      simp only [bumpFindCreateLoop] at h
      simp only [bumpFindCreateCalls]
      obtain ⟨pte, hload, h⟩ := exists_of_bind_eq_ok h
      rw [hload]
      dsimp only
      cases hv : isValid pte with
      | true =>
        rw [hv] at h
        cases hl : isLeaf pte with
        | true =>
          rw [hl] at h
          cases h
        | false =>
          rw [hl] at h
          exact ih h
      | false =>
        rw [hv] at h
        obtain ⟨⟨_ | pa, mb⟩, halloc, h⟩ := exists_of_bind_eq_ok h
        · cases h
        obtain ⟨s₁, hclear, h⟩ := exists_of_bind_eq_ok h
        obtain ⟨ppn, hppn, h⟩ := exists_of_bind_eq_ok h
        obtain ⟨s₂, hstore, h⟩ := exists_of_bind_eq_ok h
        have hmb : s₂.memblock = mb := by
          obtain ⟨_, -, hs₁⟩ := exists_of_bind_eq_ok hclear
          obtain ⟨_, -, hs₂⟩ := exists_of_bind_eq_ok hstore
          cases hs₁
          cases hs₂
          rfl
        simp only [Bool.not_false, if_true, halloc, enterTable, hclear, hppn, hstore, ok_bind]
        refine ⟨rfl, mb, halloc, ?_⟩
        rw [← hmb]
        exact ih h

end PageTable

/-- The calls of `early_alloc` for the tables of a step. -/
def Boot.tableCalls (kernel root : ℕ) (s : Boot) : BootStep → List TableCall
  | .reserve .. => []
  | .map mapType _ pa size =>
    match mapType.vpn pa with
    | .ok vpn => bumpFindCreateCalls kernel s root ((VirtPageNum.indices vpn).take size.targetLevel)
    | .error _ => []

/-- `P` holds of the call of `early_alloc` for the root table, and of all those for other tables
that `setup_memory_and_mapping` makes before it faults or returns. -/
def EveryTableCall (image : KernelImage) (dt : DeviceTree) (m : Mem) (P : TableCall → Prop) :
    Prop :=
  ∀ mb rootPa mb', setupMemblock image dt = .ok mb →
    mb.earlyAlloc pageSize pageSize = .ok (some rootPa, mb') →
      P ⟨mb, rootPa⟩ ∧ ∀ s, Boot.clear image.skernel ⟨m, mb'⟩ rootPa = .ok s →
        Along (Boot.step image.skernel rootPa)
          (fun s op => ∀ call ∈ s.tableCalls image.skernel rootPa op, P call) s (bootSteps image dt)

/-- The highest page that is free is in the gigabyte that the kernel is in. -/
def HighestIn (kernel : ℕ) (mb : Memblock) : Prop :=
  ∃ x, IsGreatest (Memblock.fits mb.available.bytes pageSize pageSize) x ∧ InGiB kernel x

/-! ## One call -/

section Call

variable {kernel pa : ℕ} {mb mb' : Memblock} {ram R A : Set ℕ}

/-- **The page of a call** is in the gigabyte exactly when the highest free one is. -/
theorem inGiB_iff_highestIn (hkernel : kernel < 2 ^ 32) (hd : mb.Denotes ram R A)
    (halloc : mb.earlyAlloc pageSize pageSize = .ok (some pa, mb')) :
    InGiB kernel pa ↔ HighestIn kernel mb := by
  have hcanon := hd.canonical.1
  rcases Memblock.earlyAlloc_cases halloc with
    ⟨hnone, -⟩ | ⟨reg, available, allocated, hfind, hreg, hle, hpa, -⟩
  · cases hnone
  have hpa := Option.some.inj hpa
  have hgreatest : pageSize ≤ reg.base + reg.size →
      IsGreatest (Memblock.fits mb.available.bytes pageSize pageSize) pa := by
    intro hroom
    rw [hpa]
    exact Memblock.isGreatest_of_find (k := 12) hcanon.separated hcanon.lt (by decide) (by decide)
      (by decide) hfind hroom
  constructor
  · intro hin
    have hroom := Memblock.room_of_lt halloc (hin.lt hkernel) reg hfind
    exact ⟨pa, hgreatest hroom, hin⟩
  · rintro ⟨x, hx, hin⟩
    obtain ⟨reg', hfind', hroom⟩ := Memblock.find_of_fits (k := 12) hcanon.separated hcanon.lt
      (by decide) (by decide) (by decide) hx.1
    cases hfind.symm.trans hfind'
    rwa [(hgreatest hroom).unique hx]

/-- A page of RAM that lies in the gigabyte, and not at address 0. -/
theorem inGiB_of_ram (hd : mb.Denotes ram R A) (hram : ∀ x ∈ ram, pageSize ≤ x ∧ InGiB kernel x)
    (halloc : mb.earlyAlloc pageSize pageSize = .ok (some pa, mb')) : InGiB kernel pa := by
  have hroom : mb.Room pageSize pageSize := by
    intro reg hfind
    have hreg := List.mem_reverse.mp (List.mem_of_find?_eq_some hfind)
    obtain ⟨hne, hsub⟩ := hd.subset_ram hreg
    have := (hram _ (hsub (Set.left_mem_Ico.mpr hne)).1).1
    omega
  rcases hd.earlyAlloc hroom halloc with ⟨hnone, -⟩ | ⟨pa', hpa, hsub, -⟩
  · cases hnone
  · cases hpa
    exact (hram pa (hsub (Set.left_mem_Ico.mpr (Nat.lt_add_of_pos_right (by decide)))).1).2

end Call

/-! ## The calls of a walk -/

/-- Each call is made of a `MEMBLOCK` that means something, as long as the pages before it were in
the gigabyte. -/
def Chained (kernel : ℕ) (ram : Set ℕ) : List TableCall → Prop
  | [] => True
  | call :: calls =>
    (∃ R A mb, call.memblock.Denotes ram R A ∧
      call.memblock.earlyAlloc pageSize pageSize = .ok (some call.frame, mb)) ∧
    (InGiB kernel call.frame → Chained kernel ram calls)

namespace Chained

variable {kernel : ℕ} {ram : Set ℕ} {calls : List TableCall}

theorem inGiB_iff (hkernel : kernel < 2 ^ 32) (h : Chained kernel ram calls) :
    (∀ call ∈ calls, InGiB kernel call.frame) ↔ ∀ call ∈ calls, HighestIn kernel call.memblock := by
  induction calls with
  | nil => simp
  | cons call calls ih =>
    obtain ⟨⟨R, A, mb, hd, halloc⟩, hrest⟩ := h
    rw [List.forall_mem_cons, List.forall_mem_cons, ← inGiB_iff_highestIn hkernel hd halloc]
    exact and_congr_right fun hin => ih (hrest hin)

theorem inGiB_of_ram (hram : ∀ x ∈ ram, pageSize ≤ x ∧ InGiB kernel x)
    (h : Chained kernel ram calls) : ∀ call ∈ calls, InGiB kernel call.frame := by
  induction calls with
  | nil => simp
  | cons call calls ih =>
    obtain ⟨⟨R, A, mb, hd, halloc⟩, hrest⟩ := h
    have hin := CharlotteOs.inGiB_of_ram hd hram halloc
    exact List.forall_mem_cons.mpr ⟨hin, ih (hrest hin)⟩

end Chained

namespace PageTable

variable {kernel a b : ℕ} {s : Boot} {mb : Memblock} {ram : Set ℕ}

/-- A page in the gigabyte can be cleared and entered. -/
theorem enterTable_eq (hkernel : kernel < 2 ^ 32) (hin : InGiB kernel (a * pageSize))
    (hb : InGiB kernel (b * pageSize)) (j : Fin 512) :
    enterTable kernel ⟨s.mem, mb⟩ (a * pageSize + 8 * j) (b * pageSize) =
      .ok (⟨withTable s.mem a j b, mb⟩, b * pageSize) := by
  have hfit : b < 2 ^ 44 := (hb.frame_lt hkernel).trans (by decide)
  rw [enterTable, Boot.clear_page hkernel _ hb, ok_bind, PhysPageNum.ofPhysAddr_mul, ok_bind]
  dsimp only
  rw [Boot.store_slot hkernel _ hin, ok_bind, ofPpn_ppn, ppn_new hfit (by decide)]
  rfl

/-- **The calls of one walk.** The induction is on the path; `MEMBLOCK` keeps its meaning while the
pages that it hands out are in the gigabyte. -/
theorem chained_bumpFindCreateCalls (hkernel : kernel < 2 ^ 32) (ha : a < 2 ^ 44)
    (hd : ∃ R A, s.memblock.Denotes ram R A) (p : List (Fin 512)) :
    Chained kernel ram (bumpFindCreateCalls kernel s (a * pageSize) p) := by
  induction p generalizing s a with
  | nil => trivial
  | cons j p ih =>
    cases p with
    | nil => trivial
    | cons i p =>
      simp only [bumpFindCreateCalls]
      by_cases hin : InGiB kernel (a * pageSize)
      case neg =>
        rw [load_eq_error hkernel ha hin]
        trivial
      rw [Boot.load_slot hkernel s hin]
      dsimp only
      cases hv : isValid (tables s.mem a j) with
      | true =>
        cases hl : isLeaf (tables s.mem a j) with
        | true => trivial
        | false =>
          rw [ofPpn_ppn]
          exact ih (ppn_lt _) hd
      | false =>
        obtain ⟨R, A, hd⟩ := hd
        simp only [Bool.not_false, if_true]
        cases halloc : s.memblock.earlyAlloc pageSize pageSize with
        | error e => trivial
        | ok r =>
          obtain ⟨_ | pa, mb⟩ := r
          · trivial
          refine ⟨⟨R, A, mb, hd, halloc⟩, fun hpa => ?_⟩
          obtain ⟨b, hb⟩ : 2 ^ 12 ∣ pa := Memblock.earlyAlloc_dvd (by decide) halloc
          obtain rfl : pa = b * pageSize := hb.trans (mul_comm _ _)
          dsimp only at hpa ⊢
          rw [enterTable_eq hkernel hin hpa]
          refine ih ((InGiB.frame_lt hkernel hpa).trans (by decide)) ?_
          rcases hd.earlyAlloc (Memblock.room_of_lt halloc (hpa.lt hkernel)) halloc with
            ⟨hnone, -⟩ | ⟨_, -, -, hnext⟩
          · cases hnone
          · exact ⟨R, _, hnext⟩

end PageTable

/-! ## The calls of a boot -/

section Boot

variable {image : KernelImage} {dt : DeviceTree} {m : Mem}

theorem Boot.TreeOf.chained_tableCalls {kernel root : ℕ} {ram : Set ℕ} {done : List BootStep}
    {s : Boot} {op : BootStep} (hkernel : kernel < 2 ^ 32) (h : TreeOf kernel root ram done s) :
    Chained kernel ram (s.tableCalls kernel (root * pageSize) op) := by
  obtain ⟨R, A, hd, -⟩ := h.allocated
  cases op with
  | reserve base size => trivial
  | map mapType flags pa size =>
    rw [tableCalls]
    split
    · exact chained_bumpFindCreateCalls hkernel ((treeOf_iff.mp h).root_lt hkernel) ⟨R, A, hd⟩ _
    · trivial

/-- **The calls of all steps**, once the root table is in the gigabyte. -/
theorem along_chained (hdt : dt.Bounded) {mb mb' : Memblock} {rootPa : ℕ} {s : Boot}
    (hmb : setupMemblock image dt = .ok mb)
    (halloc : mb.earlyAlloc pageSize pageSize = .ok (some rootPa, mb'))
    (hclear : Boot.clear image.skernel ⟨m, mb'⟩ rootPa = .ok s) (hin : InGiB image.skernel rootPa) :
    Along (Boot.step image.skernel rootPa) (fun s op =>
      Chained image.skernel (Set.Ico dt.ramBase (dt.ramBase + dt.ramSize))
        (s.tableCalls image.skernel rootPa op)) s (bootSteps image dt) := by
  have hkernel := image.skernel_lt
  obtain ⟨root, hroot⟩ : 2 ^ 12 ∣ rootPa := Memblock.earlyAlloc_dvd (by decide) halloc
  obtain rfl : rootPa = root * pageSize := hroot.trans (mul_comm _ _)
  have hlt : root < 2 ^ 44 := (hin.frame_lt hkernel).trans (by decide)
  have hsetup : setupRoot image dt m = .ok (root * pageSize, s) := by
    rw [setupRoot, hmb, ok_bind, halloc, ok_bind]
    dsimp only
    rw [hclear, ok_bind]
  have htree := treeOf_setupRoot hdt hlt hsetup
  have hok : Along (Boot.step image.skernel (root * pageSize)) (fun _ op => op.Ok) s
      (bootSteps image dt) :=
    along_of_forall s fun op hop => ok_of_mem_bootSteps hdt hop
  refine Along.of_invariant (I := fun s => ∃ done, Boot.TreeOf image.skernel root
    (Set.Ico dt.ramBase (dt.ramBase + dt.ramSize)) done s) ?_ ⟨[], htree⟩ hok
  rintro s op ⟨done, h⟩ hop
  exact ⟨h.chained_tableCalls hkernel, fun s' hs' => ⟨_, h.step hkernel hop hs'⟩⟩

/-- **RAM in the gigabyte is enough**, if it does not begin with the page at address 0. -/
theorem tables_inGiB_of_ram (hdt : dt.Bounded) (hpage : pageSize ≤ dt.ramBase)
    (hfirst : InGiB image.skernel dt.ramBase)
    (hlast : InGiB image.skernel (dt.ramBase + dt.ramSize - 1)) :
    EveryTableCall image dt m fun call => InGiB image.skernel call.frame := by
  have hram : ∀ x ∈ Set.Ico dt.ramBase (dt.ramBase + dt.ramSize),
      pageSize ≤ x ∧ InGiB image.skernel x := by
    rintro x ⟨hle, hlt⟩
    refine ⟨hpage.trans hle, ?_⟩
    simp only [InGiB] at *
    omega
  intro mb rootPa mb' hmb halloc
  obtain ⟨R, hd⟩ := setupMemblock_denotes hdt hmb
  have hin := inGiB_of_ram hd hram halloc
  exact ⟨hin, fun s hs =>
    (along_chained hdt hmb halloc hs hin).mono fun s op h => h.inGiB_of_ram hram⟩

/-- **The tables of a boot are in the gigabyte** that `enable_early_mmu` maps exactly when at each
call of `early_alloc` for one of them the highest free page is. -/
theorem tables_inGiB_iff (image : KernelImage) (dt : DeviceTree) (hdt : dt.Bounded) (m : Mem) :
    EveryTableCall image dt m (fun call => InGiB image.skernel call.frame) ↔
      EveryTableCall image dt m (fun call => HighestIn image.skernel call.memblock) := by
  refine forall_congr' fun mb => forall_congr' fun rootPa => forall_congr' fun mb' => ?_
  refine imp_congr_right fun hmb => imp_congr_right fun halloc => ?_
  obtain ⟨R, hd⟩ := setupMemblock_denotes hdt hmb
  dsimp only
  rw [← inGiB_iff_highestIn image.skernel_lt hd halloc]
  refine and_congr_right fun hin => forall_congr' fun s => imp_congr_right fun hs => ?_
  exact Along.iff_of_invariant (I := fun _ => True)
    (fun s op _ h => h.inGiB_iff image.skernel_lt) (fun _ _ _ _ _ _ _ => trivial) trivial
    (along_chained hdt hmb halloc hs hin)

/-- One device and 16 MiB of RAM around the kernel. -/
theorem tables_inGiB_iff_sample :
    (sampleTree [(0x10000000, 0x100)]).Bounded ∧
    EveryTableCall sampleImage (sampleTree [(0x10000000, 0x100)]) (fun _ => 0)
      (fun call => InGiB sampleImage.skernel call.frame) ∧
    EveryTableCall sampleImage (sampleTree [(0x10000000, 0x100)]) (fun _ => 0)
      (fun call => HighestIn sampleImage.skernel call.memblock) := by
  have hdt : (sampleTree [(0x10000000, 0x100)]).Bounded :=
    ⟨by decide, by decide, by decide, by decide⟩
  have hin : EveryTableCall sampleImage (sampleTree [(0x10000000, 0x100)]) (fun _ => 0)
      (fun call => InGiB sampleImage.skernel call.frame) :=
    tables_inGiB_of_ram hdt (by decide) (by decide) (by decide)
  exact ⟨hdt, hin, (tables_inGiB_iff _ _ hdt _).mp hin⟩

/-- With 2 GiB of RAM from `0x80000000` on, which contains the kernel, the page for the root table
is the last one below 4 GiB, in the gigabyte after the one that is mapped. -/
theorem root_table_outside :
    (⟨0x80000000, 0x80000000, [], [], 0x80e00000, 0x1000⟩ : DeviceTree).Bounded ∧
    0x80000000 ≤ sampleImage.skernel ∧ sampleImage.ekernel ≤ 0x80000000 + 0x80000000 ∧
    (∃ mb mb', setupMemblock sampleImage ⟨0x80000000, 0x80000000, [], [], 0x80e00000, 0x1000⟩ =
      .ok mb ∧
      mb.earlyAlloc pageSize pageSize = .ok (some 0xfffff000, mb')) ∧
    ¬ EveryTableCall sampleImage ⟨0x80000000, 0x80000000, [], [], 0x80e00000, 0x1000⟩ (fun _ => 0)
      (fun call => InGiB sampleImage.skernel call.frame) := by
  obtain ⟨⟨r, mb'⟩, hrun, hr⟩ := exists_of_map_eq_ok (f := Prod.fst) (show
    (setupMemblock sampleImage ⟨0x80000000, 0x80000000, [], [], 0x80e00000, 0x1000⟩ >>= fun mb =>
      mb.earlyAlloc pageSize pageSize).map _ = .ok (some 0xfffff000) by decide +kernel)
  obtain ⟨mb, hmb, halloc⟩ := exists_of_bind_eq_ok hrun
  dsimp only at hr
  subst hr
  refine ⟨⟨by decide, by decide, by decide, by decide⟩, by decide, by decide,
    ⟨mb, mb', hmb, halloc⟩, fun h => ?_⟩
  have hin : InGiB sampleImage.skernel 0xfffff000 := (h mb _ mb' hmb halloc).1
  exact absurd hin (by decide)

end Boot

end CharlotteOs
