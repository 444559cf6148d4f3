import CharlotteOs.Driver.Uart
import CharlotteOs.Mm.AddressSpace

/-!
# Access to devices after the boot

The drivers use the physical addresses of the devices as pointers. The boot maps the ranges of the
devices in the linear window only, like RAM, and it takes the identity area out. The final page
table maps no address at itself, so no driver reaches its device.

## Main definitions

* `deviceAddrs`: the addresses of the registers
* `Dereferences`: the addresses that the handlers and the console dereference, whatever the devices
  answer

## Main results

* `dereferences_iff`: these are the addresses of the registers
* `sv39_ne_self`: the final page table maps no address at itself
* `device_unreachable`: no register can be reached
-/

namespace CharlotteOs

open QemuVirt FallibleRun TableTree PageTableEntry PageTable

/-! ## The addresses -/

/-- The registers that the handlers and the console use, on hart 0. -/
def deviceAddrs : List ℕ :=
  [uartBase + thr, uartBase + ier, uartBase + isr, uartBase + lsr, plicClaimCompleteAddr 0]

section Keeps

variable {δ : Type} {bus : Bus δ} {I : δ → Prop} (h : bus.Keeps {addr | addr ∈ deviceAddrs} I)

include h

theorem keeps_sendDataLoop {n : ℕ} {tr : RingBuffer ℕ 4096} {d : δ} {r : RingBuffer ℕ 4096 × δ}
    (hd : I d) (hrun : UartService.sendDataLoop bus n tr d = .ok r) : I r.2 := by
  induction n generalizing tr d with
  | zero =>
    cases hrun
    exact hd
  | succ n ih =>
    rw [UartService.sendDataLoop] at hrun
    obtain ⟨⟨_ | c, tr₁⟩, -, hrun⟩ := exists_of_bind_eq_ok hrun
    · cases hrun
      exact hd
    · exact ih (h.write d (uartBase + thr) c (by decide) hd) hrun

theorem keeps_sendData {service : UartService} {d : δ} {r : UartService × δ} (hd : I d)
    (hrun : service.sendData bus d = .ok r) : I r.2 := by
  rw [UartService.sendData_eq] at hrun
  obtain ⟨⟨tr, d₁⟩, hloop, hrun⟩ := exists_of_bind_eq_ok hrun
  have hd₁ : I d₁ := keeps_sendDataLoop h hd hloop
  cases hrun
  dsimp only
  split
  · have hier : uartBase + ier ∈ deviceAddrs := by decide
    exact h.write _ _ _ hier (h.read _ _ hier hd₁)
  · exact hd₁

theorem keeps_pollingPutchar {c n : ℕ} {d d' : δ} (hd : I d)
    (hrun : Driver.pollingPutchar bus c n d = .ok d') : I d' := by
  induction n generalizing d with
  | zero => cases hrun
  | succ n ih =>
    have hread := h.read d (uartBase + lsr) (by decide) hd
    rw [Driver.pollingPutchar] at hrun
    dsimp only at hrun
    split at hrun
    · exact ih hread hrun
    · cases hrun
      exact h.write _ (uartBase + thr) c (by decide) hread

theorem keeps_pollingPrintln {polls : ℕ} {text : String} {d d' : δ} (hd : I d)
    (hrun : Driver.pollingPrintln bus polls text d = .ok d') : I d' := by
  rw [Driver.pollingPrintln] at hrun
  generalize text.toList.map Char.toNat ++ [10] = bytes at hrun
  induction bytes generalizing d with
  | nil =>
    cases hrun
    exact hd
  | cons c bytes ih =>
    rw [List.foldlM_cons] at hrun
    obtain ⟨d₁, hputchar, hrun⟩ := exists_of_bind_eq_ok hrun
    exact ih (keeps_pollingPutchar h hd hputchar) hrun

theorem keeps_uartInterruptHandler {polls : ℕ} {k : Kernel} {d : δ} {r : Kernel × δ} (hd : I d)
    (hrun : Driver.uartInterruptHandler bus polls k d = .ok r) : I r.2 := by
  have hisr := h.read d (uartBase + isr) (by decide) hd
  rw [Driver.uartInterruptHandler] at hrun
  dsimp only at hrun
  split at hrun
  · cases hrun
    exact hisr
  · split at hrun
    · obtain ⟨r₁, hsend, hrun⟩ := exists_of_bind_eq_ok hrun
      cases hrun
      exact keeps_sendData h hisr hsend
    · obtain ⟨k₁, -, hrun⟩ := exists_of_bind_eq_ok hrun
      cases hrun
      exact h.read _ (uartBase + rhr) (by decide) hisr
    · cases hrun
      exact h.read _ (uartBase + lsr) (by decide) hisr
    · obtain ⟨d₁, hprint, hrun⟩ := exists_of_bind_eq_ok hrun
      cases hrun
      exact keeps_pollingPrintln h hisr hprint

theorem keeps_plicHandler {polls : ℕ} {k : Kernel} {d : δ} {r : Kernel × δ} (hd : I d)
    (hrun : Driver.plicHandler bus polls 0 k d = .ok r) : I r.2 := by
  have hplic : plicClaimCompleteAddr 0 ∈ deviceAddrs := by decide
  have hclaim := h.read d _ hplic hd
  rw [Driver.plicHandler] at hrun
  dsimp only at hrun
  split at hrun
  · obtain ⟨r₁, hhandler, hrun⟩ := exists_of_bind_eq_ok hrun
    cases hrun
    exact h.write _ _ _ hplic (keeps_uartInterruptHandler h hclaim hhandler)
  · obtain ⟨d₁, hprint, hrun⟩ := exists_of_bind_eq_ok hrun
    cases hrun
    exact h.write _ _ _ hplic (keeps_pollingPrintln h hclaim hprint)

end Keeps

/-- **An address that is dereferenced** by one of the interrupt handlers or by the console, with
some answers of the devices. -/
inductive Dereferences (addr : ℕ) : Prop
  | plicHandler (answer : List ℕ → ℕ → ℕ) (polls : ℕ) (k k' : Kernel) (log : List ℕ)
      (run : Driver.plicHandler (Bus.logged answer) polls 0 k [] = .ok (k', log)) (mem : addr ∈ log)
  | uartInterruptHandler (answer : List ℕ → ℕ → ℕ) (polls : ℕ) (k k' : Kernel) (log : List ℕ)
      (run : Driver.uartInterruptHandler (Bus.logged answer) polls k [] = .ok (k', log))
      (mem : addr ∈ log)
  | sendData (answer : List ℕ → ℕ → ℕ) (service service' : UartService) (log : List ℕ)
      (run : service.sendData (Bus.logged answer) [] = .ok (service', log)) (mem : addr ∈ log)
  | pollingPutchar (answer : List ℕ → ℕ → ℕ) (c polls : ℕ) (log : List ℕ)
      (run : Driver.pollingPutchar (Bus.logged answer) c polls [] = .ok log) (mem : addr ∈ log)

/-- **The addresses that are dereferenced** are those of the registers. -/
theorem dereferences_iff {addr : ℕ} : Dereferences addr ↔ addr ∈ deviceAddrs := by
  constructor
  · have hlogged : ∀ answer, (Bus.logged answer).Keeps {addr | addr ∈ deviceAddrs}
        fun log => ∀ addr ∈ log, addr ∈ deviceAddrs := fun answer => Bus.keeps_logged answer _
    have hnil : ∀ addr ∈ ([] : List ℕ), addr ∈ deviceAddrs := fun _ h => absurd h List.not_mem_nil
    rintro (⟨answer, _, _, _, _, hrun, hmem⟩ | ⟨answer, _, _, _, _, hrun, hmem⟩ |
      ⟨answer, _, _, _, hrun, hmem⟩ | ⟨answer, _, _, _, hrun, hmem⟩)
    · exact keeps_plicHandler (hlogged answer) hnil hrun addr hmem
    · exact keeps_uartInterruptHandler (hlogged answer) hnil hrun addr hmem
    · exact keeps_sendData (hlogged answer) hnil hrun addr hmem
    · exact keeps_pollingPutchar (hlogged answer) hnil hrun addr hmem
  · obtain ⟨k⟩ : Nonempty Kernel := ⟨⟨Scheduler.new, BuddySystemFrameAllocator.new fun _ => 0,
      UartService.new, 0, [], none, TaskContext.zero⟩⟩
    have hputchar : Driver.pollingPutchar (Bus.logged fun _ _ => 1 <<< 5) 0 1 [] =
        .ok [uartBase + lsr, uartBase + thr] := rfl
    have hsend : UartService.new.sendData (Bus.logged fun _ _ => 0) [] =
        .ok (UartService.new, [uartBase + ier, uartBase + ier]) := rfl
    have huart : Driver.uartInterruptHandler (Bus.logged fun _ _ => 1) 0 k [] =
        .ok (k, [uartBase + isr]) := rfl
    have hplic : Driver.plicHandler (Bus.logged fun log _ => if log = [] then 10 else 1) 0 0 k [] =
        .ok (k, [plicClaimCompleteAddr 0, uartBase + isr, plicClaimCompleteAddr 0]) := rfl
    intro h
    simp only [deviceAddrs, List.mem_cons, List.not_mem_nil, or_false] at h
    rcases h with rfl | rfl | rfl | rfl | rfl
    · exact .pollingPutchar _ _ _ _ hputchar (by simp)
    · exact .sendData _ _ _ _ hsend (by simp)
    · exact .uartInterruptHandler _ _ _ _ _ huart (by simp)
    · exact .pollingPutchar _ _ _ _ hputchar (by simp)
    · exact .plicHandler _ _ _ _ _ hplic (by simp)

/-! ## The final page table -/

variable {image : KernelImage} {dt : DeviceTree} {m m' : Mem} {root : ℕ}

/-- **The final page table maps no address at itself**: the pages of the linear window are 4 GiB
below the end of the address space, and that is no multiple of 512 GiB. -/
theorem sv39_ne_self (hleaves : leaves decode (tables m) root = linearLeaves image dt) (va f : ℕ) :
    sv39 (tables m) root va ≠ some (va, f) := by
  intro h
  obtain ⟨pte, rest, hlookup, -, hdvd, hva⟩ := lookup_of_sv39 h
  obtain ⟨path, hpath, hleaf⟩ := lookup_eq_some_iff.mp hlookup
  rw [hleaves] at hleaf
  obtain ⟨flags, pa, size, hmem, heq⟩ := hleaf
  obtain ⟨rfl, rfl⟩ := Prod.mk.inj heq
  have hkey := (leafPath_prefix_indices .linear (pageFloor pa) (va / pageSize) size).mp
    ⟨rest, hpath.symm⟩
  rw [pages_of_take_append hpath, ppn_new_mod (or_v_lt (kernelFlags_of_mem hmem).leaf.lt)]
    at hdvd hva
  have hpage : va / pageSize = pageFloor pa % 2 ^ 44 + va / pageSize % size.pages := by
    simp only [pageSize] at hva ⊢
    omega
  generalize pageFloor pa = n at *
  generalize va / pageSize = v at *
  obtain ⟨k, hk⟩ := hdvd
  rw [BootMapType.key] at hkey
  cases size <;> simp only [PageSize.pages] at * <;> omega

/-- The drivers reach their devices: what they dereference is mapped, at the physical addresses of
the registers. -/
def DevicesReachable (t : ℕ → Fin 512 → ℕ) (root : ℕ) : Prop :=
  ∀ addr, Dereferences addr → ∃ f, sv39 t root addr = some (addr, f)

/-- **No register can be reached** after a boot, on any machine. -/
theorem device_unreachable (image : KernelImage) (dt : DeviceTree) (hdt : dt.Bounded)
    (sizeOfPage : ℕ) (m m' : Mem) (root : ℕ) (hboot : boot image dt sizeOfPage m = .ok (root, m')) :
    ¬ DevicesReachable (tables m') root ∧
      ∀ addr, Dereferences addr → ∀ f, sv39 (tables m') root addr ≠ some (addr, f) := by
  have hself := sv39_ne_self (boot_leaves hdt hboot)
  refine ⟨fun hreach => ?_, fun addr _ f => hself addr f⟩
  obtain ⟨f, hf⟩ := hreach (uartBase + lsr) (dereferences_iff.mpr (by decide))
  exact hself _ f hf

/-- 16 MiB of RAM, a UART and a PLIC. -/
theorem device_unreachable_sample : ∃ root m',
    boot sampleImage (sampleTree [(0x10000000, 0x100), (0xC000000, 0x600000)]) 40 (fun _ => 0) =
      .ok (root, m') ∧ ¬ DevicesReachable (tables m') root := by
  obtain ⟨⟨root, m'⟩, hboot, -⟩ := exists_of_map_eq_ok (f := fun _ => ())
    (show (boot sampleImage (sampleTree [(0x10000000, 0x100), (0xC000000, 0x600000)]) 40
      (fun _ => 0)).map _ = .ok () by decide +kernel)
  exact ⟨root, m', hboot,
    (device_unreachable _ _ ⟨by decide, by decide, by decide, by decide⟩ 40 _ _ _ hboot).1⟩

/-- On that machine the range of the UART is mapped in the linear window, and `LSR`, which
`polling_putchar` reads, is not mapped where it is read. -/
theorem lsr_not_mapped : ∃ root m',
    boot sampleImage (sampleTree [(0x10000000, 0x100), (0xC000000, 0x600000)]) 40 (fun _ => 0) =
      .ok (root, m') ∧ Dereferences (uartBase + lsr) ∧
    (sv39 (tables m') root (physToVirt (uartBase + lsr))).map Prod.fst = some (uartBase + lsr) ∧
    sv39 (tables m') root (uartBase + lsr) = none := by
  obtain ⟨⟨root, m'⟩, hboot, hsv39⟩ := exists_of_map_eq_ok
    (f := fun r : ℕ × Mem => ((sv39 (tables r.2) r.1 (physToVirt (uartBase + lsr))).map Prod.fst,
      sv39 (tables r.2) r.1 (uartBase + lsr)))
    (show (boot sampleImage (sampleTree [(0x10000000, 0x100), (0xC000000, 0x600000)]) 40
      (fun _ => 0)).map _ = .ok (some (uartBase + lsr), none) by decide +kernel)
  obtain ⟨hlinear, hself⟩ := Prod.mk.inj hsv39
  exact ⟨root, m', hboot, dereferences_iff.mpr (by decide), hlinear, hself⟩

end CharlotteOs
