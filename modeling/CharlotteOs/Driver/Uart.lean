import CharlotteOs.Lib.Bus
import CharlotteOs.Trap.Kernel

/-!
# The UART and its driver

`src/driver/uart.rs`, `src/driver/plic.rs`, `src/trap/interrupts/service/uart_service.rs` and
`polling_putchar` of `src/console/mod.rs`, down to the registers. With the feature `uart_interrupt`,
`putchar` only puts a byte into `transmit_buffer` and turns the interrupt of the transmitter on, and
the interrupt handler writes the bytes to the device.

Every access is a load or a store on a bus, at the address that the code computes. The device behind
the bus is a 16550 UART with a PLIC. The locks of the service are left out: each function has the
buffers for itself.

## Main definitions

* `QemuVirt.uartBase`, `QemuVirt.plicClaimCompleteAddr`: addresses of the devices
* `Uart.init`, `Uart.putchar`, `UartService.sendData`: the driver
* `Driver.pollingPutchar`, `Driver.uartInterruptHandler`, `Driver.plicHandler`: the console and the
  interrupt handlers
* `Devices`, `Devices.bus`: the registers of the devices

## Main results

* `UartService.sendDataLoop_cases`: the loop of `send_data` writes bytes and nothing else
* `UartService.sendData_on`, `Driver.uartInterruptHandler_on`, `Driver.plicHandler_on`: the handlers
  on the device are those of the model of the kernel
-/

namespace CharlotteOs

/-! ## Addresses -/

namespace QemuVirt

/-- `UART_BASE`. -/
abbrev uartBase : ℕ := 0x10000000

/-- `UART0_IRQ`. -/
abbrev uart0Irq : ℕ := 10

/-- `PLIC_BASE`. -/
abbrev plicBase : ℕ := 0xC000000

/-- `plic_context_id_s`. -/
def plicContextIdS (hartId : ℕ) : ℕ := hartId * 2 + 1

/-- `plic_priority_addr`. -/
def plicPriorityAddr (interruptId : ℕ) : ℕ := plicBase + 0x00 + interruptId * 4

/-- `plic_enable_addr`. -/
def plicEnableAddr (hartId irq : ℕ) : ℕ :=
  plicBase + 0x2000 + plicContextIdS hartId * 0x80 + irq / 32 * 4

/-- `plic_context_addr`. -/
def plicContextAddr (hartId : ℕ) : ℕ := plicBase + 0x200000 + plicContextIdS hartId * 0x1000

/-- `plic_claim_complete_addr`. -/
def plicClaimCompleteAddr (hartId : ℕ) : ℕ := plicBase + 0x200004 + plicContextIdS hartId * 0x1000

/-- `RHR`, the received byte. -/
abbrev rhr : ℕ := 0

/-- `THR`, the byte to transmit. -/
abbrev thr : ℕ := 0

/-- `IER`, the interrupts that are enabled. -/
abbrev ier : ℕ := 1

/-- `DLL`, the low byte of the divisor, in the place of `RHR` and `THR` if `DLAB` is set. -/
abbrev dll : ℕ := 0

/-- `DLM`, the high byte of the divisor, in the place of `IER` if `DLAB` is set. -/
abbrev dlm : ℕ := 1

/-- `FCR`, the control of the FIFOs. -/
abbrev fcr : ℕ := 2

/-- `ISR`, the interrupt that is pending. -/
abbrev isr : ℕ := 2

/-- `LCR`, the line control, with `DLAB` as bit 7. -/
abbrev lcr : ℕ := 3

/-- `LSR`, the line status. -/
abbrev lsr : ℕ := 5

end QemuVirt

open QemuVirt

variable {δ : Type}

/-! ## The driver -/

/-- `Uart`. -/
structure Uart where
  baseAddress : ℕ
  deriving DecidableEq, Repr

namespace Uart

/-- The part of `init` that configures the PLIC. -/
def initPlic (bus : Bus δ) (hartId : ℕ) (d : δ) : δ :=
  let d := bus.write d (plicPriorityAddr uart0Irq) 1
  let (currentEnable, d) := bus.read d (plicEnableAddr hartId uart0Irq)
  let d := bus.write d (plicEnableAddr hartId uart0Irq) (currentEnable ||| 1 <<< uart0Irq)
  bus.write d (plicContextAddr hartId) 0

/-- The part of `init` that sets the baud rate and the format, with the divisor latch open
between. -/
def initLine (bus : Bus δ) (uart : Uart) (d : δ) : δ :=
  let (lcrValue, d) := bus.read d (uart.baseAddress + lcr)
  let d := bus.write d (uart.baseAddress + lcr) (lcrValue ||| 1 <<< 7)
  let d := bus.write d (uart.baseAddress + dll) 0x03
  let d := bus.write d (uart.baseAddress + dlm) 0x00
  bus.write d (uart.baseAddress + lcr) 0x03

/-- `init`. -/
def init (bus : Bus δ) (uart : Uart) (hartId : ℕ) (d : δ) : δ :=
  let d := bus.write d (uart.baseAddress + ier) 0x00
  let d := initPlic bus hartId d
  let d := bus.write d (uart.baseAddress + fcr) (1 <<< 0 ||| 1 <<< 1 ||| 1 <<< 2)
  let d := uart.initLine bus d
  let (currentIer, d) := bus.read d (uart.baseAddress + ier)
  bus.write d (uart.baseAddress + ier) (currentIer ||| 0x01)

/-- `disable_transmit_interrupt`. -/
def disableTransmitInterrupt (bus : Bus δ) (uart : Uart) (d : δ) : δ :=
  let (currentIer, d) := bus.read d (uart.baseAddress + ier)
  bus.write d (uart.baseAddress + ier) (currentIer &&& (0xff - 0x02))

/-- `enable_transmit_interrupt`. -/
def enableTransmitInterrupt (bus : Bus δ) (uart : Uart) (d : δ) : δ :=
  let (currentIer, d) := bus.read d (uart.baseAddress + ier)
  bus.write d (uart.baseAddress + ier) (currentIer ||| 0x02)

/-- `putchar`. -/
def putchar (bus : Bus δ) (uart : Uart) (service : UartService) (d : δ) (c : ℕ) :
    Except Fault (Except ℕ Unit × UartService × δ) := do
  let d := uart.disableTransmitInterrupt bus d
  let (res, transmitBuffer) ← service.transmitBuffer.push c
  let d := uart.enableTransmitInterrupt bus d
  .ok (res, { service with transmitBuffer }, d)

end Uart

namespace UartService

/-- The loop of `send_data`, with the number of bytes it may still write. -/
def sendDataLoop (bus : Bus δ) : ℕ → RingBuffer ℕ 4096 → δ → Except Fault (RingBuffer ℕ 4096 × δ)
  | 0, tr, d => .ok (tr, d)
  | n + 1, tr, d => do
    match ← tr.pop with
    | (some character, tr) => sendDataLoop bus n tr (bus.write d (uartBase + thr) character)
    | (none, tr) => .ok (tr, d)

/-- `send_data`. -/
def sendData (service : UartService) (bus : Bus δ) (d : δ) : Except Fault (UartService × δ) := do
  let (tr, d) ← sendDataLoop bus Kernel.uartFifoCapacity service.transmitBuffer d
  if tr.isEmpty then
    let (currentIer, d) := bus.read d (uartBase + ier)
    let d := bus.write d (uartBase + ier) (currentIer &&& (0xff - 0x02))
    .ok ({ service with transmitBuffer := tr }, d)
  else .ok ({ service with transmitBuffer := tr }, d)

/-- The end of `send_data` is `disable_transmit_interrupt`, if the buffer is empty. -/
theorem sendData_eq (service : UartService) (bus : Bus δ) (d : δ) :
    service.sendData bus d = (do
      let (tr, d) ← sendDataLoop bus Kernel.uartFifoCapacity service.transmitBuffer d
      let d := if tr.isEmpty then Uart.disableTransmitInterrupt bus ⟨uartBase⟩ d else d
      .ok ({ service with transmitBuffer := tr }, d)) := by
  rw [sendData]
  congr 1
  funext ⟨tr, d⟩
  dsimp only
  split <;> rfl

end UartService

/-! ## The console -/

namespace Driver

/-- `polling_putchar`, with the number of times that it may read `LSR`. -/
def pollingPutchar (bus : Bus δ) (c : ℕ) : ℕ → δ → Except Fault δ
  | 0, _ => .error .endless
  | n + 1, d =>
    let (status, d) := bus.read d (uartBase + lsr)
    if status &&& 1 <<< 5 = 0 then pollingPutchar bus c n d
    else .ok (bus.write d (uartBase + thr) c)

/-- `polling_println!` of a text, with the number of times that `LSR` may be read for a byte. -/
def pollingPrintln (bus : Bus δ) (polls : ℕ) (text : String) (d : δ) : Except Fault δ :=
  (text.toList.map Char.toNat ++ [10]).foldlM (fun d c => pollingPutchar bus c polls d) d

/-! ## The interrupt handlers -/

/-- `uart_interrupt_handler`. -/
def uartInterruptHandler (bus : Bus δ) (polls : ℕ) (k : Kernel) (d : δ) :
    Except Fault (Kernel × δ) :=
  let (isrVal, d) := bus.read d (uartBase + isr)
  if isrVal &&& 0x01 = 1 then .ok (k, d)
  else
    match isrVal &&& 0b1110 with
    | 0b0010 => do
      let (uart, d) ← k.uart.sendData bus d
      .ok ({ k with uart }, d)
    | 0b0100 => do
      let (receivedChar, d) := bus.read d (uartBase + rhr)
      let k ← k.receive receivedChar
      .ok (k, d)
    | 0b0110 =>
      let (_, d) := bus.read d (uartBase + lsr)
      .ok (k, d)
    | cause => do
      let d ← pollingPrintln bus polls ("cause:" ++ toString cause) d
      .ok (k, d)

/-- `plic_handler`, with `PLIC::claim` and `PLIC::complete`. -/
def plicHandler (bus : Bus δ) (polls hartId : ℕ) (k : Kernel) (d : δ) : Except Fault (Kernel × δ) :=
  let (irqNum, d) := bus.read d (plicClaimCompleteAddr hartId)
  if irqNum = 10 then do
    let (k, d) ← uartInterruptHandler bus polls k d
    .ok (k, bus.write d (plicClaimCompleteAddr hartId) 10)
  else do
    let d ← pollingPrintln bus polls ("irq: " ++ toString irqNum) d
    .ok (k, bus.write d (plicClaimCompleteAddr hartId) 717)

end Driver

/-! ## The devices -/

/-- The registers of the UART, what `RHR`, `ISR` and `LSR` show, the bytes that were written to
`THR`, and the words of the PLIC. -/
structure Devices where
  ier : ℕ
  lcr : ℕ
  dll : ℕ
  dlm : ℕ
  fcr : ℕ
  rhr : ℕ
  isr : ℕ
  lsr : ℕ
  thr : List ℕ
  plic : ℕ → ℕ

namespace Devices

/-- `DLAB`, which puts the divisor in the place of two other registers. -/
def dlab (d : Devices) : Bool := d.lcr.testBit 7

/-- A load. -/
def read (d : Devices) (addr : ℕ) : ℕ :=
  if uartBase ≤ addr ∧ addr < uartBase + 8 then
    match addr - uartBase with
    | 0 => if d.dlab then d.dll else d.rhr
    | 1 => if d.dlab then d.dlm else d.ier
    | 2 => d.isr
    | 3 => d.lcr
    | 5 => d.lsr
    | _ => 0
  else d.plic addr

/-- A store. The upper half of `IER` is zero. -/
def write (d : Devices) (addr value : ℕ) : Devices :=
  if uartBase ≤ addr ∧ addr < uartBase + 8 then
    match addr - uartBase with
    | 0 => if d.dlab then { d with dll := value } else { d with thr := d.thr ++ [value] }
    | 1 => if d.dlab then { d with dlm := value } else { d with ier := value &&& 0x0f }
    | 2 => { d with fcr := value }
    | 3 => { d with lcr := value }
    | _ => d
  else { d with plic := Function.update d.plic addr value }

/-- **The bus of the devices.** -/
def bus : Bus Devices := ⟨fun d addr => (d.read addr, d), write⟩

variable {d : Devices}

theorem bus_read (d : Devices) (addr : ℕ) : bus.read d addr = (d.read addr, d) := rfl

theorem bus_write (d : Devices) (addr value : ℕ) : bus.write d addr value = d.write addr value :=
  rfl

theorem read_ier (h : d.dlab = false) : d.read (uartBase + QemuVirt.ier) = d.ier := by
  rw [read, if_pos (by decide)]
  simp [h]

theorem read_isr (d : Devices) : d.read (uartBase + QemuVirt.isr) = d.isr := by
  rw [read, if_pos (by decide)]
  rfl

theorem read_rhr (h : d.dlab = false) : d.read (uartBase + QemuVirt.rhr) = d.rhr := by
  rw [read, if_pos (by decide)]
  simp [h]

theorem write_ier (h : d.dlab = false) (v : ℕ) :
    d.write (uartBase + QemuVirt.ier) v = { d with ier := v &&& 0x0f } := by
  rw [write, if_pos (by decide)]
  simp [h]

/-- The device after bytes were written to `THR`. -/
def transmit (d : Devices) (bytes : List ℕ) : Devices := { d with thr := d.thr ++ bytes }

theorem transmit_nil (d : Devices) : d.transmit [] = d := by rw [transmit, List.append_nil]

theorem transmit_transmit (d : Devices) (bytes bytes' : List ℕ) :
    (d.transmit bytes).transmit bytes' = d.transmit (bytes ++ bytes') := by
  rw [transmit, transmit, transmit, List.append_assoc]

theorem transmit_dlab (d : Devices) (bytes : List ℕ) : (d.transmit bytes).dlab = d.dlab := rfl

theorem write_thr (h : d.dlab = false) (v : ℕ) :
    d.write (uartBase + QemuVirt.thr) v = d.transmit [v] := by
  rw [write, if_pos (by decide)]
  simp [h, transmit]

/-- The interrupt of the transmitter is turned off. -/
theorem disableTransmitInterrupt_eq (h : d.dlab = false) :
    Uart.disableTransmitInterrupt bus ⟨uartBase⟩ d =
      { d with ier := d.ier &&& (0xff - 0x02) &&& 0x0f } := by
  change d.write (uartBase + QemuVirt.ier) (d.read (uartBase + QemuVirt.ier) &&& _) = _
  rw [read_ier h, write_ier h]

/-- The interrupt of the transmitter is turned on. -/
theorem enableTransmitInterrupt_eq (h : d.dlab = false) :
    Uart.enableTransmitInterrupt bus ⟨uartBase⟩ d =
      { d with ier := (d.ier ||| 0x02) &&& 0x0f } := by
  change d.write (uartBase + QemuVirt.ier) (d.read (uartBase + QemuVirt.ier) ||| _) = _
  rw [read_ier h, write_ier h]

end Devices

/-! ## The model of the kernel -/

/-- The kernel with the registers of a device. -/
def Kernel.on (k : Kernel) (d : Devices) : Kernel := { k with ier := d.ier, thr := d.thr }

namespace UartService

/-- The loop of `send_data` writes bytes, and does nothing else to the device. -/
theorem sendDataLoop_cases {n : ℕ} {tr tr' : RingBuffer ℕ 4096} {d d' : Devices}
    (h : d.dlab = false) (hloop : sendDataLoop Devices.bus n tr d = .ok (tr', d')) :
    ∃ bytes, bytes.length ≤ n ∧ d' = d.transmit bytes := by
  induction n generalizing tr d with
  | zero =>
    cases hloop
    exact ⟨[], le_rfl, (Devices.transmit_nil _).symm⟩
  | succ n ih =>
    rw [sendDataLoop] at hloop
    obtain ⟨⟨_ | c, tr₁⟩, -, hloop⟩ := exists_of_bind_eq_ok hloop
    · cases hloop
      exact ⟨[], Nat.zero_le _, (Devices.transmit_nil _).symm⟩
    · dsimp only at hloop
      rw [Devices.bus_write, Devices.write_thr h] at hloop
      obtain ⟨bytes, hlength, rfl⟩ := ih ((d.transmit_dlab [c]).trans h) hloop
      exact ⟨c :: bytes, Nat.succ_le_succ hlength, d.transmit_transmit [c] bytes⟩

/-- The loop of `send_data` on the device is that of the model of the kernel. -/
theorem sendDataLoop_on (n : ℕ) (k : Kernel) {d : Devices} (h : d.dlab = false) :
    (sendDataLoop Devices.bus n k.uart.transmitBuffer d).map (fun r =>
      ({ k with uart := { k.uart with transmitBuffer := r.1 } } : Kernel).on r.2) =
      (k.on d).sendDataLoop n := by
  induction n generalizing k d with
  | zero => rfl
  | succ n ih =>
    rw [sendDataLoop, Kernel.sendDataLoop]
    change _ = (k.uart.transmitBuffer.pop >>= _)
    cases hpop : k.uart.transmitBuffer.pop with
    | error e => rfl
    | ok r =>
      obtain ⟨_ | c, tr⟩ := r
      · rw [RingBuffer.eq_of_pop_none hpop]
        rfl
      · rw [ok_bind, ok_bind]
        dsimp only
        rw [Devices.bus_write, Devices.write_thr h]
        exact ih { k with uart := { k.uart with transmitBuffer := tr } }
          ((d.transmit_dlab [c]).trans h)

/-- **`send_data` on the device** is what the model of the kernel does. The upper half of the
register is zero before and after. -/
theorem sendData_on (k : Kernel) {d : Devices} (h : d.dlab = false) (hier : d.ier < 16) :
    (k.uart.sendData Devices.bus d).map (fun r => ({ k with uart := r.1 } : Kernel).on r.2) =
      (k.on d).sendData := by
  rw [sendData_eq, Kernel.sendData, ← sendDataLoop_on _ k h]
  cases hloop : sendDataLoop Devices.bus Kernel.uartFifoCapacity k.uart.transmitBuffer d with
  | error e => rfl
  | ok r =>
    obtain ⟨tr, d'⟩ := r
    obtain ⟨bytes, -, rfl⟩ := sendDataLoop_cases h hloop
    rw [ok_bind]
    change _ = (if tr.isEmpty then _ else _)
    dsimp only
    split
    · have hmask : ∀ v < 16, v &&& (0xff - 0x02) &&& 0x0f = v &&& (0xff - 0x02) := by decide
      rw [Devices.disableTransmitInterrupt_eq ((d.transmit_dlab bytes).trans h),
        show (d.transmit bytes).ier = d.ier from rfl, hmask _ hier]
      rfl
    · rfl

end UartService

/-! ## The handlers of the model of the kernel -/

namespace Driver

variable {k k' : Kernel} {d d' : Devices} {polls : ℕ}

theorem plicClaimCompleteAddr_notMem (hartId : ℕ) :
    ¬ (uartBase ≤ plicClaimCompleteAddr hartId ∧ plicClaimCompleteAddr hartId < uartBase + 8) := by
  simp only [plicClaimCompleteAddr, plicContextIdS, plicBase, uartBase]
  omega

/-- `polling_putchar` writes its byte, if it ever ends. -/
theorem pollingPutchar_cases {c : ℕ} (h : d.dlab = false)
    (hrun : pollingPutchar Devices.bus c polls d = .ok d') : d' = d.transmit [c] := by
  induction polls with
  | zero => cases hrun
  | succ n ih =>
    rw [pollingPutchar, Devices.bus_read] at hrun
    dsimp only at hrun
    split at hrun
    · exact ih hrun
    · rw [Devices.bus_write, Devices.write_thr h] at hrun
      exact (Except.ok.inj hrun).symm

/-- `polling_println!` writes bytes, and does nothing else to the device. -/
theorem pollingPrintln_cases {text : String} (h : d.dlab = false)
    (hrun : pollingPrintln Devices.bus polls text d = .ok d') : ∃ bytes, d' = d.transmit bytes := by
  rw [pollingPrintln] at hrun
  generalize text.toList.map Char.toNat ++ [10] = l at hrun
  induction l generalizing d with
  | nil =>
    cases hrun
    exact ⟨[], (Devices.transmit_nil d').symm⟩
  | cons c l ih =>
    rw [List.foldlM_cons] at hrun
    obtain ⟨d₁, hput, hrest⟩ := exists_of_bind_eq_ok hrun
    obtain rfl := pollingPutchar_cases h hput
    obtain ⟨bytes, rfl⟩ := ih ((d.transmit_dlab [c]).trans h) hrest
    exact ⟨c :: bytes, d.transmit_transmit [c] bytes⟩

/-- Receiving a byte does not touch the device. -/
theorem receive_on (k : Kernel) (d : Devices) (c : ℕ) :
    (k.on d).receive c = (k.receive c).map (·.on d) := by
  unfold Kernel.receive
  dsimp only [Kernel.on]
  split
  · rfl
  · cases k.uart.waitQueue.getLast? with
    | some id =>
      dsimp only
      cases k.scheduler.wakeUpTaskWithResult id c <;> rfl
    | none =>
      dsimp only
      cases k.uart.receiveBuffer.push c <;> rfl

/-- **`uart_interrupt_handler` on the device** is what the model of the kernel does, up to the bytes
of the message for an unknown cause. -/
theorem uartInterruptHandler_on (h : d.dlab = false) (hier : d.ier < 16)
    (hrun : uartInterruptHandler Devices.bus polls k d = .ok (k', d')) (time irq : ℕ) :
    ∃ k₀ text, (k.on d).uartInterruptHandler ⟨time, irq, d.isr, d.rhr⟩ = .ok k₀ ∧
      k'.on d' = { k₀ with thr := k₀.thr ++ text } := by
  rw [uartInterruptHandler, Devices.bus_read, Devices.read_isr] at hrun
  rw [Kernel.uartInterruptHandler]
  dsimp only at hrun ⊢
  split at hrun
  · cases hrun
    exact ⟨_, [], if_pos ‹_›, by rw [List.append_nil]⟩
  · rw [if_neg ‹_›]
    generalize d.isr &&& 0b1110 = cause at hrun
    split at hrun
    · obtain ⟨⟨uart, d₁⟩, hsend, hrun⟩ := exists_of_bind_eq_ok hrun
      cases hrun
      have hon := UartService.sendData_on k h hier
      rw [hsend] at hon
      exact ⟨_, [], hon.symm, by rw [List.append_nil]⟩
    · obtain ⟨k₁, hreceive, hrun⟩ := exists_of_bind_eq_ok hrun
      cases hrun
      change k.receive (d.read (uartBase + rhr)) = _ at hreceive
      rw [Devices.read_rhr h] at hreceive
      have hon := receive_on k d d.rhr
      rw [hreceive] at hon
      exact ⟨_, [], hon, by rw [List.append_nil]; rfl⟩
    · cases hrun
      exact ⟨_, [], rfl, by rw [List.append_nil]; rfl⟩
    · obtain ⟨d₁, hprint, hrun⟩ := exists_of_bind_eq_ok hrun
      cases hrun
      obtain ⟨bytes, rfl⟩ := pollingPrintln_cases h hprint
      split
      · contradiction
      · contradiction
      · exact ⟨_, bytes, rfl, rfl⟩

/-- **`plic_handler` on the device** is what the model of the kernel does, up to the bytes of a
message. -/
theorem plicHandler_on {hartId : ℕ} (h : d.dlab = false) (hier : d.ier < 16)
    (hrun : plicHandler Devices.bus polls hartId k d = .ok (k', d')) (time : ℕ) :
    ∃ k₀ text, (k.on d).plicHandler
        ⟨time, d.plic (plicClaimCompleteAddr hartId), d.isr, d.rhr⟩ = .ok k₀ ∧
      k'.on d' = { k₀ with thr := k₀.thr ++ text } := by
  have hclaim : d.read (plicClaimCompleteAddr hartId) = d.plic (plicClaimCompleteAddr hartId) := by
    rw [Devices.read, if_neg (plicClaimCompleteAddr_notMem hartId)]
  have hcomplete : ∀ (k : Kernel) (e : Devices) (v : ℕ),
      k.on (e.write (plicClaimCompleteAddr hartId) v) = k.on e := by
    intro k e v
    rw [Devices.write, if_neg (plicClaimCompleteAddr_notMem hartId)]
    rfl
  rw [plicHandler, Devices.bus_read, hclaim] at hrun
  rw [Kernel.plicHandler]
  dsimp only at hrun ⊢
  split at hrun
  · obtain ⟨⟨k₁, d₁⟩, hhandler, hrun⟩ := exists_of_bind_eq_ok hrun
    cases hrun
    rw [if_pos ‹_›, Devices.bus_write, hcomplete]
    exact uartInterruptHandler_on h hier hhandler _ _
  · obtain ⟨d₁, hprint, hrun⟩ := exists_of_bind_eq_ok hrun
    cases hrun
    obtain ⟨bytes, rfl⟩ := pollingPrintln_cases h hprint
    rw [if_neg ‹_›, Devices.bus_write, hcomplete]
    exact ⟨_, bytes, rfl, rfl⟩

end Driver

end CharlotteOs
