import CharlotteOs.Driver.Uart
import CharlotteOs.Lib.Run

/-!
# Transmitting bytes

`putchar` turns the interrupt of the transmitter off while it puts a byte into `transmit_buffer`,
and on again afterwards, also if there was no room. `send_data` turns it off when it leaves the
buffer empty. So from `init` on, whatever `putchar` and `send_data` do in turn, the interrupt is on
while there is a byte to send, the bytes go out in the order in which they were accepted, and no
other interrupt is turned on or off.

## Main definitions

* `Transmission`, `Transmission.step`: the service and the device, with the bytes that were accepted
* `Transmission.Correct`: nothing is lost, reordered or stuck

## Main results

* `Uart.init_spec`: `init` leaves the divisor latch closed and transmits nothing
* `Transmission.Inv.step`, `Transmission.Inv.run`: what every operation and every run keeps
* `Transmission.correct_run`: every run from `init` on returns and is correct
-/

namespace CharlotteOs

open QemuVirt FallibleRun

/-! ## Registers -/

namespace Devices

variable {d : Devices} {addr : ℕ}

/-- Only a store to `THR` transmits. -/
theorem write_thr_of_ne (h : addr ≠ uartBase) (v : ℕ) : (d.write addr v).thr = d.thr := by
  rw [write]
  split
  · split
    · omega
    · split <;> rfl
    all_goals rfl
  · rfl

theorem write_lcr (d : Devices) (v : ℕ) :
    d.write (uartBase + QemuVirt.lcr) v = { d with lcr := v } := by
  rw [write, if_pos (by decide)]
  simp

/-- With the divisor latch open, a store in the place of `THR` does not transmit. -/
theorem write_dll (h : d.dlab = true) (v : ℕ) :
    d.write (uartBase + QemuVirt.dll) v = { d with dll := v } := by
  rw [write, if_pos (by decide)]
  simp [h]

theorem dlab_set (d : Devices) (v : ℕ) :
    ({ d with lcr := v ||| 1 <<< 7 } : Devices).dlab = true := by
  rw [dlab, Nat.testBit_or, show (1 <<< 7).testBit 7 = true by decide, Bool.or_true]

end Devices

theorem plicEnableAddr_ne (hartId irq : ℕ) (h : irq < 32) :
    plicEnableAddr hartId irq ≠ uartBase := by
  simp only [plicEnableAddr, plicContextIdS, Nat.div_eq_of_lt h, plicBase, uartBase]
  omega

theorem plicContextAddr_ne (hartId : ℕ) : plicContextAddr hartId ≠ uartBase := by
  simp only [plicContextAddr, plicContextIdS, plicBase, uartBase]
  omega

namespace Uart

variable {δ : Type} {bus : Bus δ} {A : Set ℕ} {I : δ → Prop}

/-- Configuring the PLIC keeps what its accesses keep. -/
theorem keeps_initPlic (h : bus.Keeps A I) {hartId : ℕ} (hpriority : plicPriorityAddr uart0Irq ∈ A)
    (henable : plicEnableAddr hartId uart0Irq ∈ A) (hcontext : plicContextAddr hartId ∈ A) {d : δ}
    (hd : I d) : I (initPlic bus hartId d) :=
  h.write _ _ _ hcontext <| h.write _ _ _ henable <| h.read _ _ henable <|
    h.write _ _ _ hpriority hd

/-- Configuring the PLIC transmits nothing. -/
theorem initPlic_thr (hartId : ℕ) (d : Devices) : (initPlic Devices.bus hartId d).thr = d.thr := by
  have hkeeps : Devices.bus.Keeps {addr | addr ≠ uartBase} fun e => e.thr = d.thr :=
    ⟨fun _ _ _ he => he, fun e addr v haddr he => by
      rw [Devices.bus_write, Devices.write_thr_of_ne haddr, he]⟩
  have hpriority : plicPriorityAddr uart0Irq ≠ uartBase := by decide
  have henable : plicEnableAddr hartId uart0Irq ≠ uartBase := plicEnableAddr_ne hartId _ (by decide)
  exact keeps_initPlic hkeeps hpriority henable (plicContextAddr_ne hartId) rfl

theorem initLine_eq (bus : Bus δ) (uart : Uart) (d : δ) :
    uart.initLine bus d = bus.write (bus.write (bus.write (bus.write
      (bus.read d (uart.baseAddress + lcr)).2 (uart.baseAddress + lcr)
        ((bus.read d (uart.baseAddress + lcr)).1 ||| 1 <<< 7))
      (uart.baseAddress + dll) 0x03) (uart.baseAddress + dlm) 0x00) (uart.baseAddress + lcr) 0x03 :=
  rfl

/-- While the baud rate is set, the divisor latch is open and nothing is transmitted. -/
theorem initLine_spec (d : Devices) :
    (initLine Devices.bus ⟨uartBase⟩ d).dlab = false ∧
      (initLine Devices.bus ⟨uartBase⟩ d).thr = d.thr := by
  rw [initLine_eq]
  simp only [Devices.bus_read, Devices.bus_write]
  constructor
  · rw [Devices.write_lcr]
    show Nat.testBit 3 7 = false
    decide
  · rw [Devices.write_thr_of_ne (by decide), Devices.write_thr_of_ne (by decide), Devices.write_lcr,
      Devices.write_dll (d.dlab_set _)]

theorem init_eq (bus : Bus δ) (uart : Uart) (hartId : ℕ) (d : δ) :
    uart.init bus hartId d =
      let e := uart.initLine bus
        (bus.write (initPlic bus hartId (bus.write d (uart.baseAddress + ier) 0x00))
          (uart.baseAddress + fcr) (1 <<< 0 ||| 1 <<< 1 ||| 1 <<< 2))
      bus.write (bus.read e (uart.baseAddress + ier)).2 (uart.baseAddress + ier)
        ((bus.read e (uart.baseAddress + ier)).1 ||| 0x01) :=
  rfl

/-- **`init`** leaves the divisor latch closed, and it transmits nothing. -/
theorem init_spec (hartId : ℕ) (d : Devices) :
    (init Devices.bus ⟨uartBase⟩ hartId d).dlab = false ∧
      (init Devices.bus ⟨uartBase⟩ hartId d).thr = d.thr ∧
      (init Devices.bus ⟨uartBase⟩ hartId d).ier < 16 := by
  rw [init_eq]
  simp only [Devices.bus_read, Devices.bus_write]
  obtain ⟨hdlab, hthr⟩ := initLine_spec ((initPlic Devices.bus hartId
    (d.write (uartBase + ier) 0x00)).write (uartBase + fcr) (1 <<< 0 ||| 1 <<< 1 ||| 1 <<< 2))
  rw [Devices.write_thr_of_ne (by decide), initPlic_thr,
    Devices.write_thr_of_ne (by decide)] at hthr
  rw [Devices.write_ier hdlab]
  exact ⟨hdlab, hthr, Nat.and_lt_two_pow (n := 4) _ (by decide)⟩

end Uart

/-! ## The two operations -/

section Operations

variable {service : UartService} {d : Devices} {l : List ℕ}

/-- Turning the interrupt off and on again leaves it on. -/
theorem Devices.enable_disable (h : d.dlab = false) (hier : d.ier < 16) :
    Uart.enableTransmitInterrupt bus ⟨uartBase⟩ (Uart.disableTransmitInterrupt bus ⟨uartBase⟩ d) =
      { d with ier := d.ier ||| 0x02 } := by
  have hbits : ∀ v < 16, (v &&& (0xff - 0x02) &&& 0x0f ||| 0x02) &&& 0x0f = v ||| 0x02 := by decide
  rw [disableTransmitInterrupt_eq h, enableTransmitInterrupt_eq (by exact h)]
  exact congrArg (fun v => { d with ier := v }) (hbits _ hier)

/-- **`putchar`** puts the byte last, or gives it back, and the interrupt is on afterwards. -/
theorem Uart.putchar_spec (hl : service.transmitBuffer.Holds l) (h : d.dlab = false)
    (hier : d.ier < 16) (c : ℕ) :
    ∃ res tr, Uart.putchar Devices.bus ⟨uartBase⟩ service d c =
      .ok (res, { service with transmitBuffer := tr }, { d with ier := d.ier ||| 0x02 }) ∧
      tr.Holds (l ++ match res with | .ok () => [c] | .error _ => []) := by
  rw [Uart.putchar]
  dsimp only
  rw [Devices.enable_disable h hier]
  rcases hl.push c with ⟨-, tr, hpush, htr⟩ | ⟨-, hpush⟩
  · rw [hpush]
    exact ⟨_, tr, rfl, htr⟩
  · rw [hpush]
    refine ⟨_, service.transmitBuffer, rfl, ?_⟩
    rw [List.append_nil]
    exact hl

/-- The loop of `send_data` writes the first bytes of the buffer. -/
theorem UartService.sendDataLoop_spec (n : ℕ) {tr : RingBuffer ℕ 4096} (hl : tr.Holds l)
    (h : d.dlab = false) :
    ∃ tr', sendDataLoop Devices.bus n tr d = .ok (tr', d.transmit (l.take n)) ∧
      tr'.Holds (l.drop n) := by
  induction n generalizing tr l d with
  | zero => exact ⟨tr, by rw [List.take_zero, d.transmit_nil, sendDataLoop], hl⟩
  | succ n ih =>
    rw [sendDataLoop]
    cases l with
    | nil =>
      rw [hl.pop_nil, ok_bind, List.take_nil, d.transmit_nil]
      exact ⟨tr, rfl, hl⟩
    | cons c l =>
      obtain ⟨tr₁, hpop, hl₁⟩ := hl.pop
      obtain ⟨tr', hloop, hl'⟩ := ih hl₁ ((d.transmit_dlab [c]).trans h)
      rw [d.transmit_transmit] at hloop
      rw [hpop, ok_bind]
      dsimp only
      rw [Devices.bus_write, Devices.write_thr h]
      exact ⟨tr', hloop, hl'⟩

/-- **`send_data`** writes the first bytes of the buffer, and turns the interrupt off if none are
left. -/
theorem UartService.sendData_spec (hl : service.transmitBuffer.Holds l) (h : d.dlab = false)
    (hier : d.ier < 16) : ∃ tr, service.sendData Devices.bus d =
      .ok ({ service with transmitBuffer := tr }, { d.transmit (l.take 16) with
        ier := if l.drop 16 = [] then d.ier &&& (0xff - 0x02) else d.ier }) ∧
        tr.Holds (l.drop 16) := by
  obtain ⟨tr, hloop, htr⟩ := sendDataLoop_spec Kernel.uartFifoCapacity hl h
  refine ⟨tr, ?_, htr⟩
  rw [sendData_eq, hloop, ok_bind]
  dsimp only
  have hmask : ∀ v < 16, v &&& (0xff - 0x02) &&& 0x0f = v &&& (0xff - 0x02) := by decide
  by_cases hempty : l.drop 16 = []
  · rw [if_pos (htr.isEmpty.mpr hempty), if_pos hempty,
      Devices.disableTransmitInterrupt_eq ((d.transmit_dlab _).trans h)]
    exact congrArg (fun v => Except.ok (_, { d.transmit (l.take 16) with ier := v })) (hmask _ hier)
  · rw [if_neg (mt htr.isEmpty.mp hempty), if_neg hempty]
    rfl

end Operations

/-! ## Runs -/

/-- An operation on the transmitter. -/
inductive TransmitOp
  | putchar (c : ℕ)
  | sendData
  deriving DecidableEq, Repr

/-- The service and the device, and the bytes that `putchar` has accepted so far. -/
structure Transmission where
  service : UartService
  devices : Devices
  accepted : List ℕ

namespace Transmission

/-- After `init`, with nothing in the buffers. -/
def start (hartId : ℕ) (d : Devices) : Transmission :=
  ⟨UartService.new, Uart.init Devices.bus ⟨uartBase⟩ hartId d, []⟩

/-- One operation. -/
def step (t : Transmission) : TransmitOp → Except Fault Transmission
  | .putchar c => do
    let (res, service, devices) ← Uart.putchar Devices.bus ⟨uartBase⟩ t.service t.devices c
    .ok ⟨service, devices, t.accepted ++ match res with | .ok () => [c] | .error _ => []⟩
  | .sendData => do
    let (service, devices) ← t.service.sendData Devices.bus t.devices
    .ok { t with service, devices }

/-- **Nothing is lost, reordered or stuck**, since a device `d` was initialised: the bytes written
since then and those in the buffer are those that were accepted, the interrupt of the transmitter is
on while there are bytes in the buffer, and the others are as they were after `init`. -/
structure Correct (hartId : ℕ) (d : Devices) (t : Transmission) : Prop where
  order : ∃ sent, t.devices.thr = d.thr ++ sent ∧
    sent ++ t.service.transmitBuffer.contents = t.accepted
  enabled : t.service.transmitBuffer.contents ≠ [] → t.devices.ier.testBit 1 = true
  unchanged : ∀ i, i ≠ 1 →
    t.devices.ier.testBit i = (start hartId d).devices.ier.testBit i

/-- The invariant of runs, with the bytes in the buffer. -/
structure Inv (hartId : ℕ) (d : Devices) (t : Transmission) (l : List ℕ) : Prop where
  holds : t.service.transmitBuffer.Holds l
  dlab : t.devices.dlab = false
  ier_lt : t.devices.ier < 16
  order : ∃ sent, t.devices.thr = d.thr ++ sent ∧ sent ++ l = t.accepted
  enabled : l ≠ [] → t.devices.ier.testBit 1 = true
  unchanged : ∀ i, i ≠ 1 → t.devices.ier.testBit i = (start hartId d).devices.ier.testBit i

variable {hartId : ℕ} {d : Devices} {t t' : Transmission} {l : List ℕ}

theorem Inv.correct (h : Inv hartId d t l) : Correct hartId d t := by
  have hcontents := h.holds.contents_eq
  exact ⟨hcontents ▸ h.order, hcontents ▸ h.enabled, h.unchanged⟩

theorem inv_start (hartId : ℕ) (d : Devices) : Inv hartId d (start hartId d) [] := by
  obtain ⟨hdlab, hthr, hier⟩ := Uart.init_spec hartId d
  exact ⟨.new, hdlab, hier, ⟨[], by rw [List.append_nil]; exact hthr, rfl⟩, fun h => absurd rfl h,
    fun _ _ => rfl⟩

theorem testBit_disable (v : ℕ) (hv : v < 16) {i : ℕ} (hi : i ≠ 1) :
    (v &&& (0xff - 0x02)).testBit i = v.testBit i := by
  rw [Nat.testBit_and]
  rcases Nat.lt_or_ge i 4 with hlt | hge
  · have : Nat.testBit (0xff - 0x02) i = true := by
      have hbits : ∀ j < 4, j ≠ 1 → Nat.testBit (0xff - 0x02) j = true := by decide
      exact hbits i hlt hi
    rw [this, Bool.and_true]
  · have hpow : 2 ^ 4 ≤ 2 ^ i := Nat.pow_le_pow_right (by decide) hge
    rw [Nat.testBit_lt_two_pow (hv.trans_le hpow), Bool.false_and]

theorem testBit_enable (v : ℕ) {i : ℕ} (hi : i ≠ 1) : (v ||| 0x02).testBit i = v.testBit i := by
  rw [Nat.testBit_or, show 0x02 = 2 ^ 1 from rfl, Nat.testBit_two_pow, decide_eq_false hi.symm,
    Bool.or_false]

/-- `putchar` keeps the invariant. -/
theorem Inv.putchar (h : Inv hartId d t l) (c : ℕ) :
    ∃ t' l', t.step (.putchar c) = .ok t' ∧ Inv hartId d t' l' := by
  obtain ⟨res, tr, hput, htr⟩ := Uart.putchar_spec h.holds h.dlab h.ier_lt c
  obtain ⟨sent, hthr, haccepted⟩ := h.order
  have hlt : ∀ v < 16, v ||| 0x02 < 16 := by decide
  rw [step, hput, ok_bind]
  refine ⟨_, _, rfl, htr, h.dlab, hlt _ h.ier_lt, ⟨sent, hthr, ?_⟩, fun _ => ?_, fun i hi => ?_⟩
  · rw [← haccepted, List.append_assoc]
  · rw [Nat.testBit_or, show Nat.testBit 0x02 1 = true by decide, Bool.or_true]
  · rw [testBit_enable _ hi]
    exact h.unchanged i hi

/-- `send_data` keeps the invariant, and it writes the first 16 bytes of the buffer. -/
theorem Inv.sendData (h : Inv hartId d t l) :
    ∃ t', t.step .sendData = .ok t' ∧ Inv hartId d t' (l.drop 16) ∧
      t'.devices.thr = t.devices.thr ++ l.take 16 := by
  obtain ⟨tr, hsend, htr⟩ := UartService.sendData_spec h.holds h.dlab h.ier_lt
  obtain ⟨sent, hthr, haccepted⟩ := h.order
  have hlt : ∀ v < 16, v &&& (0xff - 0x02) < 16 := by decide
  rw [step, hsend, ok_bind]
  refine ⟨_, rfl, ⟨htr, h.dlab, ?_, ⟨sent ++ l.take 16, ?_, ?_⟩, fun hne => ?_, fun i hi => ?_⟩,
    rfl⟩
  · dsimp only
    split
    · exact hlt _ h.ier_lt
    · exact h.ier_lt
  · rw [← List.append_assoc, ← hthr]
    rfl
  · rw [List.append_assoc, List.take_append_drop]
    exact haccepted
  · rw [if_neg hne]
    exact h.enabled fun hnil => hne (by rw [hnil, List.drop_nil])
  · dsimp only
    split
    · rw [testBit_disable _ h.ier_lt hi]
      exact h.unchanged i hi
    · exact h.unchanged i hi

/-- Every operation keeps the invariant. -/
theorem Inv.step (h : Inv hartId d t l) (op : TransmitOp) :
    ∃ t' l', t.step op = .ok t' ∧ Inv hartId d t' l' := by
  cases op with
  | putchar c => exact h.putchar c
  | sendData =>
    obtain ⟨t', hstep, h', -⟩ := h.sendData
    exact ⟨t', _, hstep, h'⟩

/-- Every run keeps the invariant. -/
theorem Inv.run (h : Inv hartId d t l) (ops : List TransmitOp) :
    ∃ t' l', exec Transmission.step t ops = .ok t' ∧ Inv hartId d t' l' := by
  induction ops generalizing t l with
  | nil => exact ⟨t, l, rfl, h⟩
  | cons op ops ih =>
    obtain ⟨t₁, l₁, hstep, h₁⟩ := h.step op
    rw [exec_cons_of_ok hstep]
    exact ih h₁

/-- **Every run of `putchar` and `send_data` after `init`** returns. Nothing is lost, reordered or
stuck, and a `send_data` that comes next writes the first 16 bytes of the buffer, or all if there
are fewer, and leaves the rest in it. -/
theorem correct_run (hartId : ℕ) (d : Devices) (ops : List TransmitOp) :
    ∃ t, exec Transmission.step (start hartId d) ops = .ok t ∧ Correct hartId d t ∧
      ∃ t', t.step .sendData = .ok t' ∧
        t'.devices.thr = t.devices.thr ++ t.service.transmitBuffer.contents.take 16 ∧
        t'.service.transmitBuffer.contents = t.service.transmitBuffer.contents.drop 16 := by
  obtain ⟨t, l, hrun, h⟩ := (inv_start hartId d).run ops
  obtain ⟨t', hsend, h', hthr⟩ := h.sendData
  rw [← h.holds.contents_eq] at h' hthr
  exact ⟨t, hrun, h.correct, t', hsend, hthr, h'.holds.contents_eq⟩

end Transmission

end CharlotteOs
