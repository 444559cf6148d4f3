import CharlotteOs.DataStruct.RingBuf
import CharlotteOs.Lib.Usize
import CharlotteOs.Task.Scheduler

/-!
# Traps, system calls and the UART service

`src/trap`, `src/syslib/syscall.rs`: a trap saves the registers to the context that `sscratch`
points to, the handler runs to its end with interrupts off, and the registers are loaded from the
context that `sscratch` then points to. `sscratch` points to the context of a task, or to
`KERNEL_INIT_CONTEXT` before the first dispatch.

What a handler reads from outside, the clock and the registers of the devices, is given as
`Inputs`. The PLIC's completion register and the console of the firmware are only written to, and
left out.

## Main definitions

* `UartService`, `Kernel`: the state that traps work on
* `Kernel.sleep`, `Kernel.uartRead`, `Kernel.schedule`: the system calls
* `Kernel.uartInterruptHandler`: the interrupt of the UART
* `Kernel.trapHandler`, `Kernel.trapEntry`: dispatch, and the path of the registers
-/

namespace CharlotteOs

/-- `UartService`. The last element of `waitQueue` is its back. -/
structure UartService where
  receiveBuffer : RingBuffer ℕ 4096
  transmitBuffer : RingBuffer ℕ 4096
  waitQueue : List ℕ

/-- `UartService::new`. -/
def UartService.new : UartService := ⟨RingBuffer.new, RingBuffer.new, []⟩

/-- The kernel between two traps: the scheduler with its allocator, the UART service, the `IER`
register and the bytes written to `THR` so far, and where `sscratch` points to. -/
structure Kernel where
  scheduler : Scheduler
  buddy : BuddySystemFrameAllocator
  uart : UartService
  ier : ℕ
  thr : List ℕ
  sscratch : Option ℕ
  initContext : TaskContext

/-- What a trap handler reads: the clock, the claimed interrupt of the PLIC, and the `ISR` and
`RHR` registers of the UART. -/
structure Inputs where
  time : ℕ
  irq : ℕ
  isr : ℕ
  rhr : ℕ
  deriving DecidableEq, Repr

/-- `usize::MAX`. -/
abbrev usizeMax : ℕ := 2 ^ 64 - 1

/-- `ONE_MS_CYCLES`. -/
abbrev oneMsCycles : ℕ := 10_000_000 / 1000

/-- The time in clock cycles after a number of milliseconds from now. -/
def afterMs (now ms : ℕ) : ℕ := (now + ms * oneMsCycles) % 2 ^ 64

/-- `sepc += 4`: the context continues after its `ecall`. -/
def TaskContext.skipEcall (ctx : TaskContext) : TaskContext :=
  { ctx with sepc := (ctx.sepc + 4) % 2 ^ 64 }

namespace Kernel

/-! ## Contexts -/

/-- The context a pointer points to. -/
def loadContext (k : Kernel) : Option ℕ → Except Fault TaskContext
  | none => .ok k.initContext
  | some id =>
    match k.scheduler.taskList[id]? with
    | some (some tcb) => .ok tcb.context
    | _ => .error .danglingContext

/-- The kernel after a store to the context a pointer points to. -/
def storeContext (k : Kernel) (ctx : TaskContext) : Option ℕ → Except Fault Kernel
  | none => .ok { k with initContext := ctx }
  | some id =>
    match k.scheduler.taskList[id]? with
    | some (some tcb) =>
      .ok { k with scheduler := k.scheduler.setTcb id { tcb with context := ctx } }
    | _ => .error .danglingContext

/-- The end of a handler that switches tasks: `sscratch` gets the pointer to the context of the
task that is now current, and the handler returns that task's program counter. -/
def switchTo (k : Kernel) : Except Fault (ℕ × Kernel) := do
  let ctx ← k.loadContext k.scheduler.currentTaskId
  .ok (ctx.sepc, { k with sscratch := k.scheduler.currentTaskId })

/-- `schedule_on_interrupt` and the switch to the task it chooses. -/
def scheduleOnInterrupt (k : Kernel) : Except Fault (ℕ × Kernel) := do
  let (scheduler, buddy) ← k.scheduler.prepareNextTask k.buddy
  switchTo { k with scheduler, buddy }

/-! ## System calls -/

/-- `schedule`. -/
def schedule (k : Kernel) (tcb : Option ℕ) : Except Fault (ℕ × Kernel) := do
  let ctx ← k.loadContext tcb
  let k ← k.storeContext ctx.skipEcall tcb
  k.scheduleOnInterrupt

/-- The common end of the calls that block the current task for a time or without end. -/
def blockUntil (k : Kernel) : Option ℕ → Except Fault (ℕ × Kernel)
  | some wakeTime => do
    let scheduler ← k.scheduler.setCurrentTaskSleep wakeTime
    switchTo { k with scheduler }
  | none => do
    let scheduler ← k.scheduler.blockCurrentTask
    switchTo { k with scheduler }

/-- `sleep`. -/
def sleep (k : Kernel) (tcb : Option ℕ) (now : ℕ) : Except Fault (ℕ × Kernel) := do
  let ctx ← k.loadContext tcb
  let k ← k.storeContext ctx.skipEcall tcb
  k.blockUntil (some (afterMs now ctx.a0))

/-- A call returns to its task at once, with a result. -/
def returnWith (k : Kernel) (tcb : Option ℕ) (ctx : TaskContext) (result : ℕ) :
    Except Fault (ℕ × Kernel) := do
  let k ← k.storeContext { ctx with a0 := result } tcb
  .ok (ctx.sepc, k)

/-- The result of `uart_read` for a byte of the buffer. -/
def readResult (c : ℕ) : ℕ := if 0x80 ≤ c then usizeMax else c

/-- `uart_read`. -/
def uartRead (k : Kernel) (tcb : Option ℕ) (now : ℕ) : Except Fault (ℕ × Kernel) := do
  let ctx ← k.loadContext tcb
  let timeoutMs := ctx.a0
  let ctx := ctx.skipEcall
  match ← k.uart.receiveBuffer.pop with
  | (some c, receiveBuffer) =>
    returnWith { k with uart := { k.uart with receiveBuffer } } tcb ctx (readResult c)
  | (none, receiveBuffer) =>
    if timeoutMs = 0 then k.returnWith tcb ctx usizeMax
    else do
      let taskId ← k.scheduler.getCurrentTaskId
      let k := { k with uart := { k.uart with waitQueue := k.uart.waitQueue ++ [taskId] } }
      -- the buffer is looked at again, for a byte that came before the task was in the queue
      if !receiveBuffer.isEmpty then do
        let waitQueue := k.uart.waitQueue.dropLast
        match ← receiveBuffer.pop with
        | (none, _) => .error .unwrapNone
        | (some c, receiveBuffer) =>
          returnWith { k with uart := { k.uart with receiveBuffer, waitQueue } } tcb ctx
            (readResult c)
      else do
        let k ← k.storeContext { ctx with a0 := usizeMax } tcb
        if timeoutMs < usizeMax then k.blockUntil (some (afterMs now timeoutMs))
        else k.blockUntil none

/-- `uart_write_byte`. -/
def uartWriteByte (k : Kernel) (tcb : Option ℕ) : Except Fault (ℕ × Kernel) := do
  let ctx ← k.loadContext tcb
  k.returnWith tcb ctx.skipEcall 0

/-- `exit_current_task`. -/
def exitCurrentTask (k : Kernel) : Except Fault Kernel := do
  let scheduler ← k.scheduler.exitCurrentTask
  .ok { k with scheduler }

/-! ## The UART's interrupt -/

/-- `UART_FIFO_CAPACITY`. -/
abbrev uartFifoCapacity : ℕ := 16

/-- The loop of `send_data`, with the number of bytes it may still write. -/
def sendDataLoop : ℕ → Kernel → Except Fault Kernel
  | 0, k => .ok k
  | n + 1, k => do
    match ← k.uart.transmitBuffer.pop with
    | (none, _) => .ok k
    | (some character, transmitBuffer) =>
      sendDataLoop n
        { k with uart := { k.uart with transmitBuffer }, thr := k.thr ++ [character] }

/-- `send_data`. -/
def sendData (k : Kernel) : Except Fault Kernel := do
  let k ← sendDataLoop uartFifoCapacity k
  if k.uart.transmitBuffer.isEmpty then .ok { k with ier := k.ier &&& (0xff - 0x02) } else .ok k

/-- The arm of `uart_interrupt_handler` for a received byte. -/
def receive (k : Kernel) (receivedChar : ℕ) : Except Fault Kernel :=
  if 0x80 ≤ receivedChar then .ok k
  else
    match k.uart.waitQueue.getLast? with
    | some taskId => do
      let scheduler ← k.scheduler.wakeUpTaskWithResult taskId receivedChar
      .ok { k with scheduler, uart := { k.uart with waitQueue := k.uart.waitQueue.dropLast } }
    | none => do
      -- the byte is dropped if there is no room for it
      let (_, receiveBuffer) ← k.uart.receiveBuffer.push receivedChar
      .ok { k with uart := { k.uart with receiveBuffer } }

/-- `uart_interrupt_handler`. -/
def uartInterruptHandler (k : Kernel) (io : Inputs) : Except Fault Kernel :=
  if io.isr &&& 0x01 = 1 then .ok k
  else
    match io.isr &&& 0b1110 with
    | 0b0010 => k.sendData
    | 0b0100 => k.receive io.rhr
    | _ => .ok k

/-- `plic_handler`. -/
def plicHandler (k : Kernel) (io : Inputs) : Except Fault Kernel :=
  if io.irq = 10 then k.uartInterruptHandler io else .ok k

/-! ## Traps -/

/-- `TrapCause`, with the causes of interrupts and exceptions. -/
inductive TrapCause
  | supervisorTimerInterrupt
  | supervisorExternalInterrupt
  | unknownInterrupt
  | userEcall
  | unknownException
  deriving DecidableEq, Repr

/-- `parse_trap_cause`. -/
def parseTrapCause (scause : ℕ) : TrapCause :=
  let code := scause &&& Usize.notWord (2 ^ 63)
  if scause &&& 2 ^ 63 ≠ 0 then
    match code with
    | 5 => .supervisorTimerInterrupt
    | 9 => .supervisorExternalInterrupt
    | _ => .unknownInterrupt
  else
    match code with
    | 8 => .userEcall
    | _ => .unknownException

/-- The end of `trap_handler` for a trap that does not switch tasks. -/
def returnTo (k : Kernel) (tcb : Option ℕ) : Except Fault (ℕ × Kernel) := do
  let ctx ← k.loadContext tcb
  .ok (ctx.sepc, k)

/-- The arm of `trap_handler` for an `ecall`. -/
def ecall (k : Kernel) (tcb : Option ℕ) (now : ℕ) : Except Fault (ℕ × Kernel) := do
  let ctx ← k.loadContext tcb
  match ctx.a7 with
  | 1 => k.uartWriteByte tcb
  | 7 => k.schedule tcb
  | 9 => do
    let k ← k.exitCurrentTask
    k.schedule tcb
  | 10 => .error .shutdown
  | 17 => k.sleep tcb now
  | 27 => k.uartRead tcb now
  | _ => k.returnTo tcb

/-- `trap_handler`: the program counter to return to, and the kernel. -/
def trapHandler (k : Kernel) (tcb : Option ℕ) (scause : ℕ) (io : Inputs) :
    Except Fault (ℕ × Kernel) :=
  match parseTrapCause scause with
  | .supervisorTimerInterrupt => do
    let scheduler ← k.scheduler.finishSleep io.time
    scheduleOnInterrupt { k with scheduler }
  | .supervisorExternalInterrupt => do
    let k ← k.plicHandler io
    k.returnTo tcb
  | .userEcall => k.ecall tcb io.time
  | .unknownInterrupt | .unknownException => k.returnTo tcb

/-- `trap_entry`: the registers are saved, and those of the task to run are loaded. -/
def trapEntry (k : Kernel) (regs : TaskContext) (scause : ℕ) (io : Inputs) :
    Except Fault (TaskContext × Kernel) := do
  let k ← k.storeContext regs k.sscratch
  let (sepc, k) ← k.trapHandler k.sscratch scause io
  let ctx ← k.loadContext k.sscratch
  .ok ({ ctx with sepc }, k)

/-- `run_scheduler`: the first dispatch, and the registers `first_switch_to` loads. -/
def runScheduler (k : Kernel) : Except Fault (TaskContext × Kernel) := do
  let (sepc, k) ← k.scheduleOnInterrupt
  let ctx ← k.loadContext k.sscratch
  .ok ({ ctx with sepc }, k)

end Kernel

end CharlotteOs
