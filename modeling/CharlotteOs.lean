import CharlotteOs.DataStruct.BoundedQueue
import CharlotteOs.DataStruct.IrqLock
import CharlotteOs.DataStruct.RingBuf
import CharlotteOs.Driver.DeviceAccess
import CharlotteOs.Driver.Transmit
import CharlotteOs.Driver.Uart
import CharlotteOs.Fault
import CharlotteOs.Lib.Bus
import CharlotteOs.Lib.Chain
import CharlotteOs.Lib.Dyadic
import CharlotteOs.Lib.Greedy
import CharlotteOs.Lib.Intervals
import CharlotteOs.Lib.Refinement
import CharlotteOs.Lib.Run
import CharlotteOs.Lib.Slots
import CharlotteOs.Lib.TableLeaves
import CharlotteOs.Lib.TableTree
import CharlotteOs.Lib.Trace
import CharlotteOs.Lib.Usize
import CharlotteOs.Mm.Address
import CharlotteOs.Mm.AddressSpace
import CharlotteOs.Mm.AddressSpaces
import CharlotteOs.Mm.BootMap
import CharlotteOs.Mm.BootReserve
import CharlotteOs.Mm.BootRun
import CharlotteOs.Mm.BootSpace
import CharlotteOs.Mm.BootTables
import CharlotteOs.Mm.BootWindow
import CharlotteOs.Mm.Buddy
import CharlotteOs.Mm.BuddyRuns
import CharlotteOs.Mm.BuddySpec
import CharlotteOs.Mm.BuddyUse
import CharlotteOs.Mm.BumpMap
import CharlotteOs.Mm.EarlyAlloc
import CharlotteOs.Mm.GlobalAlloc
import CharlotteOs.Mm.GlobalRuns
import CharlotteOs.Mm.Handover
import CharlotteOs.Mm.LinearMap
import CharlotteOs.Mm.MapPage
import CharlotteOs.Mm.MapSegment
import CharlotteOs.Mm.MemMap
import CharlotteOs.Mm.Memblock
import CharlotteOs.Mm.MemblockRuns
import CharlotteOs.Mm.PageTable
import CharlotteOs.Mm.PageTableSpec
import CharlotteOs.Mm.RegionBlocks
import CharlotteOs.Mm.RegionExact
import CharlotteOs.Mm.RegionSlots
import CharlotteOs.Mm.Segments
import CharlotteOs.Mm.SlabRuns
import CharlotteOs.Mm.Slub
import CharlotteOs.Mm.SlubCarving
import CharlotteOs.Mm.SlubLists
import CharlotteOs.Mm.SlubRuns
import CharlotteOs.Mm.SlubSpec
import CharlotteOs.Mm.SlubTermination
import CharlotteOs.Mm.UnmapSegment
import CharlotteOs.System.Boot
import CharlotteOs.System.BootSwitch
import CharlotteOs.System.Footprints
import CharlotteOs.System.Memory
import CharlotteOs.Task.Alive
import CharlotteOs.Task.Bare
import CharlotteOs.Task.Fifo
import CharlotteOs.Task.RunQueue
import CharlotteOs.Task.SavedContexts
import CharlotteOs.Task.Scheduler
import CharlotteOs.Task.SchedulerRuns
import CharlotteOs.Task.SchedulerSpec
import CharlotteOs.Task.SchedulerState
import CharlotteOs.Task.SleepQueue
import CharlotteOs.Task.StackRuns
import CharlotteOs.Task.UserMode
import CharlotteOs.Trap.Deadlines
import CharlotteOs.Trap.Entry
import CharlotteOs.Trap.FirstDispatch
import CharlotteOs.Trap.FirstSwitch
import CharlotteOs.Trap.Interrupts
import CharlotteOs.Trap.Kernel
import CharlotteOs.Trap.KernelSpec
import CharlotteOs.Trap.LifeCycle
import CharlotteOs.Trap.Oversleep
import CharlotteOs.Trap.ReaderOrder
import CharlotteOs.Trap.ResumeRuns
import CharlotteOs.Trap.SavedRegs
import CharlotteOs.Trap.SchedTrace
import CharlotteOs.Trap.UartRuns
import CharlotteOs.Trap.Waiting
import CharlotteOs.Trap.WakeRuns
