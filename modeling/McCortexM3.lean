import McCortexM3.Fpga.Reconfig
import McCortexM3.Kernel.RoundRobin
import McCortexM3.Kernel.Smp
import McCortexM3.Kernel.Ends
import McCortexM3.Flash.SpiFlash
import McCortexM3.Fpga.AhbRam
import McCortexM3.Ipc.Semaphore
import McCortexM3.Ipc.Inversion
import McCortexM3.Ipc.Order
import McCortexM3.Ipc.Retry
import McCortexM3.Ipc.MailboxWakeups
import McCortexM3.Ipc.MessageOrder
import McCortexM3.Ipc.EventOrders
import McCortexM3.Timer.Interleave
import McCortexM3.Timer.Flag
import McCortexM3.Timer.ClockTime
import McCortexM3.Mem.Stats
import McCortexM3.Mem.MemheapTiled
import McCortexM3.Mem.MemheapContents
import McCortexM3.Mem.PoolWaits
import McCortexM3.Mem.SlabRuns
import McCortexM3.Mem.Pages
import McCortexM3.Signal.Mask
import McCortexM3.Signal.Pending
import McCortexM3.Drivers.SerialDma
import McCortexM3.Drivers.Completion
import McCortexM3.Drivers.WorkQueue
import McCortexM3.Dfs.Unlink
import McCortexM3.Dfs.Descriptors
import McCortexM3.Drivers.CanRx
import McCortexM3.Drivers.BxCanRuns
import McCortexM3.Drivers.CanPrivate
import McCortexM3.Pthread.Cond
import McCortexM3.Pthread.RwlockStranded
import McCortexM3.Pthread.ThreadBlocks
import McCortexM3.Dfs.Ramfs
import McCortexM3.Dfs.Poll
import McCortexM3.Drivers.AlarmRuns
import McCortexM3.Ymodem.Transfers
import McCortexM3.Finsh.Acceptance
import McCortexM3.Finsh.LineSafety
import McCortexM3.Ulog.Notice
import McCortexM3.Zmodem.RoundTrip
import McCortexM3.Kservice.Truncation
import McCortexM3.Kservice.Numbers
import McCortexM3.Kservice.Memory
import McCortexM3.Kservice.AlignedBlocks
import McCortexM3.Drivers.RingForce
import McCortexM3.Drivers.PipeProgress
import McCortexM3.Drivers.RingQueue
import McCortexM3.Timer.Termination
import McCortexM3.Timer.SoftThread
import McCortexM3.Drivers.SerialIntRx
import McCortexM3.Finsh.History
import McCortexM3.Finsh.Split
import McCortexM3.Drivers.BxCanBanks
import McCortexM3.Drivers.BxCanLock
import McCortexM3.Finsh.Symtab
import McCortexM3.Libdl.Relocate
import McCortexM3.Mem.History
