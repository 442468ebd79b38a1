import TgosKits.BlockCache.FrameBudget
import TgosKits.Buddy.Restore
import TgosKits.Cgroup.Path
import TgosKits.Ext4.Conversion
import TgosKits.Ext4.Shift
import TgosKits.FileLock.Deadlock
import TgosKits.FileLock.Wakeups
import TgosKits.MemorySet.FirstFit
import TgosKits.MemorySet.Rollback
import TgosKits.PageTable.Atomicity
import TgosKits.PageTable.Retirement
import TgosKits.Process.Reap
import TgosKits.Sched.Bandwidth
import TgosKits.Sched.FairPlacement
import TgosKits.Sched.PiRace
import TgosKits.Sched.PiTree
import TgosKits.Signal.Flags
import TgosKits.Signal.Frame
import TgosKits.Signal.Kill
import TgosKits.Signal.Queues
import TgosKits.Slab.Base
import TgosKits.Slab.Interleaving
import TgosKits.Virtio.Descriptor
