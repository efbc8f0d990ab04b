import HitOS.Mm.RegionRuns
import HitOS.Mm.FrameInit
import HitOS.Mm.LockedRanges
import HitOS.Mm.CowRuns
import HitOS.Arch.LoongAsid
import HitOS.Bpf.KindSoundness
import HitOS.Bpf.AluResults
import HitOS.Net.FilterSafety
import HitOS.Ipc.SemHistory
import HitOS.Ipc.SemWakeups
import HitOS.Ipc.MsgHistory
import HitOS.Mm.RegionQueries
import HitOS.Syscall.ShmMapping
import HitOS.Fs.PipeEndpoint
import HitOS.Fs.PipeWakeups
import HitOS.Syscall.RecordLockDeadlock
import HitOS.Ipc.PosixMq
import HitOS.Fs.TimerFdWakeups
import HitOS.Syscall.FutexWords
import HitOS.Task.RunnableTasks
import HitOS.Task.PidAllocator
import HitOS.Syscall.Identity
import HitOS.Net.ReplayCounter
import HitOS.Net.Netlink
import HitOS.Syscall.EpollWait
import HitOS.Fs.CgroupPids
import HitOS.Task.AlarmTimers
import HitOS.Task.SleepTimers
import HitOS.Task.RtPreemption
import HitOS.Task.SignalDelivery
import HitOS.Task.SignalContext
import HitOS.Fs.CgroupFreezer
