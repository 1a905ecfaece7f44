import Zigk.Tcp.FinSequence
import Zigk.Tcp.LateAck
import Zigk.Tcp.RetryBudget
import Zigk.Tcp.RecvStream
import Zigk.Tcp.FinOrder
import Zigk.Tcp.HalfClose
import Zigk.Mm.PmmRuns
import Zigk.Mm.HeapRun
import Zigk.Proc.ForkContext
import Zigk.Tcp.WindowScale
import Zigk.Tcp.HalfOpen
import Zigk.Tcp.Locks
import Zigk.Tcp.AddressFamily
import Zigk.Io.TimerWheel
import Zigk.Io.Eventfd
import Zigk.Io.UringLedger
import Zigk.Proc.Wakeup
import Zigk.Proc.FutexTimeout
import Zigk.Sys.Seccomp
import Zigk.Fs.FileIdentity
import Zigk.Fs.SfsIsolation
import Zigk.Fs.SfsNames
import Zigk.Ipc.SemUndo
import Zigk.Ipc.WakeupsKept
import Zigk.Proc.Identity
import Zigk.Ipc.ShmLifetime
import Zigk.Ipc.KernelRing
import Zigk.Proc.SignalReturn
import Zigk.Proc.SignalQueue
import Zigk.Proc.TreeInvariant
import Zigk.Net.ArpInvariant
import Zigk.Ipc.Mailbox
import Zigk.Net.Unix
import Zigk.Fs.PipeWakeups
import Zigk.Fs.FdAccounts
import Zigk.Fs.SfsContents
import Zigk.Fs.FlockHolders
import Zigk.Net.Checksum
import Zigk.Net.ReassemblyComplete
import Zigk.Fs.PageCacheCoherence
import Zigk.Fs.Dup2
import Zigk.Mm.DmaCalls
import Zigk.Fs.SfsAllocRuns
import Zigk.Tcp.OptionsCodec
import Zigk.Tcp.StateTimeouts
import Zigk.Fs.SfsRename
import Zigk.Fs.PageRefs
import Zigk.Mm.MemoryArith
import Zigk.Net.DnsRecords
