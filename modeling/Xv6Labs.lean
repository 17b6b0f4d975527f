import Xv6Labs.Alarm.Period
import Xv6Labs.Alarm.Transparency
import Xv6Labs.Cow.AfterFork
import Xv6Labs.Cow.FaultLoop
import Xv6Labs.Cow.ForkFail
import Xv6Labs.Cow.Protected
import Xv6Labs.Cow.Refine
import Xv6Labs.Cow.Smp
import Xv6Labs.Super.Fork
import Xv6Labs.Super.Kalloc
import Xv6Labs.Super.Vmprint
import Xv6Labs.Super.Walk
import Xv6Labs.Traps.Backtrace
import Xv6Labs.Util.Find
import Xv6Labs.Util.Xargs
import Xv6Labs.Lib.Sieve
import Xv6Labs.Primes.Chain
import Xv6Labs.Super.Release
import Xv6Labs.Super.Rounds
import Xv6Labs.Super.Uvmalloc
import Xv6Labs.Super.Proc
import Xv6Labs.Primes.Schedule
import Xv6Labs.Super.Grow
import Xv6Labs.Super.Growproc
import Xv6Labs.Super.Record
import Xv6Labs.Attack.Reuse
import Xv6Labs.Cow.Balance
import Xv6Labs.Exec.Args
import Xv6Labs.Syscall.Trace
import Xv6Labs.Util.Pingpong
import Xv6Labs.Super.Alone
import Xv6Labs.Super.Boot
import Xv6Labs.Super.Program
import Xv6Labs.Super.Ugetpid
