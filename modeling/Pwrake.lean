import Pwrake.Lib.Machine
import Pwrake.Lib.CondVar
import Pwrake.TaskQueue
import Pwrake.AffinityQueue
import Pwrake.AtomicTracing
import Pwrake.Circular
import Pwrake.Completion
import Pwrake.Connections
import Pwrake.Delivery
import Pwrake.FileDependencies
import Pwrake.EmptyBatch
import Pwrake.Hostlist
import Pwrake.Lib.KernelInteger
import Pwrake.Lib.Lines
import Pwrake.Lib.Search
import Pwrake.Locality
import Pwrake.Memoisation
import Pwrake.PoolInvariant
import Pwrake.QueueSize
import Pwrake.Rake
import Pwrake.Recovery
import Pwrake.Refinement
import Pwrake.Shell
import Pwrake.ShellBackquote
import Pwrake.ShellFraming
import Pwrake.ShellStatus
import Pwrake.Shutdown
import Pwrake.Stealing
import Pwrake.Stranding
import Pwrake.Agreement
import Pwrake.InvokeRuns
import Pwrake.LinkProgress
import Pwrake.SingleHost
import Pwrake.Lib.Numeral
import Pwrake.HostfileLayout
import Pwrake.GfarmPath
import Pwrake.OpenList
import Pwrake.MetisFile
