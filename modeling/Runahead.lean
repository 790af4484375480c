import Runahead.Library.Transition
import Runahead.Library.UndoLog
import Runahead.Library.Grid
import Runahead.DynInst
import Runahead.Rob
import Runahead.O3.Commit
import Runahead.O3.Rename
import Runahead.O3.Cpu
import Runahead.O3.CommitStep
import Runahead.O3.Pipeline
import Runahead.O3.PipelineStep
import Runahead.O3.PipelineCommit
import Runahead.O3.Frame
import Runahead.O3.Mode
import Runahead.O3.Window
import Runahead.O3.WindowStep
import Runahead.O3.WindowCommit
import Runahead.O3.WindowRun
import Runahead.O3.ExitSquash
import Runahead.O3.RenameUnit
import Runahead.O3.Allocation
import Runahead.O3.RenameInv
import Runahead.O3.RenameCommit
import Runahead.O3.InvBits
import Runahead.O3.InvBitsCommit
import Runahead.O3.Flush
import Runahead.O3.Registers
import Runahead.O3.InstList
import Runahead.O3.RobThreads
import Runahead.O3.ActiveThreads
import Runahead.O3.InstQueue
import Runahead.O3.InstQueueEntries
import Runahead.O3.InstQueueFrame
import Runahead.O3.EntryConservation
import Runahead.O3.InstQueueReady
import Runahead.O3.InstQueueWriteback
import Runahead.O3.Wakeup
import Runahead.O3.VecMode
import Runahead.O3.LsqAccess
import Runahead.O3.LsqUnit
import Runahead.O3.LsqUnitInv
import Runahead.O3.LsqStall
import Runahead.O3.LsqUnitOrder
import Runahead.O3.LsqReplay
import Runahead.O3.LsqViolations
import Runahead.O3.LsqForwarding
import Runahead.O3.SplitRequest
import Runahead.O3.SplitPackets
import Runahead.O3.LsqRequest
import Runahead.O3.LsqOwnership
import Runahead.O3.MemDepUnit
import Runahead.O3.MemDepShape
import Runahead.O3.MemDepBarriers
import Runahead.O3.StoreSet
import Runahead.O3.MiscRegs
import Runahead.O3.RobSquash
import Runahead.O3.FuPool
import Runahead.O3.RunaheadMarks
import Runahead.Mem.Mshr
import Runahead.Mem.Caches
import Runahead.Mem.Outstanding
import Runahead.Mem.L2Miss
import Runahead.Pre.SquashArbitration
import Runahead.Pre.StallingSlice
import Runahead.Pre.Retarget
import Runahead.Pre.Rename
import Runahead.Pre.Prdq
import Runahead.Pre.PrdqCapacity
