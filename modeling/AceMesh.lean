import AceMesh.Lib.Release
import AceMesh.Lib.Runs
import AceMesh.TaskDagGraph
import AceMesh.Construction
import AceMesh.Bookkeeping
import AceMesh.Closing
import AceMesh.Dependence
import AceMesh.Scheduler
import AceMesh.Turn
import AceMesh.Round
import AceMesh.RoundRun
import AceMesh.Launch
import AceMesh.Lib.Serial
import AceMesh.Parallel
import AceMesh.Lib.Linked
import AceMesh.Stack
import AceMesh.PrivateQueue
import AceMesh.Reuse
import AceMesh.Session
import AceMesh.SessionRun
import AceMesh.Resumption
import AceMesh.Choice
import AceMesh.Stealing
import AceMesh.MemPool
import AceMesh.Deletion
import AceMesh.Recycling
import AceMesh.Lib.Intervals
import AceMesh.LoopTiles
import AceMesh.OffsetTiles
import AceMesh.Lib.Loops
import AceMesh.Lib.Memory
import AceMesh.Reshape
import AceMesh.Strided
import AceMesh.SpecifiedEnds
import AceMesh.Merging
import AceMesh.Conflict
import AceMesh.Lib.Kahn
import AceMesh.GraphCheck
import AceMesh.MainHand
import AceMesh.Lib.Phases
import AceMesh.Separation
import AceMesh.PartEnds
import AceMesh.ManualPartition
import AceMesh.DisjoinSet
import AceMesh.DisjoinSetRun
import AceMesh.AutoPartition
import AceMesh.PartitionTable
import AceMesh.Freeing
import AceMesh.Keeping
import AceMesh.Lifetimes
import AceMesh.LoopNames
import AceMesh.Tracer
import AceMesh.RaceTrace
import AceMesh.Stock
import AceMesh.Mismatch
import AceMesh.Process
import AceMesh.Lib.Places
import AceMesh.MpiStrategy
import AceMesh.MpiTurn
import AceMesh.MpiPlaces
import AceMesh.MpiRun
import AceMesh.Suspension
import AceMesh.OneShot
import AceMesh.Lib.CInt
import AceMesh.Splitter
import AceMesh.ThreadGroup
import AceMesh.Polling
import AceMesh.ArrayTiles
import AceMesh.NumaStealing
import AceMesh.AffinityIds
import AceMesh.Pool
import AceMesh.CoreList
import AceMesh.RuntimeInit
import AceMesh.Program
import AceMesh.ProgramRun
import AceMesh.DebugGraph
import AceMesh.Lib.PyText
import AceMesh.GetLoopInfo
import AceMesh.LoopDependence
import AceMesh.Lib.Fair
import AceMesh.Termination
import AceMesh.Lib.Refinement
import AceMesh.OwnQueues
import AceMesh.OwnProgress
import AceMesh.Lib.Atomic
import AceMesh.ConcurrentQueue
