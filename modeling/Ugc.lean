import Ugc.StepRuns
import Ugc.ZeroedObjects
import Ugc.PlugSkew
import Ugc.InlineFastPath
import Ugc.ExactArithmetic
import Ugc.QuantumConservation
import Ugc.ThreadCounts
import Ugc.AllocationAccounting
import Ugc.FailedAllocations
import Ugc.ObjectAlignment
import Ugc.StoreInvariant
import Ugc.StoreCapacity
import Ugc.StaleHandles
import Ugc.RecyclingOrder
import Ugc.HandleConversion
import Ugc.DestroyGuard
import Ugc.ManagerRefinement
import Ugc.SignedLists
import Ugc.MergedLists
import Ugc.PackageHistory
import Ugc.EmbeddedLists
import Ugc.ReleaseGate
import Ugc.IndependentRuns
import Ugc.HeapThreads
import Ugc.ExtentTilings
import Ugc.WalkableHeap
import Ugc.KeptMemory
import Ugc.Collector
import Ugc.ExtentTotals
import Ugc.Footprint
import Ugc.Interface
import Ugc.MemoryReports
import Ugc.Contracts
import Ugc.PublishedContracts
import Ugc.AllocationContract
import Ugc.FixedArrays
import Ugc.StaticStore
