import MemTier.Resumption.Program
import MemTier.Resumption.RelyGuarantee
import MemTier.Resumption.Evaluation
import MemTier.Containers.Bytes
import MemTier.Containers.LinkedList
import MemTier.Containers.Recency
import MemTier.Containers.SlotCache
import MemTier.Containers.Counter
import MemTier.Containers.Visits
import MemTier.Containers.RecencyStore
import MemTier.Posix
import MemTier.Runtime.Types
import MemTier.Runtime.CacheDirectory
import MemTier.Runtime.CacheBounds
import MemTier.Runtime.CacheAccounting
import MemTier.Runtime.PathIndependence
import MemTier.Runtime.VectoredReads
import MemTier.Runtime.PrefetchResidency
import MemTier.Runtime.AsyncProgress
import MemTier.Runtime.DisabledCache
import MemTier.Runtime.GpuRequests
import MemTier.Runtime.Conservation
import MemTier.Runtime.Coalescing
import MemTier.Runtime.FilePrep
import MemTier.Runtime.ChunkLoads
import MemTier.Embedding.DramRecords
import MemTier.Embedding.Metering
import MemTier.Embedding.SlotAllocators
import MemTier.Embedding.ArrivalOrder
import MemTier.Embedding.TableFile
import MemTier.Embedding.Wraparound
import MemTier.Embedding.BlockedBags
import MemTier.Embedding.Hierarchy
import MemTier.Embedding.Traffic
import MemTier.Embedding.DeferredCopies
import MemTier.Embedding.ServedBags
import MemTier.Embedding.Competition
import MemTier.Embedding.Prefetching
import MemTier.Embedding.RunOutcome
import MemTier.Embedding.Prediction
import MemTier.Embedding.Workload
import MemTier.Trace.BlockView
import MemTier.Trace.DeclaredTable
import MemTier.Trace.CriteoRows
import MemTier.Trace.CacheSimulation
import MemTier.Trace.ReuseStatistics
import MemTier.Trace.RuntimeAgreement
import MemTier.Dataset.ParserAgreement
import MemTier.Managed.Accounting
import MemTier.Managed.Races
import MemTier.Managed.TouchGpu
import MemTier.Managed.TensorContents
import MemTier.Managed.FileDatasets
