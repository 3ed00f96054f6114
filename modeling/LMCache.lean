import LMCache.L1.Listeners
import LMCache.Prefetch.NativeFold
import LMCache.Prefetch.Conservation
import LMCache.MaKV.BatchAgreement
import LMCache.MaKV.LowBitPacking
import LMCache.Memory.DevDaxCapacity
import LMCache.Memory.PagedLayoutSpec
import LMCache.MaKV.ChunkIndependence
import LMCache.Serde.Privacy
import LMCache.Coordinator.StreamFidelity
import LMCache.Coordinator.ConsistentCapture
import LMCache.CacheController.AtRest
import LMCache.Storage.OneLayout
import LMCache.Storage.LoadFailures
import LMCache.Storage.HotCache
import LMCache.MaKV.RestoreRoundTrip
import LMCache.MaKV.DecodeSafety
import LMCache.MaKV.CoderRoundTrip
import LMCache.MaKV.QdmSpec
import LMCache.MaKV.ScoutLifetime
import LMCache.MaKV.NaiveRoundTrip
import LMCache.Blend.LockBalance
import LMCache.Blend.Overlap
import LMCache.Native.RangePatternMatcher
import LMCache.Multiprocess.Session
import LMCache.KVCodec.BoundsSafety
import LMCache.KVCodec.WritePath
import LMCache.Prefetch.Submission
import LMCache.RawBlock.LayoutSpec
import LMCache.L2.RawBlockUsage
import LMCache.L2.NativeConnectorUsage
import LMCache.CacheController.FreezeExit
import LMCache.Coordinator.SharedPools
import LMCache.Coordinator.Declarations
import LMCache.Coordinator.AtomicRestore
import LMCache.Coordinator.WindowHashes
import LMCache.Coordinator.Restarts
import LMCache.Eviction.LastUse
import LMCache.L1.Lapse
import LMCache.Memory.LowestAddress
