import FreeSampler.Framework.Memory
import FreeSampler.Framework.Bytes
import FreeSampler.Framework.Run
import FreeSampler.Framework.Fields
import FreeSampler.Framework.SlotTable
import FreeSampler.Framework.LazyHeap
import FreeSampler.Framework.Keyed
import FreeSampler.Framework.Replacement
import FreeSampler.Framework.Kept
import FreeSampler.Tlm.Payload
import FreeSampler.Tlm.WordMemory
import FreeSampler.CacheStore.CacheLine
import FreeSampler.CacheStore.CacheStore
import FreeSampler.CacheStore.Geometry
import FreeSampler.CacheStore.Operations
import FreeSampler.CacheStore.Addresses
import FreeSampler.CacheStore.WayBounds
import FreeSampler.CacheStore.Runs
import FreeSampler.CacheStore.LineMap
import FreeSampler.CacheStore.Invalidation
import FreeSampler.CacheStore.Representation
import FreeSampler.CacheStore.Residency
import FreeSampler.CacheStore.Eviction
import FreeSampler.CacheStore.Blocks
import FreeSampler.CacheStore.LineBuffers
import FreeSampler.CacheStore.FreeWays
import FreeSampler.CacheStore.Insertions
import FreeSampler.CacheStore.Freshness
import FreeSampler.CacheStore.Replacement
import FreeSampler.CacheStore.Pointers
import FreeSampler.CacheStore.LineObjects
import FreeSampler.Memory.WordPattern
import FreeSampler.Memory.SimplestMemory
import FreeSampler.Memory.Checks
import FreeSampler.Memory.FlatBytes
import FreeSampler.Memory.SparseMemory
import FreeSampler.Memory.SparseRuns
import FreeSampler.Memory.Capacity
import FreeSampler.Memory.EntryPoints
import FreeSampler.Memory.MockMemory1
import FreeSampler.Memory.DirectMemory
import FreeSampler.Memory.Sessions
import FreeSampler.Memory.ExactBytes
import FreeSampler.Memory.InitialImage
import FreeSampler.Memory.DebugPath
import FreeSampler.FakeCache.FakeCache
import FreeSampler.FakeCache.Checks
import FreeSampler.FakeCache.Transparency
import FreeSampler.Memory.ServesWords
import FreeSampler.RealCache.RealCache
import FreeSampler.RealCache.Branches
import FreeSampler.RealCache.Runs
import FreeSampler.RealCache.Hits
import FreeSampler.RealCache.Fills
import FreeSampler.RealCache.LostWrites
import FreeSampler.RealCache.Words
import FreeSampler.RealCache.Timing
import FreeSampler.RealCache.FirstTouch
import FreeSampler.RealCache.Trace
import FreeSampler.RealCache.Errors
import FreeSampler.RealCache.Costs
import FreeSampler.RealCache.Targets
import FreeSampler.RealCache.VisibleBytes
import FreeSampler.RealCache.MemoryTraffic
import FreeSampler.RealCache.Compositions
import FreeSampler.RealCache.Answers
import FreeSampler.Initiator.TestInitiator
import FreeSampler.Initiator.CachedChecks
import FreeSampler.Initiator.MockChecks
import FreeSampler.Initiator.Tests
import FreeSampler.Initiator.CachedScripts
import FreeSampler.Initiator.Top
