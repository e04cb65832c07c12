import SmallAllocators.Lib.Loops
import SmallAllocators.Lib.Runs
import SmallAllocators.Lib.Memory
import SmallAllocators.Lib.Blocks
import SmallAllocators.Lib.Tiling
import SmallAllocators.Lib.Trees
import SmallAllocators.Lib.RedBlack
import SmallAllocators.Lib.Sums
import SmallAllocators.Util
import SmallAllocators.AsanBlock
import SmallAllocators.Static
import SmallAllocators.Rlist
import SmallAllocators.Rlist.Between
import SmallAllocators.Rlist.Heads
import SmallAllocators.SlabCache.Model
import SmallAllocators.SlabCache.Invariant
import SmallAllocators.SlabCache.Transit
import SmallAllocators.SlabCache.Get
import SmallAllocators.SlabCache.Put
import SmallAllocators.SlabCache.Check
import SmallAllocators.SlabCache.Runs
import SmallAllocators.SlabCache.Billing
import SmallAllocators.SlabCache.Calls
import SmallAllocators.SlabCache.Header
import SmallAllocators.SlabCache.Orders
import SmallAllocators.Lsregion.Model
import SmallAllocators.Lsregion.Flush
import SmallAllocators.Lsregion.Reserve
import SmallAllocators.Lsregion.Slabs
import SmallAllocators.Lsregion.Invariant
import SmallAllocators.Lsregion.Runs
import SmallAllocators.Lsregion.Gc
import SmallAllocators.Lsregion.GcRuns
import SmallAllocators.Lsregion.Unused
import SmallAllocators.Lsregion.Asan
import SmallAllocators.Region.Model
import SmallAllocators.Region.Invariant
import SmallAllocators.Region.Runs
import SmallAllocators.Region.Chunks
import SmallAllocators.Region.Reset
import SmallAllocators.Region.Accounting
import SmallAllocators.Region.Join
import SmallAllocators.Region.Asan
import SmallAllocators.Quota.Model
import SmallAllocators.Quota.Runs
import SmallAllocators.Quota.Exact
import SmallAllocators.Quota.Lessor
import SmallAllocators.Quota.Lease
import SmallAllocators.LfLifo.Model
import SmallAllocators.LfLifo.Invariant
import SmallAllocators.LfLifo.Runs
import SmallAllocators.LfLifo.Sequential
import SmallAllocators.SlabArena.Model
import SmallAllocators.SlabArena.Invariant
import SmallAllocators.SlabArena.Steps
import SmallAllocators.SlabArena.Runs
import SmallAllocators.SlabArena.Sequential
import SmallAllocators.SlabArena.Create
import SmallAllocators.Shared.Model
import SmallAllocators.Shared.Caches
import SmallAllocators.Shared.Regions
import SmallAllocators.Ibuf.Model
import SmallAllocators.Ibuf.Invariant
import SmallAllocators.Ibuf.Runs
import SmallAllocators.Obuf.Model
import SmallAllocators.Obuf.Invariant
import SmallAllocators.Obuf.Runs
import SmallAllocators.Obuf.Asan
import SmallAllocators.Obuf.AsanRuns
import SmallAllocators.Obuf.Room
import SmallAllocators.Growth
import SmallAllocators.Rb.Model
import SmallAllocators.Rb.Iterators
import SmallAllocators.Rb.Walk
import SmallAllocators.Rb.Tree
import SmallAllocators.Rb.Heap
import SmallAllocators.Rb.Insert
import SmallAllocators.Rb.Remove
import SmallAllocators.Rb.Runs
import SmallAllocators.Rb.Descending
import SmallAllocators.Rb.Height
import SmallAllocators.Rb.Iter
import SmallAllocators.Rb.Lookup
import SmallAllocators.Mempool.Model
import SmallAllocators.Mempool.Invariant
import SmallAllocators.Mempool.Slabs
import SmallAllocators.Mempool.Lists
import SmallAllocators.Mempool.Ops
import SmallAllocators.Mempool.Runs
import SmallAllocators.Small.Class
import SmallAllocators.Small.Model
import SmallAllocators.Small.Groups
import SmallAllocators.Small.Create
import SmallAllocators.Small.Sweep
import SmallAllocators.Stack.Memory
import SmallAllocators.Stack.Pools
import SmallAllocators.Stack.Owners
import SmallAllocators.Stack.Runs
import SmallAllocators.Stack.Model
import SmallAllocators.Small.Objects
import SmallAllocators.Small.Ops
import SmallAllocators.Small.Runs
import SmallAllocators.Small.Neighbours
import SmallAllocators.Small.Failure
import SmallAllocators.Small.Routing
import SmallAllocators.Small.Capacity
import SmallAllocators.Lib.Snapshots
import SmallAllocators.Matras.Model
import SmallAllocators.Matras.Address
import SmallAllocators.Matras.Invariant
import SmallAllocators.Matras.Touch
import SmallAllocators.Matras.Alloc
import SmallAllocators.Matras.Dealloc
import SmallAllocators.Matras.Reserve
import SmallAllocators.Matras.Views
import SmallAllocators.Matras.Runs
import SmallAllocators.Matras.Failure
import SmallAllocators.Matras.Range
import SmallAllocators.Matras.Budget
import SmallAllocators.Matras.Isolation
import SmallAllocators.Matras.Leaks
import SmallAllocators.Matras.Teardown
import SmallAllocators.Shared.Runs
import SmallAllocators.Stack.Stats
import SmallAllocators.Asan.Model
import SmallAllocators.Asan.Objects
import SmallAllocators.Asan.Owners
import SmallAllocators.Asan.Calls
import SmallAllocators.Asan.Counters
import SmallAllocators.Asan.Runs
import SmallAllocators.Asan.Steps
import SmallAllocators.Mempool.Tree
