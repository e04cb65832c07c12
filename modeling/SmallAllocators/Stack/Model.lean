/-
SmallAllocators.Stack.Model — an allocator of small objects on a slab cache
on a slab arena.

`Small.Model` takes what the slab cache answers as an argument, and leaves
out where a slab goes that a pool gives back. Here `slab_get_with_order`,
`slab_get_large` and `slab_put` of the cache are called, and the cache calls
the arena, `malloc` and the quota; all that is given is what `mmap` and
`malloc` return. `smalloc` asks the cache in the order of the source: for the
first attempt, and after the sweep for the second one; between two requests
the pools do not look at the cache, so a slab goes back as soon as the pools
are done with it.

The slab headers of the pools and those of the cache are two views of the
same bytes. A client, and a pool, may write to a slab that it has; in the
view of the cache this is `scribble`.
-/
import SmallAllocators.Shared.Caches
import SmallAllocators.Small.Runs

namespace SmallAllocators

/-- An arena, and the constants of a cache over it. A slab has room for the header of a pool's
slab. -/
structure StackConfig where
  arena : ArenaConfig
  geometry : Geometry
  slabSize_eq : geometry.slabSize = arena.slabSize
  order0_min : mslabSizeof ≤ geometry.order0Size

/-- A slab cache with the slabs that its clients have, and the memory behind it. -/
structure CacheState where
  cache : SlabState
  backing : Backing Unit

namespace CacheState

variable (C : StackConfig) (s : CacheState)

/-- The memory that `slab_get_with_order` asks for. -/
def arenaAnswer (order : Nat) (answer : Option Nat) : Option (Option Nat × Backing Unit) :=
  if slabFindMaps C.geometry s.cache.cache order then s.backing.map (fun _ => C.arena) () answer
  else some (none, s.backing)

/-- `slab_get_with_order`; `answer` is what `mmap` returns. -/
def getWithOrder (order : Nat) (answer : Option Nat) : Option (Option Nat × CacheState) := do
  let (answer, b) ← s.arenaAnswer C order answer
  let (slab, cache) ← slabGetWithOrder C.geometry s.cache.cache order answer
  some (slab, ⟨s.cache.obtain slab cache, b⟩)

/-- `slab_get_large`; `answer` is what `malloc` returns. -/
def getLarge (size : Nat) (answer : Option Nat) : Option (Option Nat × CacheState) := do
  let (slab, cache, b) ← s.backing.slabGetLarge C.geometry s.cache.cache size answer
  some (slab, ⟨s.cache.obtain slab cache, b⟩)

/-- `slab_put`. -/
def put (a : Nat) : Option CacheState := do
  let (cache, b) ← s.backing.slabPut () C.geometry s.cache.cache a
  some ⟨⟨cache, s.cache.live.erase a⟩, b⟩

/-- `slab_put_with_order`. -/
def putWithOrder (a : Nat) : Option CacheState := do
  guard ((s.cache.cache.slab a).order ≤ C.geometry.orderMax)
  s.put C a

/-- `slab_put_large`. -/
def putLarge (a : Nat) : Option CacheState := do
  guard ((s.cache.cache.slab a).order = C.geometry.orderMax + 1)
  s.put C a

/-- `slab_put_with_order` for each of the slabs. -/
def putAll : List Nat → CacheState → Option CacheState
  | [], s => some s
  | a :: slabs, s => do
    let s ← s.putWithOrder C a
    putAll slabs s

end CacheState

/-! ## The pools -/

/-- The slabs of the pools, one pool after another. -/
def SmallAlloc.slabList (alloc : SmallAlloc) : List Nat :=
  (List.range alloc.smallMempoolCacheSize).flatMap fun p => (alloc.pool p).slabs

/-- The slabs that the pools gave back on the way from `alloc` to `alloc'`. -/
def SmallAlloc.returned (alloc alloc' : SmallAlloc) : List Nat :=
  alloc.slabList.filter fun a => a ∉ alloc'.slabList

/-- `mempool_alloc` asks the cache for a slab. -/
def Mempool.asks (pool : Mempool) : Bool := pool.firstHotSlab = 0 && pool.spare = 0

section Requests

variable (C : StackConfig) (s : CacheState)

/-- What `mempool_alloc` gets from the cache. -/
def CacheState.slabFor (pool : Mempool) (answer : Option Nat) : Option (Option Nat × CacheState) :=
  if pool.asks then s.getWithOrder C pool.slabOrder answer else some (none, s)

/-- What the two attempts of `smalloc` get from the cache, if it comes to the second. -/
def CacheState.slabsFor (h : MslabHeap) (alloc : SmallAlloc) (pool : Nat)
    (answer retry : Option Nat) :
    Option ((Option Nat × Option Nat) × CacheState) := do
  let (slab, s) ← s.slabFor C (alloc.pool pool) answer
  let (ptr, _, _) ← mempoolAlloc C.geometry h (alloc.pool pool) slab
  if ptr ≠ 0 then some ((slab, none), s)
  else do
    let alloc' ← smallMempoolGroupSweepSparse h alloc
    let s ← s.putAll C (alloc.returned alloc')
    let (slab', s) ← s.slabFor C (alloc'.pool pool) retry
    some ((slab, slab'), s)

end Requests

/-! ## The allocator and its client -/

/-- An allocator of small objects with the objects of its client, and the cache below. -/
structure SmallStack where
  memory : CacheState
  small : SmallState

inductive StackOp where
  /-- `smalloc`, with what `mmap` or `malloc` returns to the first and to the second request. -/
  | alloc (size : Nat) (answer retry : Option Nat)
  | free (o : SmallObject)
  /-- The client writes to its objects. -/
  | write (mem : Nat → UInt8)
  /-- The bytes of the slab `a` change, as the cache sees them. -/
  | scribble (a : Nat) (mem : SlabCache)

namespace SmallStack

variable (C : StackConfig) (s : SmallStack)

/-- What `smalloc` gets from the cache. -/
def requests (size : Nat) (answer retry : Option Nat) :
    Option ((Option Nat × Option Nat) × CacheState) :=
  match smallMempoolSearch s.small.alloc size with
  | none => do
    let (slab, memory) ← s.memory.getLarge C size answer
    some ((slab, none), memory)
  | some smallMempool =>
    s.memory.slabsFor C s.small.heap s.small.alloc
      (s.small.alloc.smallMempoolCache smallMempool).usedPool answer retry

/-- What `smfree` gives back to the cache, when `alloc'` is the allocator after it. -/
def returns (o : SmallObject) (alloc' : SmallAlloc) : Option CacheState :=
  match smallMempoolSearch s.small.alloc o.size with
  | none => s.memory.putLarge C (o.ptr - slabSizeof)
  | some _ => s.memory.putAll C (s.small.alloc.returned alloc')

/-- `small_alloc_destroy`: all slabs of the pools go back. -/
def destroyPools : Option CacheState := s.memory.putAll C s.small.alloc.slabList

/-- `small_alloc_destroy` and `slab_cache_destroy`. The list of the cache is walked in at most
`fuel` steps. -/
def destroy (fuel : Nat) : Option (Backing Unit) := do
  let memory ← s.destroyPools C
  memory.backing.slabCacheDestroy () C.geometry memory.cache.cache fuel

end SmallStack

def StackOp.exec (C : StackConfig) (s : SmallStack) : StackOp → Option SmallStack
  | .alloc size answer retry => do
    let ((slab, slab'), memory) ← s.requests C size answer retry
    let small ← (SmallOp.alloc size slab slab').exec C.geometry s.small
    some { memory := memory, small := small }
  | .free o => do
    let small ← (SmallOp.free o).exec C.geometry s.small
    let memory ← s.returns C o small.alloc
    some { memory := memory, small := small }
  | .write mem => do
    let small ← (SmallOp.write mem).exec C.geometry s.small
    some { s with small := small }
  | .scribble a mem =>
    some { s with memory := { s.memory with cache :=
      { s.memory.cache with cache := clientWrite s.memory.cache.cache a mem } } }

/-- What `smalloc` may get from below: `mmap` and `malloc` return memory that nobody has, and
the units of the quota do not wrap around. -/
def SmallStack.Answers (C : StackConfig) (s : SmallStack) (size : Nat)
    (answer retry : Option Nat) : Prop :=
  if size ≤ s.small.alloc.objsizeMax then
    usedInUnits s.memory.backing.quota + ceilUnits C.arena.slabSize < 2 ^ 32 ∧
    ∀ m, answer = some m ∨ retry = some m → s.memory.backing.FreshSlab (fun _ => C.arena) () m
  else
    size + slabSizeof < quotaMax ∧
    usedInUnits s.memory.backing.quota + ceilUnits (size + slabSizeof) < 2 ^ 32 ∧
    ∀ a, answer = some a →
      0 < a ∧ s.memory.backing.FreshBlock (fun _ => C.arena) (size + slabSizeof) a

def StackOp.Allowed (C : StackConfig) (s : SmallStack) : StackOp → Prop
  | .alloc size answer retry => s.Answers C size answer retry
  | .free o => o ∈ s.small.live
  | .write mem => s.small.Writes C.geometry mem
  | .scribble a _ => a ∈ s.memory.cache.live

/-- After `slab_arena_create`, `slab_cache_create` and `small_alloc_create`; nothing of the
quota is used. -/
structure SmallStack.Created (C : StackConfig) (s : SmallStack) : Prop where
  small : s.small.Created C.geometry ptrSize
  cache : ∃ slab inCache inList,
    s.memory.cache = { cache := slabCacheCreate C.geometry slab inCache inList, live := ∅ }
  quota : usedInUnits s.memory.backing.quota = 0
  arena : s.memory.backing.arena () =
    { cache := [], arena := C.arena.arena, prealloc := C.arena.prealloc, used := 0, carved := [],
      mapped := [] }
  heap : s.memory.backing.heap = []

def stackMachine (C : StackConfig) : Machine SmallStack StackOp where
  init := SmallStack.Created C
  allowed s op := op.Allowed C s
  exec s op := op.exec C s

end SmallAllocators
