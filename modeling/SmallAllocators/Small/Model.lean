/-
SmallAllocators.Small.Model — the allocator of small objects of
`small/small.c` and `include/small/small.h`.

The arrays `small_mempool_cache` and `small_mempool_groups` are functions
of the index, and a pointer to a pool or to a group is its index. The pool
with index `i` has the number `i` in the slab headers. What
`slab_get_with_order` and `slab_get_large` return is an argument of the
operations. An operation returns `none` when an `assert` of the source
fails.

`mempool_create` picks the order of a slab with floating point arithmetic;
here the order is a parameter.
-/
import SmallAllocators.Mempool.Model
import SmallAllocators.Small.Class

namespace SmallAllocators

/-- `POOL_PER_GROUP_MAX`. -/
def poolPerGroupMax : Nat := 32

/-- `SMALL_MEMPOOL_MAX`. -/
def smallMempoolMax : Nat := 1024

/-- `struct small_mempool`. -/
structure SmallMempool where
  pool : Mempool
  objsizeMin : Nat
  group : Nat
  usedPool : Nat
  appropriatePoolMask : Nat
  waste : Nat

/-- `struct small_mempool_group`. -/
structure SmallMempoolGroup where
  first : Nat
  last : Nat
  activePoolMask : Nat
  wasteMax : Nat

/-- `struct small_alloc`. -/
structure SmallAlloc where
  smallMempoolCache : Nat → SmallMempool
  smallMempoolCacheSize : Nat
  smallMempoolGroups : Nat → SmallMempoolGroup
  smallMempoolGroupsSize : Nat
  smallClass : SmallClass
  objsizeMax : Nat

namespace SmallAlloc

/-- `&small_mempool->pool`. -/
def pool (alloc : SmallAlloc) (i : Nat) : Mempool := (alloc.smallMempoolCache i).pool

/-- `small_mempool->group`. -/
def group (alloc : SmallAlloc) (i : Nat) : SmallMempoolGroup :=
  alloc.smallMempoolGroups (alloc.smallMempoolCache i).group

def setSmallMempool (alloc : SmallAlloc) (i : Nat) (p : SmallMempool) : SmallAlloc :=
  { alloc with smallMempoolCache := fun x => if x = i then p else alloc.smallMempoolCache x }

def setPool (alloc : SmallAlloc) (i : Nat) (pool : Mempool) : SmallAlloc :=
  alloc.setSmallMempool i { alloc.smallMempoolCache i with pool := pool }

def setUsedPool (alloc : SmallAlloc) (i usedPool : Nat) : SmallAlloc :=
  alloc.setSmallMempool i { alloc.smallMempoolCache i with usedPool := usedPool }

def setWaste (alloc : SmallAlloc) (i waste : Nat) : SmallAlloc :=
  alloc.setSmallMempool i { alloc.smallMempoolCache i with waste := waste }

def setGroup (alloc : SmallAlloc) (j : Nat) (group : SmallMempoolGroup) : SmallAlloc :=
  { alloc with smallMempoolGroups := fun x => if x = j then group else alloc.smallMempoolGroups x }

/-- An assignment to `group->active_pool_mask` of the pool. -/
def setActivePoolMask (alloc : SmallAlloc) (i mask : Nat) : SmallAlloc :=
  alloc.setGroup (alloc.smallMempoolCache i).group { alloc.group i with activePoolMask := mask }

end SmallAlloc

/-! ## Groups -/

/-- `__builtin_ffs` of a word of 32 bits: one plus the number of the lowest bit that is set, or
0. -/
def builtinFfs (x : Nat) : Nat := ((List.range 32).find? fun i => x.testBit i).elim 0 (· + 1)

/-- One round of `small_mempool_update_group`. -/
def updateUsedPool (group : SmallMempoolGroup) (alloc : SmallAlloc) (pool : Nat) :
    Option SmallAlloc := do
  let ffs := builtinFfs
    (group.activePoolMask &&& (alloc.smallMempoolCache pool).appropriatePoolMask)
  guard (ffs ≠ 0)
  let usedPool := group.first + (ffs - 1)
  guard (pool ≤ usedPool)
  guard ((alloc.pool pool).objsize ≤ (alloc.pool usedPool).objsize)
  some (alloc.setUsedPool pool usedPool)

/-- The pools from `first` to `last`. -/
def poolsFromTo (first last : Nat) : List Nat := List.range' first (last + 1 - first)

/-- `small_mempool_update_group`. -/
def smallMempoolUpdateGroup (alloc : SmallAlloc) (smallMempool : Nat) : Option SmallAlloc :=
  let group := alloc.group smallMempool
  (poolsFromTo group.first group.last).foldlM (updateUsedPool group) alloc

/-- `small_mempool_get_group_index`. -/
def smallMempoolGetGroupIndex (alloc : SmallAlloc) (smallMempool : Nat) : Nat :=
  smallMempool - (alloc.group smallMempool).first

/-- `small_mempool_activate`. -/
def smallMempoolActivate (alloc : SmallAlloc) (smallMempool : Nat) : Option SmallAlloc := do
  let idx := smallMempoolGetGroupIndex alloc smallMempool
  let mask := (alloc.group smallMempool).activePoolMask
  guard (mask &&& 1 <<< idx = 0)
  smallMempoolUpdateGroup (alloc.setActivePoolMask smallMempool (mask ||| 1 <<< idx)) smallMempool

/-- `small_mempool_deactivate`. -/
def smallMempoolDeactivate (alloc : SmallAlloc) (smallMempool : Nat) : Option SmallAlloc := do
  let idx := smallMempoolGetGroupIndex alloc smallMempool
  let mask := (alloc.group smallMempool).activePoolMask
  guard (mask &&& 1 <<< idx ≠ 0)
  smallMempoolUpdateGroup
    (alloc.setActivePoolMask smallMempool (mask &&& (2 ^ 32 - 1 - 1 <<< idx))) smallMempool

/-- `mempool_count`. -/
def mempoolCount (pool : Mempool) : Nat := pool.stats.used / pool.objsize

/-- `small_mempool_can_be_deactivated`. -/
def smallMempoolCanBeDeactivated (alloc : SmallAlloc) (smallMempool : Nat) : Bool :=
  let idx := smallMempoolGetGroupIndex alloc smallMempool
  let mask := (alloc.group smallMempool).activePoolMask
  if mask &&& 1 <<< idx = 0 then false
  else if mempoolCount (alloc.pool smallMempool) ≠ 0 then false
  else if (alloc.smallMempoolCache smallMempool).waste ≥ (alloc.group smallMempool).wasteMax / 4
    then false
  else if smallMempool = (alloc.group smallMempool).last then false
  else true

/-- The spare slab of a pool that was deactivated goes back to the cache. -/
def sweepSpare (h : MslabHeap) (alloc : SmallAlloc) (i : Nat) : Option SmallAlloc :=
  if (alloc.pool i).spare ≠ 0 then do
    let pool ← mempoolFreeSpareSlab h (alloc.pool i)
    some (alloc.setPool i pool)
  else some alloc

/-- One round of `small_mempool_group_sweep_sparse`. -/
def sweepPool (h : MslabHeap) (alloc : SmallAlloc) (i : Nat) : Option SmallAlloc :=
  if smallMempoolCanBeDeactivated alloc i then do
    let alloc ← smallMempoolDeactivate alloc i
    sweepSpare h alloc i
  else some alloc

/-- `small_mempool_group_sweep_sparse`. -/
def smallMempoolGroupSweepSparse (h : MslabHeap) (alloc : SmallAlloc) : Option SmallAlloc :=
  (List.range alloc.smallMempoolCacheSize).foldlM (sweepPool h) alloc

/-! ## Creation -/

/-- The loop of `small_mempool_group_last_pool`, with the number of rounds that are left. -/
def groupLastLoop (last : Nat) : Nat → Nat → Nat
  | 0, lastInGroup => lastInGroup
  | n + 1, lastInGroup =>
      if lastInGroup < last then groupLastLoop last n (lastInGroup + 1) else lastInGroup

/-- `small_mempool_group_last_pool`. -/
def smallMempoolGroupLastPool (first last : Nat) : Nat :=
  groupLastLoop last (poolPerGroupMax - 1) first

/-- `small_mempool_set_mask`. -/
def smallMempoolSetMask (alloc : SmallAlloc) (smallMempool : Nat) : Option SmallAlloc := do
  let p := alloc.smallMempoolCache smallMempool
  guard (p.appropriatePoolMask = 0)
  let idx := smallMempoolGetGroupIndex alloc smallMempool
  some (alloc.setSmallMempool smallMempool
    { p with
      appropriatePoolMask := (List.range' idx (poolPerGroupMax - idx)).foldl
        (fun mask i => mask ||| 1 <<< i) p.appropriatePoolMask })

/-- One round of the loop of `small_mempool_create_group`. -/
def joinGroup (group : Nat) (alloc : SmallAlloc) (pool : Nat) : Option SmallAlloc :=
  smallMempoolSetMask
    (alloc.setSmallMempool pool { alloc.smallMempoolCache pool with group := group }) pool

/-- `small_mempool_create_group`. -/
def smallMempoolCreateGroup (g : Geometry) (alloc : SmallAlloc) (first last : Nat) :
    Option SmallAlloc := do
  let group := alloc.smallMempoolGroupsSize
  let alloc := alloc.setGroup group
    { first := first
      last := last
      activePoolMask := 0
      wasteMax := g.slabOrderSize (alloc.pool last).slabOrder / 4 }
  let alloc ← (poolsFromTo first last).foldlM (joinGroup group) alloc
  smallMempoolActivate { alloc with smallMempoolGroupsSize := group + 1 } last

/-- The loop of `small_mempool_create_groups`. Each round handles at least one pool. -/
def createGroupsLoop (g : Geometry) (last : Nat) : Nat → SmallAlloc → Nat → Option SmallAlloc
  | 0, alloc, _ => some alloc
  | n + 1, alloc, firstInGroup =>
    if firstInGroup ≤ last then do
      let lastInGroup := smallMempoolGroupLastPool firstInGroup last
      let alloc ← smallMempoolCreateGroup g alloc firstInGroup lastInGroup
      createGroupsLoop g last n alloc (lastInGroup + 1)
    else some alloc

/-- `small_mempool_create_groups`. -/
def smallMempoolCreateGroups (g : Geometry) (alloc : SmallAlloc) (first last : Nat) :
    Option SmallAlloc :=
  createGroupsLoop g last (last + 1 - first) alloc first

/-- `small_mempool_search`. -/
def smallMempoolSearch (alloc : SmallAlloc) (size : Nat) : Option Nat :=
  if size > alloc.objsizeMax then none
  else some (smallClassCalcOffsetBySize alloc.smallClass size)

/-- `mempool_create`, with the order that it picks for the size of the objects. -/
def mempoolCreate (g : Geometry) (orderOf : Nat → Nat) (h : MslabHeap) (id objsize : Nat) :
    Option (MslabHeap × Mempool) :=
  mempoolCreateWithOrder g h id objsize (orderOf objsize)

/-- The local variables of `small_mempool_create`. -/
structure CreateState where
  heap : MslabHeap
  alloc : SmallAlloc
  slabOrderCur : Nat
  objsize : Nat
  curOrderPool : Nat
  firstIteration : Bool

/-- The end of a round of `small_mempool_create`: if the size of slabs changes, the pools before
`pool` are grouped. -/
def createOrder (g : Geometry) (st : CreateState) (pool : Nat) : Option CreateState :=
  if (st.alloc.pool pool).slabOrder ≠ st.slabOrderCur then do
    guard ((st.alloc.pool st.curOrderPool).slabPtrMask = (st.alloc.pool (pool - 1)).slabPtrMask)
    let alloc ← smallMempoolCreateGroups g st.alloc st.curOrderPool (pool - 1)
    some { st with
      alloc := alloc, slabOrderCur := (alloc.pool pool).slabOrder, curOrderPool := pool }
  else some st

/-- The pool as `small_mempool_create` sets it up. The pointers are `NULL` until the pool joins
a group. -/
def newSmallMempool (pool : Mempool) (objsizeMin : Nat) : SmallMempool :=
  { pool := pool, objsizeMin := objsizeMin, group := 0, usedPool := 0, appropriatePoolMask := 0,
    waste := 0 }

/-- The size of the objects of the next pool. -/
def nextObjsize (alloc : SmallAlloc) : Nat :=
  let objsize := smallClassCalcSizeByOffset alloc.smallClass alloc.smallMempoolCacheSize
  if objsize > alloc.objsizeMax then alloc.objsizeMax else objsize

/-- One round of `small_mempool_create`. -/
def createPool (g : Geometry) (orderOf : Nat → Nat) (st : CreateState) : Option CreateState := do
  let i := st.alloc.smallMempoolCacheSize
  let objsize := nextObjsize st.alloc
  let (heap, pool) ← mempoolCreate g orderOf st.heap i objsize
  let st ← createOrder g
    { heap := heap
      alloc := st.alloc.setSmallMempool i (newSmallMempool pool (st.objsize + 1))
      slabOrderCur := if st.firstIteration then pool.slabOrder else st.slabOrderCur
      objsize := objsize
      curOrderPool := st.curOrderPool
      firstIteration := false } i
  some { st with alloc := { st.alloc with smallMempoolCacheSize := i + 1 } }

/-- The loop of `small_mempool_create`, with the number of pools that there may still be. -/
def createLoop (g : Geometry) (orderOf : Nat → Nat) : Nat → CreateState → Option CreateState
  | 0, st => some st
  | n + 1, st =>
    if st.objsize < st.alloc.objsizeMax then do
      let st ← createPool g orderOf st
      createLoop g orderOf n st
    else some st

/-- The end of `small_mempool_create`, behind the loop. -/
def createEnd (g : Geometry) (st : CreateState) : Option (MslabHeap × SmallAlloc) := do
  -- without a pool, the last one would be `small_mempool_cache[-1]`
  guard (st.alloc.smallMempoolCacheSize ≠ 0)
  let lastPool := st.alloc.smallMempoolCacheSize - 1
  guard ((st.alloc.pool st.curOrderPool).slabPtrMask = (st.alloc.pool lastPool).slabPtrMask)
  let alloc ← smallMempoolCreateGroups g st.alloc st.curOrderPool lastPool
  some (st.heap, { alloc with objsizeMax := st.objsize })

/-- `small_mempool_create`. -/
def smallMempoolCreate (g : Geometry) (orderOf : Nat → Nat) (h : MslabHeap) (alloc : SmallAlloc) :
    Option (MslabHeap × SmallAlloc) := do
  let st ← createLoop g orderOf smallMempoolMax
    { heap := h
      alloc := { alloc with smallMempoolGroupsSize := 0, smallMempoolCacheSize := 0 }
      slabOrderCur := 0
      objsize := 0
      curOrderPool := 0
      firstIteration := true }
  createEnd g st

/-- `mempool_objsize_max`. -/
def mempoolObjsizeMax (slabSize : Nat) : Nat :=
  (slabSize + 2 ^ 32 - mslabSizeof) % 2 ^ 32 / 16 &&& (2 ^ 64 - 1 - (ptrSize - 1))

/-- `small_alloc_create`, in a memory with arbitrary contents. -/
def smallAllocCreate (g : Geometry) (orderOf : Nat → Nat) (h : MslabHeap) (alloc : SmallAlloc)
    (objsizeMin granularity effectiveBits : Nat) : Option (MslabHeap × SmallAlloc) := do
  let objsizeMin ← smallAlign objsizeMin granularity
  let objsizeMax ← smallAlign (mempoolObjsizeMax (g.slabOrderSize g.orderMax)) granularity
  guard (granularity &&& (granularity - 1) = 0)
  let smallClass ← smallClassCreate granularity effectiveBits (objsizeMin % 2 ^ 32)
  smallMempoolCreate g orderOf h
    { alloc with objsizeMax := objsizeMax % 2 ^ 32, smallClass := smallClass }

/-! ## Objects -/

/-- The second attempt of `smalloc`, after a sweep. -/
def smallocRetry (g : Geometry) (h : MslabHeap) (alloc : SmallAlloc) (pool : Nat)
    (retry : Option Nat) :
    Option (Nat × MslabHeap × SmallAlloc) := do
  let alloc ← smallMempoolGroupSweepSparse h alloc
  let (ptr, h, mempool) ← mempoolAlloc g h (alloc.pool pool) retry
  some (ptr, h, alloc.setPool pool mempool)

/-- The attempts of `smalloc` to get an object from the pool, with what the cache answers to
each. -/
def smallocTry (g : Geometry) (h : MslabHeap) (alloc : SmallAlloc) (pool : Nat)
    (answer retry : Option Nat) :
    Option (Nat × MslabHeap × SmallAlloc) := do
  let (ptr, h, mempool) ← mempoolAlloc g h (alloc.pool pool) answer
  let alloc := alloc.setPool pool mempool
  if ptr = 0 then smallocRetry g h alloc pool retry else some (ptr, h, alloc)

/-- The difference of the sizes of objects, a `uint32_t`. -/
def objsizeDiff (alloc : SmallAlloc) (usedPool smallMempool : Nat) : Nat :=
  (2 ^ 32 + (alloc.pool usedPool).objsize - (alloc.pool smallMempool).objsize) % 2 ^ 32

/-- The end of `smalloc`, with an object. -/
def smallocCharge (alloc : SmallAlloc) (smallMempool : Nat) : Option SmallAlloc :=
  let usedPool := (alloc.smallMempoolCache smallMempool).usedPool
  if usedPool ≠ smallMempool then
    let waste := ((alloc.smallMempoolCache smallMempool).waste +
        objsizeDiff alloc usedPool smallMempool) % sizeMax
    let alloc := alloc.setWaste smallMempool waste
    if waste ≥ (alloc.group smallMempool).wasteMax then smallMempoolActivate alloc smallMempool
      else some alloc
  else some alloc

/-- `smalloc` for a size that has a pool. -/
def smallocFromPool (g : Geometry) (h : MslabHeap) (alloc : SmallAlloc) (size smallMempool : Nat)
    (answer retry : Option Nat) : Option (Nat × MslabHeap × SmallAlloc) := do
  let pool := (alloc.smallMempoolCache smallMempool).usedPool
  guard (size ≤ (alloc.pool pool).objsize)
  let (ptr, h, alloc) ← smallocTry g h alloc pool answer retry
  if ptr = 0 then some (0, h, alloc)
  else do
    let alloc ← smallocCharge alloc smallMempool
    some (ptr, h, alloc)

/-- The header that `slab_get_large` writes. -/
def createLarge (g : Geometry) (h : MslabHeap) (slab size : Nat) : MslabHeap :=
  h.setMslab slab
    { h.mslab slab with
      magic := slabMagic
      order := g.orderMax + 1
      size := (size + slabSizeof) % sizeMax }

/-- `smalloc` for a size that has no pool; the slab is what `slab_get_large` gets. -/
def smallocLarge (g : Geometry) (h : MslabHeap) (size : Nat) (answer : Option Nat) :
    Nat × MslabHeap :=
  match answer with
  | none => (0, h)
  | some slab => (slab + slabSizeof, createLarge g h slab size)

/-- `smalloc`; `NULL` is the pointer 0. -/
def smalloc (g : Geometry) (h : MslabHeap) (alloc : SmallAlloc) (size : Nat)
    (answer retry : Option Nat) :
    Option (Nat × MslabHeap × SmallAlloc) :=
  match smallMempoolSearch alloc size with
  | none =>
    let (ptr, h) := smallocLarge g h size answer
    some (ptr, h, alloc)
  | some smallMempool => smallocFromPool g h alloc size smallMempool answer retry

/-- The assertions of `slab_put_large`. -/
def checkLarge (g : Geometry) (h : MslabHeap) (slab : Nat) : Option Unit := do
  guard ((h.mslab slab).magic = slabMagic)
  guard ((h.mslab slab).order = g.orderMax + 1)

/-- `smfree` for a size that has a pool. -/
def smfreeFromPool (h : MslabHeap) (alloc : SmallAlloc) (ptr pool : Nat) :
    Option (MslabHeap × SmallAlloc) := do
  let slab ← slabFromPtr h ptr (alloc.pool pool).slabPtrMask
  let owner := (h.mslab slab).mempool
  let diff := objsizeDiff alloc owner pool
  guard (diff ≤ (alloc.smallMempoolCache pool).waste)
  let alloc := alloc.setWaste pool ((alloc.smallMempoolCache pool).waste - diff)
  let (h, mempool) ← mempoolFreeSlab h (alloc.pool owner) slab ptr
  some (h, alloc.setPool owner mempool)

/-- `smfree`. -/
def smfree (g : Geometry) (h : MslabHeap) (alloc : SmallAlloc) (ptr size : Nat) :
    Option (MslabHeap × SmallAlloc) :=
  match smallMempoolSearch alloc size with
  | none => do
    checkLarge g h (ptr - slabSizeof)
    some (h, alloc)
  | some pool => smfreeFromPool h alloc ptr pool

/-- `struct small_alloc_info`. -/
structure SmallAllocInfo where
  isLarge : Bool
  realSize : Nat
deriving DecidableEq

/-- The fields that `small_alloc_info` fills in. -/
def fillInfo (h : MslabHeap) (alloc : SmallAlloc) (ptr size : Nat) : Option SmallAllocInfo :=
  match smallMempoolSearch alloc size with
  | none => some { isLarge := true, realSize := size }
  | some smallMempool => do
    let slab ← slabFromPtr h ptr (alloc.pool smallMempool).slabPtrMask
    some { isLarge := false, realSize := (alloc.pool (h.mslab slab).mempool).objsize }

/-- `small_alloc_info`. -/
def smallAllocInfo (h : MslabHeap) (alloc : SmallAlloc) (ptr size : Nat) :
    Option SmallAllocInfo := do
  let info ← fillInfo h alloc ptr size
  guard (size ≤ info.realSize)
  some info

end SmallAllocators
