/-
SmallAllocators.Shared.Model — slab arenas, slab caches and log structured
allocators that share one quota.

`Backing` is the memory behind the allocators: the arenas, the blocks that
`malloc` returned and nobody freed yet, and the quota word that all of them
are billed to. The functions of `SlabCache.Model` and `Lsregion.Model` take
what the memory answers as an argument; here the backing gives the answer.
Memory has to go back to where it came from: `free` of anything but a block
of `malloc`, and `slab_unmap` of anything but a slab of the arena that is in
use, return `none`, as failed assertions do.
-/
import SmallAllocators.Lsregion.Gc
import SmallAllocators.SlabArena.Model
import SmallAllocators.SlabCache.Calls

namespace SmallAllocators

/-! ## The memory -/

/-- The memory behind the allocators, with arenas `ι`. -/
structure Backing (ι : Type) where
  /-- The quota word. -/
  quota : Nat
  arena : ι → SlabArena
  /-- The addresses and sizes of the blocks that `malloc` returned and nobody freed yet. -/
  heap : List (Nat × Nat)

namespace Backing

variable {ι : Type} [DecidableEq ι] (c : ι → ArenaConfig) (i : ι) (b : Backing ι)

/-- `slab_map` on the arena `i`; `answer` is what `mmap` returns. -/
def map (answer : Option Nat) : Option (Option Nat × Backing ι) := do
  let (ptr, arena, quota) ← (b.arena i).slabMap (c i).slabSize b.quota answer
  some (ptr, { b with quota := quota, arena := Function.update b.arena i arena })

/-- `slab_unmap` on the arena `i`. -/
def unmap (ptr : Nat) : Option (Backing ι) := do
  guard ((ptr ∈ (b.arena i).carved ∨ ptr ∈ (b.arena i).mapped) ∧ ptr ∉ (b.arena i).cache)
  some { b with arena := Function.update b.arena i ((b.arena i).slabUnmap ptr) }

/-- `slab_unmap` for each of the slabs, the last one first. -/
def unmapAll : List Nat → Option (Backing ι)
  | [] => some b
  | ptr :: ptrs => do
    let b ← unmapAll ptrs
    b.unmap i ptr

omit [DecidableEq ι] in
/-- `quota_use` and `malloc`. -/
def malloc (size : Nat) (answer : Option Nat) : Option (Option Nat × Backing ι) := do
  let (ptr, quota) ← billedMalloc b.quota size answer
  match ptr with
  | none => some (none, { b with quota := quota })
  | some a => some (some a, { b with quota := quota, heap := (a, size) :: b.heap })

omit [DecidableEq ι] in
/-- `quota_release` and `free`. -/
def free (ptr size : Nat) : Option (Backing ι) := do
  let (_, quota) ← quotaRelease b.quota size
  guard ((ptr, size) ∈ b.heap)
  some { b with quota := quota, heap := b.heap.erase (ptr, size) }

/-! ## Slab caches -/

section Cache

variable (g : Geometry) (cache : SlabCache)

/-- The memory that `slab_get` asks for. -/
def slabGetAnswer (size : Nat) (answer : Option Nat) : Option (Option Nat × Backing ι) :=
  if g.slabOrder ((size + slabSizeof) % sizeMax) = g.orderMax + 1 then
    b.malloc ((size + slabSizeof) % sizeMax) answer
  else if slabFindMaps g cache (g.slabOrder ((size + slabSizeof) % sizeMax)) then b.map c i answer
  else some (none, b)

def slabGet (size : Nat) (answer : Option Nat) : Option (Option Nat × SlabCache × Backing ι) := do
  let (answer, b) ← b.slabGetAnswer c i g cache size answer
  let (slab, cache) ← SmallAllocators.slabGet g cache size answer
  some (slab, cache, b)

omit [DecidableEq ι] in
def slabGetLarge (size : Nat) (answer : Option Nat) :
    Option (Option Nat × SlabCache × Backing ι) := do
  let (answer, b) ← b.malloc ((size + slabSizeof) % sizeMax) answer
  let (slab, cache) := SmallAllocators.slabGetLarge g cache size answer
  some (slab, cache, b)

/-- The slabs that the cache gave to `slab_unmap` on the way from `cache` to `cache'`. -/
def slabUnmapped (cache' : SlabCache) : List Nat :=
  cache'.unmaps.take (cache'.unmaps.length - cache.unmaps.length)

def slabPut (a : Nat) : Option (SlabCache × Backing ι) :=
  if (cache.slab a).order ≤ g.orderMax then do
    let cache' ← slabPutWithOrder g cache a
    let b ← b.unmapAll i (slabUnmapped cache cache')
    some (cache', b)
  else do
    let cache' ← slabPutLarge g cache a
    let b ← b.free a (cache.slab a).size
    some (cache', b)

/-- The loop of `slab_cache_destroy`. -/
def slabCacheDestroyLoop : List Nat → Backing ι → Option (Backing ι)
  | [], b => some b
  | a :: slabs, b => do
    let b ← if (cache.slab a).order = g.orderMax + 1 then b.free a (cache.slab a).size
      else b.unmap i a
    slabCacheDestroyLoop slabs b

/-- `slab_cache_destroy`. The list is walked in at most `fuel` steps. -/
def slabCacheDestroy (fuel : Nat) : Option (Backing ι) := do
  let nodes ← rlistForeach cache.nextInCache .allocated fuel (cache.nextInCache.next .allocated)
  let slabs ← nodes.mapM slabOfNode
  slabCacheDestroyLoop i g cache slabs b

end Cache

/-! ## Log structured allocators -/

section Region

variable (region : Lsregion)

/-- The memory that a reservation asks for. -/
def lsregionAnswer (size alignment : Nat) (answer : Option Nat) :
    Option (Option Nat × Backing ι) := do
  match ← region.tryLast size alignment with
  | some _ => some (none, b)
  | none =>
    if newSlabSize size alignment > (c i).slabSize then b.malloc (newSlabSize size alignment) answer
    else if region.cached ≠ none then some (none, b)
    else b.map c i answer

/-- The body of the loop of `lsregion_gc`: where the memory of the slab goes. -/
def lsregionDrop (slab : Lslab) : Option (Backing ι) :=
  if slab.slabSize > (c i).slabSize then b.free slab.addr slab.slabSize
  else if region.cached ≠ none then b.unmap i slab.addr
  else some b

/-- The loop of `lsregion_gc`. -/
def lsregionGcLoop (minId : Int) : List Lslab → Lsregion → Backing ι → Option (Backing ι)
  | [], _, b => some b
  | slab :: slabs, region, b =>
    if slab.maxId > minId then some b
    else do
      let b ← b.lsregionDrop c i region slab
      lsregionGcLoop minId slabs (SmallAllocators.lsregionDrop (c i).slabSize region slab) b

/-- `lsregion_gc`. -/
def lsregionGc (minId : Int) : Option (Lsregion × Backing ι) := do
  let b ← lsregionGcLoop c i minId region.slabs region b
  some (SmallAllocators.lsregionGc (c i).slabSize region minId, b)

/-- `lsregion_destroy`. -/
def lsregionDestroy : Option (Backing ι) := do
  let (region, b) ← if region.slabs ≠ [] then b.lsregionGc c i region int64Max else some (region, b)
  match region.cached with
  | none => some b
  | some slab => b.unmap i slab.addr

end Region

end Backing

/-! ## The allocators -/

/-- Which arenas there are, and which cache and which region is on which arena. -/
structure Setup (ι κ ρ : Type) where
  arena : ι → ArenaConfig
  geometry : κ → Geometry
  cacheArena : κ → ι
  regionArena : ρ → ι
  slabSize_eq : ∀ k, (geometry k).slabSize = (arena (cacheArena k)).slabSize

/-- The memory, and the caches `κ` and the regions `ρ` that are not destroyed, or not created
yet. -/
structure SharedState (ι κ ρ : Type) where
  backing : Backing ι
  cache : κ → Option SlabState
  region : ρ → Option Lsregion

inductive SharedOp (κ ρ : Type) where
  | cacheCreate (k : κ) (slab : Nat → Slab) (inCache inList : Links SlabNode)
  | get (k : κ) (size : Nat) (answer : Option Nat)
  | getLarge (k : κ) (size : Nat) (answer : Option Nat)
  | put (k : κ) (a : Nat)
  | cacheDestroy (k : κ) (fuel : Nat)
  /-- A client writes to its slab `a`. -/
  | write (k : κ) (a : Nat) (mem : SlabCache)
  | regionCreate (r : ρ)
  | alloc (r : ρ) (size : Nat) (id : Int) (answer : Option Nat)
  | alignedAlloc (r : ρ) (size alignment : Nat) (id : Int) (answer : Option Nat)
  | reserve (r : ρ) (size : Nat) (answer : Option Nat)
  | alignedReserve (r : ρ) (size alignment : Nat) (answer : Option Nat)
  | gc (r : ρ) (minId : Int)
  | regionDestroy (r : ρ)

/-- What a call returns. -/
inductive Returned where
  | void
  | null
  | pointer (ptr : Nat)
deriving DecidableEq, Repr

/-- A pointer that may be `NULL`. -/
def Returned.of : Option Nat → Returned
  | none => .null
  | some ptr => .pointer ptr

section Calls

variable {ι κ ρ : Type} [DecidableEq ι] [DecidableEq κ] [DecidableEq ρ] (S : Setup ι κ ρ)
    (s : SharedState ι κ ρ)

def SharedState.setCache (k : κ) (st : Option SlabState) (b : Backing ι) : SharedState ι κ ρ :=
  { s with backing := b, cache := Function.update s.cache k st }

def SharedState.setRegion (r : ρ) (region : Option Lsregion) (b : Backing ι) : SharedState ι κ ρ :=
  { s with backing := b, region := Function.update s.region r region }

/-- The slab size of the arena of a region. -/
def Setup.regionSize (r : ρ) : Nat := (S.arena (S.regionArena r)).slabSize

/-- A call of the region `r` that reserves memory and then does `call`. -/
def SharedState.withReservation (r : ρ) (region : Lsregion) (size alignment : Nat)
    (answer : Option Nat) (call : Option Nat → Option (Option Reservation × Lsregion)) :
    Option (Returned × SharedState ι κ ρ) := do
  let (answer, b) ← s.backing.lsregionAnswer S.arena (S.regionArena r) region size alignment answer
  let (res, region) ← call answer
  some (.of (res.map Reservation.pos), s.setRegion r (some region) b)

/-- A call, with what it returns. -/
def SharedOp.call : SharedOp κ ρ → Option (Returned × SharedState ι κ ρ)
  | .cacheCreate k slab inCache inList =>
    some (.void, s.setCache k
      (some { cache := slabCacheCreate (S.geometry k) slab inCache inList, live := ∅ }) s.backing)
  | .get k size answer => do
    let st ← s.cache k
    let (slab, cache, b) ← s.backing.slabGet S.arena (S.cacheArena k)
      (S.geometry k) st.cache size answer
    some (.of slab, s.setCache k (some (st.obtain slab cache)) b)
  | .getLarge k size answer => do
    let st ← s.cache k
    let (slab, cache, b) ← s.backing.slabGetLarge (S.geometry k) st.cache size answer
    some (.of slab, s.setCache k (some (st.obtain slab cache)) b)
  | .put k a => do
    let st ← s.cache k
    let (cache, b) ← s.backing.slabPut (S.cacheArena k) (S.geometry k) st.cache a
    some (.void, s.setCache k (some { cache := cache, live := st.live.erase a }) b)
  | .cacheDestroy k fuel => do
    let st ← s.cache k
    let b ← s.backing.slabCacheDestroy (S.cacheArena k) (S.geometry k) st.cache fuel
    some (.void, s.setCache k none b)
  | .write k a mem => do
    let st ← s.cache k
    some (.void, s.setCache k (some { st with cache := clientWrite st.cache a mem }) s.backing)
  | .regionCreate r => do
    let region ← lsregionCreate (S.regionSize r)
    some (.void, s.setRegion r (some region) s.backing)
  | .alloc r size id answer => do
    let region ← s.region r
    s.withReservation S r region size 1 answer (lsregionAlloc (S.regionSize r) region size id)
  | .alignedAlloc r size alignment id answer => do
    let region ← s.region r
    s.withReservation S r region size alignment answer
      (lsregionAlignedAlloc (S.regionSize r) region size alignment id)
  | .reserve r size answer => do
    let region ← s.region r
    s.withReservation S r region size 1 answer (lsregionReserve (S.regionSize r) region size)
  | .alignedReserve r size alignment answer => do
    let region ← s.region r
    s.withReservation S r region size alignment answer
      (lsregionAlignedReserve (S.regionSize r) region size alignment)
  | .gc r minId => do
    let region ← s.region r
    let (region, b) ← s.backing.lsregionGc S.arena (S.regionArena r) region minId
    some (.void, s.setRegion r (some region) b)
  | .regionDestroy r => do
    let region ← s.region r
    let b ← s.backing.lsregionDestroy S.arena (S.regionArena r) region
    some (.void, s.setRegion r none b)

/-! ## The machine -/

omit [DecidableEq ι] in
/-- What `malloc` of `size` bytes may return: memory that nobody has. -/
structure Backing.FreshBlock (c : ι → ArenaConfig) (b : Backing ι) (size a : Nat) : Prop where
  heap : ∀ x ∈ b.heap, a + size ≤ x.1 ∨ x.1 + x.2 ≤ a
  prealloc : ∀ i, a + size ≤ (c i).arena ∨ (c i).arena + (c i).prealloc ≤ a
  mapped : ∀ i, ∀ m ∈ (b.arena i).mapped, a + size ≤ m ∨ m + (c i).slabSize ≤ a

omit [DecidableEq ι] in
/-- What `mmap` may return to the arena `i`: an aligned region that nobody has. -/
structure Backing.FreshSlab (c : ι → ArenaConfig) (i : ι) (b : Backing ι) (m : Nat) : Prop where
  ne_zero : m ≠ 0
  aligned : (c i).slabSize ∣ m
  bound : m + (c i).slabSize ≤ sizeMax
  heap : ∀ x ∈ b.heap, m + (c i).slabSize ≤ x.1 ∨ x.1 + x.2 ≤ m
  prealloc : m + (c i).slabSize ≤ (c i).arena ∨ (c i).arena + (c i).prealloc ≤ m
  mapped : ∀ m' ∈ (b.arena i).mapped, m + (c i).slabSize ≤ m' ∨ m' + (c i).slabSize ≤ m

omit [DecidableEq ι] in
/-- What `malloc` may return, if the call needs a block of `size` bytes, or else `mmap`. -/
def Backing.Answers (c : ι → ArenaConfig) (i : ι) (b : Backing ι) (large : Prop) (size : Nat)
    (answer : Option Nat) : Prop :=
  ∀ ptr, answer = some ptr → (large → b.FreshBlock c size ptr) ∧ (¬ large → b.FreshSlab c i ptr)

omit [DecidableEq ι] [DecidableEq κ] [DecidableEq ρ] in
/-- A reservation of a size for which the region may be billed, and the answer to it. -/
def SharedState.Reserves (r : ρ) (size alignment : Nat) (answer : Option Nat) : Prop :=
  size + alignment + lslabSizeof ≤ quotaMax ∧
  s.backing.Answers S.arena (S.regionArena r) (S.regionSize r < newSlabSize size alignment)
    (newSlabSize size alignment) answer

omit [DecidableEq ι] [DecidableEq κ] [DecidableEq ρ] in
/-- The calls of the clients: they create what is not there, put the slabs that they have, and
ask for sizes below `QUOTA_MAX` with the header; ids are 64-bit. -/
def SharedOp.Allowed : SharedOp κ ρ → Prop
  | .cacheCreate k _ _ _ => s.cache k = none
  | .get k size answer =>
      size + slabSizeof < quotaMax ∧
      s.backing.Answers S.arena (S.cacheArena k)
        ((S.geometry k).slabOrder (size + slabSizeof) = (S.geometry k).orderMax + 1)
        (size + slabSizeof) answer
  | .getLarge k size answer =>
      size + slabSizeof < quotaMax ∧
        s.backing.Answers S.arena (S.cacheArena k) True (size + slabSizeof) answer
  | .put k a => ∀ st, s.cache k = some st → a ∈ st.live
  | .cacheDestroy _ _ => True
  | .write k a _ => ∀ st, s.cache k = some st → a ∈ st.live
  | .regionCreate r => s.region r = none
  | .alloc r size id answer => id ≤ int64Max ∧ s.Reserves S r size 1 answer
  | .alignedAlloc r size alignment id answer => id ≤ int64Max ∧ s.Reserves S r size alignment answer
  | .reserve r size answer => s.Reserves S r size 1 answer
  | .alignedReserve r size alignment answer => s.Reserves S r size alignment answer
  | .gc _ _ => True
  | .regionDestroy _ => True

omit [DecidableEq ι] [DecidableEq κ] [DecidableEq ρ] in
/-- Arenas after `slab_arena_create`, and a quota of which nothing is used. -/
structure SharedState.Init : Prop where
  quota : usedInUnits s.backing.quota = 0
  arena : ∀ i, s.backing.arena i =
    { cache := [], arena := (S.arena i).arena, prealloc := (S.arena i).prealloc, used := 0,
      carved := [], mapped := [] }
  heap : s.backing.heap = []
  cache : ∀ k, s.cache k = none
  region : ∀ r, s.region r = none

end Calls

/-- All sequences of calls. -/
def sharedMachine {ι κ ρ : Type} [DecidableEq ι] [DecidableEq κ] [DecidableEq ρ] (S : Setup ι κ ρ) :
    Machine (SharedState ι κ ρ) (SharedOp κ ρ) where
  init := SharedState.Init S
  allowed := SharedOp.Allowed S
  exec := fun s op => (op.call S s).map Prod.snd

end SmallAllocators
