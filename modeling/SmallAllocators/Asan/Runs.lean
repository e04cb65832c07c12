/-
SmallAllocators.Asan.Runs — every run of the allocators of a build with ASAN.

Any number of arenas, slab caches, pools and allocators of small objects are
on one heap and on one quota. Clients create and destroy them, allocate,
write to what they have, and give blocks back: to the allocator that the
block is from, or to another one by mistake. Others use the quota, too.
-/
import SmallAllocators.Asan.Counters
import SmallAllocators.Lib.Runs

namespace SmallAllocators

open Memory

variable {ι : Type} [DecidableEq ι]

/-! ## The machine -/

/-- A call of a client, with what `malloc` returns in it. A block that comes back is named by all
that is known of it, but the functions get the address of its payload. -/
inductive AsanCall (ι : Type) where
  | slabArenaCreate (a : ι) (slabSize : Nat)
  | slabArenaDestroy (a : ι)
  | slabMap (a : ι) (answer : Nat)
  | slabUnmap (a : ι) (o : AsanObject (AsanOwner ι))
  | slabCacheCreate (c : ι)
  | slabCacheDestroy (c : ι)
  | slabGet (c : ι) (size answer : Nat)
  | slabPut (c : ι) (o : AsanObject (AsanOwner ι))
  | mempoolCreate (p : ι) (objsize : Nat)
  | mempoolDestroy (p : ι)
  | mempoolAlloc (p : ι) (answer : Nat)
  | mempoolFree (p : ι) (o : AsanObject (AsanOwner ι))
  | smallAllocCreate (a c : ι)
  | smallAllocDestroy (a : ι)
  | smalloc (a : ι) (size answer : Nat)
  | smfree (a : ι) (o : AsanObject (AsanOwner ι)) (size : Nat)
  | write (mem : Nat → UInt8)
  | other (op : QuotaOp)

namespace AsanCall

/-- A call; the destructors of an arena and of an allocator of small objects do nothing. -/
def exec (s : AsanState ι) : AsanCall ι → Option (AsanState ι)
  | .slabArenaCreate a slabSize => do
    let (arena, heap) ← asanSlabArenaCreate s.heap slabSize
    some { s with heap := heap, allocators := s.allocators.setArena a (some arena) }
  | .slabArenaDestroy a => some { s with allocators := s.allocators.setArena a none }
  | .slabMap a answer => do
    let arena ← s.allocators.arena a
    let (slab, heap) ← asanSlabMap s.heap arena answer
    let o := ⟨.arena a, answer, slab, arena.slabSize, smallArenaSlabAlignment, ptrSize⟩
    some { s with heap := heap, live := o :: s.live }
  | .slabUnmap a o => do
    let arena ← s.allocators.arena a
    let heap ← asanSlabUnmap s.heap arena o.payload
    some { s with heap := heap, live := s.live.erase o }
  | .slabCacheCreate c => do
    let (cache, heap) ← asanSlabCacheCreate s.heap s.source
    some { s with heap := heap, allocators := s.allocators.setCache c (some cache) }
  | .slabCacheDestroy c => do
    let cache ← s.allocators.cache c
    let (_, source) ← quotaLessorDestroy cache.quota s.source
    some { s with allocators := s.allocators.setCache c none, source := source }
  | .slabGet c size answer => do
    let cache ← s.allocators.cache c
    let (slab, cache, heap) ← asanSlabGet s.heap cache size answer
    let o := ⟨.cache c, answer, slab, alignUp 12 (size + 8), smallCacheSlabAlignment, ptrSize⟩
    some { s with
      heap := heap, allocators := s.allocators.setCache c (some cache), live := o :: s.live }
  | .slabPut c o => do
    let cache ← s.allocators.cache c
    let (cache, heap) ← asanSlabPut s.heap cache o.payload
    some { s with
      heap := heap, allocators := s.allocators.setCache c (some cache), live := s.live.erase o }
  | .mempoolCreate p objsize => do
    let (pool, heap) ← asanMempoolCreate s.heap objsize
    some { s with heap := heap, allocators := s.allocators.setPool p (some pool) }
  | .mempoolDestroy p => some { s with allocators := s.allocators.setPool p none }
  | .mempoolAlloc p answer => do
    let pool ← s.allocators.pool p
    let (ptr, pool, heap) ← asanMempoolAlloc s.heap pool answer
    let o := ⟨.pool p, answer, ptr, pool.objsize, pool.alignment, mempoolObjectSizeof⟩
    some { s with
      heap := heap, allocators := s.allocators.setPool p (some pool), live := o :: s.live }
  | .mempoolFree p o => do
    let pool ← s.allocators.pool p
    let (pool, heap) ← asanMempoolFree s.heap pool o.payload
    some { s with
      heap := heap, allocators := s.allocators.setPool p (some pool), live := s.live.erase o }
  | .smallAllocCreate a c =>
    let (alloc, heap) := asanSmallAllocCreate s.heap c
    some { s with heap := heap, allocators := s.allocators.setAlloc a (some alloc) }
  | .smallAllocDestroy a => some { s with allocators := s.allocators.setAlloc a none }
  | .smalloc a size answer => do
    let alloc ← s.allocators.alloc a
    let cache ← s.allocators.cache alloc.cache
    let (ptr, alloc, lessor, source, heap) ←
      asanSmalloc s.heap alloc cache.quota s.source size answer
    let o := ⟨.small a, answer, ptr, size, smallAsanAlignment, smallObjectSizeof⟩
    some { s with
      heap := heap
      allocators :=
        (s.allocators.setCache alloc.cache (some { cache with quota := lessor })).setAlloc
          a (some alloc)
      source := source
      live := if ptr = 0 then s.live else o :: s.live }
  | .smfree a o size => do
    let alloc ← s.allocators.alloc a
    let cache ← s.allocators.cache alloc.cache
    let (alloc, lessor, source, heap) ← asanSmfree s.heap alloc cache.quota s.source o.payload size
    some { s with
      heap := heap
      allocators :=
        (s.allocators.setCache alloc.cache (some { cache with quota := lessor })).setAlloc
          a (some alloc)
      source := source
      live := s.live.erase o }
  | .write mem => some { s with heap := { s.heap with mem := mem } }
  | .other op => do
    match ← op.run s.source with
    | (some _, source) => some { s with source := source, others := op.settle s.others }
    | (none, source) => some { s with source := source }

/-- The client calls with a new structure, and ids are left. -/
def MayCreate (s : AsanState ι) (w : AsanOwner ι) : Prop :=
  s.allocators.id w = none ∧ s.heap.smallAsanIdNext + 1 < 2 ^ 32

/-- The client calls with a structure that it created, and does not have a block from it. -/
def MayDestroy (s : AsanState ι) (w : AsanOwner ι) : Prop :=
  (s.allocators.id w).isSome ∧ ∀ o ∈ s.live, o.owner ≠ w

/-- The client has the block, from whichever allocator it is. The size of a small object does not
end with the id of the allocator, whose check would take it for its own. -/
def MayFree (s : AsanState ι) (w : AsanOwner ι) (o : AsanObject (AsanOwner ι)) : Prop :=
  o ∈ s.live ∧ ∃ id, s.allocators.id w = some id ∧ (o.owner.IsSmall → o.size % 2 ^ 32 ≠ id)

/-- What clients may call, and what `malloc` may return. A block that comes back may be from
another allocator; but `smfree` gets small objects. -/
def Allowed (s : AsanState ι) : AsanCall ι → Prop
  | .slabArenaCreate a slabSize => MayCreate s (.arena a) ∧ slabSize < 2 ^ 32
  | .slabArenaDestroy a => MayDestroy s (.arena a)
  | .slabMap a answer =>
      ∃ arena, s.allocators.arena a = some arena ∧
        s.heap.Fresh (asanBlockSize arena.slabSize smallArenaSlabAlignment ptrSize) answer
  | .slabUnmap a o => MayFree s (.arena a) o
  | .slabCacheCreate c => MayCreate s (.cache c)
  | .slabCacheDestroy c => MayDestroy s (.cache c) ∧ ∀ a, s.allocators.lender a ≠ some c
  | .slabGet c size answer =>
      (s.allocators.cache c).isSome ∧ size < 2 ^ 63 ∧
        s.heap.Fresh (asanBlockSize (alignUp 12 (size + 8)) smallCacheSlabAlignment ptrSize) answer
  | .slabPut c o => MayFree s (.cache c) o
  | .mempoolCreate p objsize => MayCreate s (.pool p) ∧ objsize < 2 ^ 32
  | .mempoolDestroy p => MayDestroy s (.pool p)
  | .mempoolAlloc p answer =>
      ∃ pool, s.allocators.pool p = some pool ∧
        s.heap.Fresh (asanBlockSize pool.objsize pool.alignment mempoolObjectSizeof) answer
  | .mempoolFree p o => MayFree s (.pool p) o
  | .smallAllocCreate a c => MayCreate s (.small a) ∧ (s.allocators.cache c).isSome
  | .smallAllocDestroy a => MayDestroy s (.small a)
  | .smalloc a size answer =>
      ∃ alloc cache, s.allocators.alloc a = some alloc ∧
        s.allocators.cache alloc.cache = some cache ∧ size < 2 ^ 63 ∧
        (cache.quota.used < cache.quota.leased + size →
          SumFits s.source (leaseRequest cache.quota size)) ∧
        ∀ r lessor source, quotaLease cache.quota s.source size = some (some r, lessor, source) →
          s.heap.Fresh (asanBlockSize size smallAsanAlignment smallObjectSizeof) answer
  | .smfree a o _ => (s.allocators.alloc a).isSome ∧ o ∈ s.live ∧ o.owner.IsSmall
  | .write mem => ∀ o ∈ s.live, ∀ x, o.block ≤ x → x < o.reserved → mem x = s.heap.mem x
  | .other op => op.Client s.others ∧ ∀ size, op = .use size → SumFits s.source size

/-- The mistakes that an assertion finds. -/
def Wrong (s : AsanState ι) : AsanCall ι → Prop
  | .slabUnmap a o => o.owner ≠ .arena a
  | .slabCacheCreate _ => quotaTotal s.source < quotaUseMin
  | .slabCacheDestroy c => ∃ cache, s.allocators.cache c = some cache ∧ cache.quota.used = quotaMax
  | .slabPut c o => o.owner ≠ .cache c
  | .mempoolCreate _ objsize => objsize = 0
  | .mempoolFree p o => o.owner ≠ .pool p
  | .smfree a o size => o.owner ≠ .small a ∨ o.size ≠ size
  | _ => False

/-- The bytes of the client stay, unless it is the client who writes. -/
def Keeps (s s' : AsanState ι) (op : AsanCall ι) : Prop :=
  (∀ mem, op ≠ .write mem) → ∀ o ∈ s.live, ∀ x, o.payload ≤ x → x < o.payload + o.size →
  s'.heap.mem x = s.heap.mem x

end AsanCall

/-- Nothing was created; others may have some of the quota already. -/
def AsanState.Created (s : AsanState ι) : Prop :=
  s.heap.blocks = [] ∧ s.heap.smallAsanIdNext < 2 ^ 32 ∧
  s.allocators = ⟨fun _ => none, fun _ => none, fun _ => none, fun _ => none⟩ ∧
    s.others = usedInUnits s.source ∧ s.live = []

def asanAllocatorsMachine (ι : Type) [DecidableEq ι] : Machine (AsanState ι) (AsanCall ι) where
  init := AsanState.Created
  allowed s op := op.Allowed s
  exec s op := op.exec s

/-- The invariant. -/
structure AsanState.Inv [Fintype ι] (s : AsanState ι) : Prop where
  /-- Where the blocks are, and what is in their headers. -/
  tags : s.heap.Tags s.allocators.id s.live
  /-- What each allocator counts. -/
  serves : ∀ w, s.allocators.Serves w (blocksOf s.live w)
  /-- What is on lease. -/
  leases : AsanLeases s.allocators.quota s.allocators.lender s.source s.others s.live

end SmallAllocators
