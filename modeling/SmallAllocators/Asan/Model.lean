/-
SmallAllocators.Asan.Model — the slab arena, the slab cache, the memory pool
and the allocator of small objects of a build with ASAN:
`small/slab_arena_asan.c`, `small/slab_cache_asan.c`, `small/mempool_asan.c`,
`small/small_asan.c`, and their headers.

All of them give out blocks of `small_asan_alloc` with the id of the
allocator in the header, and stop when a block comes back to an allocator
with another id. An allocator of small objects has the size in the header,
too, and leases it from the quota of its slab cache. `small_xmalloc` does not
return `NULL`; `answer` is the address that it returns.

A function returns `none` when an assertion fails, or when `free` is given
something else than a block.
-/
import SmallAllocators.AsanBlock
import SmallAllocators.Quota.Lessor
import SmallAllocators.SlabArena.Create
import SmallAllocators.Small.Groups

namespace SmallAllocators

open Memory

/-! ## The heap -/

structure AsanHeap where
  mem : Nat → UInt8
  /-- The addresses and sizes of the blocks that `malloc` returned and nobody freed yet. -/
  blocks : List (Nat × Nat)
  /-- `small_asan_id_next` -/
  smallAsanIdNext : Nat

namespace AsanHeap

variable (h : AsanHeap)

/-- `small_asan_reserve_id`. -/
def smallAsanReserveId : Nat × AsanHeap :=
  (h.smallAsanIdNext, { h with smallAsanIdNext := (h.smallAsanIdNext + 1) % 2 ^ 32 })

/-- A store of a number of `n` bytes. -/
def store (a n value : Nat) : AsanHeap := { h with mem := fill h.mem a n (byte value) }

/-- `small_asan_alloc`. -/
def alloc (payloadSize alignment headerSize answer : Nat) : Option (Nat × AsanHeap) := do
  let (header, mem) ← smallAsanAlloc h.mem answer payloadSize alignment headerSize
  some (header, { h with
      mem := mem,
      blocks := (answer, asanAllocSize payloadSize alignment headerSize) :: h.blocks })

/-- `small_asan_free`. -/
def free (header : Nat) : Option AsanHeap := do
  let a ← smallAsanFree h.mem header
  let block ← h.blocks.find? fun block => block.1 = a
  some { h with blocks := h.blocks.erase block }

/-- A block with an id of 32 bits in its header; the payload is returned. -/
def allocTagged (payloadSize alignment headerSize id answer : Nat) : Option (Nat × AsanHeap) := do
  let (obj, h) ← h.alloc payloadSize alignment headerSize answer
  let h := h.store obj 4 id
  some (smallAsanPayloadFromHeader h.mem obj, h)

/-- The end of a block that should have the id in its header. -/
def freeTagged (id payload : Nat) : Option AsanHeap := do
  let obj ← smallAsanHeaderFromPayload h.mem payload
  guard (loadLe h.mem obj 4 = id)
  h.free obj

end AsanHeap

/-! ## `struct slab_arena` -/

structure AsanArena where
  slabSize : Nat
  id : Nat

/-- `SMALL_ARENA_SLAB_ALIGNMENT`. -/
def smallArenaSlabAlignment : Nat := 8

def asanSlabArenaCreate (h : AsanHeap) (slabSize : Nat) : Option (AsanArena × AsanHeap) := do
  let slabSize ← smallRound (if slabSize < slabMinSize then slabMinSize else slabSize)
  let (id, h) := h.smallAsanReserveId
  some ({ slabSize := slabSize % 2 ^ 32, id := id }, h)

/-- `slab_map`; the size of the header is that of a pointer. -/
def asanSlabMap (h : AsanHeap) (arena : AsanArena) (answer : Nat) : Option (Nat × AsanHeap) :=
  h.allocTagged arena.slabSize smallArenaSlabAlignment ptrSize arena.id answer

def asanSlabUnmap (h : AsanHeap) (arena : AsanArena) (ptr : Nat) : Option AsanHeap :=
  if ptr = 0 then some h else h.freeTagged arena.id ptr

/-! ## `struct slab_cache` -/

structure AsanSlabCache where
  quota : QuotaLessor
  used : Nat
  id : Nat

/-- `SMALL_CACHE_SLAB_ALIGNMENT`. -/
def smallCacheSlabAlignment : Nat := 16

/-- `small_getpagesize`. -/
def smallGetpagesize : Nat := 4096

/-- The size of `struct slab` here: one `size_t`. -/
def asanSlabSizeof : Nat := 8

/-- `slab_real_size`. -/
def asanSlabRealSize (size : Nat) : Option Nat :=
  smallAlign ((size + asanSlabSizeof) % sizeMax) smallGetpagesize

def asanSlabCacheCreate (h : AsanHeap) (source : Nat) : Option (AsanSlabCache × AsanHeap) := do
  let quota ← quotaLessorCreate source
  let (id, h) := h.smallAsanReserveId
  some ({ quota := quota, used := 0, id := id }, h)

/-- `slab_get`; the size of the header is that of a pointer. -/
def asanSlabGet (h : AsanHeap) (cache : AsanSlabCache) (size answer : Nat) :
    Option (Nat × AsanSlabCache × AsanHeap) := do
  let size ← asanSlabRealSize size
  let (slab, h) ← h.allocTagged size smallCacheSlabAlignment ptrSize cache.id answer
  some (slab, { cache with used := (cache.used + size) % sizeMax },
      h.store slab asanSlabSizeof size)

/-- `slab_put`. -/
def asanSlabPut (h : AsanHeap) (cache : AsanSlabCache) (slab : Nat) :
    Option (AsanSlabCache × AsanHeap) := do
  let size := loadLe h.mem slab asanSlabSizeof
  let h ← h.freeTagged cache.id slab
  some ({ cache with used := (cache.used + (sizeMax - size)) % sizeMax }, h)

/-! ## `struct mempool` -/

structure AsanMempool where
  objsize : Nat
  objcount : Nat
  alignment : Nat
  id : Nat

/-- `MEMPOOL_ASAN_MAX_ALIGNMENT`. -/
def mempoolAsanMaxAlignment : Nat := 4096

/-- `sizeof(struct mempool_object)`. -/
def mempoolObjectSizeof : Nat := 4

/-- The alignment that `mempool_create` computes. -/
def asanMempoolAlignment (objsize : Nat) : Nat :=
  let alignment := 1 <<< (builtinFfs objsize - 1)
  if alignment > mempoolAsanMaxAlignment then mempoolAsanMaxAlignment else alignment

def asanMempoolCreate (h : AsanHeap) (objsize : Nat) : Option (AsanMempool × AsanHeap) := do
  guard (objsize > 0)
  let (id, h) := h.smallAsanReserveId
  some ({ objsize := objsize, objcount := 0, alignment := asanMempoolAlignment objsize,
          id := id }, h)

def asanMempoolAlloc (h : AsanHeap) (pool : AsanMempool) (answer : Nat) :
    Option (Nat × AsanMempool × AsanHeap) := do
  let (ptr, h) ← h.allocTagged pool.objsize pool.alignment mempoolObjectSizeof pool.id answer
  some (ptr, { pool with objcount := (pool.objcount + 1) % sizeMax }, h)

def asanMempoolFree (h : AsanHeap) (pool : AsanMempool) (ptr : Nat) :
    Option (AsanMempool × AsanHeap) := do
  let h ← h.freeTagged pool.id ptr
  some ({ pool with objcount := (pool.objcount + (sizeMax - 1)) % sizeMax }, h)

/-! ## `struct small_alloc` -/

/-- The quota is that of the slab cache `cache`. -/
structure AsanSmallAlloc (κ : Type) where
  cache : κ
  objcount : Nat
  used : Nat
  id : Nat

/-- `SMALL_ASAN_ALIGNMENT`. -/
def smallAsanAlignment : Nat := 4

/-- `sizeof(struct small_object)`: the size, the id, and the padding behind it. -/
def smallObjectSizeof : Nat := 16

section Small

variable {κ : Type}

def asanSmallAllocCreate (h : AsanHeap) (cache : κ) : AsanSmallAlloc κ × AsanHeap :=
  let (id, h) := h.smallAsanReserveId
  ({ cache := cache, objcount := 0, used := 0, id := id }, h)

/-- `smalloc`, with the lessor of the slab cache and its source. -/
def asanSmalloc (h : AsanHeap) (alloc : AsanSmallAlloc κ) (lessor : QuotaLessor)
    (source size answer : Nat) :
    Option (Nat × AsanSmallAlloc κ × QuotaLessor × Nat × AsanHeap) := do
  match ← quotaLease lessor source size with
  | (none, lessor, source) => some (0, alloc, lessor, source, h)
  | (some _, lessor, source) =>
    let (obj, h) ← h.alloc size smallAsanAlignment smallObjectSizeof answer
    let h := (h.store obj 8 size).store (obj + 8) 4 alloc.id
    some (smallAsanPayloadFromHeader h.mem obj,
      { alloc with
        used := (alloc.used + size) % sizeMax,
        objcount := (alloc.objcount + 1) % sizeMax }, lessor, source, h)

/-- `smfree`. -/
def asanSmfree (h : AsanHeap) (alloc : AsanSmallAlloc κ) (lessor : QuotaLessor)
    (source ptr size : Nat) :
    Option (AsanSmallAlloc κ × QuotaLessor × Nat × AsanHeap) := do
  let obj ← smallAsanHeaderFromPayload h.mem ptr
  guard (loadLe h.mem obj 8 = size)
  guard (loadLe h.mem (obj + 8) 4 = alloc.id)
  let (_, lessor, source) ← quotaEndLease lessor source (loadLe h.mem obj 8)
  let used := (alloc.used + (sizeMax - loadLe h.mem obj 8)) % sizeMax
  let h ← h.free obj
  some ({ alloc with used := used, objcount := (alloc.objcount + (sizeMax - 1)) % sizeMax },
      lessor, source, h)

end Small

end SmallAllocators
