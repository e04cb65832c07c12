/-
SmallAllocators.Mempool.Model — the pool allocator of `small/mempool.c` and
`include/small/mempool.h`.

The headers `struct mslab` are cells of a heap, one for each slab address,
with the links `next_in_cold` in a `Links` heap; `mem` has the bytes of the
slabs, where the free lists are threaded. The tree `hot_slabs` is the list
of its nodes in the order of their addresses, which is what a red-black
tree stores (`rb_augmented_balanced`), and `slabs` lists the slabs of the
pool, the last one first. `NULL` is the address 0.

What `slab_get_with_order` returns is an argument of the operations. An
operation returns `none` when an `assert` of the source fails.
-/
import Mathlib.Data.List.Sort
import SmallAllocators.Lib.Memory
import SmallAllocators.SlabCache.Model

namespace SmallAllocators

open Memory

/-- `mslab_sizeof()`: a slab header, a pointer, two `uint32_t`, a tree node and a list node of
two pointers each, a flag and a pointer. -/
def mslabSizeof : Nat := 112

/-- `MAX_COLD_FRACTION_LB`. -/
def maxColdFractionLb : Nat := 3

/-- `struct mslab` without the links of the tree and of the lists. -/
structure Mslab where
  magic : Nat
  order : Nat
  size : Nat
  freeList : Nat
  freeOffset : Nat
  nfree : Nat
  inHotSlabs : Bool
  /-- The pool of the slab, by its number. -/
  mempool : Nat
deriving DecidableEq

/-- The places of `struct rlist` values: the head in a pool, and one in each slab header. -/
inductive ColdNode where
  | head (pool : Nat)
  | slab (addr : Nat)
deriving DecidableEq

/-- The slab headers and the bytes of the slabs. -/
structure MslabHeap where
  mslab : Nat → Mslab
  nextInCold : Links ColdNode
  mem : Nat → UInt8

/-- `struct mempool`. -/
structure Mempool where
  /-- The number that stands for the pool's address. -/
  id : Nat
  slabs : List Nat
  /-- `slabs.stats` -/
  stats : SmallStats
  hotSlabs : List Nat
  firstHotSlab : Nat
  spare : Nat
  objsize : Nat
  slabOrder : Nat
  objcount : Nat
  offset : Nat
  slabPtrMask : Nat

/-! ## Memory -/

def MslabHeap.setMslab (h : MslabHeap) (a : Nat) (s : Mslab) : MslabHeap :=
  { h with mslab := fun x => if x = a then s else h.mslab x }

/-- An assignment to `in_hot_slabs` of a slab. -/
def MslabHeap.setHotFlag (h : MslabHeap) (slab : Nat) (flag : Bool) : MslabHeap :=
  h.setMslab slab { h.mslab slab with inHotSlabs := flag }

def MslabHeap.setLinks (h : MslabHeap) (links : Links ColdNode) : MslabHeap :=
  { h with nextInCold := links }

/-- `memcpy` of a pointer from memory. -/
def loadPtr (mem : Nat → UInt8) (a : Nat) : Nat :=
  ((List.range ptrSize).map fun i => (mem (a + i)).toNat * 256 ^ i).sum

/-- `memcpy` of a pointer to memory. -/
def storePtr (mem : Nat → UInt8) (a v : Nat) : Nat → UInt8 :=
  fill mem a ptrSize fun i => UInt8.ofNat (v / 256 ^ i)

/-! ## The tree of hot slabs -/

/-- `mslab_tree_insert`, with its assertion that the node is not there. -/
def treeInsert (tree : List Nat) (slab : Nat) : Option (List Nat) := do
  guard (slab ∉ tree)
  some (tree.orderedInsert (· ≤ ·) slab)

/-- `mslab_tree_remove`, with its assertion that the node is there. -/
def treeRemove (tree : List Nat) (slab : Nat) : Option (List Nat) := do
  guard (slab ∈ tree)
  some (tree.erase slab)

/-- `mslab_tree_next`: the next node, or `NULL`. -/
def treeNext (tree : List Nat) (slab : Nat) : Nat := (tree.find? fun x => decide (slab < x)).getD 0

/-! ## Pools -/

/-- `mempool_create_with_order`. -/
def mempoolCreateWithOrder (g : Geometry) (h : MslabHeap) (id objsize order : Nat) :
    Option (MslabHeap × Mempool) := do
  guard (order ≤ g.orderMax)
  let slabSize := g.slabOrderSize order % 2 ^ 32
  let objcount := (slabSize + 2 ^ 32 - mslabSizeof) % 2 ^ 32 / objsize
  guard (objcount ≠ 0)
  some ({ h with nextInCold := rlistCreate h.nextInCold (.head id) },
    { id := id
      slabs := []
      stats := { used := 0, total := 0 }
      hotSlabs := []
      firstHotSlab := 0
      spare := 0
      objsize := objsize
      slabOrder := order
      objcount := objcount
      offset := (slabSize + 2 ^ 32 - objcount * objsize % 2 ^ 32) % 2 ^ 32
      slabPtrMask := sizeMax - 1 - (g.slabOrderSize order - 1) })

/-- `mslab_create`, in a slab that `slab_get_with_order` returned. -/
def mslabCreate (g : Geometry) (h : MslabHeap) (slab : Nat) (pool : Mempool) : MslabHeap :=
  let h := h.setMslab slab
    { magic := slabMagic
      order := pool.slabOrder
      size := g.slabOrderSize pool.slabOrder
      freeList := 0
      freeOffset := pool.offset
      nfree := pool.objcount
      inHotSlabs := false
      mempool := pool.id }
  h.setLinks (rlistCreate h.nextInCold (.slab slab))

/-- Assignments to `hot_slabs` and `first_hot_slab`. -/
def Mempool.setHot (pool : Mempool) (hot : List Nat) (first : Nat) : Mempool :=
  { pool with hotSlabs := hot, firstHotSlab := first }

def Mempool.setSpare (pool : Mempool) (slab : Nat) : Mempool := { pool with spare := slab }

/-- An assignment to `slabs.stats.used`. -/
def Mempool.setUsed (pool : Mempool) (used : Nat) : Mempool :=
  { pool with stats := { pool.stats with used := used } }

/-- `slab_list_add(&pool->slabs, slab, next_in_list)`. -/
def Mempool.listAdd (h : MslabHeap) (pool : Mempool) (slab : Nat) : Mempool :=
  { pool with
    slabs := slab :: pool.slabs
    stats := { pool.stats with total := pool.stats.total + (h.mslab slab).size } }

/-- `slab_list_del(&pool->slabs, slab, next_in_list)`; the slab then goes back to the cache. -/
def Mempool.listDel (h : MslabHeap) (pool : Mempool) (slab : Nat) : Mempool :=
  { pool with
    slabs := pool.slabs.erase slab
    stats := { pool.stats with total := pool.stats.total - (h.mslab slab).size } }

/-- `first_hot_slab` moves on from the slab. -/
def Mempool.skipHot (pool : Mempool) (slab : Nat) : Mempool :=
  if slab = pool.firstHotSlab then pool.setHot pool.hotSlabs (treeNext pool.hotSlabs slab) else pool

/-- The slab leaves the tree. -/
def removeHot (h : MslabHeap) (pool : Mempool) (slab : Nat) : Option (MslabHeap × Mempool) := do
  let pool := pool.skipHot slab
  let hot ← treeRemove pool.hotSlabs slab
  some (h.setHotFlag slab false, pool.setHot hot pool.firstHotSlab)

/-- The slab enters the tree. -/
def insertHot (h : MslabHeap) (pool : Mempool) (slab : Nat) : Option (MslabHeap × Mempool) := do
  let hot ← treeInsert pool.hotSlabs slab
  some (h.setHotFlag slab true, pool.setHot hot pool.firstHotSlab)

/-- The object that `mslab_alloc` takes: the first one of the free list, or the next untouched
one. -/
def mslabTake (h : MslabHeap) (pool : Mempool) (slab : Nat) : Nat × MslabHeap :=
  let s := h.mslab slab
  if s.freeList ≠ 0 then
    (s.freeList,
        h.setMslab slab { s with freeList := loadPtr h.mem s.freeList, nfree := s.nfree - 1 })
  else
    (slab + s.freeOffset,
      h.setMslab slab
      { s with freeOffset := (s.freeOffset + pool.objsize) % 2 ^ 32, nfree := s.nfree - 1 })

/-- `mslab_alloc`. -/
def mslabAlloc (h : MslabHeap) (pool : Mempool) (slab : Nat) :
    Option (Nat × MslabHeap × Mempool) := do
  guard ((h.mslab slab).nfree ≠ 0)
  let (result, h) := mslabTake h pool slab
  if (h.mslab slab).nfree = 0 then
    let (h, pool) ← removeHot h pool slab
    some (result, h, pool)
  else some (result, h, pool)

/-- `mempool_free_spare_slab`. -/
def mempoolFreeSpareSlab (h : MslabHeap) (pool : Mempool) : Option Mempool := do
  guard (pool.spare ≠ 0)
  some ((pool.listDel h pool.spare).setSpare 0)

/-- The end of `mslab_free` for a slab without objects: it becomes the spare slab or goes back
to the cache. -/
def retireSlab (h : MslabHeap) (pool : Mempool) (slab : Nat) : Option Mempool :=
  if pool.spare > slab then do
    let pool ← mempoolFreeSpareSlab h pool
    some (pool.setSpare slab)
  else if pool.spare ≠ 0 then some (pool.listDel h slab)
  else some (pool.setSpare slab)

/-- The object goes to the free list of its slab. -/
def mslabPush (h : MslabHeap) (slab ptr : Nat) : MslabHeap :=
  let s := h.mslab slab
  { h with mem := storePtr h.mem ptr s.freeList }.setMslab slab
    { s with freeList := ptr, nfree := s.nfree + 1 }

/-- The part of `mslab_free` that finds a place for the slab. -/
def mslabPlace (h : MslabHeap) (pool : Mempool) (slab : Nat) : Option (MslabHeap × Mempool) :=
  let s := h.mslab slab
  if s.inHotSlabs = false ∧ s.nfree ≥ pool.objcount >>> maxColdFractionLb then do
    let h := h.setLinks (rlistDel h.nextInCold (.slab slab))
    let (h, pool) ← insertHot h pool slab
    if pool.firstHotSlab = 0 ∨ pool.firstHotSlab > slab then
      some (h, pool.setHot pool.hotSlabs slab)
    else some (h, pool)
  else if s.nfree = 1 then
    some (h.setLinks (rlistAdd h.nextInCold (.head pool.id) (.slab slab)), pool)
  else if s.nfree = pool.objcount then do
    let (h, pool) ← removeHot h pool slab
    let pool ← retireSlab h pool slab
    some (h, pool)
  else some (h, pool)

/-- `mslab_free`. -/
def mslabFree (h : MslabHeap) (pool : Mempool) (slab ptr : Nat) : Option (MslabHeap × Mempool) :=
  mslabPlace (mslabPush h slab ptr) pool slab

/-- The slab that `mempool_alloc` takes when no slab is hot: the spare one, a new one, or a cold
one. -/
def mempoolSlab (g : Geometry) (h : MslabHeap) (pool : Mempool) (answer : Option Nat) :
    Option (Nat × MslabHeap × Mempool) :=
  if pool.spare ≠ 0 then some (pool.spare, h, pool.setSpare 0)
  else
    match answer with
    | some slab =>
      let h := mslabCreate g h slab pool
      some (slab, h, pool.listAdd h slab)
    | none =>
      if rlistEmpty h.nextInCold (.head pool.id) then none
      else
        match rlistShift h.nextInCold (.head pool.id) with
        | (.slab slab, links) => some (slab, h.setLinks links, pool)
        | (.head _, _) => none

/-- The end of `mempool_alloc`, with a slab. -/
def mempoolTake (h : MslabHeap) (pool : Mempool) (slab : Nat) :
    Option (Nat × MslabHeap × Mempool) := do
  let pool := pool.setUsed (pool.stats.used + pool.objsize)
  let (ptr, h, pool) ← mslabAlloc h pool slab
  guard (ptr ≠ 0)
  some (ptr, h, pool)

/-- `mempool_alloc`; `NULL` is the pointer 0. -/
def mempoolAlloc (g : Geometry) (h : MslabHeap) (pool : Mempool) (answer : Option Nat) :
    Option (Nat × MslabHeap × Mempool) :=
  if pool.firstHotSlab ≠ 0 then mempoolTake h pool pool.firstHotSlab
  else
    match mempoolSlab g h pool answer with
    | none => some (0, h, pool)
    | some (slab, h, pool) => do
      guard ((h.mslab slab).inHotSlabs = false)
      let (h, pool) ← insertHot h pool slab
      mempoolTake h (pool.setHot pool.hotSlabs slab) slab

/-- `mempool_free_slab`; a debug build fills the object with `'#'`. -/
def mempoolFreeSlab (h : MslabHeap) (pool : Mempool) (slab ptr : Nat) :
    Option (MslabHeap × Mempool) := do
  guard (ptr ≠ 0)
  let h := { h with mem := fill h.mem ptr pool.objsize fun _ => 35 }
  guard ((h.mslab slab).order = pool.slabOrder)
  mslabFree h (pool.setUsed (pool.stats.used - pool.objsize)) slab ptr

/-- `slab_from_ptr`. -/
def slabFromPtr (h : MslabHeap) (ptr slabMask : Nat) : Option Nat := do
  let slab := ptr &&& slabMask
  guard ((h.mslab slab).magic = slabMagic)
  some slab

/-- `mempool_free`. -/
def mempoolFree (h : MslabHeap) (pool : Mempool) (ptr : Nat) : Option (MslabHeap × Mempool) := do
  guard (ptr ≠ 0)
  let slab ← slabFromPtr h ptr pool.slabPtrMask
  mempoolFreeSlab h pool slab ptr

end SmallAllocators
