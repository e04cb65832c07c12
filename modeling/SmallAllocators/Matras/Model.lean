/-
SmallAllocators.Matras.Model — the address translation allocator of
`small/matras.c` and `include/small/matras.h`.

An extent is named by its address, and is either a table of pointers
(`slots`) or holds blocks (`bytes`). The links between the views are the
order of a list, newest view first. What `alloc_func` returns next is part of
the allocator (`supply`; no answer is left when it is empty), and
`allocated` has the extents that `alloc_func` returned and `free_func` did
not get back: to free any other extent goes wrong. An operation returns
`none` when an `assert` of the source fails or its behaviour is undefined.
The counters of extents are of type `matras_id_t` and wrap around.
-/
import Mathlib.Data.BitVec
import Mathlib.Tactic.Common
import SmallAllocators.Util

namespace SmallAllocators

/-- What `matras_create` derives from the sizes. -/
structure MatrasConfig where
  blockSize : Nat
  extentSize : Nat
  capacity : Nat
  shift1 : Nat
  shift2 : Nat
  mask1 : Nat
  mask2 : Nat
deriving DecidableEq

/-- `struct matras_view`. -/
structure MatrasView where
  /-- The number that stands for the address of the structure. -/
  key : Nat
  root : Nat
  blockCount : Nat
deriving DecidableEq

/-- `struct matras_allocator`. -/
structure MatrasAllocator where
  supply : List (Option Nat)
  allocated : List Nat
  reservedExtents : Nat
  numReservedExtents : Nat

/-- `struct matras_stats`. -/
structure MatrasStats where
  extentCount : BitVec 32
  readViewExtentCount : BitVec 32
deriving DecidableEq

/-- `struct matras`, with its views and its memory. -/
structure Matras where
  head : MatrasView
  /-- The chain of `prev_view` from the head. -/
  views : List MatrasView
  config : MatrasConfig
  extentCount : BitVec 32
  stats : MatrasStats
  allocator : MatrasAllocator
  /-- The extents as tables of pointers. -/
  slots : Nat → Nat → Nat
  /-- The extents as bytes. -/
  bytes : Nat → Nat → UInt8

/-- A pointer to a block. -/
structure BlockPtr where
  extent : Nat
  offset : Nat
deriving DecidableEq

/-! ## Creation -/

/-- `matras_log2`; the argument is a `matras_id_t`. -/
def matrasLog2 (val : Nat) : Option Nat := do
  guard (0 < val % 2 ^ 32)
  some (Nat.log2 (val % 2 ^ 32))

/-- `1 << k` of a `matras_id_t`, which is defined for `k < 32` only. -/
def oneShiftLeft (k : Nat) : Option Nat := do
  guard (k < 32)
  some (1 <<< k)

/-- The sizes, shifts and masks of `matras_create`. -/
def matrasConfig (blockSize extentSize : Nat) : Option MatrasConfig := do
  guard (extentSize &&& (extentSize - 1) = 0)
  guard (blockSize &&& (blockSize - 1) = 0)
  guard (blockSize ≤ extentSize)
  guard (extentSize > ptrSize)
  let log1 ← matrasLog2 extentSize
  let log2 ← matrasLog2 blockSize
  let log3 ← matrasLog2 ptrSize
  let log2Capacity := log1 * 3 - log2 - log3 * 2
  let shift1 := log1 * 2 - log2 - log3
  let shift2 := log1 - log2
  let one1 ← oneShiftLeft shift1
  let one2 ← oneShiftLeft shift2
  some
    { blockSize := blockSize
      extentSize := extentSize
      capacity := 1 <<< min log2Capacity 32
      shift1 := shift1
      shift2 := shift2
      mask1 := one1 - 1
      mask2 := one2 - 1 }

/-- `matras_create`, with statistics of its own and a new allocator, in a memory with arbitrary
contents. -/
def matrasCreate (blockSize extentSize : Nat) (slots : Nat → Nat → Nat)
    (bytes : Nat → Nat → UInt8) (root : Nat) :
    Option Matras := do
  let config ← matrasConfig blockSize extentSize
  some
    { head := { key := 0, root := root, blockCount := 0 }
      views := []
      config := config
      extentCount := 0
      stats := { extentCount := 0, readViewExtentCount := 0 }
      allocator := { supply := [], allocated := [], reservedExtents := 0, numReservedExtents := 0 }
      slots := slots
      bytes := bytes }

/-! ## Positions of a block -/

namespace MatrasConfig

/-- The number of a block's slot in the root. -/
def n1 (c : MatrasConfig) (id : Nat) : Nat := id >>> c.shift1

/-- The number of a block's slot in an extent of the second level. -/
def n2 (c : MatrasConfig) (id : Nat) : Nat := (id &&& c.mask1) >>> c.shift2

/-- The number of a block in its extent. -/
def n3 (c : MatrasConfig) (id : Nat) : Nat := id &&& c.mask2

/-- `ptrs_in_ext`. -/
def ptrsInExt (c : MatrasConfig) : Nat := c.extentSize / ptrSize

end MatrasConfig

/-- `matras_view_get_no_check`. -/
def matrasViewGetNoCheck (m : Matras) (v : MatrasView) (id : Nat) : BlockPtr :=
  { extent := m.slots (m.slots v.root (m.config.n1 id)) (m.config.n2 id)
    offset := m.config.n3 id * m.config.blockSize }

/-- `matras_get`. -/
def matrasGet (m : Matras) (id : Nat) : BlockPtr := matrasViewGetNoCheck m m.head id

/-! ## Extents -/

namespace Matras

def setRoot (m : Matras) (root : Nat) : Matras := { m with head := { m.head with root := root } }

def setBlockCount (m : Matras) (n : Nat) : Matras :=
  { m with head := { m.head with blockCount := n } }

/-- `ext[i] = ptr`. -/
def setSlot (m : Matras) (ext i ptr : Nat) : Matras :=
  { m with slots := fun x j => if x = ext ∧ j = i then ptr else m.slots x j }

/-- `memcpy` of an extent. -/
def copyExtent (m : Matras) (new ext : Nat) : Matras :=
  { m with
    slots := fun x => if x = new then m.slots ext else m.slots x
    bytes := fun x => if x = new then m.bytes ext else m.bytes x }

/-- Changes of both counters of extents. -/
def addExtents (m : Matras) (n : BitVec 32) : Matras :=
  { m with
    extentCount := m.extentCount + n
    stats := { m.stats with extentCount := m.stats.extentCount + n } }

def addReadViewExtents (m : Matras) (n : BitVec 32) : Matras :=
  { m with stats := { m.stats with readViewExtentCount := m.stats.readViewExtentCount + n } }

def setAllocator (m : Matras) (a : MatrasAllocator) : Matras := { m with allocator := a }

/-! The counters are apart from the rest. -/

@[simp] theorem addExtents_config (m : Matras) (n : BitVec 32) :
    (m.addExtents n).config = m.config := rfl

@[simp] theorem addExtents_head (m : Matras) (n : BitVec 32) : (m.addExtents n).head = m.head := rfl

@[simp] theorem addExtents_allocator (m : Matras) (n : BitVec 32) :
    (m.addExtents n).allocator = m.allocator := rfl

@[simp] theorem addExtents_slots (m : Matras) (n : BitVec 32) :
    (m.addExtents n).slots = m.slots := rfl

end Matras

/-- A call of `alloc_func`. -/
def MatrasAllocator.call (a : MatrasAllocator) : Option Nat × MatrasAllocator :=
  match a.supply with
  | [] => (none, a)
  | none :: supply => (none, { a with supply := supply })
  | some ext :: supply => (some ext, { a with supply := supply, allocated := ext :: a.allocated })

/-- `matras_allocator_alloc`; `none` is `NULL`. -/
def matrasAllocatorAlloc (m : Matras) : Option Nat × Matras :=
  if 0 < m.allocator.numReservedExtents then
    (some m.allocator.reservedExtents,
      m.setAllocator
        { m.allocator with
          reservedExtents := m.slots m.allocator.reservedExtents 0
          numReservedExtents := m.allocator.numReservedExtents - 1 })
  else (m.allocator.call.1, m.setAllocator m.allocator.call.2)

/-- `matras_allocator_free`. -/
def matrasAllocatorFree (m : Matras) (ext : Nat) : Option Matras := do
  guard (ext ∈ m.allocator.allocated)
  some (m.setAllocator { m.allocator with allocated := m.allocator.allocated.erase ext })

/-- `matras_alloc_extent`. -/
def matrasAllocExtent (m : Matras) : Option Nat × Matras :=
  match matrasAllocatorAlloc m with
  | (none, m) => (none, m)
  | (some ext, m) => (some ext, m.addExtents 1)

/-- `matras_free_extent`. -/
def matrasFreeExtent (m : Matras) (ext : Nat) : Option Matras := do
  let m ← matrasAllocatorFree m ext
  some (m.addExtents (-1))

/-- `matras_copy_read_view_extent`. -/
def matrasCopyReadViewExtent (m : Matras) (ext : Nat) : Option Nat × Matras :=
  match matrasAllocExtent m with
  | (none, m) => (none, m)
  | (some new, m) => (some new, (m.copyExtent new ext).addReadViewExtents 1)

/-- `matras_free_read_view_extent`. -/
def matrasFreeReadViewExtent (m : Matras) (ext : Nat) : Option Matras := do
  let m ← matrasFreeExtent m ext
  some (m.addReadViewExtents (-1))

/-! ## Blocks -/

/-- One level of `matras_alloc_internal`: the extent that is there, or a new one. -/
def allocLevel (m : Matras) (available : Bool) (ext : Nat) (link : Matras → Nat → Matras) :
    Option Nat × Matras :=
  if available then (some ext, m)
  else
    match matrasAllocExtent m with
    | (none, m) => (none, m)
    | (some new, m) => (some new, link m new)

/-- The extent goes back if it was created. -/
def rollback (m : Matras) (available : Bool) (ext : Nat) : Option Matras :=
  if available then some m else matrasFreeExtent m ext

/-- The third level of `matras_alloc_internal`. -/
def allocLeaf (m : Matras) (available1 available2 available3 : Bool) (extent1 extent2 n2 n3 : Nat) :
    Option (Option BlockPtr × Matras) :=
  match allocLevel m available3 (m.slots extent2 n2) fun m new => m.setSlot extent2 n2 new with
  | (none, m) => do
    let m ← rollback m available1 extent1
    let m ← rollback m available2 extent2
    some (none, m)
  | (some extent3, m) => some (some { extent := extent3, offset := n3 * m.config.blockSize }, m)

/-- The second and the third level of `matras_alloc_internal`. -/
def allocMid (m : Matras) (available1 available2 available3 : Bool) (extent1 n1 n2 n3 : Nat) :
    Option (Option BlockPtr × Matras) :=
  match allocLevel m available2 (m.slots extent1 n1) fun m new => m.setSlot extent1 n1 new with
  | (none, m) => do
    let m ← rollback m available1 extent1
    some (none, m)
  | (some extent2, m) => allocLeaf m available1 available2 available3 extent1 extent2 n2 n3

/-- `matras_alloc_internal`. -/
def matrasAllocInternal (m : Matras) : Option (Option BlockPtr × Matras) :=
  let id := m.head.blockCount % 2 ^ 32
  let available1 := decide (id ≠ 0)
  let available2 := decide (id &&& m.config.mask1 ≠ 0)
  let available3 := decide (id &&& m.config.mask1 &&& m.config.mask2 ≠ 0)
  match allocLevel m available1 m.head.root Matras.setRoot with
  | (none, m) => some (none, m)
  | (some extent1, m) =>
    allocMid m available1 available2 available3 extent1 (m.config.n1 id) (m.config.n2 id)
      (id &&& m.config.mask1 &&& m.config.mask2)

/-- `matras_alloc`; the result has the pointer and the block's number. -/
def matrasAlloc (m : Matras) : Option (Option (BlockPtr × Nat) × Matras) := do
  guard (m.head.blockCount ≤ m.config.capacity)
  if m.head.blockCount = m.config.capacity then some (none, m)
  else
    let (res, m) ← matrasAllocInternal m
    match res with
    | none => some (none, m)
    | some ptr => some (some (ptr, m.head.blockCount), m.setBlockCount (m.head.blockCount + 1))

/-- `matras_alloc_range`. -/
def matrasAllocRange (m : Matras) (rangeCount : Nat) :
    Option (Option (BlockPtr × Nat) × Matras) := do
  guard (m.head.blockCount ≤ m.config.capacity)
  guard (rangeCount ≠ 0)
  guard (m.head.blockCount % rangeCount = 0)
  guard (m.config.extentSize / m.config.blockSize % rangeCount = 0)
  if m.head.blockCount + rangeCount > m.config.capacity then some (none, m)
  else
    let (res, m) ← matrasAllocInternal m
    match res with
    | none => some (none, m)
    | some ptr =>
        some (some (ptr, m.head.blockCount), m.setBlockCount (m.head.blockCount + rangeCount))

/-! ## Touch -/

/-- `matras_needs_touch`. -/
def matrasNeedsTouch (m : Matras) (id : Nat) : Bool :=
  match m.views with
  | [] => false
  | prev :: _ =>
    if prev.blockCount ≠ 0 then
      !decide (id >>> m.config.shift2 > ((prev.blockCount - 1) % 2 ^ 32) >>> m.config.shift2)
    else false

/-- One level of `matras_touch_no_check`: a copy of the extent, if the previous view has it too. -/
def touchLevel (m : Matras) (ext extp : Nat) (link : Matras → Nat → Matras) : Option Nat × Matras :=
  if ext = extp then
    match matrasCopyReadViewExtent m ext with
    | (none, m) => (none, m)
    | (some new, m) => (some new, link m new)
  else (some ext, m)

/-- The third level of `matras_touch_no_check`. -/
def touchLeaf (m : Matras) (extent2 extent2p id : Nat) : Option BlockPtr × Matras :=
  let n2 := m.config.n2 id
  match touchLevel m (m.slots extent2 n2) (m.slots extent2p n2) fun m new =>
    m.setSlot extent2 n2 new with
  | (none, m) => (none, m)
  | (some extent3, m) =>
      (some { extent := extent3, offset := m.config.n3 id * m.config.blockSize }, m)

/-- The second and the third level of `matras_touch_no_check`. -/
def touchMid (m : Matras) (extent1 extent1p id : Nat) : Option BlockPtr × Matras :=
  let n1 := m.config.n1 id
  let extent2p := m.slots extent1p n1
  match touchLevel m (m.slots extent1 n1) extent2p fun m new => m.setSlot extent1 n1 new with
  | (none, m) => (none, m)
  | (some extent2, m) => touchLeaf m extent2 extent2p id

/-- `matras_touch_no_check`, for the root of the previous view. -/
def matrasTouchNoCheck (m : Matras) (extent1p id : Nat) : Option BlockPtr × Matras :=
  match touchLevel m m.head.root extent1p Matras.setRoot with
  | (none, m) => (none, m)
  | (some extent1, m) => touchMid m extent1 extent1p id

/-- `m->head.prev_view->root`. -/
def Matras.prevRoot (m : Matras) : Nat := (m.views.head?.map (·.root)).getD 0

/-- `matras_touch`; a pointer or `NULL`. -/
def matrasTouch (m : Matras) (id : Nat) : Option (Option BlockPtr × Matras) := do
  guard (id < m.head.blockCount)
  if matrasNeedsTouch m id then some (matrasTouchNoCheck m m.prevRoot id)
  else some (some (matrasGet m id), m)

/-! ## Deallocation -/

/-- `matras_free_extent` under a condition. -/
def freeIf (m : Matras) (free : Bool) (ext : Nat) : Option Matras :=
  if free then matrasFreeExtent m ext else some m

/-- The part of `matras_dealloc` that frees the extents of the block. -/
def deallocExtents (m : Matras) (id : Nat) : Option Matras := do
  let extent1 := m.head.root
  let extent2 := m.slots extent1 (m.config.n1 id)
  let extent3 := m.slots extent2 (m.config.n2 id)
  let m ← freeIf m (id &&& m.config.mask1 &&& m.config.mask2 = 0) extent3
  let m ← freeIf m (id &&& m.config.mask1 = 0) extent2
  freeIf m (id = 0) extent1

/-- `matras_dealloc`. -/
def matrasDealloc (m : Matras) : Option Matras := do
  guard (m.head.blockCount ≠ 0)
  let id := (m.head.blockCount - 1) % 2 ^ 32
  let (_, m) ← matrasTouch m id
  deallocExtents (m.setBlockCount id) id

/-- `matras_dealloc_range`. -/
def matrasDeallocRange (m : Matras) (rangeCount : Nat) : Option Matras := do
  guard (rangeCount ≠ 0)
  guard (m.head.blockCount % rangeCount = 0)
  guard (m.config.extentSize / m.config.blockSize % rangeCount = 0)
  matrasDealloc (m.setBlockCount (m.head.blockCount - (rangeCount - 1)))

/-! ## Reserve -/

/-- `INT_MAX`. -/
def intMax : Nat := 2 ^ 31 - 1

/-- One round of the loop of `matras_allocator_reserve`, with an extent. -/
def Matras.reserve (m : Matras) (ext : Nat) : Matras :=
  (m.setSlot ext 0 m.allocator.reservedExtents).setAllocator
    { m.allocator with
      reservedExtents := ext, numReservedExtents := m.allocator.numReservedExtents + 1 }

/-- The loop of `matras_allocator_reserve`, with the number of rounds that may be left; whether
it succeeded. -/
def reserveLoop (count : Nat) : Nat → Matras → Bool × Matras
  | 0, m => (true, m)
  | n + 1, m =>
    if m.allocator.numReservedExtents < count then
      match m.allocator.call with
      | (none, a) => (false, m.setAllocator a)
      | (some ext, a) => reserveLoop count n ((m.setAllocator a).reserve ext)
    else (true, m)

/-- `matras_allocator_reserve`. -/
def matrasAllocatorReserve (m : Matras) (count : Nat) : Bool × Matras :=
  reserveLoop count (count - m.allocator.numReservedExtents) m

/-- `matras_touch_reserve`; whether it returned 0. -/
def matrasTouchReserve (m : Matras) (count : Nat) : Option (Bool × Matras) :=
  if count = 0 then some (true, m)
  else
    match m.views with
    | [] => some (true, m)
    | prev :: _ =>
      if prev.blockCount = 0 then some (true, m)
      else do
        let required := count * 2 + (if m.head.root = prev.root then 1 else 0)
        guard (required ≤ intMax)
        some (matrasAllocatorReserve m required)

/-! ## Views -/

/-- `matras_create_read_view`; the structure of the view lies at `key`. -/
def matrasCreateReadView (m : Matras) (key : Nat) : Matras :=
  { m with views := { m.head with key := key } :: m.views }

/-- `for (; cond(i, j); i++, j += step) body`, where `j` is a `matras_id_t`. -/
def stepLoop (cond : Nat → Nat → Bool) (step : Nat) (body : Nat → Nat → Matras → Option Matras) :
    Nat → Nat → Nat → Matras → Option Matras
  | 0, _, _, _ => none
  | n + 1, i, j, m =>
    if cond i j then do
      let m ← body i j m
      stepLoop cond step body n (i + 1) ((j + step) % 2 ^ 32) m
    else some m

/-- Whether a neighbour that has blocks from `j` on has the same pointer in the slot. -/
def sameSlot (m : Matras) (neighbour : Option MatrasView) (j ext i extn : Nat) : Bool :=
  match neighbour with
  | none => false
  | some n => decide (n.blockCount > j) && decide (m.slots ext i = m.slots extn i)

/-- The extents of the third level that `matras_destroy_read_view` frees in one round. -/
def destroyLeaf (v next : MatrasView) (prev : Option MatrasView) (i1 j1 i2 j2 : Nat)
    (m : Matras) : Option Matras :=
  let extent2 := m.slots v.root i1
  let j := (j1 + j2) % 2 ^ 32
  if sameSlot m (some next) j extent2 i2 (m.slots next.root i1) then some m
  else if sameSlot m prev j extent2 i2 (m.slots ((prev.map (·.root)).getD 0) i1) then some m
  else matrasFreeReadViewExtent m (m.slots extent2 i2)

/-- One round of the outer loop of `matras_destroy_read_view`. -/
def destroyMid (v next : MatrasView) (prev : Option MatrasView) (i1 j1 : Nat) (m : Matras) :
    Option Matras :=
  if sameSlot m (some next) j1 v.root i1 next.root then some m
  else if sameSlot m prev j1 v.root i1 ((prev.map (·.root)).getD 0) then some m
  else do
    let extent2 := m.slots v.root i1
    let m ← stepLoop (fun i2 j2 =>
        decide (i2 < m.config.ptrsInExt) && decide ((j1 + j2) % 2 ^ 32 < v.blockCount))
      (m.config.mask2 + 1) (destroyLeaf v next prev i1 j1) (m.config.ptrsInExt + 1) 0 0 m
    matrasFreeReadViewExtent m extent2

/-- Whether a neighbour with blocks has the same root. -/
def sameRoot (v : MatrasView) (neighbour : Option MatrasView) : Bool :=
  match neighbour with
  | none => false
  | some n => decide (v.root = n.root) && decide (n.blockCount ≠ 0)

/-- The part of `matras_destroy_read_view` that frees extents. -/
def destroyExtents (m : Matras) (v next : MatrasView) (prev : Option MatrasView) : Option Matras :=
  if v.blockCount = 0 then some m
  else if sameRoot v (some next) then some m
  else if sameRoot v prev then some m
  else do
    let m ← stepLoop (fun _ j1 => decide (j1 < v.blockCount)) (m.config.mask1 + 1)
      (destroyMid v next prev) (v.blockCount + 1) 0 0 m
    matrasFreeReadViewExtent m v.root

/-- The view with the key, the view before it in the list and the one behind it. -/
def findView (key : Nat) (next : MatrasView) :
    List MatrasView → Option (MatrasView × MatrasView × Option MatrasView)
  | [] => none
  | v :: views => if v.key = key then some (v, next, views.head?) else findView key v views

/-- `matras_destroy_read_view`; a view that is not in the chain has `next_view == 0`. -/
def matrasDestroyReadView (m : Matras) (key : Nat) : Option Matras :=
  match findView key m.head m.views with
  | none => some m
  | some (v, next, prev) =>
      destroyExtents { m with views := m.views.filter fun w => w.key ≠ key } v next prev

/-- The first loop of `matras_destroy`, with the number of views. -/
def destroyViews : Nat → Matras → Option Matras
  | 0, m => some m
  | n + 1, m =>
    match m.views with
    | [] => some m
    | prev :: _ => do
      let m ← matrasDestroyReadView m prev.key
      destroyViews n m

/-- One round of the outer loop of `matras_destroy`. -/
def destroyHeadMid (v : MatrasView) (i1 j1 : Nat) (m : Matras) : Option Matras := do
  let extent2 := m.slots v.root i1
  let m ← stepLoop
    (fun i2 j2 => decide (i2 < m.config.ptrsInExt) && decide ((j1 + j2) % 2 ^ 32 < v.blockCount))
    (m.config.mask2 + 1) (fun i2 _ m => matrasFreeExtent m (m.slots extent2 i2))
    (m.config.ptrsInExt + 1) 0 0 m
  matrasFreeExtent m extent2

/-- `matras_destroy`. -/
def matrasDestroy (m : Matras) : Option Matras := do
  let m ← destroyViews m.views.length m
  if m.head.blockCount = 0 then some m
  else do
    let m ← stepLoop (fun _ j1 => decide (j1 < m.head.blockCount)) (m.config.mask1 + 1)
      (destroyHeadMid m.head) (m.head.blockCount + 1) 0 0 m
    let m ← matrasFreeExtent m m.head.root
    guard (m.extentCount = 0)
    some m

end SmallAllocators
