/-
SmallAllocators.Lsregion.Model — the log structured allocator of
`include/small/lsregion.h` and `small/lsregion.c`.

The region holds its slabs in a list, the oldest first; a slab is its
address and the fields of its header. What the arena and `malloc` return is
an argument of the functions that may call them (`none` stands for `NULL`,
also when the quota says no). Addresses and sizes are 64-bit words, so the
end of a chunk is computed modulo `sizeMax`, as the source does.

A function returns `none` when an `assert` of the source fails.
-/
import SmallAllocators.Util

namespace SmallAllocators

/-- `LSLAB_NOT_USED_ID`. -/
def lslabNotUsedId : Int := -1

/-- `lslab_sizeof()`. -/
def lslabSizeof : Nat := 48

/-- `struct lslab`, with its address. -/
structure Lslab where
  addr : Nat
  slabSize : Nat
  slabUsed : Nat
  slabId : Int
  maxId : Int
deriving DecidableEq, Repr

/-- The calls made to the arena and to the heap: the slabs got from `slab_map` and `malloc`, and
those given to `slab_unmap` and `free`, latest first. -/
structure LsCalls where
  maps : List Nat
  mallocs : List Nat
  unmaps : List Nat
  frees : List Nat
deriving DecidableEq, Repr

/-- `struct lsregion`. -/
structure Lsregion where
  slabs : List Lslab
  cached : Option Lslab
  slabId : Int
  used : Nat
  total : Nat
  calls : LsCalls
deriving DecidableEq, Repr

/-- `struct lsregion_svp`. -/
structure LsregionSvp where
  slabId : Int
  pos : Nat
deriving DecidableEq, Repr

/-! ## Slabs -/

def lslabCreate (addr size : Nat) (slabId : Int) : Lslab where
  addr := addr
  slabSize := size
  slabUsed := lslabSizeof
  slabId := slabId
  maxId := lslabNotUsedId

def Lslab.unused (slab : Lslab) : Option Nat := do
  guard (slab.slabSize ≥ slab.slabUsed)
  some (slab.slabSize - slab.slabUsed)

def Lslab.use (slab : Lslab) (size : Nat) (id : Int) : Option Lslab := do
  let unused ← slab.unused
  guard (size ≤ unused)
  guard (slab.maxId ≤ id)
  some { slab with slabUsed := slab.slabUsed + size, maxId := id }

def Lslab.pos (slab : Lslab) : Nat := slab.addr + slab.slabUsed

def Lslab.last (slab : Lslab) : Nat := slab.addr + slab.slabSize

/-! ## Allocation -/

/-- `lsregion_create`, on an arena with slabs of `arenaSize` bytes. -/
def lsregionCreate (arenaSize : Nat) : Option Lsregion := do
  guard (arenaSize > lslabSizeof)
  some {
         slabs := []
         cached := none
         slabId := 0
         used := 0
         total := 0
         calls := { maps := [], mallocs := [], unmaps := [], frees := [] } }

/-- What a reservation returns: the aligned and the unaligned address. -/
structure Reservation where
  pos : Nat
  unaligned : Nat
deriving DecidableEq, Repr

/-- Try to use the slab: the inner `none` says that the chunk does not fit. The end of the chunk
wraps around, as pointers do. -/
def Lslab.tryReserve (slab : Lslab) (size alignment : Nat) : Option (Option Reservation) := do
  let pos ← smallAlign slab.pos alignment
  if (pos + size) % sizeMax ≤ slab.last then some (some { pos := pos, unaligned := slab.pos })
  else some none

/-- Try to use the last slab, if there is one. -/
def Lsregion.tryLast (region : Lsregion) (size alignment : Nat) : Option (Option Reservation) :=
  match region.slabs.getLast? with
  | none => some none
  | some slab => slab.tryReserve size alignment

/-- The new slab of `lsregion_aligned_reserve_slow`, at the end of the list. -/
def Lsregion.addSlab (region : Lsregion) (addr size : Nat) : Lsregion :=
  { region with
    slabId := region.slabId + 1
    slabs := region.slabs ++ [lslabCreate addr size (region.slabId + 1)] }

/-- The size of a slab that holds the chunk even if its memory is not aligned. -/
def newSlabSize (size alignment : Nat) : Nat :=
  ((size + alignment + (sizeMax - 1)) % sizeMax + lslabSizeof) % sizeMax

/-- The part of `lsregion_aligned_reserve_slow` that gets a new slab; `arenaSize` is the slab size
of the arena. The inner `none` is `NULL`. -/
def lsregionNewSlab (arenaSize : Nat) (region : Lsregion) (size alignment : Nat)
    (answer : Option Nat) : Option (Lslab × Lsregion) :=
  if newSlabSize size alignment > arenaSize then
    -- a large allocation, from `malloc`
    match answer with
    | none => none
    | some addr =>
      some (lslabCreate addr (newSlabSize size alignment) (region.slabId + 1),
        { region.addSlab addr (newSlabSize size alignment) with
          total := region.total + newSlabSize size alignment
          calls := { region.calls with mallocs := addr :: region.calls.mallocs } })
  else
    match region.cached with
    | some slab =>
      some (lslabCreate slab.addr slab.slabSize (region.slabId + 1),
        { region.addSlab slab.addr slab.slabSize with cached := none })
    | none =>
      match answer with
      | none => none
      | some addr =>
        some (lslabCreate addr arenaSize (region.slabId + 1),
          { region.addSlab addr arenaSize with
            total := region.total + arenaSize
            calls := { region.calls with maps := addr :: region.calls.maps } })

/-- `lsregion_aligned_reserve`; its slow path makes the same attempt on the last slab again. -/
def lsregionAlignedReserve (arenaSize : Nat) (region : Lsregion) (size alignment : Nat)
    (answer : Option Nat) : Option (Option Reservation × Lsregion) := do
  match ← region.tryLast size alignment with
  | some r => some (some r, region)
  | none =>
    match lsregionNewSlab arenaSize region size alignment answer with
    | none => some (none, region)
    | some (slab, region) =>
      let pos ← smallAlign slab.pos alignment
      guard ((pos + size) % sizeMax ≤ slab.last)
      some (some { pos := pos, unaligned := slab.pos }, region)

def lsregionReserve (arenaSize : Nat) (region : Lsregion) (size : Nat) (answer : Option Nat) :
    Option (Option Reservation × Lsregion) := do
  let (r, region) ← lsregionAlignedReserve arenaSize region size 1 answer
  match r with
  | none => some (none, region)
  | some r =>
    guard (r.pos = r.unaligned)
    some (some r, region)

/-- The end of both allocation functions: `lslab_use` on the last slab. -/
def Lsregion.useLast (region : Lsregion) (size : Nat) (id : Int) : Option Lsregion := do
  let slab ← region.slabs.getLast?
  let slab ← slab.use size id
  some { region with
    slabs := region.slabs.dropLast ++ [slab]
    used := region.used + size }

def lsregionAlloc (arenaSize : Nat) (region : Lsregion) (size : Nat) (id : Int)
    (answer : Option Nat) : Option (Option Reservation × Lsregion) := do
  let (r, region) ← lsregionReserve arenaSize region size answer
  match r with
  | none => some (none, region)
  | some r =>
    let region ← region.useLast size id
    some (some r, region)

def lsregionAlignedAlloc (arenaSize : Nat) (region : Lsregion) (size alignment : Nat) (id : Int)
    (answer : Option Nat) : Option (Option Reservation × Lsregion) := do
  let (r, region) ← lsregionAlignedReserve arenaSize region size alignment answer
  match r with
  | none => some (none, region)
  | some r =>
    let region ← region.useLast ((size + (r.pos - r.unaligned)) % sizeMax) id
    some (some r, region)

/-! ## Garbage collection -/

/-- The body of the loop of `lsregion_gc`, for a slab that is freed. -/
def lsregionDrop (arenaSize : Nat) (region : Lsregion) (slab : Lslab) : Lsregion :=
  let region := { region with used := region.used - (slab.slabUsed - lslabSizeof) }
  if slab.slabSize > arenaSize then
    { region with
      total := region.total - slab.slabSize
      calls := { region.calls with frees := slab.addr :: region.calls.frees } }
  else if region.cached ≠ none then
    { region with
      total := region.total - slab.slabSize
      calls := { region.calls with unmaps := slab.addr :: region.calls.unmaps } }
  else
    { region with cached := some (lslabCreate slab.addr slab.slabSize lslabNotUsedId) }

/-- The loop of `lsregion_gc` over the slabs that are left. -/
def lsregionGcLoop (arenaSize : Nat) (minId : Int) : List Lslab → Lsregion → Lsregion
  | [], region => { region with slabs := [] }
  | slab :: slabs, region =>
    if slab.maxId > minId then { region with slabs := slab :: slabs }
    else lsregionGcLoop arenaSize minId slabs (lsregionDrop arenaSize region slab)

def lsregionGc (arenaSize : Nat) (region : Lsregion) (minId : Int) : Lsregion :=
  lsregionGcLoop arenaSize minId region.slabs region

/-- `INT64_MAX`. -/
def int64Max : Int := 2 ^ 63 - 1

def lsregionDestroy (arenaSize : Nat) (region : Lsregion) : Lsregion :=
  let region := if region.slabs ≠ [] then lsregionGc arenaSize region int64Max else region
  match region.cached with
  | none => region
  | some slab =>
      { region with calls := { region.calls with unmaps := slab.addr :: region.calls.unmaps } }

/-! ## `lsregion_to_iovec` -/

/-- `struct iovec`. -/
structure Iovec where
  base : Nat
  len : Nat
deriving DecidableEq, Repr

/-- What `lsregion_to_iovec` returns: the iovecs, the savepoint and the id. -/
structure Flush where
  iov : List Iovec
  svp : LsregionSvp
  maxAllocId : Int
deriving DecidableEq, Repr

/-- The iovec for a slab; the contents that a previous call flushed are shifted. -/
def slabIovec (prev : LsregionSvp) (slab : Lslab) : Option Iovec :=
  let base := slab.addr + lslabSizeof
  let len := slab.slabUsed - lslabSizeof
  if slab.slabId = prev.slabId then do
    guard (len > prev.pos)
    some { base := base + prev.pos, len := len - prev.pos }
  else some { base := base, len := len }

/-- The loop of `lsregion_to_iovec`, with room for `room` more iovecs; `prev` is the savepoint at
the start of the call. -/
def toIovecLoop (prev : LsregionSvp) : List Lslab → Nat → LsregionSvp → Int → Option Flush
  | [], _, svp, maxAllocId => some { iov := [], svp := svp, maxAllocId := maxAllocId }
  | slab :: slabs, room, svp, maxAllocId =>
    -- there might be an unused slab at the end of the list
    if slab.maxId = lslabNotUsedId then some { iov := [], svp := svp, maxAllocId := maxAllocId }
    else if slab.slabId < prev.slabId ∨
        slab.slabId = prev.slabId ∧ slab.slabUsed - lslabSizeof = prev.pos then
      toIovecLoop prev slabs room svp maxAllocId
    else if room = 0 then some { iov := [], svp := svp, maxAllocId := maxAllocId }
    else do
      let iov ← slabIovec prev slab
      let svp := { slabId := slab.slabId, pos := slab.slabUsed - lslabSizeof }
      let rest ← toIovecLoop prev slabs (room - 1) svp slab.maxId
      some { rest with iov := iov :: rest.iov }

def lsregionToIovec (region : Lsregion) (iovcnt : Nat) (svp : LsregionSvp) : Option Flush :=
  toIovecLoop svp region.slabs iovcnt svp lslabNotUsedId

def lsregionSvpCreate : LsregionSvp := { slabId := lslabNotUsedId, pos := 0 }

/-- `lsregion_used`. -/
def lsregionUsed (region : Lsregion) : Nat := region.used

/-- `lsregion_total`. -/
def lsregionTotal (region : Lsregion) : Nat := region.total

end SmallAllocators
