/-
SmallAllocators.Region.Model — the region allocator of
`include/small/region.h` and `small/region.c`, in the debug build.

The region holds its slabs in a list, the newest first; a slab is its
address and the fields of its header. The slab that `slab_get` returns is an
argument of the functions that may call it: `none` stands for `NULL`, and
`some addr` for a slab at `addr` that has the size `slab_get` gives for the
request (`Geometry.slabRealSize`). Sizes are 64-bit words and the `used`
counter of a slab is a 32-bit word, as in the source. The callbacks of
`region_set_callbacks` only observe the region and are left out.

A function returns `none` when an `assert` of the source fails.
-/
import SmallAllocators.Lib.Memory
import SmallAllocators.Util
import SmallAllocators.SlabCache.Model

namespace SmallAllocators

open Memory

/-- `rslab_sizeof()`. -/
def rslabSizeof : Nat := 56

/-- `struct rslab`, with its address. -/
structure Rslab where
  addr : Nat
  size : Nat
  used : Nat
deriving DecidableEq, Repr

/-- `struct region`, the memory of its slabs, and the calls made to the slab cache. -/
structure Region where
  slabs : List Rslab
  /-- `region->slabs.stats` -/
  used : Nat
  total : Nat
  reserved : Bool
  mem : Nat → UInt8
  /-- The slabs that `slab_get` returned and those given to `slab_put`, latest first. -/
  gets : List Nat
  puts : List Nat

/-! ## Slabs -/

/-- `rslab_data`. -/
def Rslab.data (slab : Rslab) : Nat := slab.addr + rslabSizeof

/-- `rslab_data_end`. -/
def Rslab.dataEnd (slab : Rslab) : Nat := slab.data + slab.used

/-- `rslab_unused`, which cuts the `size_t` down to 32 bits. -/
def Rslab.unused (slab : Rslab) : Nat :=
  (slab.size + 2 * sizeMax - rslabSizeof - slab.used) % sizeMax % 2 ^ 32

/-- `slab->used += size`. -/
def Rslab.use (slab : Rslab) (size : Nat) : Rslab :=
  { slab with used := (slab.used + size) % 2 ^ 32 }

/-- `region_create`, in a memory with arbitrary contents. -/
def regionCreate (mem : Nat → UInt8) : Region where
  slabs := []
  used := 0
  total := 0
  reserved := false
  mem := mem
  gets := []
  puts := []

/-! ## Allocation -/

section Alloc

variable (g : Geometry)

/-- The size of the slab that `region_reserve_slow` gets. -/
def rslabNewSize (size : Nat) : Nat :=
  g.slabRealSize ((size + rslabSizeof + (sizeMax - slabSizeof)) % sizeMax)

def regionReserveSlow (region : Region) (size : Nat) (answer : Option Nat) : Option Nat × Region :=
  match answer with
  | none => (none, region)
  | some addr =>
    let slab := { addr := addr, size := rslabNewSize g size, used := 0 }
    (some slab.data,
      { region with
        slabs := slab :: region.slabs
        total := region.total + slab.size
        gets := addr :: region.gets })

/-- The pointer that `region_reserve` returns: from the first slab, if the chunk fits. -/
def regionFind (region : Region) (size : Nat) (answer : Option Nat) : Option Nat × Region :=
  match region.slabs with
  | [] => regionReserveSlow g region size answer
  | slab :: _ =>
    if size ≤ slab.unused then (some slab.dataEnd, region)
    else regionReserveSlow g region size answer

def regionReserve (region : Region) (size : Nat) (answer : Option Nat) :
    Option (Option Nat × Region) := do
  guard (¬ region.reserved)
  match regionFind g region size answer with
  | (none, region) => some (none, region)
  | (some ptr, region) => some (some ptr, { region with reserved := true })

/-- The end of both allocation functions: count the chunk in the first slab. -/
def Region.useFirst (region : Region) (size : Nat) : Option Region :=
  match region.slabs with
  | [] => none
  | slab :: slabs => do
    guard (size ≤ slab.unused)
    some { region with
      slabs := slab.use size :: slabs
      used := region.used + size
      reserved := false }

def regionAlloc (region : Region) (size : Nat) (answer : Option Nat) :
    Option (Option Nat × Region) := do
  guard (size > 0)
  let (ptr, region) ← regionReserve g { region with reserved := false } size answer
  match ptr with
  | none => some (none, region)
  | some ptr =>
    let region ← region.useFirst size
    some (some ptr, region)

def regionAlignedReserve (region : Region) (size alignment : Nat) (answer : Option Nat) :
    Option (Option Nat × Region) := do
  let (ptr, region) ← regionReserve g region ((size + alignment + (sizeMax - 1)) % sizeMax) answer
  let p ← smallAlign (ptr.getD 0) alignment
  some (ofPtr p, region)

/-- The `effective_size` of `region_aligned_alloc`, which includes the padding. -/
def effectiveSize (slab : Rslab) (ptr size : Nat) : Nat :=
  (ptr + sizeMax - slab.dataEnd + size) % sizeMax % 2 ^ 32

def regionAlignedAlloc (region : Region) (size alignment : Nat) (answer : Option Nat) :
    Option (Option Nat × Region) := do
  guard (size > 0)
  let (ptr, region) ← regionAlignedReserve g { region with reserved := false } size alignment answer
  match ptr with
  | none => some (none, region)
  | some ptr =>
    let slab ← region.slabs.head?
    let region ← region.useFirst (effectiveSize slab ptr size)
    some (some ptr, region)

/-! ## `region_join` -/

/-- The copying loop of `region_join`, from the last chunk to the first: `offset` bytes are left
to copy to `ptr`. The loop must not run past the end of the list. -/
def joinLoop (ptr : Nat) : List Rslab → Nat → (Nat → UInt8) → Option (Nat → UInt8)
  | _, 0, mem => some mem
  | [], _ + 1, _ => none
  | slab :: slabs, offset + 1, mem =>
    if slab.used ≤ offset + 1 then
      joinLoop ptr slabs (offset + 1 - slab.used)
        (fill mem (ptr + (offset + 1) - slab.used) slab.used fun i => mem (slab.data + i))
    else
      some (fill mem ptr (offset + 1) fun i => mem (slab.data + slab.used - (offset + 1) + i))

/-- `region_join`; both `region_reserve` and the `region_alloc` after it may call `slab_get`. -/
def regionJoin (region : Region) (size : Nat) (answer answer' : Option Nat) :
    Option (Option Nat × Region) := do
  guard (size ≤ region.used)
  guard (¬ region.reserved)
  guard (size > 0)
  let slab ← region.slabs.head?
  if slab.used ≥ size then
    -- don't move stuff if it's in a single chunk
    some (some (slab.data + slab.used - size), region)
  else
    let slabs := region.slabs
    let (ptr, region) ← regionReserve g region size answer
    match ptr with
    | none => some (none, region)
    | some ptr =>
      let mem ← joinLoop ptr slabs size region.mem
      let (_, region) ← regionAlloc g { region with mem := mem } size answer'
      some (some ptr, region)

end Alloc

/-! ## Truncation -/

/-- The loop of `region_truncate` over the slabs that are left; the `memset` is that of the debug
build. It also returns what is left of `cut_size`. -/
def truncateLoop : List Rslab → Nat → Region → Region × Nat
  | [], cutSize, region => ({ region with slabs := [] }, cutSize)
  | slab :: slabs, cutSize, region =>
    if slab.used > cutSize then
      ({ region with
        slabs := { slab with used := slab.used - cutSize } :: slabs
        mem := fill region.mem (slab.dataEnd - cutSize) cutSize fun _ => 'P'.toUInt8 }, 0)
    else
      truncateLoop slabs (cutSize - slab.used)
        { region with
          total := region.total - slab.size
          puts := slab.addr :: region.puts }

def regionTruncate (region : Region) (used : Nat) : Option Region := do
  guard (region.used ≥ used)
  let (region, cutSize) := truncateLoop region.slabs (region.used - used) region
  guard (cutSize = 0)
  some { region with used := used, reserved := false }

def regionFree (region : Region) : Region :=
  { region with
    slabs := []
    used := 0
    total := 0
    reserved := false
    puts := (region.slabs.map Rslab.addr).reverse ++ region.puts }

/-- `region_reset` keeps the slabs; it only empties the first one. -/
def regionReset (region : Region) : Region :=
  match region.slabs with
  | [] => { region with reserved := false }
  | slab :: slabs =>
    { region with
      slabs := { slab with used := 0 } :: slabs
      used := region.used - slab.used
      reserved := false }

/-- `region_used`. -/
def regionUsed (region : Region) : Nat := region.used

/-- `region_total`. -/
def regionTotal (region : Region) : Nat := region.total

end SmallAllocators
