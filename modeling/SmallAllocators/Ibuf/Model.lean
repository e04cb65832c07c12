/-
SmallAllocators.Ibuf.Model — the input buffer of `include/small/ibuf.h` and
`small/ibuf.c`.

The buffer is one slab, with four pointers into it that are all `NULL` (the
address 0) when there is no slab. What `slab_get` returns is an argument of
the functions that may call it: `none` for `NULL`, or the address of a slab
that has the size `slab_get` gives for the request. Pointer sums and sizes
are 64-bit words. The ASAN poisoning of memory is left out.

A function returns `none` when an `assert` of the source fails, or when a
loop does not end.
-/
import SmallAllocators.Lib.Memory
import SmallAllocators.Util
import SmallAllocators.SlabCache.Model

namespace SmallAllocators

open Memory

/-- `struct ibuf`, the memory, and the calls made to the slab cache. -/
structure Ibuf where
  buf : Nat
  /-- Start of input. -/
  rpos : Nat
  /-- End of useful input. -/
  wpos : Nat
  /-- End of buffer. -/
  bufEnd : Nat
  startCapacity : Nat
  mem : Nat → UInt8
  /-- The slabs that `slab_get` returned and those given to `slab_put`, latest first. -/
  gets : List Nat
  puts : List Nat

/-- All four pointers are `NULL`. -/
def Ibuf.null (b : Ibuf) : Ibuf :=
  { b with
    buf := 0
    rpos := 0
    wpos := 0
    bufEnd := 0 }

def ibufCreate (mem : Nat → UInt8) (startCapacity : Nat) : Ibuf where
  buf := 0
  rpos := 0
  wpos := 0
  bufEnd := 0
  startCapacity := startCapacity
  mem := mem
  gets := []
  puts := []

/-- `if (ibuf->buf) slab_put(ibuf->slabc, slab_from_data(ibuf->buf))`. -/
def Ibuf.putSlab (b : Ibuf) : Ibuf :=
  if b.buf ≠ 0 then { b with puts := (b.buf - slabSizeof) :: b.puts } else b

def ibufDestroy (b : Ibuf) : Ibuf := b.putSlab

def ibufReinit (b : Ibuf) : Ibuf := (ibufDestroy b).null

def ibufUsed (b : Ibuf) : Option Nat := do
  guard (b.wpos ≥ b.rpos)
  some (b.wpos - b.rpos)

def ibufCapacity (b : Ibuf) : Nat := b.bufEnd - b.buf

def ibufReset (b : Ibuf) : Ibuf := { b with rpos := b.buf, wpos := b.buf }

/-! ## Reserving -/

/-- The capacity that `ibuf_reserve_slow` asks `slab_get` for. -/
def Ibuf.newCapacity (b : Ibuf) (needed : Nat) : Option Nat :=
  let newCapacity := ibufCapacity b * 2 % sizeMax
  growLoop needed 65 (if newCapacity < b.startCapacity then b.startCapacity else newCapacity)

/-- Move the unread bytes to the slab at `addr`, of `size` bytes, and put the old slab back. -/
def Ibuf.moveTo (b : Ibuf) (addr size used : Nat) : Ibuf :=
  let ptr := addr + slabSizeof
  { b.putSlab with
    mem := copy b.mem ptr b.rpos used
    gets := addr :: b.gets
    buf := ptr
    rpos := ptr
    wpos := ptr + used
    bufEnd := addr + size }

/-- De-fragment the buffer: move the unread bytes to its start. -/
def Ibuf.defragment (b : Ibuf) (used : Nat) : Ibuf :=
  { b with
    mem := copy b.mem b.buf b.rpos used
    rpos := b.buf
    wpos := b.buf + used }

section Slabs

variable (g : Geometry)

def ibufReserveSlow (b : Ibuf) (size : Nat) (answer : Option Nat) : Option (Option Nat × Ibuf) := do
  guard ((b.wpos + size) % sizeMax > b.bufEnd)
  let used ← ibufUsed b
  if (size + used) % sizeMax ≤ ibufCapacity b then
    some (some (b.buf + used), b.defragment used)
  else
    let newCapacity ← b.newCapacity ((used + size) % sizeMax)
    match answer with
    | none => some (none, b)
    | some addr =>
      let b := b.moveTo addr (g.slabRealSize newCapacity) used
      some (some b.wpos, b)

def ibufReserve (b : Ibuf) (size : Nat) (answer : Option Nat) : Option (Option Nat × Ibuf) :=
  if (b.wpos + size) % sizeMax ≤ b.bufEnd then some (ofPtr b.wpos, b)
  else ibufReserveSlow g b size answer

def ibufAlloc (b : Ibuf) (size : Nat) (answer : Option Nat) : Option (Option Nat × Ibuf) :=
  if (b.wpos + size) % sizeMax ≤ b.bufEnd then
    some (ofPtr b.wpos, { b with wpos := b.wpos + size })
  else do
    match ← ibufReserveSlow g b size answer with
    | (none, b) => some (none, b)
    | (some ptr, b) => some (some ptr, { b with wpos := b.wpos + size })

/-! ## Shrinking -/

/-- The capacity that `ibuf_shrink` wants. -/
def Ibuf.shrunkCapacity (b : Ibuf) (used : Nat) : Nat :=
  if b.startCapacity < used then used else b.startCapacity

def ibufShrink (b : Ibuf) (answer : Option Nat) : Option Ibuf := do
  let used ← ibufUsed b
  if used = 0 then some b.putSlab.null
  else
    let newCapacity := b.shrunkCapacity used
    -- avoid relocation if the actual slab size doesn't change
    if g.slabRealSize (ibufCapacity b) = g.slabRealSize newCapacity then some b
    else
      match answer with
      | none => some b
      | some addr => some (b.moveTo addr (g.slabRealSize newCapacity) used)

end Slabs

/-! ## Consuming and discarding -/

def ibufDiscard (b : Ibuf) (size : Nat) : Option Ibuf := do
  let used ← ibufUsed b
  guard (size ≤ used)
  some { b with wpos := b.wpos - size }

def ibufTruncate (b : Ibuf) (used : Nat) : Option Ibuf := do
  let oldUsed ← ibufUsed b
  guard (used ≤ oldUsed)
  ibufDiscard b (oldUsed - used)

def ibufConsume (b : Ibuf) (size : Nat) : Option Ibuf := do
  let used ← ibufUsed b
  guard (size ≤ used)
  some { b with rpos := b.rpos + size }

def ibufConsumeBefore (b : Ibuf) (ptr : Nat) : Option Ibuf := do
  guard (ptr ≥ b.rpos)
  guard (ptr ≤ b.wpos)
  ibufConsume b (ptr - b.rpos)

end SmallAllocators
