/-
SmallAllocators.Obuf.Model — the output buffer of `include/small/obuf.h` and
`small/obuf.c`, in the debug build.

The buffer is a vector of memory blocks. `vec i` holds `iov[i]` and
`capacity[i]`; every access goes through `Obuf.at`, which fails outside the
arrays. The functions that may call `slab_get` have it as an argument: for
the capacity asked for it is `none` for `NULL`, or the address of a slab
that has the size `slab_get` gives for the request. Sizes are 64-bit words.

A function returns `none` when an `assert` of the source fails, an access
leaves the arrays, or a loop does not end.
-/
import Mathlib.Logic.Function.Basic
import SmallAllocators.Lib.Memory
import SmallAllocators.Util
import SmallAllocators.SlabCache.Model

namespace SmallAllocators

open Memory

/-- `SMALL_OBUF_IOV_MAX`. -/
def smallObufIovMax : Nat := 31

/-- `iov[i]` and `capacity[i]`. -/
structure ObufVec where
  base : Nat
  len : Nat
  capacity : Nat
deriving DecidableEq, Repr

/-- `struct obuf`, the memory, and the calls made to the slab cache. -/
structure Obuf where
  /-- Position of the "current" iovec. -/
  pos : Nat
  /-- The number of allocated iov instances. -/
  nIov : Nat
  used : Nat
  startCapacity : Nat
  vec : Nat → ObufVec
  reserved : Bool
  mem : Nat → UInt8
  /-- The slabs that `slab_get` returned and those given to `slab_put`, latest first. -/
  gets : List Nat
  puts : List Nat

/-- `struct obuf_svp`. -/
structure ObufSvp where
  pos : Nat
  iovLen : Nat
  used : Nat
deriving DecidableEq, Repr

/-- An access to `iov[i]` and `capacity[i]`; the arrays have `SMALL_OBUF_IOV_MAX + 1` entries. -/
def Obuf.at (b : Obuf) (i : Nat) : Option ObufVec :=
  if i < smallObufIovMax + 1 then some (b.vec i) else none

/-- A store to `iov[i]` and `capacity[i]`. -/
def Obuf.set (b : Obuf) (i : Nat) (v : ObufVec) : Obuf :=
  { b with vec := Function.update b.vec i v }

/-- `obuf_create`, with arbitrary contents in the other entries of the arrays. -/
def obufCreate (vec : Nat → ObufVec) (mem : Nat → UInt8) (startCapacity : Nat) : Obuf where
  pos := 0
  nIov := 0
  used := 0
  startCapacity := startCapacity
  vec := Function.update vec 0 { base := 0, len := 0, capacity := 0 }
  reserved := false
  mem := mem
  gets := []
  puts := []

/-! ## Allocation -/

/-- The loop of `obuf_alloc_pos`; `start_capacity << pos` may have become 0. -/
def allocPosLoop (startCapacity size : Nat) : Nat → Nat → Option Nat
  | 0, _ => none
  | fuel + 1, capacity =>
    if capacity < size then
      allocPosLoop startCapacity size fuel
        (if capacity = 0 then startCapacity else capacity * 2 % sizeMax)
    else some capacity

/-- The capacity that `obuf_alloc_pos` asks `slab_get` for. -/
def Obuf.posCapacity (b : Obuf) (size : Nat) : Option Nat :=
  allocPosLoop b.startCapacity size 66 (b.startCapacity <<< b.pos % sizeMax)

/-- The slab at `addr`, for a request of `capacity` bytes, becomes the block of the current
entry. -/
def Obuf.setSlab (g : Geometry) (b : Obuf) (v : ObufVec) (addr capacity : Nat) : Obuf :=
  { b.set b.pos
    { v with base := addr + slabSizeof, capacity := g.slabRealSize capacity - slabSizeof } with
    gets := addr :: b.gets }

section Slabs

variable (g : Geometry) (slabGet : Nat → Option Nat)

def obufAllocPos (b : Obuf) (size : Nat) : Option (Option Nat × Obuf) := do
  let v ← b.at b.pos
  guard (v.capacity = 0 ∧ v.len = 0)
  guard (b.pos < smallObufIovMax)
  guard (b.nIov = b.pos)
  -- initialize the next pos
  let _ ← b.at (b.pos + 1)
  let b := b.set (b.pos + 1) v
  let capacity ← b.posCapacity size
  match slabGet capacity with
  | none => some (none, b)
  | some addr =>
      some (some (addr + slabSizeof), { b.setSlab g v addr capacity with nIov := b.nIov + 1 })

/-- The part of `obuf_reserve_slow` after the move to the next buffer; its entry is `v`. -/
def obufReserveHere (b : Obuf) (v : ObufVec) (size : Nat) :
    Option (Option Nat × Obuf) :=
  if size > v.capacity then
    if v.capacity > 0 then do
      -- simply realloc
      let capacity ← growLoop size 65 v.capacity
      match slabGet capacity with
      | none => some (none, b)
      | some addr =>
        let b := { b.setSlab g v addr capacity with puts := (v.base - slabSizeof) :: b.puts }
        some (some (addr + slabSizeof), b)
    else obufAllocPos g slabGet b size
  else some (ofPtr v.base, b)

/-- The end of `obuf_reserve_slow`: its last assertion. -/
def Obuf.checkRoom (b : Obuf) (size : Nat) : Option Unit := do
  let v ← b.at b.pos
  guard ((v.len + size) % sizeMax ≤ v.capacity)

/-- `if (iov->iov_len > 0)` of `obuf_reserve_slow`: move to the next buffer; the inner `none` says
that there is none. -/
def Obuf.nextIfUsed (b : Obuf) (v : ObufVec) : Option Obuf :=
  if v.len > 0 then
    if b.pos + 1 ≥ smallObufIovMax then none else some { b with pos := b.pos + 1 }
  else some b

def obufReserveSlow (b : Obuf) (size : Nat) : Option (Option Nat × Obuf) := do
  let v ← b.at b.pos
  match b.nextIfUsed v with
  | none => some (none, b)
  | some b =>
    let v ← b.at b.pos
    guard (v.len = 0)
    let (ptr, b) ← obufReserveHere g slabGet b v size
    match ptr with
    | none => some (none, b)
    | some ptr =>
      b.checkRoom size
      some (some ptr, b)

/-- `obuf_reserve`. -/
def obufReserve (b : Obuf) (size : Nat) : Option (Option Nat × Obuf) := do
  guard (¬ b.reserved)
  let v ← b.at b.pos
  let (ptr, b) ←
    if (v.len + size) % sizeMax > v.capacity then obufReserveSlow g slabGet b size
    else some (ofPtr (v.base + v.len), b)
  match ptr with
  | none => some (none, b)
  | some ptr => some (some ptr, { b with reserved := true })

/-- Count `size` more bytes in the current entry. -/
def Obuf.advance (b : Obuf) (size : Nat) : Option Obuf := do
  let v ← b.at b.pos
  some { b.set b.pos { v with len := (v.len + size) % sizeMax } with
    reserved := false
    used := (b.used + size) % sizeMax }

def obufAlloc (b : Obuf) (size : Nat) : Option (Option Nat × Obuf) := do
  let v ← b.at b.pos
  if (v.len + size) % sizeMax ≤ v.capacity then
    let b ← b.advance size
    some (ofPtr (v.base + v.len), b)
  else
    let (ptr, b) ← obufReserveSlow g slabGet b size
    match ptr with
    | none => some (none, b)
    | some ptr =>
      let v ← b.at b.pos
      guard (v.len ≤ v.capacity)
      let b ← b.advance size
      some (some ptr, b)

/-! ## `obuf_dup` -/

/-- Copy `n` bytes of the data to the current entry. -/
def Obuf.append (b : Obuf) (v : ObufVec) (n : Nat) (data : Nat → UInt8) : Obuf :=
  { b.set b.pos { v with len := (v.len + n) % sizeMax } with
    used := (b.used + n) % sizeMax
    mem := fill b.mem (v.base + v.len) n data }

/-- The end of `obuf_dup`, after its loop. -/
def obufDupLast (b : Obuf) (toCopy : Nat) (data : Nat → UInt8) : Option Obuf := do
  let v ← b.at b.pos
  let b := b.append v toCopy data
  let v ← b.at b.pos
  guard (v.len ≤ v.capacity)
  some b

/-- The loop of `obuf_dup`, with `toCopy` bytes left of `data`; it makes `fuel` rounds at most. It
returns the number of bytes that are left in the end. -/
def obufDupLoop : Nat → Obuf → Nat → (Nat → UInt8) → Option (Nat × Obuf)
  | 0, _, _, _ => none
  | fuel + 1, b, toCopy, data => do
    let v ← b.at b.pos
    if (v.len + toCopy) % sizeMax > v.capacity then
      if v.len < v.capacity then
        -- copy as much as possible
        let n := v.capacity - v.len
        guard (n < toCopy)
        let b := b.append v n data
        if b.pos + 1 ≥ smallObufIovMax then some (toCopy - n, b)
        else obufDupLoop fuel { b with pos := b.pos + 1 } (toCopy - n) fun i => data (n + i)
      else if v.capacity = 0 then
        match ← obufAllocPos g slabGet b toCopy with
        | (none, b) => some (toCopy, b)
        | (some _, b) =>
          let b ← obufDupLast b toCopy data
          some (0, b)
      else do
        guard (v.capacity = v.len)
        if b.pos + 1 ≥ smallObufIovMax then some (toCopy, b)
        else obufDupLoop fuel { b with pos := b.pos + 1 } toCopy data
    else
      let b ← obufDupLast b toCopy data
      some (0, b)

/-- `obuf_dup`, which returns the number of bytes that it copied. -/
def obufDup (b : Obuf) (data : Nat → UInt8) (size : Nat) : Option (Nat × Obuf) := do
  let (toCopy, b) ← obufDupLoop g slabGet (smallObufIovMax + 1) b size data
  some (size - toCopy, b)

end Slabs

/-! ## Savepoints -/

/-- `obuf_iovcnt`. -/
def obufIovcnt (b : Obuf) : Option Nat := do
  let v ← b.at b.pos
  some (if v.len > 0 then b.pos + 1 else b.pos)

/-- The loop that empties the entries from `i` on, `n` of them. -/
def clearLoop : Nat → Nat → Obuf → Option Obuf
  | 0, _, b => some b
  | n + 1, i, b => do
    let v ← b.at i
    clearLoop n (i + 1) (b.set i { v with len := 0 })

def obufReset (b : Obuf) : Option Obuf := do
  let iovcnt ← obufIovcnt b
  let b ← clearLoop iovcnt 0 b
  some { b with
    pos := 0
    used := 0
    reserved := false }

def obufCreateSvp (b : Obuf) : Option ObufSvp := do
  let v ← b.at b.pos
  some { pos := b.pos, iovLen := v.len, used := b.used }

def obufRollbackToSvp (b : Obuf) (svp : ObufSvp) : Option Obuf := do
  guard (svp.pos ≤ b.pos)
  let iovcnt ← obufIovcnt b
  let b := { b with pos := svp.pos }
  let v ← b.at b.pos
  let b := { b.set b.pos { v with len := svp.iovLen } with used := svp.used }
  let b ← clearLoop (iovcnt - (b.pos + 1)) (b.pos + 1) b
  some { b with reserved := false }

end SmallAllocators
