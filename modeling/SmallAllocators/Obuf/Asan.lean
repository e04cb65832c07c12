/-
SmallAllocators.Obuf.Asan — the output buffer of
`include/small/obuf_asan.h` and `small/obuf_asan.c`.

The first `SMALL_OBUF_IOV_CHECKED_MAX` allocations have a block each, so
that an access out of bounds is seen; later ones share blocks that double in
size. The contents are those of the blocks, one after another. A rollback
frees the blocks behind the savepoint, and the first block too when the
savepoint was made before there was one.

The buffer is the same log with savepoints as `Obuf.Runs` has
(`obuf_asan_exact_log`). Unlike there, memory does not run out: a call that
does not return has used up the vector, or has shifted the start capacity
out of its word.
-/
import SmallAllocators.Obuf.Model

namespace SmallAllocators

open Memory

/-! ## The implementation -/

/-- `SMALL_OBUF_IOV_MAX` of this implementation. -/
def asanObufIovMax : Nat := 128

/-- `SMALL_OBUF_IOV_CHECKED_MAX`. -/
def smallObufIovCheckedMax : Nat := 96

/-- `SMALL_OBUF_MIN_RESERVE`. -/
def smallObufMinReserve : Nat := 128

/-- `iov[i]` and `capacity[i]`. -/
structure AsanVec where
  /-- The memory at `iov_base`, if it is not `NULL`. -/
  base : Option (Nat → UInt8)
  len : Nat
  capacity : Nat

/-- The `struct obuf` of this implementation. -/
structure AsanObuf where
  pos : Nat
  used : Nat
  startCapacity : Nat
  vec : Nat → AsanVec
  reserved : Bool

/-- What `memset` makes of `iov[i]` and `capacity[i]`. -/
def nullVec : AsanVec where
  base := none
  len := 0
  capacity := 0

def asanObufCreate (startCapacity : Nat) : AsanObuf where
  pos := 0
  used := 0
  startCapacity := startCapacity
  vec := fun _ => nullVec
  reserved := false

/-- A store to `iov[i]` and `capacity[i]`. -/
def AsanObuf.set (b : AsanObuf) (i : Nat) (v : AsanVec) : AsanObuf :=
  { b with vec := Function.update b.vec i v }

/-- `obuf_unallocated_size`. -/
def AsanObuf.unallocatedSize (b : AsanObuf) : Nat :=
  ((b.vec b.pos).capacity + (sizeMax - (b.vec b.pos).len)) % sizeMax

/-- The size of the next block of `obuf_prepare_buf`. -/
def AsanObuf.nextCapacity (b : AsanObuf) (size : Nat) : Option Nat :=
  if b.pos < smallObufIovCheckedMax then
    some (if size < smallObufMinReserve then smallObufMinReserve else size)
  else growLoop size 65 (b.startCapacity <<< (b.pos - smallObufIovCheckedMax) % sizeMax)

/-- `obuf_prepare_buf`; `payload` is what the new memory happens to hold. -/
def obufPrepareBuf (b : AsanObuf) (size : Nat) (payload : Nat → UInt8) : Option AsanObuf :=
  if b.pos < smallObufIovCheckedMax ∨
  ((b.vec b.pos).len + size) % sizeMax > (b.vec b.pos).capacity then do
    let capacity ← b.nextCapacity size
    let pos := if (b.vec b.pos).base.isSome then b.pos + 1 else b.pos
    guard (pos < asanObufIovMax)
    some { b.set pos { base := some payload, len := 0, capacity := capacity } with pos := pos }
  else some b

def asanObufReserve (b : AsanObuf) (size : Nat) (payload : Nat → UInt8) : Option AsanObuf := do
  guard (b.reserved = false)
  let b ← obufPrepareBuf b size payload
  some { b with reserved := true }

/-- The memory that `obuf_alloc` takes the chunk from. -/
def AsanObuf.ready (b : AsanObuf) (size : Nat) (payload : Nat → UInt8) : Option AsanObuf :=
  if b.reserved then do
    guard (size ≤ b.unallocatedSize)
    some { b with reserved := false }
  else obufPrepareBuf b size payload

/-- `obuf_alloc`: the chunk is in the current block, at the offset that is returned. -/
def asanObufAlloc (b : AsanObuf) (size : Nat) (payload : Nat → UInt8) :
    Option (Nat × AsanObuf) := do
  let b ← b.ready size payload
  let v := b.vec b.pos
  some (v.len, { b.set b.pos { v with len := (v.len + size) % sizeMax } with used :=
      (b.used + size) % sizeMax })

/-- `memcpy` to the current block. -/
def AsanObuf.store (b : AsanObuf) (offset size : Nat) (data : Nat → UInt8) : AsanObuf :=
  b.set b.pos { b.vec b.pos with
    base := (b.vec b.pos).base.map fun mem => fill mem offset size data }

def asanObufDup (b : AsanObuf) (data : Nat → UInt8) (size : Nat) (payload : Nat → UInt8) :
    Option (Nat × AsanObuf) := do
  let (offset, b) ← asanObufAlloc b size payload
  some (size, b.store offset size data)

def asanObufCreateSvp (b : AsanObuf) : ObufSvp where
  pos := b.pos
  iovLen := (b.vec b.pos).len
  used := b.used

/-- The loop of `obuf_rollback_to_svp` and the two calls of `memset`, for `n` entries from `i`
on. -/
def asanFreeLoop : Nat → Nat → AsanObuf → Option AsanObuf
  | 0, _, b => some b
  | n + 1, i, b => do
    guard ((b.vec i).base.isSome = true)
    asanFreeLoop n (i + 1) (b.set i nullVec)

/-- The first entry that `obuf_rollback_to_svp` frees. -/
def AsanObuf.freeFrom (b : AsanObuf) (svp : ObufSvp) : Nat :=
  if svp.pos = 0 ∧ svp.iovLen = 0 ∧ (b.vec 0).base.isSome then svp.pos else svp.pos + 1

def asanObufRollbackToSvp (b : AsanObuf) (svp : ObufSvp) : Option AsanObuf := do
  guard (svp.pos ≤ b.pos)
  let pos := b.freeFrom svp
  let b ← asanFreeLoop (b.pos + 1 - pos) pos b
  some { b.set svp.pos { b.vec svp.pos with len := svp.iovLen } with
    pos := svp.pos
    used := svp.used
    reserved := false }

/-- `obuf_svp_reset`. -/
def obufSvpReset : ObufSvp where
  pos := 0
  iovLen := 0
  used := 0

def asanObufReset (b : AsanObuf) : Option AsanObuf := asanObufRollbackToSvp b obufSvpReset

/-- `obuf_iovcnt`. -/
def asanObufIovcnt (b : AsanObuf) : Nat := if (b.vec b.pos).base.isSome then b.pos + 1 else b.pos

/-! ## The contents -/

/-- The first `l` bytes of an entry. -/
def AsanVec.first (v : AsanVec) (l : Nat) : List UInt8 := v.base.elim [] fun mem => read mem 0 l

/-- The bytes of entry `i`. -/
def AsanObuf.bytes (b : AsanObuf) (i : Nat) : List UInt8 := (b.vec i).first (b.vec i).len

/-- The bytes written up to a position: those of the entries before `p`, and `l` bytes of entry
`p`. -/
def AsanObuf.upTo (b : AsanObuf) (p l : Nat) : List UInt8 :=
  (List.range p).flatMap b.bytes ++ (b.vec p).first l

/-- The contents of the buffer: the bytes of the entries of the vector. -/
def AsanObuf.content (b : AsanObuf) : List UInt8 := (List.range (asanObufIovcnt b)).flatMap b.bytes

/-- The size of all blocks. -/
def AsanObuf.footprint (b : AsanObuf) : Nat := ∑ i ∈ Finset.range (b.pos + 1), (b.vec i).capacity

variable {b b' b'' : AsanObuf} {n size p l : Nat} {payload data : Nat → UInt8}

@[simp] theorem AsanVec.first_zero (v : AsanVec) : v.first 0 = [] := by
  cases h : v.base <;> simp [AsanVec.first, h]

@[simp] theorem AsanObuf.set_vec (b : AsanObuf) (i j : Nat) (v : AsanVec) :
    (b.set i v).vec j = if j = i then v else b.vec j := by
  simp [AsanObuf.set, Function.update_apply]

/-! ## The invariant -/

structure AsanObuf.Inv (b : AsanObuf) : Prop where
  pos : b.pos < asanObufIovMax
  /-- The entries before the current one have blocks. -/
  blocks : ∀ i < b.pos, (b.vec i).base.isSome = true
  rest : ∀ i, b.pos < i → b.vec i = nullVec
  /-- Only an empty buffer has no block. -/
  current : (b.vec b.pos).base = none → b.pos = 0 ∧ b.vec b.pos = nullVec
  len : ∀ i, (b.vec i).len ≤ (b.vec i).capacity
  footprint : b.footprint < 2 ^ 63
  used : b.used = (b.upTo b.pos (b.vec b.pos).len).length
  reserved : b.reserved = true → (b.vec b.pos).base.isSome = true
  /-- A checked block is reserved for one chunk. -/
  fresh : b.reserved = true → b.pos < smallObufIovCheckedMax → (b.vec b.pos).len = 0

/-- The contents end at the current position. -/
theorem AsanObuf.content_eq (b : AsanObuf) : b.content = b.upTo b.pos (b.vec b.pos).len := by
  unfold AsanObuf.content AsanObuf.upTo asanObufIovcnt
  cases h : (b.vec b.pos).base with
  | none => simp [AsanVec.first, h]
  | some mem =>
      simp only [Option.isSome_some, if_true, List.range_succ, List.flatMap_append]
      simp [AsanObuf.bytes]

theorem AsanObuf.Inv.block_iff (h : b.Inv) (i : Nat) :
    (b.vec i).base.isSome = true ↔ i < asanObufIovcnt b := by
  unfold asanObufIovcnt
  rcases Nat.lt_trichotomy i b.pos with hlt | heq | hgt
  · refine iff_of_true (h.blocks i hlt) ?_
    split <;> omega
  · subst heq
    cases hbase : (b.vec b.pos).base <;> simp
  · refine iff_of_false ?_ ?_
    · rw [h.rest i hgt]
      exact Bool.false_ne_true
    · split <;> omega

theorem AsanObuf.Inv.first_length (h : b.Inv) (i : Nat) : (b.bytes i).length = (b.vec i).len := by
  unfold AsanObuf.bytes AsanVec.first
  cases hbase : (b.vec i).base with
  | some mem => simp
  | none =>
      rcases Nat.lt_trichotomy i b.pos with hlt | heq | hgt
      · have := h.blocks i hlt
        rw [hbase] at this
        cases this
      · rw [heq] at hbase ⊢
        rw [(h.current hbase).2]
        rfl
      · rw [h.rest i hgt]
        rfl

theorem AsanObuf.Inv.length_eq (h : b.Inv) (p : Nat) :
    ((List.range p).flatMap b.bytes).length = ∑ i ∈ Finset.range p, (b.vec i).len := by
  induction p with
  | zero => rfl
  | succ p ih =>
      rw [List.range_succ, List.flatMap_append, List.length_append, ih, Finset.sum_range_succ]
      simp [h.first_length]

/-- The bytes are in the blocks, so they are counted without wrapping around. -/
theorem AsanObuf.Inv.used_add_le (h : b.Inv) :
    b.used + ((b.vec b.pos).capacity - (b.vec b.pos).len) ≤ b.footprint := by
  have hlen := h.len b.pos
  have hsum : ∑ i ∈ Finset.range b.pos, (b.vec i).len ≤
      ∑ i ∈ Finset.range b.pos, (b.vec i).capacity :=
    Finset.sum_le_sum fun i _ => h.len i
  have hlast : ((b.vec b.pos).first (b.vec b.pos).len).length = (b.vec b.pos).len :=
    h.first_length b.pos
  rw [h.used, AsanObuf.upTo, List.length_append, h.length_eq, hlast, AsanObuf.footprint,
    Finset.sum_range_succ]
  omega

/-- A block fits in the address space. -/
theorem AsanObuf.Inv.capacity_lt (h : b.Inv) : (b.vec b.pos).capacity < 2 ^ 63 := by
  have hle : (b.vec b.pos).capacity ≤ b.footprint :=
    Finset.single_le_sum (f := fun i => (b.vec i).capacity) (fun _ _ => Nat.zero_le _)
      (Finset.self_mem_range_succ b.pos)
  exact Nat.lt_of_le_of_lt hle h.footprint

theorem asanObufCreate_inv (startCapacity : Nat) : (asanObufCreate startCapacity).Inv := by
  constructor
  case pos => exact (by decide : 0 < asanObufIovMax)
  case blocks => exact fun i hi => absurd hi (Nat.not_lt_zero i)
  case rest => exact fun _ _ => rfl
  case current => exact fun _ => ⟨rfl, rfl⟩
  case len => exact fun _ => Nat.le_refl 0
  case footprint => simp [AsanObuf.footprint, asanObufCreate, nullVec]
  case used => rfl
  case reserved => exact fun h => (by cases h)
  case fresh => exact fun _ _ => rfl

/-! ## What was written stays -/

/-- What the buffer `b` has written is in the buffer `b'` too. -/
structure AsanObuf.Keeps (b b' : AsanObuf) : Prop where
  pos : b.pos ≤ b'.pos
  len : ∀ i ≤ b.pos, (b.vec i).len ≤ (b'.vec i).len
  whole : ∀ i < b.pos, (b'.vec i).len = (b.vec i).len
  first : ∀ i ≤ b.pos, ∀ l ≤ (b.vec i).len, (b'.vec i).first l = (b.vec i).first l

theorem AsanObuf.Keeps.refl (b : AsanObuf) : b.Keeps b :=
  ⟨Nat.le_refl _, fun _ _ => Nat.le_refl _, fun _ _ => rfl, fun _ _ _ _ => rfl⟩

/-- A position in what was written stays what it is. -/
theorem AsanObuf.Keeps.upTo (h : b.Keeps b') (hp : p ≤ b.pos) (hl : l ≤ (b.vec p).len) :
    b'.upTo p l = b.upTo p l := by
  unfold AsanObuf.upTo
  rw [h.first p hp l hl]
  congr 1
  refine List.flatMap_congr fun i hi => ?_
  rw [List.mem_range] at hi
  rw [AsanObuf.bytes, AsanObuf.bytes, h.whole i (by omega), h.first i (by omega) _ (Nat.le_refl _)]

theorem AsanObuf.Keeps.trans (h : b.Keeps b') (h' : b'.Keeps b'') : b.Keeps b'' := by
  have hle := h.pos
  refine ⟨hle.trans h'.pos, fun i hi => ?_, fun i hi => ?_, fun i hi l hl => ?_⟩
  · exact (h.len i hi).trans (h'.len i (by omega))
  · rw [h'.whole i (by omega), h.whole i hi]
  · rw [h'.first i (by omega) l (hl.trans (h.len i hi)), h.first i hi l hl]

/-! ## The moves -/

/-- The contents stay. -/
structure AsanObuf.Same (b b' : AsanObuf) : Prop where
  inv : b'.Inv
  keeps : b.Keeps b'
  content : b'.content = b.content
  start : b'.startCapacity = b.startCapacity

/-- The flag does not matter. -/
theorem AsanObuf.Inv.setReserved (h : b.Inv) (reserved : Bool)
    (hbase : reserved = true → (b.vec b.pos).base.isSome = true)
    (hfresh : reserved = true → b.pos < smallObufIovCheckedMax → (b.vec b.pos).len = 0) :
    b.Same { b with reserved := reserved } :=
  ⟨⟨h.pos, h.blocks, h.rest, h.current, h.len, h.footprint, h.used, hbase, hfresh⟩,
    ⟨Nat.le_refl _, fun _ _ => Nat.le_refl _, fun _ _ => rfl, fun _ _ _ _ => rfl⟩, rfl, rfl⟩

/-- A new block behind the current one, or in its place if there is none. -/
theorem AsanObuf.Inv.newBlock (h : b.Inv) {pos capacity : Nat}
    (hpos : pos = if (b.vec b.pos).base.isSome then b.pos + 1 else b.pos)
    (hlt : pos < asanObufIovMax)
    (hb : b' = { b.set pos { base := some payload, len := 0, capacity := capacity } with
      pos := pos })
    (hfits : b'.footprint < 2 ^ 63) : b.Same b' := by
  have hvec : ∀ i, b'.vec i = if i = pos then
      { base := some payload, len := 0, capacity := capacity } else b.vec i := by
    intro i
    rw [hb]
    exact b.set_vec pos i _
  have hbpos : b'.pos = pos := by rw [hb]
  have hused : b'.used = b.used := by rw [hb]; rfl
  -- the current entry becomes one of those before, or has no block
  have hcases : pos = b.pos + 1 ∧ (b.vec b.pos).base.isSome = true ∨ pos = b.pos ∧ b.pos = 0 ∧
      b.vec b.pos = nullVec := by
    cases hbase : (b.vec b.pos).base with
    | none => exact .inr ⟨by simpa [hbase] using hpos, h.current hbase⟩
    | some mem => exact .inl ⟨by simpa [hbase] using hpos, rfl⟩
  have hkeeps : b.Keeps b' := by
    rcases hcases with ⟨hp, -⟩ | ⟨hp, hzero, hnull⟩
    · have hsame : ∀ i ≤ b.pos, b'.vec i = b.vec i := fun i hi => by rw [hvec, if_neg (by omega)]
      exact ⟨by omega, fun i hi => by rw [hsame i hi], fun i hi => by
        rw [hsame i hi.le], fun i hi l _ => by rw [hsame i hi]⟩
    · have hempty : ∀ i ≤ b.pos, (b.vec i).len = 0 := by
        intro i hi
        have heq : i = b.pos := by omega
        rw [heq, hnull]
        rfl
      refine ⟨by omega, fun i hi => ?_, fun i hi => by omega, fun i hi l hl => ?_⟩
      · rw [hempty i hi]
        exact Nat.zero_le _
      · rw [hempty i hi] at hl
        rw [Nat.le_zero.1 hl, AsanVec.first_zero, AsanVec.first_zero]
  have hupTo : b'.upTo b'.pos (b'.vec b'.pos).len = b.upTo b.pos (b.vec b.pos).len := by
    have hnew : (b'.vec b'.pos).len = 0 := by rw [hvec, hbpos, if_pos rfl]
    rw [hnew, AsanObuf.upTo, AsanVec.first_zero, List.append_nil, hbpos]
    rcases hcases with ⟨hp, -⟩ | ⟨hp, hzero, hnull⟩
    · rw [hp, List.range_succ, List.flatMap_append, ← hkeeps.upTo (Nat.le_refl _) (Nat.le_refl _),
        AsanObuf.upTo]
      simp [AsanObuf.bytes, hvec, hp]
    · rw [hp, hzero] at *
      simp [AsanObuf.upTo, hnull, nullVec]
  refine ⟨?_, hkeeps, by rw [AsanObuf.content_eq, AsanObuf.content_eq, hupTo], by rw [hb]; rfl⟩
  constructor
  case pos => rwa [hbpos]
  case blocks =>
    intro i hi
    rw [hbpos] at hi
    rw [hvec, if_neg (by omega)]
    rcases hcases with ⟨hp, hsome⟩ | ⟨hp, hzero, -⟩
    · rcases Nat.lt_or_eq_of_le (show i ≤ b.pos by omega) with hlt | heq
      · exact h.blocks i hlt
      · rwa [heq]
    · omega
  case rest =>
    intro i hi
    rw [hbpos] at hi
    rw [hvec, if_neg (by omega)]
    exact h.rest i (by rcases hcases with ⟨hp, -⟩ | ⟨hp, -⟩ <;> omega)
  case current =>
    intro hnone
    rw [hvec, hbpos, if_pos rfl] at hnone
    cases hnone
  case len =>
    intro i
    rw [hvec]
    split
    · exact Nat.zero_le _
    · exact h.len i
  case footprint => exact hfits
  case used => rw [hupTo, hused, h.used]
  case reserved =>
    intro _
    rw [hvec, hbpos, if_pos rfl]
    rfl
  case fresh =>
    intro _ _
    rw [hvec, hbpos, if_pos rfl]

theorem AsanObuf.nextCapacity_le {capacity : Nat} (hrun : b.nextCapacity size = some capacity) :
    size ≤ capacity := by
  unfold AsanObuf.nextCapacity at hrun
  split at hrun
  · cases hrun
    split <;> omega
  · -- the loop stops when the capacity suffices
    generalize b.startCapacity <<< (b.pos - smallObufIovCheckedMax) % sizeMax = c at hrun
    generalize 65 = fuel at hrun
    induction fuel generalizing c with
    | zero => cases hrun
    | succ fuel ih =>
        rw [growLoop] at hrun
        split at hrun
        · exact ih _ hrun
        · cases hrun
          omega

/-- `obuf_prepare_buf`: there is room for `size` bytes in the current block, which is a new one
at the checked entries. -/
theorem obufPrepareBuf_spec (h : b.Inv) (hsize : size < 2 ^ 62)
    (hrun : obufPrepareBuf b size payload = some b') (hfits : b'.footprint < 2 ^ 63) :
    b.Same b' ∧ (b'.vec b'.pos).len + size ≤ (b'.vec b'.pos).capacity ∧
      (b'.vec b'.pos).base.isSome = true ∧
      b'.reserved = b.reserved ∧ (b.pos < smallObufIovCheckedMax → (b'.vec b'.pos).len = 0) := by
  unfold obufPrepareBuf at hrun
  split at hrun
  · obtain ⟨capacity, hcapacity, hrun⟩ := Option.bind_eq_some_iff.1 hrun
    obtain ⟨u, hlt, heq⟩ := Option.bind_eq_some_iff.1 hrun
    have hlt := (Option.guard_eq_some' u).1 hlt
    obtain rfl := (Option.some.inj heq).symm
    refine ⟨h.newBlock rfl hlt rfl hfits, ?_, ?_, rfl, fun _ => ?_⟩
    · simpa using AsanObuf.nextCapacity_le hcapacity
    · simp
    · simp
  · next hroom =>
    obtain rfl := Option.some.inj hrun
    obtain ⟨hpos, hle⟩ : smallObufIovCheckedMax ≤ b.pos ∧ ((b.vec b.pos).len + size) % sizeMax ≤
        (b.vec b.pos).capacity := by
      simpa [not_or] using hroom
    have hlen := h.len b.pos
    have hcap := h.capacity_lt
    have hmod : ((b.vec b.pos).len + size) % sizeMax = (b.vec b.pos).len + size :=
      Nat.mod_eq_of_lt (by simp only [sizeMax]; omega)
    refine ⟨⟨h, .refl b, rfl, rfl⟩, hmod ▸ hle, ?_, rfl, fun hlt => absurd hlt (Nat.not_lt.2 hpos)⟩
    rw [Option.isSome_iff_ne_none]
    intro hnone
    have hzero := (h.current hnone).1
    simp only [smallObufIovCheckedMax] at hpos
    omega

/-- The buffer has written `data` behind what it had. -/
structure AsanObuf.Wrote (b : AsanObuf) (data : List UInt8) (b' : AsanObuf) : Prop where
  inv : b'.Inv
  keeps : b.Keeps b'
  content : b'.content = b.content ++ data
  start : b'.startCapacity = b.startCapacity

theorem AsanObuf.Same.wrote {data : List UInt8} (h : b.Same b') (h' : b'.Wrote data b'') :
    b.Wrote data b'' :=
  ⟨h'.inv, h.keeps.trans h'.keeps, by rw [h'.content, h.content], h'.start.trans h.start⟩

/-- A chunk of the current block, with the data in it. -/
def AsanObuf.take (b : AsanObuf) (size : Nat) (data : Nat → UInt8) : AsanObuf :=
  AsanObuf.store
    { b.set b.pos { b.vec b.pos with len := ((b.vec b.pos).len + size) % sizeMax } with used :=
    (b.used + size) % sizeMax }
    (b.vec b.pos).len size data

theorem AsanObuf.take_spec (h : b.Inv) (data : Nat → UInt8)
    (hroom : (b.vec b.pos).len + size ≤ (b.vec b.pos).capacity)
    (hbase : (b.vec b.pos).base.isSome = true) (hres : b.reserved = false) :
    b.Wrote ((List.range size).map data) (b.take size data) := by
  obtain ⟨mem, hmem⟩ := Option.isSome_iff_exists.1 hbase
  have hcap := h.capacity_lt
  have hused := h.used_add_le
  have hfoot := h.footprint
  have hlen : ((b.vec b.pos).len + size) % sizeMax = (b.vec b.pos).len + size :=
    Nat.mod_eq_of_lt (by simp only [sizeMax]; omega)
  have hsum : (b.used + size) % sizeMax = b.used + size :=
    Nat.mod_eq_of_lt (by simp only [sizeMax]; omega)
  have hpos : (b.take size data).pos = b.pos := rfl
  have hvec : ∀ i, (b.take size data).vec i =
      if i = b.pos then
        { base := some (fill mem (b.vec b.pos).len size data), len := (b.vec b.pos).len + size,
          capacity := (b.vec b.pos).capacity }
      else b.vec i := by
    intro i
    by_cases hi : i = b.pos
    · subst hi
      simp [AsanObuf.take, AsanObuf.store, AsanObuf.set, hmem, hlen]
    · simp [AsanObuf.take, AsanObuf.store, AsanObuf.set, hi]
  have hfirst : ∀ l ≤ (b.vec b.pos).len, ((b.take size data).vec b.pos).first l =
      (b.vec b.pos).first l := by
    intro l hl
    rw [hvec, if_pos rfl]
    simp only [AsanVec.first, hmem, Option.elim_some]
    exact read_congr fun x _ hx => fill_of_not (by omega)
  have hkeeps : b.Keeps (b.take size data) := by
    refine ⟨Nat.le_refl _, fun i _ => ?_, fun i hi => by
      rw [hvec, if_neg (by omega)], fun i _ l hl => ?_⟩
    · rw [hvec]
      split
      · next heq =>
        rw [heq]
        exact Nat.le_add_right _ _
      · exact Nat.le_refl _
    · by_cases heq : i = b.pos
      · rw [heq] at hl ⊢
        exact hfirst l hl
      · rw [hvec, if_neg heq]
  have hcontent : (b.take size data).upTo b.pos ((b.vec b.pos).len + size) =
      b.upTo b.pos (b.vec b.pos).len ++ (List.range size).map data := by
    rw [← hkeeps.upTo (Nat.le_refl _) (Nat.le_refl _), AsanObuf.upTo, AsanObuf.upTo,
      List.append_assoc]
    congr 1
    rw [hvec, if_pos rfl]
    simp only [AsanVec.first, Option.elim_some]
    rw [read_add, Nat.zero_add, read_fill]
  have hlast : ((b.take size data).vec b.pos).len = (b.vec b.pos).len + size := by
    rw [hvec, if_pos rfl]
  refine ⟨?_, hkeeps, ?_, rfl⟩
  · constructor
    case pos => exact h.pos
    case blocks =>
      intro i hi
      have hi : i < b.pos := hi
      rw [hvec, if_neg (by omega)]
      exact h.blocks i hi
    case rest =>
      intro i hi
      have hi : b.pos < i := hi
      rw [hvec, if_neg (by omega)]
      exact h.rest i hi
    case current =>
      intro hnone
      rw [hpos, hvec, if_pos rfl] at hnone
      cases hnone
    case len =>
      intro i
      rw [hvec]
      split
      · exact hroom
      · exact h.len i
    case footprint =>
      have hsame : (b.take size data).footprint = b.footprint := by
        refine Finset.sum_congr rfl fun i _ => ?_
        rw [hvec]
        split
        · next heq => rw [heq]
        · rfl
      rw [hsame]
      exact hfoot
    case used =>
      rw [hpos, hlast, hcontent, List.length_append, List.length_map, List.length_range, ← h.used]
      exact hsum
    case reserved =>
      intro _
      rw [hpos, hvec, if_pos rfl]
      rfl
    case fresh => exact fun hr => absurd (hres.symm.trans hr) Bool.false_ne_true
  · rw [AsanObuf.content_eq, AsanObuf.content_eq, hpos, hlast, hcontent]

/-! ## Rollback -/

theorem asanFreeLoop_eq {n i : Nat}
    (hbase : ∀ j, i ≤ j → j < i + n → (b.vec j).base.isSome = true) :
    asanFreeLoop n i b =
      some { b with vec := fun j => if i ≤ j ∧ j < i + n then nullVec else b.vec j } := by
  induction n generalizing i b with
  | zero =>
      have hsame : (fun j => if i ≤ j ∧ j < i + 0 then nullVec else b.vec j) = b.vec := by
        funext j
        rw [if_neg (by omega)]
      rw [asanFreeLoop, hsame]
  | succ n ih =>
      have hfirst := hbase i (Nat.le_refl i) (by omega)
      have hrest : ∀ j, i + 1 ≤ j → j < i + 1 + n →
          ((b.set i nullVec).vec j).base.isSome = true := by
        intro j h1 h2
        rw [AsanObuf.set_vec, if_neg (by omega)]
        exact hbase j (by omega) (by omega)
      rw [asanFreeLoop, guard, if_pos hfirst]
      show asanFreeLoop n (i + 1) (b.set i nullVec) = _
      rw [ih hrest]
      simp only [AsanObuf.set]
      congr 2
      funext j
      by_cases hj : j = i
      · subst hj
        rw [if_neg (by omega), if_pos (by omega), Function.update_self]
      · rw [Function.update_of_ne hj]
        congr 1
        exact propext (by omega)

/-- The buffer `b'` is `b` up to the savepoint. -/
structure AsanObuf.BackAt (b : AsanObuf) (svp : ObufSvp) (b' : AsanObuf) : Prop where
  inv : b'.Inv
  pos : b'.pos = svp.pos
  start : b'.startCapacity = b.startCapacity
  whole : ∀ i < svp.pos, b'.vec i = b.vec i
  len : (b'.vec svp.pos).len = svp.iovLen
  first : ∀ l ≤ svp.iovLen, (b'.vec svp.pos).first l = (b.vec svp.pos).first l
  /-- A rollback to the start frees all blocks. -/
  freed : svp.pos = 0 → svp.iovLen = 0 → ∀ i, b'.vec i = nullVec

theorem AsanObuf.BackAt.upTo {svp : ObufSvp} (h : b.BackAt svp b')
    (hle : p < svp.pos ∨ p = svp.pos ∧ l ≤ svp.iovLen) :
    b'.upTo p l = b.upTo p l := by
  unfold AsanObuf.upTo
  congr 1
  · refine List.flatMap_congr fun i hi => ?_
    rw [List.mem_range] at hi
    rw [AsanObuf.bytes, AsanObuf.bytes, h.whole i (by omega)]
  · rcases hle with hlt | ⟨rfl, hl⟩
    · rw [h.whole p hlt]
    · exact h.first l hl

/-- The current entry has a block unless the buffer is empty. -/
theorem AsanObuf.Inv.base_isSome (h : b.Inv) {i : Nat} (hi : i ≤ b.pos)
    (hne : 0 < b.pos ∨ (b.vec 0).base.isSome = true) :
    (b.vec i).base.isSome = true := by
  rcases Nat.lt_or_eq_of_le hi with hlt | rfl
  · exact h.blocks i hlt
  · rw [Option.isSome_iff_ne_none]
    intro hnone
    have hzero := (h.current hnone).1
    rw [hzero] at hnone
    simp [hzero, hnone] at hne

theorem AsanObuf.freeFrom_eq_pos {svp : ObufSvp} (h : b.freeFrom svp = svp.pos) :
    svp.pos = 0 ∧ svp.iovLen = 0 := by
  unfold AsanObuf.freeFrom at h
  split at h
  · next hfree => exact ⟨hfree.1, hfree.2.1⟩
  · omega

theorem AsanObuf.freeFrom_cases (b : AsanObuf) (svp : ObufSvp) :
    b.freeFrom svp = svp.pos ∨ b.freeFrom svp = svp.pos + 1 := by
  unfold AsanObuf.freeFrom
  split
  · exact .inl rfl
  · exact .inr rfl

/-- What `obuf_rollback_to_svp` makes of the fields. -/
structure AsanObuf.Cut (b : AsanObuf) (svp : ObufSvp) (b' : AsanObuf) : Prop where
  pos : b'.pos = svp.pos
  used : b'.used = svp.used
  start : b'.startCapacity = b.startCapacity
  reserved : b'.reserved = false
  vec : ∀ i, b'.vec i = if i < svp.pos then b.vec i
    else if i = svp.pos ∧ b.freeFrom svp ≠ svp.pos then { b.vec i with len := svp.iovLen }
    else nullVec

/-- `obuf_rollback_to_svp` frees blocks that are there. -/
theorem asanObufRollbackToSvp_cut (h : b.Inv) {svp : ObufSvp} (hp : svp.pos ≤ b.pos) :
    ∃ b', asanObufRollbackToSvp b svp = some b' ∧ b.Cut svp b' := by
  have hblocks : ∀ j, b.freeFrom svp ≤ j → j < b.freeFrom svp + (b.pos + 1 - b.freeFrom svp) →
      (b.vec j).base.isSome = true := by
    intro j h1 h2
    refine h.base_isSome (by omega) ?_
    by_cases hfree : svp.pos = 0 ∧ svp.iovLen = 0 ∧ (b.vec 0).base.isSome = true
    · exact .inr hfree.2.2
    · have hfrom : b.freeFrom svp = svp.pos + 1 := if_neg hfree
      exact .inl (by omega)
  refine ⟨_, by
    simp only [asanObufRollbackToSvp, guard, if_pos hp, asanFreeLoop_eq hblocks, Option.pure_def,
      Option.bind_eq_bind, Option.bind_some]
    rfl, ?_⟩
  refine ⟨rfl, rfl, rfl, rfl, fun i => ?_⟩
  simp only [AsanObuf.set_vec]
  rcases Nat.lt_trichotomy i svp.pos with hlt | heq | hgt
  · have hcases := b.freeFrom_cases svp
    rw [if_neg (by omega), if_neg (by omega), if_pos hlt]
  · subst heq
    rcases b.freeFrom_cases svp with hfrom | hfrom
    · rw [if_pos rfl, if_pos (by omega), if_neg (Nat.lt_irrefl _), if_neg (by simp [hfrom]),
        (AsanObuf.freeFrom_eq_pos hfrom).2]
      rfl
    · rw [if_pos rfl, if_neg (by omega), if_neg (Nat.lt_irrefl _), if_pos ⟨rfl, by omega⟩]
  · have hcases := b.freeFrom_cases svp
    rw [if_neg (by omega)]
    by_cases hi : i ≤ b.pos
    · rw [if_pos (by omega), if_neg (by omega), if_neg (by omega)]
    · rw [if_neg (by omega), if_neg (by omega), if_neg (by omega)]
      exact h.rest i (by omega)

/-! ## The buffer up to the savepoint -/

namespace AsanObuf.Cut

variable {svp : ObufSvp} (hcut : b.Cut svp b')

include hcut

theorem before {i : Nat} (hi : i < svp.pos) : b'.vec i = b.vec i := by
  rw [hcut.vec, if_pos hi]

theorem at_pos : b'.vec svp.pos =
    if b.freeFrom svp ≠ svp.pos then { b.vec svp.pos with len := svp.iovLen } else nullVec := by
  rw [hcut.vec, if_neg (Nat.lt_irrefl _)]
  simp

theorem behind {i : Nat} (hi : svp.pos < i) : b'.vec i = nullVec := by
  rw [hcut.vec, if_neg (by omega), if_neg (by omega)]

theorem len : (b'.vec svp.pos).len = svp.iovLen := by
  rw [hcut.at_pos]
  split
  · rfl
  · next hfrom => exact (freeFrom_eq_pos (not_not.1 hfrom)).2.symm

theorem first {l : Nat} (hl : l ≤ svp.iovLen) :
    (b'.vec svp.pos).first l = (b.vec svp.pos).first l := by
  rw [hcut.at_pos]
  split
  · rfl
  · next hfrom =>
    have hzero := (freeFrom_eq_pos (not_not.1 hfrom)).2
    rw [hzero] at hl
    rw [Nat.le_zero.1 hl, AsanVec.first_zero, AsanVec.first_zero]

theorem upTo : b'.upTo svp.pos svp.iovLen = b.upTo svp.pos svp.iovLen := by
  unfold AsanObuf.upTo
  rw [hcut.first (Nat.le_refl _)]
  congr 1
  refine List.flatMap_congr fun i hi => ?_
  rw [AsanObuf.bytes, AsanObuf.bytes, hcut.before (List.mem_range.1 hi)]

theorem capacity_le (i : Nat) : (b'.vec i).capacity ≤ (b.vec i).capacity := by
  rw [hcut.vec]
  split
  · exact Nat.le_refl _
  · split
    · exact Nat.le_refl _
    · exact Nat.zero_le _

theorem footprint_le (hp : svp.pos ≤ b.pos) : b'.footprint ≤ b.footprint := by
  rw [AsanObuf.footprint, AsanObuf.footprint, hcut.pos]
  exact (Finset.sum_le_sum fun i _ => hcut.capacity_le i).trans
    (Finset.sum_le_sum_of_subset (Finset.range_subset_range.2 (Nat.succ_le_succ hp)))

/-- If the current entry has no block, the buffer is empty. -/
theorem current (h : b.Inv) (hp : svp.pos ≤ b.pos) (hl : svp.iovLen ≤ (b.vec svp.pos).len)
    (hnone : (b'.vec svp.pos).base = none) : svp.pos = 0 ∧ b'.vec svp.pos = nullVec := by
  rw [hcut.at_pos] at hnone ⊢
  split at hnone
  · next hfrom =>
    have hlast : svp.pos = b.pos := by
      by_contra hne
      have hsome := h.blocks svp.pos (by omega)
      rw [show (b.vec svp.pos).base = none from hnone] at hsome
      cases hsome
    obtain ⟨hzero, hv⟩ := h.current (hlast ▸ hnone)
    rw [hlast, hv] at hl
    rw [if_pos hfrom, hlast, hv, Nat.le_zero.1 hl]
    exact ⟨hzero, rfl⟩
  · next hfrom =>
    rw [if_neg hfrom]
    exact ⟨(freeFrom_eq_pos (not_not.1 hfrom)).1, rfl⟩

/-- A rollback to the start frees the first block too, if there is one. -/
theorem freed (h : b.Inv) (hzero : svp.pos = 0) (hempty : svp.iovLen = 0) (i : Nat) :
    b'.vec i = nullVec := by
  rcases Nat.eq_zero_or_pos i with rfl | hi
  · rw [← hzero, hcut.at_pos]
    split
    · next hfrom =>
      -- there was no block
      have hnone : (b.vec 0).base = none := by
        rw [← Option.not_isSome_iff_eq_none]
        exact fun hsome => hfrom (if_pos ⟨hzero, hempty, hsome⟩)
      have hpos0 : b.pos = 0 := by
        by_contra hne
        have hsome := h.blocks 0 (by omega)
        rw [hnone] at hsome
        cases hsome
      have hv : b.vec 0 = nullVec := by
        have hlast := (h.current (hpos0 ▸ hnone)).2
        rwa [hpos0] at hlast
      rw [hzero, hempty, hv]
      rfl
    · rfl
  · exact hcut.behind (by omega)

theorem inv (h : b.Inv) (hp : svp.pos ≤ b.pos) (hl : svp.iovLen ≤ (b.vec svp.pos).len)
    (hu : svp.used = (b.upTo svp.pos svp.iovLen).length) : b'.Inv := by
  constructor
  case pos => exact hcut.pos.trans_lt (Nat.lt_of_le_of_lt hp h.pos)
  case blocks =>
    intro i hi
    rw [hcut.pos] at hi
    rw [hcut.before hi]
    exact h.blocks i (by omega)
  case rest => exact fun i hi => hcut.behind (hcut.pos ▸ hi)
  case current =>
    rw [hcut.pos]
    exact hcut.current h hp hl
  case len =>
    intro i
    rw [hcut.vec]
    split
    · exact h.len i
    · split
      · next heq =>
        rw [heq.1]
        exact hl.trans (h.len svp.pos)
      · exact Nat.le_refl _
  case footprint => exact Nat.lt_of_le_of_lt (hcut.footprint_le hp) h.footprint
  case used => rw [hcut.pos, hcut.len, hcut.upTo, hcut.used, hu]
  case reserved => exact fun hr => absurd hr (by simp [hcut.reserved])
  case fresh => exact fun hr => absurd hr (by simp [hcut.reserved])

end AsanObuf.Cut

/-- `obuf_rollback_to_svp` to a position in what was written. -/
theorem asanObufRollbackToSvp_spec (h : b.Inv) {svp : ObufSvp} (hp : svp.pos ≤ b.pos)
    (hl : svp.iovLen ≤ (b.vec svp.pos).len)
    (hu : svp.used = (b.upTo svp.pos svp.iovLen).length) :
    ∃ b', asanObufRollbackToSvp b svp = some b' ∧ b.BackAt svp b' := by
  obtain ⟨b', hrun, hcut⟩ := asanObufRollbackToSvp_cut h hp
  exact ⟨b', hrun, hcut.inv h hp hl hu, hcut.pos, hcut.start, fun _ hi => hcut.before hi, hcut.len,
    fun _ hi => hcut.first hi, fun hzero hempty => hcut.freed h hzero hempty⟩

end SmallAllocators
