/-
SmallAllocators.Static — the static buffer of `include/small/static.h`.

A position runs through a buffer of fixed size and starts again at the
beginning when a request does not fit behind it. The test for room adds the
size to the position in 64 bits, so that a size close to 2^64 passes it; the
aligned calls add the alignment before that.

`chunks` is a ghost: the chunks that were allocated since the position was
last set back. `none` is a failed assertion, and `NULL` a result.
-/
import SmallAllocators.Lib.Runs
import SmallAllocators.Util

namespace SmallAllocators

/-- `SMALL_STATIC_SIZE`. -/
def smallStaticSize : Nat := 4096 * 3

/-- The place of `static_storage_buffer`, which is not at the end of the address space. -/
structure StaticBuffer where
  addr : Nat
  ne_zero : addr ≠ 0
  bound : addr + smallStaticSize + 1 < sizeMax

structure StaticState where
  /-- `static_storage_pos` -/
  pos : Nat
  /-- The addresses and sizes of the chunks since the position was set back. -/
  chunks : List (Nat × Nat)
deriving DecidableEq, Repr

section Calls

variable (b : StaticBuffer) (s : StaticState)

def staticReset : StaticState := { pos := 0, chunks := [] }

def staticReserve (size : Nat) : Option Nat × StaticState :=
  if (s.pos + size) % sizeMax > smallStaticSize then
    if size > smallStaticSize then (none, s)
    else (some b.addr, staticReset)
  else (some (b.addr + s.pos), s)

/-- The end of `static_alloc`: the position moves behind the chunk. -/
def staticTake (size : Nat) : Option Nat × StaticState → Option Nat × StaticState
  | (none, s) => (none, s)
  | (some res, s) =>
      (some res, { pos := (s.pos + size) % sizeMax, chunks := (res, size) :: s.chunks })

def staticAlloc (size : Nat) : Option Nat × StaticState := staticTake size (staticReserve b s size)

/-- The end of `static_aligned_reserve`. -/
def staticAligned (alignment : Nat) : Option Nat × StaticState → Option (Option Nat × StaticState)
  | (none, s) => some (none, s)
  | (some unaligned, s) => do
    let res ← smallAlign unaligned alignment
    some (some res, s)

def staticAlignedReserve (size alignment : Nat) : Option (Option Nat × StaticState) :=
  staticAligned alignment (staticReserve b s ((size + alignment + (sizeMax - 1)) % sizeMax))

/-- The end of `static_aligned_alloc`: the padding is part of the position. -/
def staticAlignedTake (size : Nat) : Option Nat × StaticState → Option Nat × StaticState
  | (none, s) => (none, s)
  | (some res, s) =>
    let pos := (res + (sizeMax - b.addr)) % sizeMax
    (some res, { pos := (pos + size) % sizeMax, chunks := (res, size) :: s.chunks })

def staticAlignedAlloc (size alignment : Nat) : Option (Option Nat × StaticState) :=
  (staticAlignedReserve b s size alignment).map (staticAlignedTake b size)

end Calls

/-- A request, with its alignment if it is an aligned one. -/
structure StaticRequest where
  size : Nat
  alignment : Option Nat

inductive StaticOp where
  | reset
  | reserve (req : StaticRequest)
  | alloc (req : StaticRequest)

namespace StaticRequest

variable (req : StaticRequest) (b : StaticBuffer) (s : StaticState)

/-- `static_reserve` or `static_aligned_reserve`. -/
def reserve : Option (Option Nat × StaticState) :=
  match req.alignment with
  | none => some (staticReserve b s req.size)
  | some alignment => staticAlignedReserve b s req.size alignment

/-- `static_alloc` or `static_aligned_alloc`. -/
def alloc : Option (Option Nat × StaticState) :=
  match req.alignment with
  | none => some (staticAlloc b s req.size)
  | some alignment => staticAlignedAlloc b s req.size alignment

/-- A `size_t`, and a power of two, if there is an alignment. -/
def Allowed : Prop := req.size < sizeMax ∧ ∀ a, req.alignment = some a → ∃ k < 64, a = 2 ^ k

/-- The alignment of the address that is asked for. -/
def align : Nat := req.alignment.getD 1

/-- The room that is asked for. -/
def total : Nat := req.size + (req.align - 1)

/-- A sum of the space test that wraps around and passes it. -/
def Wraps : Prop :=
  (sizeMax ≤ req.total ∧ req.total ≤ sizeMax + smallStaticSize) ∨
    (sizeMax ≤ s.pos + req.total ∧ s.pos + req.total ≤ sizeMax + smallStaticSize)

end StaticRequest

def StaticOp.exec (b : StaticBuffer) (s : StaticState) :
    StaticOp → Option (Option Nat × StaticState)
  | .reset => some (none, staticReset)
  | .reserve req => req.reserve b s
  | .alloc req => req.alloc b s

/-- The request of a call. -/
def StaticOp.request? : StaticOp → Option StaticRequest
  | .reset => none
  | .reserve req => some req
  | .alloc req => some req

def StaticOp.Allowed (op : StaticOp) : Prop := ∀ req, op.request? = some req → req.Allowed

/-- No sum of the space test wraps around and passes it. -/
def StaticOp.Fits (s : StaticState) (op : StaticOp) : Prop :=
  ∀ req, op.request? = some req → ¬ req.Wraps s

/-- All sequences of calls; a thread starts with position 0. -/
def staticMachine (b : StaticBuffer) : Machine StaticState StaticOp where
  init s := s = staticReset
  allowed _ op := op.Allowed
  exec s op := (op.exec b s).map Prod.snd

/-- The sequences in which no sum wraps around. -/
def staticFitMachine (b : StaticBuffer) : Machine StaticState StaticOp where
  init s := s = staticReset
  allowed s op := op.Allowed ∧ op.Fits s
  exec s op := (op.exec b s).map Prod.snd

/-! ## The discipline -/

/-- The two chunks have no byte in common. -/
def ChunksApart (x y : Nat × Nat) : Prop := x.1 + x.2 ≤ y.1 ∨ y.1 + y.2 ≤ x.1

/-- The position is inside the buffer, and the chunks are apart and before it. -/
structure StaticState.Inv (b : StaticBuffer) (s : StaticState) : Prop where
  pos : s.pos ≤ smallStaticSize
  apart : s.chunks.Pairwise ChunksApart
  chunks : ∀ x ∈ s.chunks, b.addr ≤ x.1 ∧ x.1 + x.2 ≤ b.addr + s.pos

/-- What a call with a request returns, and the state after it. -/
structure StaticRequest.Served (b : StaticBuffer) (s : StaticState) (req : StaticRequest)
    (res : Option Nat) (s' : StaticState) : Prop where
  inv : s'.Inv b
  inside : ∀ p, res = some p → b.addr ≤ p ∧ p + req.size ≤ b.addr + smallStaticSize
  aligned : ∀ p, res = some p → req.align ∣ p
  large : req.alignment = none → smallStaticSize < req.size → res = none ∧ s'.pos = s.pos

/-- A chunk of at most the reserved size, allocated right after the reserve, has the reserved
address. -/
def StaticRequest.Kept (b : StaticBuffer) (req : StaticRequest) (res : Option Nat)
    (s' : StaticState) : Prop :=
  ∀ p, res = some p → ∀ size ≤ req.size, ∃ s'', { req with size := size }.alloc b s' =
    some (some p, s'')

/-- A call returns, and keeps the discipline. -/
def StaticOp.Disciplined (b : StaticBuffer) (s : StaticState) (op : StaticOp) : Prop :=
  ∃ res s', op.exec b s = some (res, s') ∧ s'.Inv b ∧
  (∀ req, op.request? = some req → req.Served b s res s') ∧
    ∀ req, op = .reserve req → req.Kept b res s'

section Requests

variable {b : StaticBuffer} {s s' : StaticState} {req : StaticRequest} {size k : Nat}

theorem staticReset_inv (b : StaticBuffer) : staticReset.Inv b :=
  ⟨Nat.zero_le _, .nil, by simp [staticReset]⟩

theorem sizeMax_pos : smallStaticSize < sizeMax := by decide

/-- The outcomes of `static_reserve`. The last one is that of a sum that wraps around. -/
theorem staticReserve_cases (h : s.Inv b) (hsize : size < sizeMax) :
    (s.pos + size ≤ smallStaticSize ∧ staticReserve b s size = (some (b.addr + s.pos), s)) ∨
    (size ≤ smallStaticSize ∧ smallStaticSize < s.pos + size ∧
      staticReserve b s size = (some b.addr, staticReset)) ∨
    (smallStaticSize < size ∧ s.pos + size < sizeMax ∧ staticReserve b s size = (none, s)) ∨
    (sizeMax ≤ s.pos + size ∧ staticReserve b s size = (some (b.addr + s.pos), s)) := by
  have hpos := h.pos
  have hword := sizeMax_pos
  unfold staticReserve
  rcases Nat.lt_or_ge (s.pos + size) sizeMax with hlt | hwraps
  · rw [Nat.mod_eq_of_lt hlt]
    by_cases hroom : s.pos + size > smallStaticSize
    · rw [if_pos hroom]
      by_cases hlarge : size > smallStaticSize
      · rw [if_pos hlarge]
        exact .inr (.inr (.inl ⟨hlarge, hlt, rfl⟩))
      · rw [if_neg hlarge]
        exact .inr (.inl ⟨Nat.le_of_not_lt hlarge, hroom, rfl⟩)
    · rw [if_neg hroom]
      exact .inl ⟨Nat.le_of_not_lt hroom, rfl⟩
  · have hmod : (s.pos + size) % sizeMax = s.pos + size - sizeMax := by
      rw [Nat.mod_eq_sub_mod hwraps, Nat.mod_eq_of_lt (by omega)]
    rw [hmod, if_neg (by omega)]
    exact .inr (.inr (.inr ⟨hwraps, rfl⟩))

/-- The reduction of the room to 64 bits, as the aligned calls compute it. -/
theorem total_mod (size k : Nat) :
    (size + 2 ^ k + (sizeMax - 1)) % sizeMax = (size + (2 ^ k - 1)) % sizeMax := by
  have hpos := Nat.two_pow_pos k
  have hsum : size + 2 ^ k + (sizeMax - 1) = size + (2 ^ k - 1) + sizeMax := by
    simp only [sizeMax]
    omega
  rw [hsum, Nat.add_mod_right]

/-- An address that `small_align` accepts is rounded up. -/
theorem smallAlign_some {x y : Nat} (hk : k < 64) (h : smallAlign x (2 ^ k) = some y) : x ≤ y := by
  have hpow : 2 ^ k < sizeMax := Nat.pow_lt_pow_right (by decide) hk
  by_cases hle : x ≤ sizeMax - 1 - 2 ^ k
  · have hfits : x + 2 ^ k < sizeMax := by omega
    rw [smallAlign_eq hfits, Option.some.injEq] at h
    exact h ▸ le_alignUp k x
  · simp only [smallAlign, guard, if_neg hle, Option.bind_eq_bind, failure,
      Alternative.failure] at h
    simp at h

/-- An aligned reserve whose unaligned one returns an address. -/
theorem staticAlignedReserve_of_some {alignment unaligned : Nat}
    (h : staticReserve b s ((size + alignment + (sizeMax - 1)) % sizeMax) = (some unaligned, s')) :
    staticAlignedReserve b s size alignment = (smallAlign unaligned alignment).map fun res =>
      (some res, s') := by
  rw [staticAlignedReserve, h, staticAligned]
  cases smallAlign unaligned alignment <;> rfl

/-- An aligned reserve whose unaligned one returns `NULL`. -/
theorem staticAlignedReserve_of_none {alignment : Nat}
    (h : staticReserve b s ((size + alignment + (sizeMax - 1)) % sizeMax) = (none, s')) :
    staticAlignedReserve b s size alignment = some (none, s') := by
  rw [staticAlignedReserve, h, staticAligned]

/-- The address that an aligned request gets behind the position. -/
def StaticBuffer.next (b : StaticBuffer) (s : StaticState) (k : Nat) : Nat :=
  alignUp k (b.addr + s.pos)

theorem smallAlign_next (hroom : s.pos + (size + (2 ^ k - 1)) ≤ smallStaticSize) :
    smallAlign (b.addr + s.pos) (2 ^ k) = some (b.next s k) := by
  have hbound := b.bound
  have hpos := Nat.two_pow_pos k
  exact smallAlign_eq (by omega)

/-- A request that fits behind the position gets the next aligned address. -/
theorem staticAlignedReserve_room (hroom : s.pos + (size + (2 ^ k - 1)) ≤ smallStaticSize) :
    staticAlignedReserve b s size (2 ^ k) = some (some (b.next s k), s) := by
  have hword := sizeMax_pos
  have hmod : (size + 2 ^ k + (sizeMax - 1)) % sizeMax = size + (2 ^ k - 1) := by
    rw [total_mod, Nat.mod_eq_of_lt (by omega)]
  have hreserve : staticReserve b s (size + (2 ^ k - 1)) = (some (b.addr + s.pos), s) := by
    rw [staticReserve, Nat.mod_eq_of_lt (by omega), if_neg (Nat.not_lt.2 hroom)]
  rw [← hmod] at hreserve
  rw [staticAlignedReserve_of_some hreserve, smallAlign_next hroom, Option.map_some]

/-- What an aligned reserve makes of its request: it gets the next aligned address behind the
position, which may be set back first; or there is no room in the whole buffer; or a sum wraps
around, and then the result may be any address behind the start. -/
inductive Reserves (b : StaticBuffer) (s : StaticState) (size k : Nat) : Prop where
  | room (s₁ : StaticState) (hs : s₁ = s ∨ s₁ = staticReset)
      (hroom : s₁.pos + (size + (2 ^ k - 1)) ≤ smallStaticSize)
      (heq : staticAlignedReserve b s size (2 ^ k) = some (some (b.next s₁ k), s₁))
  | full (hlarge : smallStaticSize < size + (2 ^ k - 1))
      (hsum : size + (2 ^ k - 1) < sizeMax ∨ sizeMax + smallStaticSize < size + (2 ^ k - 1))
      (hpos : s.pos + (size + (2 ^ k - 1)) < sizeMax ∨
        sizeMax + smallStaticSize < s.pos + (size + (2 ^ k - 1)))
      (heq : staticAlignedReserve b s size (2 ^ k) = some (none, s))
  | wraps (hlarge : smallStaticSize < size)
      (hsum : (sizeMax ≤ size + (2 ^ k - 1) ∧ size + (2 ^ k - 1) ≤ sizeMax + smallStaticSize) ∨
        (sizeMax ≤ s.pos + (size + (2 ^ k - 1)) ∧
          s.pos + (size + (2 ^ k - 1)) ≤ sizeMax + smallStaticSize))
      (hsome : ∀ res s', staticAlignedReserve b s size (2 ^ k) = some (res, s') →
        ∃ p, res = some p ∧ b.addr ≤ p)

/-- Any address behind the start, out of a sum that wraps around. -/
theorem staticAlignedReserve_wraps {a : Nat} {s₁ : StaticState} (hk : k < 64)
    (hreserve : staticReserve b s ((size + 2 ^ k + (sizeMax - 1)) % sizeMax) =
      (some (b.addr + a), s₁)) :
    ∀ res s', staticAlignedReserve b s size (2 ^ k) = some (res, s') →
      ∃ p, res = some p ∧ b.addr ≤ p := by
  intro res s' heq
  rw [staticAlignedReserve_of_some hreserve] at heq
  obtain ⟨p, hp, heq⟩ := Option.map_eq_some_iff.1 heq
  rw [Prod.mk.injEq] at heq
  exact ⟨p, heq.1.symm, (Nat.le_add_right _ _).trans (smallAlign_some hk hp)⟩

theorem reserves_spec (h : s.Inv b) (hsize : size < sizeMax) (hk : k < 64) :
    Reserves b s size k := by
  have hpos := h.pos
  have hpow : 2 ^ k ≤ 2 ^ 63 := Nat.pow_le_pow_right (by decide) (by omega)
  have hone := Nat.two_pow_pos k
  have hword : smallStaticSize < 2 ^ 62 := by decide
  have hhalf : sizeMax = 2 ^ 63 + 2 ^ 63 := by decide
  rcases Nat.lt_or_ge (size + (2 ^ k - 1)) sizeMax with hlt | hge
  · have hlarge' : sizeMax ≤ s.pos + (size + (2 ^ k - 1)) → smallStaticSize < size ∧
        s.pos + (size + (2 ^ k - 1)) ≤ sizeMax + smallStaticSize := by omega
    have hmod : (size + 2 ^ k + (sizeMax - 1)) % sizeMax = size + (2 ^ k - 1) := by
      rw [total_mod, Nat.mod_eq_of_lt hlt]
    rcases staticReserve_cases h hlt with ⟨hroom, -⟩ | ⟨hroom, -, heq⟩ | ⟨hlarge, hsum, heq⟩
      | ⟨hsum, heq⟩
    · exact .room s (.inl rfl) hroom (staticAlignedReserve_room hroom)
    · rw [← hmod] at heq
      have hroom' : staticReset.pos + (size + (2 ^ k - 1)) ≤ smallStaticSize :=
        (Nat.zero_add _).le.trans hroom
      refine .room staticReset (.inr rfl) hroom' ?_
      rw [staticAlignedReserve_of_some heq, ← Nat.add_zero b.addr]
      exact congrArg (Option.map _) (smallAlign_next hroom')
    · rw [← hmod] at heq
      exact .full hlarge (.inl hlt) (.inl hsum) (staticAlignedReserve_of_none heq)
    · rw [← hmod] at heq
      obtain ⟨hsize', hle⟩ := hlarge' hsum
      exact .wraps hsize' (.inr ⟨hsum, hle⟩) (staticAlignedReserve_wraps hk heq)
  · obtain ⟨rest, hover⟩ := Nat.exists_eq_add_of_le hge
    have hover' : rest < sizeMax ∧ s.pos + rest < sizeMax ∧ smallStaticSize < size := by omega
    have hfits : rest ≤ smallStaticSize → size + (2 ^ k - 1) ≤ sizeMax + smallStaticSize := by omega
    have hlarge' : smallStaticSize < rest → smallStaticSize < size + (2 ^ k - 1) ∧
        sizeMax + smallStaticSize < size + (2 ^ k - 1) ∧
        sizeMax + smallStaticSize < s.pos + (size + (2 ^ k - 1)) := by omega
    have hmod : (size + 2 ^ k + (sizeMax - 1)) % sizeMax = rest := by
      rw [total_mod, hover, Nat.add_mod_left, Nat.mod_eq_of_lt hover'.1]
    rcases staticReserve_cases h hover'.1 with ⟨hroom, heq⟩ | ⟨hroom, -, heq⟩
      | ⟨hlarge, hsum, heq⟩ | ⟨hsum, -⟩
    · rw [← hmod] at heq
      exact .wraps hover'.2.2 (.inl ⟨hge, hfits (Nat.le_of_add_left_le hroom)⟩)
        (staticAlignedReserve_wraps hk heq)
    · rw [← hmod, ← Nat.add_zero b.addr] at heq
      exact .wraps hover'.2.2 (.inl ⟨hge, hfits hroom⟩) (staticAlignedReserve_wraps hk heq)
    · rw [← hmod] at heq
      obtain ⟨hlarge, hsum, hpos⟩ := hlarge' hlarge
      exact .full hlarge (.inr hsum) (.inr hpos) (staticAlignedReserve_of_none heq)
    · exact absurd hsum (Nat.not_le.2 hover'.2.1)

/-! ## Unaligned calls are aligned ones -/

theorem staticReserve_address (h : s.Inv b) (hsize : size < sizeMax) :
    staticReserve b s size = (none, s) ∨
    ∃ s', s'.pos ≤ smallStaticSize ∧ staticReserve b s size = (some (b.addr + s'.pos), s') := by
  rcases staticReserve_cases h hsize with ⟨-, heq⟩ | ⟨-, -, heq⟩ | ⟨-, -, heq⟩ | ⟨-, heq⟩
  · exact .inr ⟨s, h.pos, heq⟩
  · exact .inr ⟨staticReset, Nat.zero_le _, heq⟩
  · exact .inl heq
  · exact .inr ⟨s, h.pos, heq⟩

theorem staticAlignedReserve_one (h : s.Inv b) (hsize : size < sizeMax) :
    staticAlignedReserve b s size (2 ^ 0) = some (staticReserve b s size) := by
  have hmod : (size + 2 ^ 0 + (sizeMax - 1)) % sizeMax = size := by
    rw [total_mod, Nat.pow_zero, Nat.sub_self, Nat.add_zero, Nat.mod_eq_of_lt hsize]
  rcases staticReserve_address h hsize with heq | ⟨s', hpos, heq⟩
  · rw [heq]
    rw [← hmod] at heq
    exact staticAlignedReserve_of_none heq
  · have hbound := b.bound
    have halign : smallAlign (b.addr + s'.pos) (2 ^ 0) = some (b.addr + s'.pos) := by
      rw [smallAlign_eq (by omega), alignUp_zero]
    rw [heq]
    rw [← hmod] at heq
    rw [staticAlignedReserve_of_some heq, halign, Option.map_some]

/-- The position is the distance of an address from the start. -/
theorem StaticBuffer.distance (b : StaticBuffer) {p : Nat} (hle : b.addr ≤ p)
    (hp : p ≤ b.addr + smallStaticSize) :
    (p + (sizeMax - b.addr)) % sizeMax = p - b.addr := by
  have hbound := b.bound
  rw [show p + (sizeMax - b.addr) = p - b.addr + sizeMax by omega, Nat.add_mod_right,
    Nat.mod_eq_of_lt (by omega)]

theorem staticAlignedAlloc_one (h : s.Inv b) (hsize : size < sizeMax) :
    staticAlignedAlloc b s size (2 ^ 0) = some (staticAlloc b s size) := by
  rw [staticAlignedAlloc, staticAlignedReserve_one h hsize, Option.map_some, staticAlloc]
  rcases staticReserve_address h hsize with heq | ⟨s', hpos, heq⟩
  · rw [heq, staticAlignedTake, staticTake]
  · rw [heq, staticAlignedTake, staticTake,
      b.distance (Nat.le_add_right _ _) (Nat.add_le_add_left hpos _), Nat.add_sub_cancel_left]

/-- Any request is an aligned one. -/
theorem StaticRequest.aligned_eq (h : s.Inv b) (hreq : req.Allowed) :
    ∃ k < 64, req.align = 2 ^ k ∧ req.reserve b s = staticAlignedReserve b s req.size (2 ^ k) ∧
      ∀ s', s'.Inv b → ∀ size ≤ req.size,
        { req with size := size }.alloc b s' = staticAlignedAlloc b s' size (2 ^ k) := by
  obtain ⟨size, alignment⟩ := req
  obtain ⟨hsize, halign⟩ := hreq
  cases alignment with
  | none =>
      refine ⟨0, by decide, rfl, (staticAlignedReserve_one h hsize).symm, fun s' h' size' hle => ?_⟩
      exact (staticAlignedAlloc_one h' (hle.trans_lt hsize)).symm
  | some alignment =>
      obtain ⟨k, hk, rfl⟩ := halign alignment rfl
      exact ⟨k, hk, rfl, rfl, fun s' h' size' hle => rfl⟩

/-! ## The calls -/

/-- An address that is behind the position and has room behind it. -/
theorem StaticBuffer.next_spec (b : StaticBuffer)
    (hroom : s.pos + (size + (2 ^ k - 1)) ≤ smallStaticSize) :
    b.addr + s.pos ≤ b.next s k ∧ b.next s k + size ≤ b.addr + smallStaticSize ∧
      2 ^ k ∣ b.next s k := by
  have hle := alignUp_le k (b.addr + s.pos)
  refine ⟨le_alignUp k _, ?_, dvd_alignUp k _⟩
  rw [StaticBuffer.next]
  omega

/-- The state after a chunk is taken there. -/
theorem staticAlignedAlloc_room (hroom : s.pos + (size + (2 ^ k - 1)) ≤ smallStaticSize) :
    staticAlignedAlloc b s size (2 ^ k) = some (some (b.next s k),
      { pos := b.next s k - b.addr + size, chunks := (b.next s k, size) :: s.chunks }) := by
  have hword := sizeMax_pos
  obtain ⟨hfrom, hto, -⟩ := b.next_spec hroom
  rw [staticAlignedAlloc, staticAlignedReserve_room hroom, Option.map_some, staticAlignedTake,
    b.distance (by omega) (by omega)]
  have hmod : (b.next s k - b.addr + size) % sizeMax = b.next s k - b.addr + size :=
    Nat.mod_eq_of_lt (by omega)
  simp only [hmod]

theorem StaticState.Inv.take (h : s.Inv b)
    (hroom : s.pos + (size + (2 ^ k - 1)) ≤ smallStaticSize) :
    StaticState.Inv b
      { pos := b.next s k - b.addr + size, chunks := (b.next s k, size) :: s.chunks } := by
  obtain ⟨hfrom, hto, -⟩ := b.next_spec hroom
  refine ⟨?_, List.pairwise_cons.2 ⟨fun x hx => ?_, h.apart⟩, fun x hx => ?_⟩
  · show b.next s k - b.addr + size ≤ smallStaticSize
    omega
  · -- all chunks are before the position
    obtain ⟨-, hend⟩ := h.chunks x hx
    exact .inr (hend.trans hfrom)
  · show b.addr ≤ x.1 ∧ x.1 + x.2 ≤ b.addr + (b.next s k - b.addr + size)
    rcases List.mem_cons.1 hx with rfl | hx
    · exact ⟨by omega, by simp only; omega⟩
    · obtain ⟨hstart, hend⟩ := h.chunks x hx
      exact ⟨hstart, by omega⟩

/-- `NULL`, and nothing has changed. -/
theorem StaticRequest.served_none (h : s.Inv b) : req.Served b s none s :=
  ⟨h, (fun _ h => by cases h), (fun _ h => by cases h), fun _ _ => ⟨rfl, rfl⟩⟩

/-- The next address behind the position, which may have been set back. -/
theorem StaticRequest.served_next {s₁ : StaticState} (hinv : s'.Inv b) (halign : req.align = 2 ^ k)
    (hroom : s₁.pos + (req.size + (2 ^ k - 1)) ≤ smallStaticSize) :
    req.Served b s (some (b.next s₁ k)) s' := by
  obtain ⟨hfrom, hto, hdvd⟩ := b.next_spec hroom
  refine ⟨hinv, ?_, ?_, fun hnone hlarge => ?_⟩
  · rintro p ⟨⟩
    exact ⟨by omega, hto⟩
  · rintro p ⟨⟩
    exact halign ▸ hdvd
  · omega

/-- A request that is larger than the buffer must not get an address. -/
theorem StaticRequest.Served.not_some (h : req.Served b s (some size) s') (hle : b.addr ≤ size)
    (hlarge : smallStaticSize < req.size) : False := by
  have hinside := (h.inside size rfl).2
  omega

theorem StaticRequest.not_wraps {s₁ : StaticState} (h : s.Inv b) (halign : req.align = 2 ^ k)
    (hroom : s₁.pos + (req.size + (2 ^ k - 1)) ≤ smallStaticSize) : ¬ req.Wraps s := by
  have hpos := h.pos
  have hword : smallStaticSize + smallStaticSize < sizeMax := by decide
  rw [StaticRequest.Wraps, StaticRequest.total, halign]
  omega

/-- A reserve keeps the discipline unless a sum wraps around. -/
theorem StaticRequest.reserve_disciplined_iff (h : s.Inv b) (hreq : req.Allowed) :
    (StaticOp.reserve req).Disciplined b s ↔ ¬ req.Wraps s := by
  obtain ⟨k, hk, halign, hreserve, halloc⟩ := StaticRequest.aligned_eq h hreq
  cases reserves_spec h hreq.1 hk with
  | room s₁ hs hroom heq =>
      refine iff_of_true ?_ (StaticRequest.not_wraps h halign hroom)
      have hinv : s₁.Inv b := by
        rcases hs with rfl | rfl
        · exact h
        · exact staticReset_inv b
      refine ⟨_, s₁, hreserve.trans heq, hinv, ?_, ?_⟩
      · rintro _ ⟨⟩
        exact StaticRequest.served_next hinv halign hroom
      · rintro _ ⟨⟩ p ⟨⟩ size hle
        exact ⟨_, (halloc s₁ hinv size hle).trans (staticAlignedAlloc_room (by omega))⟩
  | full hlarge hsum hpos heq =>
      refine iff_of_true ?_ (by rw [StaticRequest.Wraps, StaticRequest.total, halign]; omega)
      refine ⟨none, s, hreserve.trans heq, h, ?_, ?_⟩
      · rintro _ ⟨⟩
        exact StaticRequest.served_none h
      · rintro _ ⟨⟩ p ⟨⟩
  | wraps hlarge hsum hsome =>
      refine iff_of_false ?_
        (not_not.2 (by rw [StaticRequest.Wraps, StaticRequest.total, halign]; exact hsum))
      rintro ⟨res, s', hexec, -, hserved, -⟩
      obtain ⟨p, rfl, hle⟩ := hsome res s' (hreserve.symm.trans hexec)
      exact (hserved req rfl).not_some hle hlarge

/-- An allocation keeps the discipline unless a sum wraps around. -/
theorem StaticRequest.alloc_disciplined_iff (h : s.Inv b) (hreq : req.Allowed) :
    (StaticOp.alloc req).Disciplined b s ↔ ¬ req.Wraps s := by
  obtain ⟨k, hk, halign, -, halloc⟩ := StaticRequest.aligned_eq h hreq
  have halloc : req.alloc b s = staticAlignedAlloc b s req.size (2 ^ k) :=
    halloc s h req.size (le_refl _)
  cases reserves_spec h hreq.1 hk with
  | room s₁ hs hroom heq =>
      refine iff_of_true ?_ (StaticRequest.not_wraps h halign hroom)
      have hinv : s₁.Inv b := by
        rcases hs with rfl | rfl
        · exact h
        · exact staticReset_inv b
      rw [staticAlignedAlloc, heq, ← staticAlignedReserve_room hroom, ← staticAlignedAlloc,
        staticAlignedAlloc_room hroom] at halloc
      have htake := hinv.take hroom
      refine ⟨_, _, halloc, htake, ?_, (fun _ h => by cases h)⟩
      rintro _ ⟨⟩
      exact StaticRequest.served_next htake halign hroom
  | full hlarge hsum hpos heq =>
      refine iff_of_true ?_ (by rw [StaticRequest.Wraps, StaticRequest.total, halign]; omega)
      rw [staticAlignedAlloc, heq] at halloc
      refine ⟨none, s, halloc, h, ?_, (fun _ h => by cases h)⟩
      rintro _ ⟨⟩
      exact StaticRequest.served_none h
  | wraps hlarge hsum hsome =>
      refine iff_of_false ?_
        (not_not.2 (by rw [StaticRequest.Wraps, StaticRequest.total, halign]; exact hsum))
      rintro ⟨res, s', hexec, -, hserved, -⟩
      obtain ⟨⟨res₁, s₁⟩, heq, htake⟩ := Option.map_eq_some_iff.1 (halloc.symm.trans hexec)
      obtain ⟨p, rfl, hle⟩ := hsome res₁ s₁ heq
      rw [staticAlignedTake, Prod.mk.injEq] at htake
      obtain ⟨rfl, -⟩ := htake
      exact (hserved req rfl).not_some hle hlarge

theorem StaticOp.disciplined_iff (h : s.Inv b) {op : StaticOp} (hop : op.Allowed) :
    op.Disciplined b s ↔ op.Fits s := by
  cases op with
  | reset => exact iff_of_true ⟨none, staticReset, rfl, staticReset_inv b,
      (fun _ h => by cases h), (fun _ h => by cases h)⟩ (fun _ h => by cases h)
  | reserve req =>
      rw [StaticRequest.reserve_disciplined_iff h (hop req rfl)]
      refine ⟨fun hfits => ?_, fun hfits => hfits req rfl⟩
      rintro _ ⟨⟩
      exact hfits
  | alloc req =>
      rw [StaticRequest.alloc_disciplined_iff h (hop req rfl)]
      refine ⟨fun hfits => ?_, fun hfits => hfits req rfl⟩
      rintro _ ⟨⟩
      exact hfits

end Requests

/-! ## Runs -/

variable {b : StaticBuffer} {s : StaticState}

/-- The run lemma. -/
theorem staticFitMachine_inv (hs : (staticFitMachine b).Reachable s) : s.Inv b := by
  refine Machine.Reachable.of_step (staticFitMachine b) ?_ (fun s op s' h hop hexec => ?_) hs
  · rintro _ rfl
    exact staticReset_inv b
  · obtain ⟨res, s₁, hex, hinv, -⟩ := (StaticOp.disciplined_iff h hop.1).2 hop.2
    have heq : some s₁ = some s' := by
      rw [← hexec]
      exact (congrArg (Option.map Prod.snd) hex).symm
    cases heq
    exact hinv

/-- **The discipline of the static buffer**: in every state of every sequence of calls in which no
sum of the space test wraps around and passes it, the position is in the buffer and the chunks are
apart, and the next call, whatever it is, keeps the discipline if and only if its sums do not wrap
around so. -/
theorem static_buffer_disciplined_iff (hs : (staticFitMachine b).Reachable s) :
    s.Inv b ∧ ∀ op : StaticOp, op.Allowed → (op.Disciplined b s ↔ op.Fits s) := by
  have h := staticFitMachine_inv hs
  exact ⟨h, fun op hop => StaticOp.disciplined_iff h hop⟩

/-- A buffer, and the state after `static_alloc(1)`. -/
def bufferAt4096 : StaticBuffer := ⟨4096, by decide, by decide⟩

def oneByteTaken : StaticState := { pos := 1, chunks := [(4096, 1)] }

theorem oneByte_allowed : (StaticOp.alloc ⟨1, none⟩).Allowed := by
  rintro _ ⟨⟩
  exact ⟨by decide, (fun _ h => by cases h)⟩

/-- One byte is taken; any next call. -/
theorem static_buffer_disciplined_iff_one_byte :
    (staticFitMachine bufferAt4096).Reachable oneByteTaken ∧
    oneByteTaken.Inv bufferAt4096 ∧
    ∀ op : StaticOp, op.Allowed →
    (op.Disciplined bufferAt4096 oneByteTaken ↔ op.Fits oneByteTaken) := by
  have hfits : (StaticOp.alloc ⟨1, none⟩).Fits staticReset := by
    rintro _ ⟨⟩ hwraps
    rcases hwraps with ⟨hle, -⟩ | ⟨hle, -⟩
    · exact absurd hle (by decide)
    · exact absurd hle (by decide)
  have hs : (staticFitMachine bufferAt4096).Reachable oneByteTaken :=
    .step (.alloc ⟨1, none⟩) (.init rfl) ⟨oneByte_allowed, hfits⟩ rfl
  exact ⟨hs, static_buffer_disciplined_iff hs⟩

/-- After one byte, `static_alloc(SIZE_MAX)` succeeds and sets the position to 0. -/
theorem static_buffer_overrun : (staticMachine bufferAt4096).Reachable oneByteTaken ∧
    smallStaticSize < sizeMax - 1 ∧
    staticAlloc bufferAt4096 oneByteTaken (sizeMax - 1) =
    (some 4097, ⟨0, [(4097, sizeMax - 1), (4096, 1)]⟩) :=
  ⟨.step (.alloc ⟨1, none⟩) (.init rfl) oneByte_allowed rfl, by decide, by decide⟩

end SmallAllocators
