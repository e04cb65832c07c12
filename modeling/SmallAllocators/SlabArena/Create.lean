/-
SmallAllocators.SlabArena.Create — `slab_arena_create` of `small/slab_arena.c`.

The slab size and the amount to preallocate may come directly from a
configuration file, and are rounded up: the slab size to a power of two, in
64 bits, and the amount to whole slabs, after it was cut down to the quota.
The slab size is then stored in 32 bits. A power of two above 2^31 does not
fit there, and 0 is what is left of it.
-/
import SmallAllocators.SlabArena.Sequential

namespace SmallAllocators

/-- `SLAB_MIN_SIZE`. -/
def slabMinSize : Nat := 65536

/-- `mmap_checked`, with both assertions; `map` and `map'` are what its two calls of `mmap`
return. -/
def mmapChecked (size align : Nat) (map map' : Option Nat) : Option (Option Nat) := do
  let mask := (align + (sizeMax - 1)) % sizeMax
  guard (align &&& mask = 0)
  guard (size &&& mask = 0)
  match map with
  | none => some none
  | some ptr =>
    if ptr &&& mask = 0 then some (some ptr)
    else
      match map' with
      | none => some none
      | some ptr =>
        let offset := ptr &&& mask
        if offset ≠ 0 then some (some (ptr + (align - offset))) else some (some ptr)

/-- The memory that `slab_arena_create` preallocates: `NULL` if it is none, or if `mmap` fails. -/
def arenaMemory (prealloc slabSize : Nat) (map map' : Option Nat) : Option (Option Nat) :=
  if prealloc ≠ 0 then mmapChecked prealloc slabSize map map' else some none

/-- `slab_arena_create`: whether it returns 0, the arena, and its slab size. -/
def slabArenaCreate (quota prealloc slabSize : Nat) (map map' : Option Nat) :
    Option (Bool × SlabArena × Nat) := do
  let round ← smallRound (max slabSize slabMinSize)
  let slabSize := round % 2 ^ 32
  let prealloc ← smallAlign
    (min (min prealloc (quotaTotal quota)) (sizeMax - 1 - slabSize)) slabSize
  let arena ← arenaMemory prealloc slabSize map map'
  some (!(prealloc ≠ 0 && arena = none),
    { cache := [], arena := arena.getD 0, prealloc := prealloc, used := 0, carved := [],
      mapped := [] }, slabSize)

/-- What `slab_arena_create` makes of the sizes that it is given. -/
structure ArenaNormalised (quota prealloc slabSize : Nat) (arena : SlabArena) (size : Nat) :
    Prop where
  power : ∃ k, size = 2 ^ k
  size_ge : max slabSize slabMinSize ≤ size
  size_lt : size < 2 * max slabSize slabMinSize
  prealloc_dvd : size ∣ arena.prealloc
  prealloc_ge : min (min prealloc (quotaTotal quota)) (sizeMax - 1 - size) ≤ arena.prealloc
  prealloc_lt : arena.prealloc < min (min prealloc (quotaTotal quota)) (sizeMax - 1 - size) + size

section Create

variable {quota prealloc slabSize size : Nat} {map map' : Option Nat} {arena : SlabArena}
    {ok : Bool}

theorem mmapChecked_returns {k : Nat} (hk : k < 64) (hdvd : 2 ^ k ∣ size) :
    ∃ ptr, mmapChecked size (2 ^ k) map map' = some ptr := by
  have hpow : 2 ^ k < sizeMax := Nat.pow_lt_pow_right (by decide) hk
  have hpos := Nat.two_pow_pos k
  have hmask : (2 ^ k + (sizeMax - 1)) % sizeMax = 2 ^ k - 1 := by
    rw [← Nat.add_sub_assoc (by omega), Nat.add_comm, Nat.add_sub_assoc hpos, Nat.add_mod_left,
      Nat.mod_eq_of_lt (by omega)]
  have halign : 2 ^ k &&& (2 ^ k - 1) = 0 := by rw [Nat.and_two_pow_sub_one_eq_mod, Nat.mod_self]
  have hsize : size &&& (2 ^ k - 1) = 0 := by
    rw [Nat.and_two_pow_sub_one_eq_mod, Nat.mod_eq_zero_of_dvd hdvd]
  unfold mmapChecked
  simp only [hmask, halign, hsize, guard, if_true, Option.pure_def, Option.bind_eq_bind,
    Option.bind_some]
  split
  · exact ⟨_, rfl⟩
  · split
    · exact ⟨_, rfl⟩
    · split
      · exact ⟨_, rfl⟩
      · split <;> exact ⟨_, rfl⟩

theorem arenaMemory_returns {k : Nat} (hk : k < 64) (hdvd : 2 ^ k ∣ prealloc) :
    ∃ ptr, arenaMemory prealloc (2 ^ k) map map' = some ptr := by
  unfold arenaMemory
  split
  · exact mmapChecked_returns hk hdvd
  · exact ⟨_, rfl⟩

/-- Up to 2^31, the slab size is rounded up to a power of two that 32 bits can hold. -/
theorem smallRound_fits (hsize : slabSize ≤ 2 ^ 31) :
    ∃ k, 16 ≤ k ∧ k ≤ 31 ∧ smallRound (max slabSize slabMinSize) = some (2 ^ k) ∧
      max slabSize slabMinSize ≤ 2 ^ k ∧ 2 ^ k < 2 * max slabSize slabMinSize := by
  have hmin : slabMinSize ≤ max slabSize slabMinSize := Nat.le_max_right _ _
  have hmax : max slabSize slabMinSize ≤ 2 ^ 31 := Nat.max_le.2 ⟨hsize, by decide⟩
  obtain ⟨k, -, hround, hle, hlt⟩ := smallRound_spec ((show 2 ≤ slabMinSize by decide).trans hmin)
    (show max slabSize slabMinSize ≤ 2 ^ 63 by omega)
  refine ⟨k, ?_, ?_, hround, hle, hlt⟩
  · have : 2 ^ 16 ≤ 2 ^ k := hmin.trans hle
    exact (Nat.pow_le_pow_iff_right (by decide)).1 this
  · have : 2 ^ k < 2 ^ 32 := by omega
    exact Nat.le_of_lt_succ ((Nat.pow_lt_pow_iff_right (by decide)).1 this)

/-- Above 2^31 it is rounded up to 2^32, of which 32 bits hold nothing. -/
theorem smallRound_overflows (hsize : 2 ^ 31 < slabSize) (hmax : slabSize < 2 ^ 32) :
    smallRound (max slabSize slabMinSize) = some (2 ^ 32) := by
  have hlarge : max slabSize slabMinSize = slabSize := Nat.max_eq_left (by rw [slabMinSize]; omega)
  obtain ⟨k, -, hround, hle, hlt⟩ := smallRound_spec (show 2 ≤ slabSize by omega) (by omega)
  have hk : k = 32 := by
    have h1 : 2 ^ 31 < 2 ^ k := by omega
    have h2 : 2 ^ k < 2 ^ 33 := by omega
    have := (Nat.pow_lt_pow_iff_right (by decide)).1 h1
    have := (Nat.pow_lt_pow_iff_right (by decide)).1 h2
    omega
  rw [hlarge, hround, hk]

/-- Up to a slab size of 2^31, the call returns. -/
theorem slabArenaCreate_returns (quota prealloc : Nat) (map map' : Option Nat)
    (hsize : slabSize ≤ 2 ^ 31) :
    ∃ k ptr x, 16 ≤ k ∧ k ≤ 31 ∧ x = min (min prealloc (quotaTotal quota)) (sizeMax - 1 - 2 ^ k) ∧
      max slabSize slabMinSize ≤ 2 ^ k ∧ 2 ^ k < 2 * max slabSize slabMinSize ∧
      arenaMemory (alignUp k x) (2 ^ k) map map' = some ptr ∧
      slabArenaCreate quota prealloc slabSize map map' = some (!(alignUp k x ≠ 0 && ptr = none),
        { cache := [], arena := ptr.getD 0, prealloc := alignUp k x, used := 0, carved := [],
          mapped := [] }, 2 ^ k) := by
  obtain ⟨k, hmin, hk, hround, hle, hlt⟩ := smallRound_fits hsize
  have hpow : 2 ^ k ≤ 2 ^ 31 := Nat.pow_le_pow_right (by decide) hk
  have hmod : 2 ^ k % 2 ^ 32 = 2 ^ k := Nat.mod_eq_of_lt (by omega)
  generalize hx : min (min prealloc (quotaTotal quota)) (sizeMax - 1 - 2 ^ k) = x
  have hfits : x + 2 ^ k < sizeMax := by
    have : x ≤ sizeMax - 1 - 2 ^ k := hx ▸ Nat.min_le_right _ _
    simp only [sizeMax] at *
    omega
  obtain ⟨ptr, hptr⟩ : ∃ ptr, arenaMemory (alignUp k x) (2 ^ k) map map' = some ptr :=
    arenaMemory_returns (Nat.lt_of_le_of_lt hk (by decide)) (dvd_alignUp k x)
  refine ⟨k, ptr, x, hmin, hk, hx.symm, hle, hlt, hptr, ?_⟩
  simp only [slabArenaCreate, hround, Option.bind_eq_bind, Option.bind_some, hmod, hx,
    smallAlign_eq hfits, hptr]

/-- Above 2^31 there are no slabs. -/
theorem slabArenaCreate_overflows (hlarge : 2 ^ 31 < slabSize) (hsize : slabSize < 2 ^ 32)
    (hcreate : slabArenaCreate quota prealloc slabSize map map' = some (ok, arena, size)) :
    size = 0 := by
  obtain ⟨round, hround, hrest⟩ := Option.bind_eq_some_iff.1 hcreate
  rw [smallRound_overflows hlarge hsize] at hround
  cases hround
  obtain ⟨x, -, hrest⟩ := Option.bind_eq_some_iff.1 hrest
  obtain ⟨ptr, -, hrest⟩ := Option.bind_eq_some_iff.1 hrest
  cases hrest
  rfl

theorem ArenaNormalised.size_ne_zero (h : ArenaNormalised quota prealloc slabSize arena size) :
    size ≠ 0 := by
  obtain ⟨k, rfl⟩ := h.power
  exact Nat.ne_of_gt (Nat.two_pow_pos k)

/-- **`slab_arena_create` normalises its sizes**, and fails no assertion, for exactly the slab
sizes up to 2^31, whatever the amount to preallocate and the quota are. -/
theorem slabArenaCreate_normalises_iff (hsize : slabSize < 2 ^ 32) :
    (∃ ok arena size, slabArenaCreate quota prealloc slabSize map map' = some (ok, arena, size) ∧
      ArenaNormalised quota prealloc slabSize arena size) ↔ slabSize ≤ 2 ^ 31 := by
  constructor
  · rintro ⟨ok, arena, size, hcreate, hnormal⟩
    by_contra hlarge
    exact hnormal.size_ne_zero (slabArenaCreate_overflows (Nat.lt_of_not_le hlarge) hsize hcreate)
  · intro hle
    obtain ⟨k, ptr, x, -, -, hx, hge, hlt, -, hcreate⟩ :=
      slabArenaCreate_returns quota prealloc map map' hle
    have hup := alignUp_le k x
    have hpos := Nat.two_pow_pos k
    refine ⟨_, _, _, hcreate, ⟨k, rfl⟩, hge, hlt, dvd_alignUp k x, ?_, ?_⟩
    · rw [← hx]
      exact le_alignUp k x
    · rw [← hx]
      dsimp only
      omega

theorem slabArenaCreate_normalises_small : ∃ ok arena size,
    slabArenaCreate (quotaInit 2000000) 3000000 1 (some 65536) none = some (ok, arena, size) ∧
      ArenaNormalised (quotaInit 2000000) 3000000 1 arena size :=
  (slabArenaCreate_normalises_iff (by decide)).2 (by decide)

/-- A slab size of 2^31 + 1: the arena has slabs of 0 bytes. -/
theorem slabArenaCreate_no_slabs :
    (slabArenaCreate (quotaInit 2000000) 3000000 (2 ^ 31 + 1) (some 65536) none).map
      (fun r => (r.1, r.2.1.prealloc, r.2.2)) =
        some (true, 0, 0) ∧
      ¬ ∃ ok arena size, slabArenaCreate (quotaInit 2000000) 3000000 (2 ^ 31 + 1)
        (some 65536) none = some (ok, arena, size) ∧
        ArenaNormalised (quotaInit 2000000) 3000000 (2 ^ 31 + 1) arena size := by
  refine ⟨by decide +kernel, ?_⟩
  rintro ⟨ok, arena, size, hcreate, hnormal⟩
  exact hnormal.size_ne_zero (slabArenaCreate_overflows (by decide) (by decide) hcreate)

/-! ## The arena that is created -/

/-- The arena that `slab_arena_create` returns is one of the arenas of `SlabArena.Model`,
between two calls, if `mmap` returned memory. -/
theorem slabArenaCreate_inv (hsize : slabSize ≤ 2 ^ 31)
    (hcreate : slabArenaCreate quota prealloc slabSize map map' = some (true, arena, size))
    (haligned : size ∣ arena.arena) (hbound : arena.arena + arena.prealloc ≤ sizeMax)
    (hnull : arena.arena = 0 → arena.prealloc = 0) :
    ∃ c : ArenaConfig, c.slabSize = size ∧ arena.Inv c 0 := by
  obtain ⟨k, ptr, x, hmin, hk, -, -, -, hptr, heq⟩ :=
    slabArenaCreate_returns quota prealloc map map' hsize
  rw [hcreate, Option.some.injEq, Prod.mk.injEq, Prod.mk.injEq] at heq
  obtain ⟨-, rfl, rfl⟩ := heq
  have hnone : alignUp k x = 0 → ptr.getD 0 = 0 := by
    intro hzero
    rw [hzero, arenaMemory, if_neg (by decide)] at hptr
    cases hptr
    rfl
  refine ⟨⟨ptr.getD 0, alignUp k x, 2 ^ k, k, rfl, hmin, hk, haligned, dvd_alignUp k x, hbound,
    hnull, hnone⟩, rfl, ?_⟩
  exact ⟨rfl, rfl, .nil _, by simp, by simp, rfl⟩

end Create

end SmallAllocators
