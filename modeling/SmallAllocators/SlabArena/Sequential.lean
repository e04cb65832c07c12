/-
SmallAllocators.SlabArena.Sequential — the slab arena when its calls run one
at a time.

`SlabArena.slabMap` of `SlabCache.Billing` is the call with no other beside
it. Between two calls a slab is in the lifo or in use, and `used` counts both
(`SlabArena.Inv`). The spec of `slab_map` says all that it can do: nothing at
all, or one more slab is in use, and what the counter and the quota grow by
is the same.
-/
import SmallAllocators.SlabArena.Steps
import SmallAllocators.SlabCache.Billing

namespace SmallAllocators

/-! ## The quota, one call at a time -/

section Quota

variable {value value' size : Nat} {result : Option Nat}

theorem quotaUsed_lt (value : Nat) : quotaUsed value < 2 ^ 42 := by
  have hlt := usedInUnits_lt value
  have : 2 ^ 32 * quotaUnitSize = 2 ^ 42 := by decide
  rw [← this]
  exact Nat.mul_lt_mul_of_pos_right hlt (by decide)

/-- -1 and the word as it was, or the size is billed. -/
theorem quotaUse_cases (h : quotaUse value size = some (result, value')) :
    result = none ∧ value' = value ∨
    result.isSome ∧ totalInUnits value' = totalInUnits value ∧
    usedInUnits value' = usedInUnits value + ceilUnits size := by
  rcases Nat.lt_or_ge quotaMax size with habove | hmax
  · rw [quotaUse_above_max habove] at h
    cases h
    exact .inl ⟨rfl, rfl⟩
  · rcases QuotaOp.effect_of_run h with hfail | ⟨rfl, htotal, hused, -⟩
    · exact .inl hfail
    · rw [quotaUnits_eq hmax] at hused
      exact .inr ⟨rfl, htotal, hused⟩

/-- The release after a use restores the word. -/
theorem quotaRelease_of_use (hpos : 1 ≤ size) (hsize : size < quotaMax)
    (htotal : totalInUnits value' = totalInUnits value)
    (hused : usedInUnits value' = usedInUnits value + ceilUnits size) :
    quotaRelease value' size = some (some (ceilUnits size * quotaUnitSize), value) := by
  rw [quotaRelease_eq hpos hsize (by omega), htotal, hused, Nat.add_sub_cancel, quotaPack_halves]

/-- A size that is billed can be released. -/
theorem quotaRelease_of_billed (hpos : 1 ≤ size) (hsize : size < quotaMax)
    (hbilled : ceilUnits size * quotaUnitSize ≤ quotaUsed value) :
    ∃ value', quotaRelease value size = some (some (ceilUnits size * quotaUnitSize), value') ∧
      quotaUsed value' + ceilUnits size * quotaUnitSize = quotaUsed value := by
  have hle : ceilUnits size ≤ usedInUnits value := Nat.le_of_mul_le_mul_right hbilled (by decide)
  have hlt := usedInUnits_lt value
  refine ⟨_, quotaRelease_eq hpos hsize hle, ?_⟩
  rw [quotaUsed, usedInUnits_pack (by omega), ← Nat.add_mul, Nat.sub_add_cancel hle, quotaUsed]

/-- A block is billed, or nothing changed. -/
theorem billedMalloc_cases {answer : Option Nat} (hpos : 1 ≤ size) (hsize : size < quotaMax)
    (h : billedMalloc value size answer = some (result, value')) :
    result = none ∧ value' = value ∨
    ∃ a, result = some a ∧ answer = some a ∧
    quotaUsed value' = quotaUsed value + ceilUnits size * quotaUnitSize := by
  obtain ⟨⟨used, value₁⟩, huse, hrest⟩ := Option.bind_eq_some_iff.1 h
  rcases quotaUse_cases huse with ⟨rfl, rfl⟩ | ⟨hsome, htotal, hused⟩
  · cases hrest
    exact .inl ⟨rfl, rfl⟩
  · obtain ⟨u, rfl⟩ := Option.isSome_iff_exists.1 hsome
    cases answer with
    | none =>
        simp only [quotaRelease_of_use hpos hsize htotal hused] at hrest
        cases hrest
        exact .inl ⟨rfl, rfl⟩
    | some a =>
        cases hrest
        exact .inr ⟨a, rfl, rfl, by rw [quotaUsed, hused, Nat.add_mul, quotaUsed]⟩

/-- The call returns if the units do not wrap around. -/
theorem billedMalloc_returns (hpos : 1 ≤ size) (hsize : size < quotaMax)
    (hfits : usedInUnits value + ceilUnits size < 2 ^ 32) (answer : Option Nat) :
    ∃ r, billedMalloc value size answer = some r := by
  have huse := quotaUse_eq hpos (Nat.le_of_lt hsize) hfits
  have hback :
      quotaRelease (quotaPack (totalInUnits value) (usedInUnits value + ceilUnits size)) size =
      some (some (ceilUnits size * quotaUnitSize),
        quotaPack (totalInUnits value) (usedInUnits value)) :=
    quotaRelease_pack hpos hsize hfits
  unfold billedMalloc
  split at huse
  · exact ⟨_, by rw [huse]; rfl⟩
  · rw [huse]
    cases answer with
    | none => simp [hback]
    | some a => simp

end Quota

/-! ## The arena -/

/-- An arena between two calls; `out` are its slabs that are in use. -/
structure SlabArena.Inv (c : ArenaConfig) (arena : SlabArena) (out : Multiset Nat) : Prop where
  start : arena.arena = c.arena
  prealloc : arena.prealloc = c.prealloc
  slabs : c.Slabs arena.carved arena.mapped
  /-- `mmap` is called when the preallocated memory is used up. -/
  full : 0 < arena.mapped.length → arena.carved.length * c.slabSize = c.prealloc
  used : arena.used = (arena.carved.length + arena.mapped.length) * c.slabSize
  out : (arena.cache : Multiset Nat) + out =
    (arena.carved : Multiset Nat) + (arena.mapped : Multiset Nat)

/-- What `mmap` may return: an aligned region apart from all memory of the arena. -/
structure SlabArena.FreshRegion (c : ArenaConfig) (arena : SlabArena) (m : Nat) : Prop where
  ne_zero : m ≠ 0
  aligned : c.slabSize ∣ m
  bound : m + c.slabSize ≤ sizeMax
  prealloc : m + c.slabSize ≤ c.arena ∨ c.arena + c.prealloc ≤ m
  mapped : ∀ m' ∈ arena.mapped, m + c.slabSize ≤ m' ∨ m' + c.slabSize ≤ m

section Arena

variable {c : ArenaConfig} {arena arena' : SlabArena} {out : Multiset Nat} {quota quota' m : Nat}
    {answer r : Option Nat}

/-- A slab in use came out of the preallocated memory or of `mmap`. -/
theorem SlabArena.Inv.mem_out (h : arena.Inv c out) (hm : m ∈ out) :
    m ∈ arena.carved ∨ m ∈ arena.mapped := by
  have hall := Multiset.mem_add.2 (.inr hm : m ∈ (arena.cache : Multiset Nat) ∨ m ∈ out)
  rw [h.out] at hall
  simpa using hall

theorem SlabArena.Inv.nodup (h : arena.Inv c out) : ((arena.cache : Multiset Nat) + out).Nodup := by
  rw [h.out, Multiset.coe_add]
  exact h.slabs.nodup

/-- A slab in use is aligned, and not null. -/
theorem SlabArena.Inv.slab (h : arena.Inv c out) (hm : m ∈ out) :
    m ≠ 0 ∧ c.slabSize ∣ m ∧ m + c.slabSize ≤ sizeMax :=
  h.slabs.slab (List.mem_append.2 (h.mem_out hm))

/-- The slot after those that are carved. -/
theorem SlabArena.Inv.carve (h : arena.Inv c out) (hroom : arena.used + c.slabSize ≤ c.prealloc) :
    arena.arena + (arena.used + c.slabSize) - c.slabSize =
      c.arena + arena.carved.length * c.slabSize ∧
    SlabArena.Inv c { arena with
      used := arena.used + c.slabSize
      carved := (c.arena + arena.carved.length * c.slabSize) :: arena.carved }
      ((c.arena + arena.carved.length * c.slabSize) ::ₘ out) := by
  have hused := h.used
  have hmin := c.slabSize_min
  have hmapped : arena.mapped.length = 0 := by
    by_contra hne
    have hfull := h.full (Nat.pos_of_ne_zero hne)
    have hle : arena.carved.length * c.slabSize ≤
        (arena.carved.length + arena.mapped.length) * c.slabSize :=
      Nat.mul_le_mul_right _ (Nat.le_add_right _ _)
    omega
  rw [hmapped, Nat.add_zero] at hused
  have hstart := h.start
  refine ⟨by omega, hstart, h.prealloc, h.slabs.carve (by rw [Nat.add_one_mul]; omega), ?_, ?_, ?_⟩
  · exact fun hpos => absurd hmapped (Nat.pos_iff_ne_zero.1 hpos)
  · show arena.used + c.slabSize = (arena.carved.length + 1 + arena.mapped.length) * c.slabSize
    rw [hmapped, hused, Nat.add_zero, Nat.add_one_mul]
  · have hout := h.out
    show (arena.cache : Multiset Nat) + _ = _
    rw [Multiset.add_cons, hout, ← Multiset.cons_coe, Multiset.cons_add]

/-- A region from `mmap`, when the preallocated memory is used up. -/
theorem SlabArena.Inv.region (h : arena.Inv c out) (hroom : c.prealloc < arena.used + c.slabSize)
    (hm : arena.FreshRegion c m) :
    SlabArena.Inv c { arena with used := arena.used + c.slabSize, mapped := m :: arena.mapped }
      (m ::ₘ out) := by
  have hused := h.used
  refine ⟨h.start, h.prealloc,
    h.slabs.region hm.ne_zero hm.aligned hm.bound hm.prealloc hm.mapped, fun _ => ?_, ?_, ?_⟩
  · show arena.carved.length * c.slabSize = c.prealloc
    rcases Nat.eq_zero_or_pos arena.mapped.length with hzero | hpos
    · refine c.full_of_lt h.slabs.within ?_
      rw [hzero, Nat.add_zero] at hused
      rw [Nat.add_one_mul]
      omega
    · exact h.full hpos
  · show arena.used + c.slabSize = (arena.carved.length + (arena.mapped.length + 1)) * c.slabSize
    rw [hused, ← Nat.add_assoc, Nat.add_one_mul]
  · show (arena.cache : Multiset Nat) + _ =
      (arena.carved : Multiset Nat) + ((m :: arena.mapped : List Nat) : Multiset Nat)
    rw [Multiset.add_cons, h.out, ← Multiset.cons_coe, Multiset.add_cons]

/-- What a successful `slab_map` did: the slab `m` is in use, and it was in the lifo, is a part
of the preallocated memory, or is the answer of `mmap`. -/
structure SlabArena.Mapped (c : ArenaConfig) (arena : SlabArena) (out : Multiset Nat) (quota : Nat)
    (answer : Option Nat) (m : Nat) (arena' : SlabArena) (quota' : Nat) : Prop where
  inv : arena'.Inv c (m ::ₘ out)
  billed : quotaUsed quota' + arena.used = quotaUsed quota + arena'.used
  mapped : arena'.mapped = arena.mapped ∨ answer = some m ∧ arena'.mapped = m :: arena.mapped

/-- `slab_map` changes nothing, or one more slab is in use. -/
theorem SlabArena.slabMap_cases (h : arena.Inv c out) (hbilled : arena.used ≤ quotaUsed quota)
    (hanswer : ∀ m, answer = some m → arena.FreshRegion c m)
    (hmap : arena.slabMap c.slabSize quota answer = some (r, arena', quota')) :
    r = none ∧ arena' = arena ∧ quota' = quota ∨
    ∃ m, r = some m ∧ arena.Mapped c out quota answer m arena' quota' := by
  have hmin := c.slabSize_min
  have hmax := c.slabSize_max
  have hlimit : 2 ^ 31 < quotaMax := by decide
  unfold SlabArena.slabMap at hmap
  split at hmap
  · -- a free slab
    next ptr cache hcache =>
    cases hmap
    have hout := h.out
    refine .inr ⟨ptr, rfl, ⟨h.start, h.prealloc, h.slabs, h.full, h.used, ?_⟩, rfl, .inl rfl⟩
    rw [hcache, ← Multiset.cons_coe, Multiset.cons_add, ← Multiset.add_cons] at hout
    exact hout
  · obtain ⟨⟨used, quota₁⟩, huse, hrest⟩ := Option.bind_eq_some_iff.1 hmap
    rcases quotaUse_cases huse with ⟨rfl, rfl⟩ | ⟨hsome, htotal, hunits⟩
    · cases hrest
      exact .inl ⟨rfl, rfl, rfl⟩
    · obtain ⟨u, rfl⟩ := Option.isSome_iff_exists.1 hsome
      have hgrows : quotaUsed quota₁ = quotaUsed quota + c.slabSize := by
        rw [quotaUsed, hunits, Nat.add_mul, c.units, quotaUsed]
      have hlt := quotaUsed_lt quota₁
      have hword : 2 ^ 42 < sizeMax := by decide
      have hmod : (arena.used + c.slabSize) % sizeMax = arena.used + c.slabSize :=
        Nat.mod_eq_of_lt (by omega)
      simp only [hmod] at hrest
      split at hrest
      · -- a part of the preallocated memory
        next hroom =>
        obtain ⟨hslot, hinv⟩ := h.carve (h.prealloc ▸ hroom)
        rw [hslot] at hrest
        cases hrest
        exact .inr ⟨_, rfl, hinv, by rw [hgrows, Nat.add_right_comm, ← Nat.add_assoc], .inl rfl⟩
      · next hroom =>
        cases answer with
        | some m =>
            cases hrest
            have hover : c.prealloc < arena.used + c.slabSize := h.prealloc ▸ Nat.lt_of_not_le hroom
            exact .inr ⟨m, rfl, h.region hover (hanswer m rfl), by
              rw [hgrows, Nat.add_right_comm, ← Nat.add_assoc], .inr ⟨rfl, rfl⟩⟩
        | none =>
            -- the bill is taken back
            have hback :
                (arena.used + c.slabSize + sizeMax - c.slabSize) % sizeMax = arena.used := by
              rw [Nat.add_right_comm, Nat.add_sub_cancel, Nat.add_mod_right,
                Nat.mod_eq_of_lt (by omega)]
            simp only [quotaRelease_of_use (by omega) (by omega) htotal hunits, hback] at hrest
            cases hrest
            exact .inl ⟨rfl, rfl, rfl⟩

/-- The call returns if the units do not wrap around. -/
theorem SlabArena.slabMap_returns (arena : SlabArena) (answer : Option Nat)
    (hfits : usedInUnits quota + ceilUnits c.slabSize < 2 ^ 32) :
    ∃ r, arena.slabMap c.slabSize quota answer = some r := by
  have hmin := c.slabSize_min
  have hmax := c.slabSize_max
  have hlimit : 2 ^ 31 < quotaMax := by decide
  have huse := quotaUse_eq (by omega) (by omega) hfits
  unfold SlabArena.slabMap
  split
  · exact ⟨_, rfl⟩
  · split at huse
    · exact ⟨_, by rw [huse]; rfl⟩
    · rw [huse, Option.bind_eq_bind, Option.bind_some]
      dsimp only
      split
      · exact ⟨_, rfl⟩
      · cases answer with
        | none => exact ⟨_, by rw [quotaRelease_pack (by omega) (by omega) hfits]; rfl⟩
        | some m => exact ⟨_, rfl⟩

/-- `slab_unmap` of a slab in use. -/
theorem SlabArena.Inv.slabUnmap (h : arena.Inv c (m ::ₘ out)) : (arena.slabUnmap m).Inv c out := by
  have hne := (h.slab (Multiset.mem_cons_self m out)).1
  have hout := h.out
  rw [SlabArena.slabUnmap, if_neg hne]
  refine ⟨h.start, h.prealloc, h.slabs, h.full, h.used, ?_⟩
  show ((m :: arena.cache : List Nat) : Multiset Nat) + out = _
  rw [← Multiset.cons_coe, Multiset.cons_add, ← Multiset.add_cons, hout]

end Arena

end SmallAllocators
