/-
SmallAllocators.SlabCache.Billing — the memory behind a slab cache: the arena
of `small/slab_arena.c`, `malloc`, and the quota that both are billed to.

In `SlabCache.Model` what `slab_map` returns, and what the quota and `malloc`
of `slab_get_large` give together, are arguments. Here they are computed:
`slab_map` takes a free slab of the arena, a slab of the preallocated memory
or one from `mmap`, and the last two are billed. What `mmap` and `malloc`
return is still an argument. The calls run one at a time, so the lifo of free
slabs is a list and each loop of the quota makes one round.
-/
import SmallAllocators.Quota.Exact
import SmallAllocators.SlabCache.Get

namespace SmallAllocators

/-- `struct slab_arena`, less the slab size and the quota, which are arguments. -/
structure SlabArena where
  /-- The lifo of free slabs, its top first. -/
  cache : List Nat
  /-- The start of the preallocated memory. -/
  arena : Nat
  prealloc : Nat
  used : Nat
  /-- The slabs that were taken from the preallocated memory, latest first. -/
  carved : List Nat
  /-- The slabs that `mmap` returned, latest first. -/
  mapped : List Nat

/-- `slab_map`; `answer` is what `mmap` returns. -/
def SlabArena.slabMap (slabSize : Nat) (arena : SlabArena) (quota : Nat) (answer : Option Nat) :
    Option (Option Nat × SlabArena × Nat) :=
  match arena.cache with
  | ptr :: cache => some (some ptr, { arena with cache := cache }, quota)
  | [] => do
    match ← quotaUse quota slabSize with
    | (none, quota) => some (none, arena, quota)
    | (some _, quota) =>
      let used := (arena.used + slabSize) % sizeMax
      if used ≤ arena.prealloc then
        let ptr := arena.arena + used - slabSize
        some (some ptr, { arena with used := used, carved := ptr :: arena.carved }, quota)
      else
        match answer with
        | some ptr =>
            some (some ptr, { arena with used := used, mapped := ptr :: arena.mapped }, quota)
        | none => do
          let (_, quota) ← quotaRelease quota slabSize
          some (none, { arena with used := (used + sizeMax - slabSize) % sizeMax }, quota)

/-- `slab_unmap`. -/
def SlabArena.slabUnmap (arena : SlabArena) (ptr : Nat) : SlabArena :=
  if ptr = 0 then arena else { arena with cache := ptr :: arena.cache }

/-- `malloc` of a size that is billed to the quota; `answer` is what `malloc` returns. -/
def billedMalloc (quota size : Nat) (answer : Option Nat) : Option (Option Nat × Nat) := do
  match ← quotaUse quota size with
  | (none, quota) => some (none, quota)
  | (some _, quota) =>
    match answer with
    | some slab => some (some slab, quota)
    | none => do
      let (_, quota) ← quotaRelease quota size
      some (none, quota)

section Get

variable (g : Geometry) (c : SlabCache)

/-- The quota and `malloc` of `slab_get_large`. -/
def slabLargeMemory (quota size : Nat) (answer : Option Nat) : Option (Option Nat × Nat) :=
  billedMalloc quota ((size + slabSizeof) % sizeMax) answer

/-- `slab_get_large`. -/
def slabGetLargeBilled (arena : SlabArena) (quota size : Nat) (answer : Option Nat) :
    Option (Option Nat × SlabCache × SlabArena × Nat) := do
  let (answer, quota) ← slabLargeMemory quota size answer
  let (slab, c) := slabGetLarge g c size answer
  some (slab, c, arena, quota)

/-- Whether the search of `slab_get_with_order` comes to `slab_map`: all lists are empty. -/
def slabFindMaps (order : Nat) : Bool :=
  (List.range' order (g.orderMax + 1 - order)).all fun k => rlistEmpty c.nextInList (.orders k)

/-- `slab_get_with_order`. -/
def slabGetWithOrderBilled (arena : SlabArena) (quota order : Nat) (answer : Option Nat) :
    Option (Option Nat × SlabCache × SlabArena × Nat) :=
  if slabFindMaps g c order then do
    let (answer, arena, quota) ← arena.slabMap g.slabSize quota answer
    let (slab, c) ← slabGetWithOrder g c order answer
    some (slab, c, arena, quota)
  else do
    let (slab, c) ← slabGetWithOrder g c order none
    some (slab, c, arena, quota)

/-- The two branches of `slab_get`. -/
def slabGetOrLarge (arena : SlabArena) (quota size : Nat) (answer : Option Nat) :
    Option (Option Nat × SlabCache × SlabArena × Nat) :=
  let order := g.slabOrder ((size + slabSizeof) % sizeMax)
  if order = g.orderMax + 1 then slabGetLargeBilled g c arena quota size answer
  else slabGetWithOrderBilled g c arena quota order answer

/-- `slab_get`. -/
def slabGetBilled (arena : SlabArena) (quota size : Nat) (answer : Option Nat) :
    Option (Option Nat × SlabCache × SlabArena × Nat) := do
  let (slab, c, arena, quota) ← slabGetOrLarge g c arena quota size answer
  match slab with
  | none => some (none, c, arena, quota)
  | some a => do
    guard ((c.slab a).size = g.slabRealSize size)
    some (some a, c, arena, quota)

end Get

/-! ## The calls with the answers that they get -/

section Answers

variable {g : Geometry} {c c' : SlabCache} {arena arena' : SlabArena}
    {quota quota' size order : Nat}
  {answer slab : Option Nat}

theorem slabGetWithOrderBilled_get
    (h : slabGetWithOrderBilled g c arena quota order answer = some (slab, c', arena', quota')) :
    ∃ answer', slabGetWithOrder g c order answer' = some (slab, c') := by
  unfold slabGetWithOrderBilled at h
  split at h
  · obtain ⟨⟨answer', arena₁, quota₁⟩, -, h⟩ := Option.bind_eq_some_iff.1 h
    obtain ⟨⟨slab₁, c₁⟩, hget, h⟩ := Option.bind_eq_some_iff.1 h
    cases h
    exact ⟨answer', hget⟩
  · obtain ⟨⟨slab₁, c₁⟩, hget, h⟩ := Option.bind_eq_some_iff.1 h
    cases h
    exact ⟨none, hget⟩

theorem slabGetLargeBilled_get
    (h : slabGetLargeBilled g c arena quota size answer = some (slab, c', arena', quota')) :
    ∃ answer', slabLargeMemory quota size answer = some (answer', quota') ∧
      slabGetLarge g c size answer' = (slab, c') ∧ arena' = arena := by
  obtain ⟨⟨answer', quota₁⟩, hmem, h⟩ := Option.bind_eq_some_iff.1 h
  cases h
  exact ⟨answer', hmem, rfl, rfl⟩

/-- `slab_get` is the call of `SlabCache.Model`, with some answer. -/
theorem slabGetBilled_get
    (h : slabGetBilled g c arena quota size answer = some (slab, c', arena', quota')) :
    ∃ answer', slabGet g c size answer' = some (slab, c') := by
  obtain ⟨⟨slab₁, c₁, arena₁, quota₁⟩, hget, h⟩ := Option.bind_eq_some_iff.1 h
  have hinner : ∃ answer', (if g.slabOrder ((size + slabSizeof) % sizeMax) = g.orderMax + 1 then
      some (slabGetLarge g c size answer')
      else slabGetWithOrder g c (g.slabOrder ((size + slabSizeof) % sizeMax)) answer') =
          some (slab₁, c₁) := by
    unfold slabGetOrLarge at hget
    dsimp only at hget
    split at hget
    · next hlarge =>
        obtain ⟨answer', -, hanswer, -⟩ := slabGetLargeBilled_get hget
        exact ⟨answer', by rw [if_pos hlarge, hanswer]⟩
    · next hsmall =>
        obtain ⟨answer', hanswer⟩ := slabGetWithOrderBilled_get hget
        exact ⟨answer', by rw [if_neg hsmall, hanswer]⟩
  obtain ⟨answer', hinner⟩ := hinner
  refine ⟨answer', ?_⟩
  rw [slabGet_eq, hinner, Option.bind_some]
  cases slab₁ with
  | none =>
      cases h
      rfl
  | some a =>
      obtain ⟨u, hguard, h⟩ := Option.bind_eq_some_iff.1 h
      cases h
      dsimp only
      rw [hguard]
      rfl

end Answers

end SmallAllocators
