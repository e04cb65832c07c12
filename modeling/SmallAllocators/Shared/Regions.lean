/-
SmallAllocators.Shared.Regions — the log structured allocators on shared
memory.

A region holds the slabs of its list and the cached one; by its size, each is
a block of `malloc` or a slab of the arena. A reservation adds one slab at
most, `lsregion_gc` gives back what it drops, or caches it, and
`lsregion_destroy` gives back everything.
-/
import SmallAllocators.Shared.Backing

namespace SmallAllocators

variable {ι : Type} {arenaSize size alignment n : Nat} {id minId : Int} {answer : Option Nat}
  {region region' : Lsregion} {res : Option Reservation} {t : Lslab}

/-! ## What a region holds -/

/-- The memory of a slab. -/
def Lslab.piece [DecidableEq ι] (i : ι) (arenaSize : Nat) (t : Lslab) : Holding ι :=
  if arenaSize < t.slabSize then .block t.addr t.slabSize else .slab i t.addr

/-- The memory of a region on the arena `i`. -/
def Lsregion.holding [DecidableEq ι] (i : ι) (arenaSize : Nat) (region : Lsregion) : Holding ι :=
  (region.blocks.map (Lslab.piece i arenaSize)).sum

theorem Lslab.bill_pieces [DecidableEq ι] (i : ι) (arenaSize : Nat) (ts : List Lslab) :
    ((ts.map (Lslab.piece i arenaSize)).sum).bill =
      ((ts.filter fun t => arenaSize < t.slabSize).map fun t =>
        ceilUnits t.slabSize * quotaUnitSize).sum := by
  induction ts with
  | nil => rfl
  | cons t ts ih =>
      rw [List.map_cons, List.sum_cons, Holding.bill_add, ih, Lslab.piece, List.filter_cons]
      by_cases hlarge : arenaSize < t.slabSize
      · simp [hlarge]
      · simp [hlarge]

theorem Lsregion.holding_bill [DecidableEq ι] (i : ι) (arenaSize : Nat) (region : Lsregion) :
    (region.holding i arenaSize).bill =
      ((region.blocks.filter fun t => arenaSize < t.slabSize).map fun t =>
        ceilUnits t.slabSize * quotaUnitSize).sum :=
  Lslab.bill_pieces i arenaSize region.blocks

/-- The cached slab is one of the arena, and the ids are 64-bit. -/
structure Lsregion.Good (arenaSize : Nat) (region : Lsregion) : Prop where
  cached : ∀ t, region.cached = some t → t.slabSize ≤ arenaSize
  maxIds : ∀ t ∈ region.slabs, t.maxId ≤ int64Max

theorem lsregionCreate_good (h : lsregionCreate arenaSize = some region) :
    region.Good arenaSize ∧ region.blocks = [] := by
  obtain ⟨u, -, h⟩ := Option.bind_eq_some_iff.1 h
  cases h
  exact ⟨⟨by simp, by simp⟩, rfl⟩

/-! ## Reservations -/

/-- Where a new slab comes from: `malloc`, the cache of the region, or the arena. -/
theorem lsregionNewSlab_some
    (h : lsregionNewSlab arenaSize region size alignment answer = some (t, region')) :
    ∃ addr n, region'.slabs = region.slabs ++ [lslabCreate addr n (region.slabId + 1)] ∧
      (arenaSize < newSlabSize size alignment ∧ answer = some addr ∧
        n = newSlabSize size alignment ∧
          region'.cached = region.cached ∨
        newSlabSize size alignment ≤ arenaSize ∧
        (∃ u, region.cached = some u ∧ addr = u.addr ∧ n = u.slabSize) ∧
          region'.cached = none ∨
        newSlabSize size alignment ≤ arenaSize ∧ region.cached = none ∧ answer = some addr ∧
        n = arenaSize ∧
          region'.cached = none) := by
  unfold lsregionNewSlab at h
  split at h
  · next hlarge =>
    cases answer with
    | none => cases h
    | some addr =>
        cases h
        exact ⟨addr, _, rfl, .inl ⟨hlarge, rfl, rfl, rfl⟩⟩
  · next hsmall =>
    have hle := Nat.le_of_not_lt hsmall
    cases hc : region.cached with
    | some u =>
        rw [hc] at h
        cases h
        exact ⟨_, _, rfl, .inr (.inl ⟨hle, ⟨u, rfl, rfl, rfl⟩, rfl⟩)⟩
    | none =>
        rw [hc] at h
        cases answer with
        | none => cases h
        | some addr =>
            cases h
            exact ⟨addr, _, rfl, .inr (.inr ⟨hle, rfl, rfl, rfl, hc⟩)⟩

/-- A new slab. -/
theorem Lsregion.Good.newSlab (h : region.Good arenaSize)
    (hnew : lsregionNewSlab arenaSize region size alignment answer = some (t, region')) :
    region'.Good arenaSize := by
  obtain ⟨addr, n, hslabs, hcases⟩ := lsregionNewSlab_some hnew
  constructor
  case cached =>
    rcases hcases with ⟨-, -, -, hcached⟩ | ⟨-, -, hcached⟩ | ⟨-, -, -, -, hcached⟩
    · rw [hcached]
      exact h.cached
    · simp [hcached]
    · simp [hcached]
  case maxIds =>
    intro u hu
    rw [hslabs] at hu
    rcases List.mem_append.1 hu with hu | hu
    · exact h.maxIds u hu
    · rw [List.mem_singleton.1 hu]
      show lslabNotUsedId ≤ int64Max
      decide

/-- The use of the last slab. -/
theorem Lsregion.Good.useLast (h : region.Good arenaSize) (hid : id ≤ int64Max)
    (huse : region.useLast size id = some region') :
    region'.Good arenaSize := by
  unfold Lsregion.useLast at huse
  obtain ⟨t, -, huse⟩ := Option.bind_eq_some_iff.1 huse
  obtain ⟨t', ht', huse⟩ := Option.bind_eq_some_iff.1 huse
  cases huse
  refine ⟨h.cached, fun u hu => ?_⟩
  rcases List.mem_append.1 hu with hu | hu
  · exact h.maxIds u (List.dropLast_subset _ hu)
  · rw [List.mem_singleton.1 hu]
    unfold Lslab.use at ht'
    simp only [Option.bind_eq_bind, Option.bind_eq_some_iff] at ht'
    obtain ⟨-, -, -, -, -, -, ht'⟩ := ht'
    cases ht'
    exact hid

section Reserve

variable [DecidableEq ι] {i : ι}

theorem Lsregion.holding_append (i : ι) (arenaSize : Nat) (region : Lsregion) :
    region.holding i arenaSize = (region.slabs.map (Lslab.piece i arenaSize)).sum +
      (region.cached.toList.map (Lslab.piece i arenaSize)).sum := by
  rw [Lsregion.holding, Lsregion.blocks, List.map_append, List.sum_append]

/-- What a new slab adds to the memory of the region. -/
theorem lsregionNewSlab_holding
    (h : lsregionNewSlab arenaSize region size alignment answer = some (t, region')) :
    arenaSize < newSlabSize size alignment ∧
      (∃ addr, answer = some addr ∧
        region'.holding i arenaSize =
        .block addr (newSlabSize size alignment) + region.holding i arenaSize) ∨
    newSlabSize size alignment ≤ arenaSize ∧ region.cached ≠ none ∧
      region'.holding i arenaSize = region.holding i arenaSize ∨
    newSlabSize size alignment ≤ arenaSize ∧ region.cached = none ∧
      ∃ addr, answer = some addr ∧
      region'.holding i arenaSize = .slab i addr + region.holding i arenaSize := by
  obtain ⟨addr, n, hslabs, hcases⟩ := lsregionNewSlab_some h
  have hsum : region'.holding i arenaSize = (region.slabs.map (Lslab.piece i arenaSize)).sum +
      Lslab.piece i arenaSize (lslabCreate addr n (region.slabId + 1)) +
      (region'.cached.toList.map (Lslab.piece i arenaSize)).sum := by
    rw [Lsregion.holding_append, hslabs, List.map_append, List.sum_append, List.map_singleton,
      List.sum_singleton]
  rcases hcases with ⟨hlarge, hanswer, hn, hcached⟩ | ⟨hsmall, ⟨u, hu, haddr, hn⟩, hcached⟩
    | ⟨hsmall, hnone, hanswer, hn, hcached⟩
  · refine .inl ⟨hlarge, addr, hanswer, ?_⟩
    have hpiece : Lslab.piece i arenaSize
        (lslabCreate addr (newSlabSize size alignment) (region.slabId + 1)) =
        .block addr (newSlabSize size alignment) := if_pos hlarge
    rw [hsum, hn, hpiece, hcached, region.holding_append, add_right_comm, add_comm]
  · refine .inr (.inl ⟨hsmall, by simp [hu], ?_⟩)
    have hpiece : Lslab.piece i arenaSize (lslabCreate u.addr u.slabSize (region.slabId + 1)) =
        u.piece i arenaSize := rfl
    rw [hsum, haddr, hn, hpiece, hcached, region.holding_append, hu]
    simp
  · refine .inr (.inr ⟨hsmall, hnone, addr, hanswer, ?_⟩)
    have hpiece : Lslab.piece i arenaSize (lslabCreate addr arenaSize (region.slabId + 1)) =
        .slab i addr := by
      simp [Lslab.piece, lslabCreate]
    rw [hsum, hn, hpiece, hcached, region.holding_append, hnone, add_right_comm, add_comm]

/-- The slabs stay where they are when the last one is used. -/
theorem Lsregion.useLast_holding (huse : region.useLast size id = some region') :
    region'.holding i arenaSize = region.holding i arenaSize := by
  unfold Lsregion.useLast at huse
  obtain ⟨t, ht, huse⟩ := Option.bind_eq_some_iff.1 huse
  obtain ⟨t', ht', huse⟩ := Option.bind_eq_some_iff.1 huse
  cases huse
  obtain ⟨us, hus⟩ := List.getLast?_eq_some_iff.1 ht
  have hpiece : t'.piece i arenaSize = t.piece i arenaSize := by
    unfold Lslab.use at ht'
    simp only [Option.bind_eq_bind, Option.bind_eq_some_iff] at ht'
    obtain ⟨-, -, -, -, -, -, ht'⟩ := ht'
    cases ht'
    rfl
  rw [Lsregion.holding_append, region.holding_append]
  simp [hus, hpiece]

end Reserve

/-! ## The four calls that allocate -/

section Calls

theorem lsregionAlignedReserve_some
    (h : lsregionAlignedReserve arenaSize region size alignment answer = some (res, region')) :
    (∃ r, region.tryLast size alignment = some (some r) ∧ res = some r ∧ region' = region) ∨
    region.tryLast size alignment = some none ∧
      (lsregionNewSlab arenaSize region size alignment answer = none ∧ res = none ∧
        region' = region ∨
        res ≠ none ∧ ∃ t, lsregionNewSlab arenaSize region size alignment answer =
        some (t, region')) := by
  unfold lsregionAlignedReserve at h
  obtain ⟨found, hlast, h⟩ := Option.bind_eq_some_iff.1 h
  rw [hlast]
  cases found with
  | some r =>
      cases h
      exact .inl ⟨r, rfl, rfl, rfl⟩
  | none =>
      refine .inr ⟨rfl, ?_⟩
      cases hnew : lsregionNewSlab arenaSize region size alignment answer with
      | none =>
          rw [hnew] at h
          cases h
          exact .inl ⟨rfl, rfl, rfl⟩
      | some new =>
          obtain ⟨t, region₁⟩ := new
          rw [hnew] at h
          simp only [Option.bind_eq_bind, Option.bind_eq_some_iff] at h
          obtain ⟨pos, -, -, -, h⟩ := h
          cases h
          exact .inr ⟨Option.some_ne_none _, t, rfl⟩

/-- A call reserves memory, and then it may use the last slab. -/
def Lsregion.Reserves (arenaSize : Nat) (region : Lsregion) (size alignment : Nat)
    (answer : Option Nat) (res : Option Reservation) (region' : Lsregion) : Prop :=
  ∃ region₁, lsregionAlignedReserve arenaSize region size alignment answer = some (res, region₁) ∧
    (region' = region₁ ∨ ∃ n id, id ≤ int64Max ∧ region₁.useLast n id = some region')

theorem lsregionReserve_some
    (h : lsregionReserve arenaSize region size answer = some (res, region')) :
    lsregionAlignedReserve arenaSize region size 1 answer = some (res, region') := by
  obtain ⟨⟨r, region₁⟩, hreserve, hrest⟩ := Option.bind_eq_some_iff.1 h
  cases r with
  | none =>
      cases hrest
      exact hreserve
  | some r =>
      obtain ⟨u, -, hrest⟩ := Option.bind_eq_some_iff.1 hrest
      cases hrest
      exact hreserve

theorem lsregionAlloc_reserves (hid : id ≤ int64Max)
    (h : lsregionAlloc arenaSize region size id answer = some (res, region')) :
    region.Reserves arenaSize size 1 answer res region' := by
  obtain ⟨⟨r, region₁⟩, hreserve, hrest⟩ := Option.bind_eq_some_iff.1 h
  have hreserve := lsregionReserve_some hreserve
  cases r with
  | none =>
      cases hrest
      exact ⟨_, hreserve, .inl rfl⟩
  | some r =>
      obtain ⟨region₂, huse, hrest⟩ := Option.bind_eq_some_iff.1 hrest
      cases hrest
      exact ⟨_, hreserve, .inr ⟨_, id, hid, huse⟩⟩

theorem lsregionAlignedAlloc_reserves (hid : id ≤ int64Max)
    (h : lsregionAlignedAlloc arenaSize region size alignment id answer = some (res, region')) :
    region.Reserves arenaSize size alignment answer res region' := by
  obtain ⟨⟨r, region₁⟩, hreserve, hrest⟩ := Option.bind_eq_some_iff.1 h
  cases r with
  | none =>
      cases hrest
      exact ⟨_, hreserve, .inl rfl⟩
  | some r =>
      obtain ⟨region₂, huse, hrest⟩ := Option.bind_eq_some_iff.1 hrest
      cases hrest
      exact ⟨_, hreserve, .inr ⟨_, id, hid, huse⟩⟩

variable [DecidableEq ι] [Fintype ι] {c : ι → ArenaConfig} {i : ι} {b b' : Backing ι}
    {H : Holding ι} {answer' : Option Nat}

/-- The size of a new slab can be billed and released. -/
theorem newSlabSize_bounds (h : size + alignment + lslabSizeof ≤ quotaMax) :
    1 ≤ newSlabSize size alignment ∧ newSlabSize size alignment < quotaMax := by
  have hmax : quotaMax < 2 ^ 42 := by decide
  simp only [newSlabSize, lslabSizeof, sizeMax] at *
  omega

/-- A call that allocates: the region has what the memory gave, and `NULL` means that it gave
nothing. -/
theorem Backing.Inv.reserve (h : b.Inv c (region.holding i (c i).slabSize + H))
    (hgood : region.Good (c i).slabSize) (hsize : size + alignment + lslabSizeof ≤ quotaMax)
    (hanswer : b.Answers c i ((c i).slabSize < newSlabSize size alignment)
      (newSlabSize size alignment) answer)
    (hmemory : b.lsregionAnswer c i region size alignment answer = some (answer', b'))
    (hcall : region.Reserves (c i).slabSize size alignment answer' res region') :
    region'.Good (c i).slabSize ∧ b'.Inv c (region'.holding i (c i).slabSize + H) ∧
      (res = none → b' = b) := by
  obtain ⟨region₁, hreserve, huse⟩ := hcall
  -- the use of the last slab does not concern the memory
  suffices hnew : region₁.Good (c i).slabSize ∧ b'.Inv c (region₁.holding i (c i).slabSize + H) ∧
      (res = none → b' = b) by
    obtain ⟨hgood₁, hinv₁, hnull⟩ := hnew
    rcases huse with rfl | ⟨n, id, hid, huse⟩
    · exact ⟨hgood₁, hinv₁, hnull⟩
    · exact ⟨hgood₁.useLast hid huse, by rw [Lsregion.useLast_holding huse]; exact hinv₁, hnull⟩
  obtain ⟨hpos, hmax⟩ := newSlabSize_bounds hsize
  obtain ⟨found, hlast, hmemory⟩ := Option.bind_eq_some_iff.1 hmemory
  rcases lsregionAlignedReserve_some hreserve with ⟨r, hfound, rfl, rfl⟩ | ⟨hfound, hnew⟩
  · -- the chunk fits in the last slab
    rw [hfound] at hlast
    cases hlast
    cases hmemory
    exact ⟨hgood, h, fun _ => rfl⟩
  · rw [hfound] at hlast
    cases hlast
    dsimp only at hmemory
    split at hmemory
    · next hlarge =>
      rcases Backing.malloc_cases h hpos hmax (fun a ha => (hanswer a ha).1 hlarge) hmemory with
        ⟨rfl, rfl⟩ | ⟨a, rfl, -, h'⟩
      · rcases hnew with ⟨-, -, rfl⟩ | ⟨-, t, hnew⟩
        · exact ⟨hgood, h, fun _ => rfl⟩
        · simp [lsregionNewSlab, hlarge] at hnew
      · rcases hnew with ⟨hnone, -, -⟩ | ⟨hne, t, hnew⟩
        · simp [lsregionNewSlab, hlarge] at hnone
        · refine ⟨hgood.newSlab hnew, ?_, fun hnull => absurd hnull hne⟩
          rcases lsregionNewSlab_holding (i := i) hnew with ⟨-, addr, haddr, hholding⟩
            | ⟨hsmall, -⟩ | ⟨hsmall, -⟩
          · cases haddr
            rw [hholding, add_assoc]
            exact h'
          · omega
          · omega
    · next hsmall =>
      split at hmemory
      · next hcached =>
        -- the cached slab
        cases hmemory
        rcases hnew with ⟨hnone, -, -⟩ | ⟨hne, t, hnew⟩
        · obtain ⟨u, hu⟩ := Option.ne_none_iff_exists'.1 hcached
          simp [lsregionNewSlab, hsmall, hu] at hnone
        · refine ⟨hgood.newSlab hnew, ?_, fun _ => rfl⟩
          rcases lsregionNewSlab_holding (i := i) hnew with ⟨hlarge, -⟩ | ⟨-, -, hholding⟩
            | ⟨-, hnone, -⟩
          · exact absurd hlarge hsmall
          · rw [hholding]
            exact h
          · exact absurd hnone hcached
      · next hcached =>
        have hcached := Classical.not_not.1 hcached
        rcases Backing.map_cases h (fun m hm => (hanswer m hm).2 hsmall) hmemory with ⟨rfl, rfl⟩
          | ⟨m, rfl, h'⟩
        · rcases hnew with ⟨-, -, rfl⟩ | ⟨-, t, hnew⟩
          · exact ⟨hgood, h, fun _ => rfl⟩
          · simp [lsregionNewSlab, hsmall, hcached] at hnew
        · rcases hnew with ⟨hnone, -, -⟩ | ⟨hne, t, hnew⟩
          · simp [lsregionNewSlab, hsmall, hcached] at hnone
          · refine ⟨hgood.newSlab hnew, ?_, fun hnull => absurd hnull hne⟩
            rcases lsregionNewSlab_holding (i := i) hnew with ⟨hlarge, -⟩ | ⟨-, hne, -⟩
              | ⟨-, -, addr, haddr, hholding⟩
            · exact absurd hlarge hsmall
            · exact absurd hcached hne
            · cases haddr
              rw [hholding, add_assoc]
              exact h'

end Calls

/-! ## `lsregion_gc` and `lsregion_destroy` -/

section Gc

variable {ts : List Lslab}

theorem lsregionDrop_cached_le (h : ∀ u, region.cached = some u → u.slabSize ≤ arenaSize)
    (t u : Lslab) (hu : (lsregionDrop arenaSize region t).cached = some u) :
    u.slabSize ≤ arenaSize := by
  rw [lsregionDrop_cached] at hu
  split at hu
  · exact h u hu
  · next hsmall =>
    split at hu
    · exact h u hu
    · cases hu
      exact Nat.le_of_not_lt hsmall

theorem lsregionGcLoop_good (hmax : ∀ t ∈ ts, t.maxId ≤ int64Max)
    (hcached : ∀ u, region.cached = some u → u.slabSize ≤ arenaSize) :
    (lsregionGcLoop arenaSize minId ts region).Good arenaSize := by
  induction ts generalizing region with
  | nil => exact ⟨hcached, by simp [lsregionGcLoop]⟩
  | cons t ts ih =>
      unfold lsregionGcLoop
      split
      · exact ⟨hcached, hmax⟩
      · exact ih (fun u hu => hmax u (List.mem_cons_of_mem t hu)) (lsregionDrop_cached_le hcached t)

/-- Nothing is left when all ids have passed. -/
theorem lsregionGcLoop_all (hmax : ∀ t ∈ ts, t.maxId ≤ minId) :
    (lsregionGcLoop arenaSize minId ts region).slabs = [] := by
  induction ts generalizing region with
  | nil => rfl
  | cons t ts ih =>
      have ht := hmax t (List.mem_cons_self ..)
      rw [lsregionGcLoop, if_neg (by omega)]
      exact ih fun u hu => hmax u (List.mem_cons_of_mem t hu)

variable [DecidableEq ι] [Fintype ι] {c : ι → ArenaConfig} {i : ι} {b b' : Backing ι}
    {H : Holding ι}

/-- The slab that is freed goes back to where it came from, or is cached. -/
theorem Backing.Inv.drop
    (h : b.Inv c (t.piece i (c i).slabSize +
      ((region.cached.toList.map (Lslab.piece i (c i).slabSize)).sum + H))) :
    ∃ b', b.lsregionDrop c i region t = some b' ∧
      b'.Inv c (((SmallAllocators.lsregionDrop (c i).slabSize region t).cached.toList.map
        (Lslab.piece i (c i).slabSize)).sum + H) := by
  rw [lsregionDrop_cached]
  by_cases hlarge : (c i).slabSize < t.slabSize
  · rw [Lslab.piece, if_pos hlarge] at h
    obtain ⟨b', hfree, h'⟩ := h.free
    exact ⟨b', by simp [Backing.lsregionDrop, hlarge, hfree], by rw [if_pos hlarge]; exact h'⟩
  · rw [if_neg hlarge]
    by_cases hcached : region.cached = none
    · refine ⟨b, by simp [Backing.lsregionDrop, hlarge, hcached], ?_⟩
      rw [hcached] at h
      rw [if_neg (by simp [hcached])]
      have hpiece : Lslab.piece i (c i).slabSize (lslabCreate t.addr t.slabSize lslabNotUsedId) =
          t.piece i (c i).slabSize := rfl
      rw [Option.toList_some, List.map_singleton, List.sum_singleton, hpiece]
      rwa [Option.toList_none, List.map_nil, List.sum_nil, zero_add] at h
    · rw [Lslab.piece, if_neg hlarge] at h
      obtain ⟨b', hunmap, h'⟩ := h.unmap
      exact ⟨b', by simp [Backing.lsregionDrop, hlarge, hcached, hunmap], by
        rw [if_pos hcached]; exact h'⟩

theorem Backing.Inv.gcLoop
    (h : b.Inv c ((ts.map (Lslab.piece i (c i).slabSize)).sum +
      (region.cached.toList.map (Lslab.piece i (c i).slabSize)).sum + H)) :
    ∃ b', b.lsregionGcLoop c i minId ts region = some b' ∧
      b'.Inv c ((SmallAllocators.lsregionGcLoop (c i).slabSize minId ts region).holding i
        (c i).slabSize + H) := by
  induction ts generalizing region b with
  | nil =>
      refine ⟨b, rfl, ?_⟩
      rw [Lsregion.holding_append]
      exact h
  | cons t ts ih =>
      unfold Backing.lsregionGcLoop SmallAllocators.lsregionGcLoop
      split
      · refine ⟨b, rfl, ?_⟩
        rw [Lsregion.holding_append]
        exact h
      · rw [List.map_cons, List.sum_cons, add_assoc, add_assoc, add_left_comm (List.sum _)] at h
        obtain ⟨b₁, hdrop, h₁⟩ := h.drop
        rw [add_left_comm, ← add_assoc] at h₁
        obtain ⟨b', hloop, h'⟩ := ih h₁
        exact ⟨b', by rw [hdrop, Option.bind_eq_bind, Option.bind_some, hloop], h'⟩

/-- `lsregion_gc`. -/
theorem Backing.Inv.gc (h : b.Inv c (region.holding i (c i).slabSize + H))
    (hgood : region.Good (c i).slabSize) (minId : Int) :
    ∃ b', b.lsregionGc c i region minId =
      some (SmallAllocators.lsregionGc (c i).slabSize region minId, b') ∧
      (SmallAllocators.lsregionGc (c i).slabSize region minId).Good (c i).slabSize ∧
      b'.Inv c ((SmallAllocators.lsregionGc (c i).slabSize region minId).holding i
        (c i).slabSize + H) := by
  rw [Lsregion.holding_append] at h
  obtain ⟨b', hloop, h'⟩ : ∃ b', b.lsregionGcLoop c i minId region.slabs region = some b' ∧
      b'.Inv c ((SmallAllocators.lsregionGc (c i).slabSize region minId).holding i
        (c i).slabSize + H) := h.gcLoop
  exact ⟨b', by rw [Backing.lsregionGc, hloop]; rfl,
    lsregionGcLoop_good hgood.maxIds hgood.cached, h'⟩

omit [Fintype ι] in
theorem Backing.lsregionDestroy_eq (c : ι → ArenaConfig) (i : ι) (b : Backing ι)
    (region : Lsregion) :
    b.lsregionDestroy c i region =
      (if region.slabs ≠ [] then b.lsregionGc c i region int64Max else some (region, b)).bind
      fun x =>
        match x.1.cached with
        | none => some x.2
        | some slab => x.2.unmap i slab.addr := by
  unfold Backing.lsregionDestroy
  split <;> rfl

/-- `lsregion_destroy` gives back all that the region holds. -/
theorem Backing.Inv.regionDestroy (h : b.Inv c (region.holding i (c i).slabSize + H))
    (hgood : region.Good (c i).slabSize) :
    ∃ b', b.lsregionDestroy c i region = some b' ∧ b'.Inv c H := by
  -- the slabs of the list
  have hgc : ∃ region' b₁, (if region.slabs ≠ [] then b.lsregionGc c i region int64Max
      else some (region, b)) = some (region', b₁) ∧
      region'.Good (c i).slabSize ∧ region'.slabs = [] ∧
      b₁.Inv c (region'.holding i (c i).slabSize + H) := by
    by_cases hempty : region.slabs = []
    · exact ⟨region, b, by simp [hempty], hgood, hempty, h⟩
    · obtain ⟨b₁, hgc, hgood', h'⟩ := h.gc hgood int64Max
      exact ⟨_, b₁, by rw [if_pos hempty, hgc], hgood', lsregionGcLoop_all hgood.maxIds, h'⟩
  obtain ⟨region', b₁, heq, hgood', hslabs, h₁⟩ := hgc
  rw [Backing.lsregionDestroy_eq, heq, Option.bind_some]
  rw [Lsregion.holding_append, hslabs, List.map_nil, List.sum_nil, zero_add] at h₁
  -- and the cached one
  cases hcached : region'.cached with
  | none =>
      rw [hcached, Option.toList_none, List.map_nil, List.sum_nil, zero_add] at h₁
      exact ⟨b₁, rfl, h₁⟩
  | some t =>
      rw [hcached, Option.toList_some, List.map_singleton, List.sum_singleton, Lslab.piece,
        if_neg (Nat.not_lt.2 (hgood'.cached t hcached))] at h₁
      obtain ⟨b', hunmap, h'⟩ := h₁.unmap
      exact ⟨b', hunmap, h'⟩

end Gc

end SmallAllocators
