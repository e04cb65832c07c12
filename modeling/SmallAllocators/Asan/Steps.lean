/-
SmallAllocators.Asan.Steps — each call keeps the invariant or stops, and it
stops for the mistakes of `AsanCall.Wrong` and for no others.

`asan_allocators` is the result for every run: the blocks of the heap are
the blocks that clients have, every counter is exact, the quota is what the
lessors and the others have, and a block that comes back to another
allocator is found.
-/
import SmallAllocators.Asan.Runs

namespace SmallAllocators

open Memory

variable {ι : Type}

theorem AsanCall.keeps_of_mem {s s' : AsanState ι} {op : AsanCall ι}
    (hmem : s'.heap.mem = s.heap.mem) : op.Keeps s s' :=
  fun _ _ _ x _ _ => congrFun hmem x

variable [DecidableEq ι]

/-! ## The invariant -/

section Steps

variable [Fintype ι] {s : AsanState ι} {t : AsanAllocators ι} {w : AsanOwner ι}
    {o : AsanObject (AsanOwner ι)}
  {h : AsanHeap} {n source : Nat}

theorem AsanState.Inv.id_lt (hi : s.Inv) (hid : s.allocators.id w = some n) : n < 2 ^ 32 :=
  (hi.tags.ids_lt w n hid).trans hi.tags.next

/-- An allocator that does not exist has no blocks. -/
theorem AsanState.Inv.no_blocks (hi : s.Inv) (hid : s.allocators.id w = none) :
    ∀ o ∈ s.live, o.owner ≠ w := by
  rintro o ho rfl
  obtain ⟨n, hn, -⟩ := hi.tags.written o ho
  rw [hid] at hn
  cases hn

theorem AsanState.Inv.create (hi : s.Inv) (hc : AsanCall.MayCreate s w)
    (hid : t.id = Function.update s.allocators.id w (some s.heap.smallAsanReserveId.1))
    (hothers : ∀ w' objs, w' ≠ w → s.allocators.Serves w' objs → t.Serves w' objs)
    (hself : t.Serves w []) (hleases : AsanLeases t.quota t.lender s.source s.others s.live) :
    AsanState.Inv { s with heap := s.heap.smallAsanReserveId.2, allocators := t } := by
  have hblocks := hi.no_blocks hc.1
  constructor
  case tags => exact hid ▸ hi.tags.reserve hc.1 hc.2
  case serves =>
    intro w'
    by_cases hw : w' = w
    · rw [hw, blocksOf_eq_nil hblocks]
      exact hself
    · exact hothers w' _ hw (hi.serves w')
  case leases => exact hleases

theorem AsanState.Inv.destroy (hi : s.Inv) (hc : AsanCall.MayDestroy s w)
    (hid : t.id = Function.update s.allocators.id w none)
    (hothers : ∀ w' objs, w' ≠ w → s.allocators.Serves w' objs → t.Serves w' objs)
    (hself : t.Serves w []) (hleases : AsanLeases t.quota t.lender source s.others s.live) :
    AsanState.Inv { s with allocators := t, source := source } := by
  constructor
  case tags => exact hid ▸ hi.tags.forget hc.2
  case serves =>
    intro w'
    by_cases hw : w' = w
    · rw [hw, blocksOf_eq_nil hc.2]
      exact hself
    · exact hothers w' _ hw (hi.serves w')
  case leases => exact hleases

theorem AsanState.Inv.give (hi : s.Inv) (hg : s.heap.Gives h o n)
    (hfresh : s.heap.Fresh o.blockSize o.block) (hid : s.allocators.id o.owner = some n)
    (hids : t.id = s.allocators.id)
    (hothers : ∀ w' objs, w' ≠ o.owner → s.allocators.Serves w' objs → t.Serves w' objs)
    (hself : ∀ objs, objs.length + 1 < sizeMax → (objs.map (·.size)).sum + o.size < sizeMax →
      s.allocators.Serves o.owner objs → t.Serves o.owner (o :: objs))
    (hleases : AsanLeases t.quota t.lender source s.others (o :: s.live)) :
    AsanState.Inv { s with heap := h, allocators := t, source := source, live := o :: s.live } := by
  have htags := hi.tags.add hg hfresh hid
  obtain ⟨hcount, hsum⟩ := htags.holds.counters
  constructor
  case tags => exact hids ▸ htags
  case serves => exact AsanAllocators.Serves.give hi.serves hothers (hself _ hcount hsum)
  case leases => exact hleases

theorem AsanState.Inv.take (hi : s.Inv) (htags : h.Tags s.allocators.id (s.live.erase o))
    (ho : o ∈ s.live) (hids : t.id = s.allocators.id)
    (hothers : ∀ w' objs, w' ≠ o.owner → s.allocators.Serves w' objs → t.Serves w' objs)
    (hself : ∀ objs, objs.length + 1 < sizeMax → (objs.map (·.size)).sum + o.size < sizeMax →
      s.allocators.Serves o.owner (o :: objs) → t.Serves o.owner objs)
    (hleases : AsanLeases t.quota t.lender source s.others (s.live.erase o)) :
    AsanState.Inv
      { s with heap := h, allocators := t, source := source, live := s.live.erase o } := by
  have hall : (blocksOf s.live o.owner).Perm (o :: blocksOf (s.live.erase o) o.owner) := by
    rw [← blocksOf_cons_self]
    exact (List.perm_cons_erase ho).filter _
  have hroom := hi.tags.holds.room
  have hlen : (blocksOf s.live o.owner).length ≤ s.live.length := List.length_filter_le _ _
  have hsum : ((blocksOf s.live o.owner).map (·.size)).sum ≤ (s.live.map (·.size)).sum :=
    (List.filter_sublist.map _).sum_le_sum fun _ _ => Nat.zero_le _
  rw [hall.length_eq, List.length_cons] at hlen
  rw [(hall.map _).sum_eq, List.map_cons, List.sum_cons] at hsum
  constructor
  case tags => exact hids ▸ htags
  case serves =>
    exact AsanAllocators.Serves.take hi.serves ho hothers (hself _ (by omega) (by omega))
  case leases => exact hleases

end Steps

/-! ## The calls -/

section Calls

variable [Fintype ι] {s s' : AsanState ι} {w : AsanOwner ι} {o : AsanObject (AsanOwner ι)}
    {n : Nat} {op : AsanCall ι}

/-- The call stops because of a mistake, or it keeps the invariant and the bytes of the clients. -/
def AsanCall.Meets (s : AsanState ι) (op : AsanCall ι) : Prop :=
  (op.Wrong s ∧ op.exec s = none) ∨
  (¬op.Wrong s ∧ ∃ s', op.exec s = some s' ∧ s'.Inv ∧ op.Keeps s s')

theorem AsanState.Inv.keeps_of_gives (hi : s.Inv) (hg : s.heap.Gives s'.heap o n)
    (hfresh : s.heap.Fresh o.blockSize o.block) :
    op.Keeps s s' := by
  intro _ o' ho' x h1 h2
  have hp := hi.tags.holds.placed o' ho'
  have hafter := hp.after
  have hinside := hp.inside
  exact hg.apart hi.tags.holds hfresh ho' (by omega) (by omega)

/-! ### Arenas -/

theorem slabArenaCreate_meets (hi : s.Inv) {a : ι} {slabSize : Nat}
    (ha : (AsanCall.slabArenaCreate a slabSize).Allowed s) :
    (AsanCall.slabArenaCreate a slabSize).Meets s := by
  obtain ⟨hc, hsize⟩ := ha
  obtain ⟨size, hrun⟩ := asanSlabArenaCreate_spec (h := s.heap) hsize
  have hexec : (AsanCall.slabArenaCreate a slabSize).exec s = some { s with
      heap := s.heap.smallAsanReserveId.2
      allocators := s.allocators.setArena a (some ⟨size, s.heap.smallAsanReserveId.1⟩) } := by
    rw [AsanCall.exec, hrun]
    rfl
  refine .inr ⟨id, _, hexec, ?_, AsanCall.keeps_of_mem rfl⟩
  refine hi.create hc (AsanAllocators.id_setArena _ _)
    (fun _ _ hw hs => hs.setArena hw) ?_ hi.leases
  exact fun _ _ o ho => absurd ho (List.not_mem_nil)

theorem slabArenaDestroy_meets (hi : s.Inv) {a : ι} (ha : (AsanCall.slabArenaDestroy a).Allowed s) :
    (AsanCall.slabArenaDestroy a).Meets s := by
  refine .inr ⟨id, _, rfl, ?_, AsanCall.keeps_of_mem rfl⟩
  refine hi.destroy ha (AsanAllocators.id_setArena _ _)
    (fun _ _ hw hs => hs.setArena hw) ?_ hi.leases
  exact fun _ _ o ho => absurd ho (List.not_mem_nil)

theorem slabMap_meets (hi : s.Inv) {a : ι} {answer : Nat}
    (ha : (AsanCall.slabMap a answer).Allowed s) :
    (AsanCall.slabMap a answer).Meets s := by
  obtain ⟨arena, harena, hfresh⟩ := ha
  have hid := AsanAllocators.id_arena harena
  obtain ⟨slab, h', hrun, hg⟩ := asanSlabMap_spec a (hi.id_lt hid) hfresh
  have hexec : (AsanCall.slabMap a answer).exec s = some { s with
      heap := h'
      live := ⟨.arena a, answer, slab, arena.slabSize, smallArenaSlabAlignment,
          ptrSize⟩ :: s.live } := by
    rw [AsanCall.exec, harena, Option.bind_eq_bind, Option.bind_some, hrun]
    rfl
  refine .inr ⟨id, _, hexec, ?_, hi.keeps_of_gives hg hfresh⟩
  refine hi.give hg hfresh hid rfl (fun _ _ _ hs => hs) ?_ (hi.leases.give id)
  intro objs _ _ hs arena' harena'
  rw [harena, Option.some.injEq] at harena'
  exact List.forall_mem_cons.2 ⟨harena' ▸ rfl, hs arena' (harena' ▸ harena)⟩

theorem slabUnmap_meets (hi : s.Inv) {a : ι} (ha : (AsanCall.slabUnmap a o).Allowed s) :
    (AsanCall.slabUnmap a o).Meets s := by
  obtain ⟨ho, n, hid, hsmall⟩ := ha
  obtain ⟨arena, harena, hn⟩ := Option.map_eq_some_iff.1 hid
  have hafter := (hi.tags.holds.placed o ho).after
  have hexec : (AsanCall.slabUnmap a o).exec s =
      (s.heap.freeTagged n o.payload).map fun h =>
      { s with heap := h, live := s.live.erase o } := by
    rw [AsanCall.exec, harena, Option.bind_eq_bind, Option.bind_some,
      asanSlabUnmap_eq (by omega), hn]
    cases s.heap.freeTagged n o.payload <;> rfl
  rcases hi.tags.freeTagged ho (w := .arena a) id hid hsmall with ⟨hne, hrun⟩
    | ⟨howner, h', hrun, hmem, htags⟩
  · exact .inl ⟨hne, by rw [hexec, hrun]; rfl⟩
  · rw [hrun] at hexec
    refine .inr ⟨fun hne => hne howner, _, hexec, ?_, AsanCall.keeps_of_mem hmem⟩
    have hself : ¬o.owner.IsSmall := howner ▸ id
    refine hi.take htags ho rfl (fun _ _ _ hs => hs) ?_ (hi.leases.take ho hself)
    rw [howner]
    exact fun objs _ _ hs arena' harena' o' ho' => hs arena' harena' o' (List.mem_cons_of_mem _ ho')

/-! ### Pools -/

theorem mempoolCreate_meets (hi : s.Inv) {p : ι} {objsize : Nat}
    (ha : (AsanCall.mempoolCreate p objsize).Allowed s) :
    (AsanCall.mempoolCreate p objsize).Meets s := by
  obtain ⟨hc, hlt⟩ := ha
  rcases Nat.eq_zero_or_pos objsize with hzero | hpos
  · refine .inl ⟨hzero, ?_⟩
    rw [AsanCall.exec, asanMempoolCreate_eq, if_neg (by omega)]
    rfl
  let pool : AsanMempool := ⟨objsize, 0, asanMempoolAlignment objsize, s.heap.smallAsanReserveId.1⟩
  have hexec : (AsanCall.mempoolCreate p objsize).exec s = some { s with
      heap := s.heap.smallAsanReserveId.2
      allocators := s.allocators.setPool p (some pool) } := by
    rw [AsanCall.exec, asanMempoolCreate_eq, if_pos hpos]
    rfl
  refine .inr ⟨Nat.ne_of_gt hpos, _, hexec, ?_, AsanCall.keeps_of_mem rfl⟩
  refine hi.create hc (AsanAllocators.id_setPool _ _) (fun _ _ hw hs => hs.setPool hw) ?_ hi.leases
  intro pool' hpool'
  have heq : pool = pool' := by simpa [AsanAllocators.setPool] using hpool'
  subst heq
  exact ⟨⟨hpos, hlt, asanMempoolAlignment_spec hpos hlt⟩,
    rfl, fun o ho => absurd ho (List.not_mem_nil)⟩

theorem mempoolDestroy_meets (hi : s.Inv) {p : ι} (ha : (AsanCall.mempoolDestroy p).Allowed s) :
    (AsanCall.mempoolDestroy p).Meets s := by
  refine .inr ⟨id, _, rfl, ?_, AsanCall.keeps_of_mem rfl⟩
  refine hi.destroy ha (AsanAllocators.id_setPool _ _) (fun _ _ hw hs => hs.setPool hw) ?_ hi.leases
  intro pool' hpool'
  simp [AsanAllocators.setPool] at hpool'

theorem mempoolAlloc_meets (hi : s.Inv) {p : ι} {answer : Nat}
    (ha : (AsanCall.mempoolAlloc p answer).Allowed s) :
    (AsanCall.mempoolAlloc p answer).Meets s := by
  obtain ⟨pool, hpool, hfresh⟩ := ha
  have hid := AsanAllocators.id_pool hpool
  obtain ⟨hcreated, -, -⟩ := hi.serves (.pool p) pool hpool
  obtain ⟨ptr, h', hrun, hg⟩ := asanMempoolAlloc_spec p hcreated (hi.id_lt hid) hfresh
  have hexec : (AsanCall.mempoolAlloc p answer).exec s = some { s with
      heap := h'
      allocators :=
        s.allocators.setPool p (some { pool with objcount := (pool.objcount + 1) % sizeMax })
      live := ⟨.pool p, answer, ptr, pool.objsize, pool.alignment,
          mempoolObjectSizeof⟩ :: s.live } := by
    rw [AsanCall.exec, hpool, Option.bind_eq_bind, Option.bind_some, hrun]
    rfl
  have hids : (s.allocators.setPool p
      (some { pool with objcount := (pool.objcount + 1) % sizeMax })).id =
      s.allocators.id := by
    rw [AsanAllocators.id_setPool, Option.map_some, ← hid, Function.update_eq_self]
  refine .inr ⟨id, _, hexec, ?_, hi.keeps_of_gives hg hfresh⟩
  refine hi.give hg hfresh hid hids (fun _ _ hw hs => hs.setPool hw) ?_ (hi.leases.give id)
  intro objs hcount _ hs pool' hpool'
  obtain ⟨-, hobjcount, hobjs⟩ := hs pool hpool
  have heq : { pool with objcount := (pool.objcount + 1) % sizeMax } = pool' := by
    simpa [AsanAllocators.setPool] using hpool'
  subst heq
  refine ⟨⟨hcreated.pos, hcreated.lt, hcreated.alignment⟩, ?_,
    List.forall_mem_cons.2 ⟨⟨rfl, rfl⟩, hobjs⟩⟩
  rw [List.length_cons, ← Nat.mod_eq_of_lt hcount, hobjcount]

theorem mempoolFree_meets (hi : s.Inv) {p : ι} (ha : (AsanCall.mempoolFree p o).Allowed s) :
    (AsanCall.mempoolFree p o).Meets s := by
  obtain ⟨ho, n, hid, hsmall⟩ := ha
  obtain ⟨pool, hpool, hn⟩ := Option.map_eq_some_iff.1 hid
  have hexec : (AsanCall.mempoolFree p o).exec s = (s.heap.freeTagged n o.payload).map fun h =>
      { s with
        heap := h
        allocators := s.allocators.setPool p
          (some { pool with objcount := (pool.objcount + (sizeMax - 1)) % sizeMax })
        live := s.live.erase o } := by
    rw [AsanCall.exec, hpool, Option.bind_eq_bind, Option.bind_some, asanMempoolFree_eq, hn]
    cases s.heap.freeTagged n o.payload <;> rfl
  have hids : (s.allocators.setPool p
      (some { pool with objcount := (pool.objcount + (sizeMax - 1)) % sizeMax })).id =
      s.allocators.id := by
    rw [AsanAllocators.id_setPool, Option.map_some, hn, ← hid, Function.update_eq_self]
  rcases hi.tags.freeTagged ho (w := .pool p) id hid hsmall with ⟨hne, hrun⟩
    | ⟨howner, h', hrun, hmem, htags⟩
  · exact .inl ⟨hne, by rw [hexec, hrun]; rfl⟩
  · rw [hrun] at hexec
    refine .inr ⟨fun hne => hne howner, _, hexec, ?_, AsanCall.keeps_of_mem hmem⟩
    have hself : ¬o.owner.IsSmall := howner ▸ id
    refine hi.take htags ho hids (fun _ _ hw hs => hs.setPool (howner ▸ hw)) ?_
      (hi.leases.take ho hself)
    rw [howner]
    intro objs hcount _ hs pool' hpool'
    obtain ⟨hcreated, hobjcount, hobjs⟩ := hs pool hpool
    have heq : { pool with objcount := (pool.objcount + (sizeMax - 1)) % sizeMax } = pool' := by
      simpa [AsanAllocators.setPool] using hpool'
    subst heq
    refine ⟨⟨hcreated.pos, hcreated.lt, hcreated.alignment⟩,
      ?_, fun o' ho' => hobjs o' (List.mem_cons_of_mem _ ho')⟩
    rw [List.length_cons] at hobjcount
    rw [show pool.objcount + (sizeMax - 1) = objs.length + sizeMax by omega, Nat.add_mod_right,
      Nat.mod_eq_of_lt (by omega)]

/-! ### Slab caches -/

theorem slabCacheCreate_meets (hi : s.Inv) {c : ι} (ha : (AsanCall.slabCacheCreate c).Allowed s) :
    (AsanCall.slabCacheCreate c).Meets s := by
  by_cases hquota : quotaUseMin ≤ quotaTotal s.source
  · have hexec : (AsanCall.slabCacheCreate c).exec s = some { s with
        heap := s.heap.smallAsanReserveId.2
        allocators :=
            s.allocators.setCache c (some ⟨⟨0, 0⟩, 0, s.heap.smallAsanReserveId.1⟩) } := by
      rw [AsanCall.exec, asanSlabCacheCreate_eq, if_pos hquota]
      rfl
    have hnone : s.allocators.quota c = none := by
      have hid := ha.1
      simp only [AsanAllocators.id, Option.map_eq_none_iff] at hid
      rw [AsanAllocators.quota, hid]
      rfl
    refine .inr ⟨Nat.not_lt.2 hquota, _, hexec, ?_, AsanCall.keeps_of_mem rfl⟩
    refine hi.create ha (AsanAllocators.id_setCache _ _) (fun _ _ hw hs => hs.setCache hw) ?_ ?_
    · intro cache' hcache'
      have heq : ⟨⟨0, 0⟩, 0, s.heap.smallAsanReserveId.1⟩ = cache' := by
        simpa [AsanAllocators.setCache] using hcache'
      rw [← heq]
      rfl
    · rw [AsanAllocators.quota_setCache]
      exact hi.leases.create hnone
  · refine .inl ⟨Nat.lt_of_not_le hquota, ?_⟩
    rw [AsanCall.exec, asanSlabCacheCreate_eq, if_neg hquota]
    rfl

theorem slabCacheDestroy_meets (hi : s.Inv) {c : ι} (ha : (AsanCall.slabCacheDestroy c).Allowed s) :
    (AsanCall.slabCacheDestroy c).Meets s := by
  obtain ⟨hd, hnobody⟩ := ha
  obtain ⟨n, hid⟩ := Option.isSome_iff_exists.1 hd.1
  obtain ⟨cache, hcache, -⟩ := Option.map_eq_some_iff.1 hid
  have hq : s.allocators.quota c = some cache.quota := by
    rw [AsanAllocators.quota, hcache]
    rfl
  have hexec :
      (AsanCall.slabCacheDestroy c).exec s = (quotaLessorDestroy cache.quota s.source).map fun r =>
      { s with allocators := s.allocators.setCache c none, source := r.2 } := by
    rw [AsanCall.exec, hcache, Option.bind_eq_bind, Option.bind_some]
    cases quotaLessorDestroy cache.quota s.source <;> rfl
  rcases hi.leases.destroy hq hnobody with ⟨hmax, hrun⟩ | ⟨hmax, r, source', hrun, hleases⟩
  · exact .inl ⟨⟨cache, hcache, hmax⟩, by rw [hexec, hrun]; rfl⟩
  · rw [hrun] at hexec
    refine .inr ⟨?_, _, hexec, ?_, AsanCall.keeps_of_mem rfl⟩
    · rintro ⟨cache', hcache', hmax'⟩
      rw [hcache, Option.some.injEq] at hcache'
      exact hmax (hcache' ▸ hmax')
    · refine hi.destroy hd (AsanAllocators.id_setCache _ _) (fun _ _ hw hs => hs.setCache hw) ?_ ?_
      · intro cache' hcache'
        simp [AsanAllocators.setCache] at hcache'
      · rw [AsanAllocators.quota_setCache]
        exact hleases

theorem slabGet_meets (hi : s.Inv) {c : ι} {size answer : Nat}
    (ha : (AsanCall.slabGet c size answer).Allowed s) :
    (AsanCall.slabGet c size answer).Meets s := by
  obtain ⟨hsome, hsize, hfresh⟩ := ha
  obtain ⟨cache, hcache⟩ := Option.isSome_iff_exists.1 hsome
  have hid := AsanAllocators.id_cache hcache
  obtain ⟨slab, h', hrun, hg⟩ := asanSlabGet_spec c (hi.id_lt hid) hsize hfresh
  generalize hreal : alignUp 12 (size + 8) = real at hfresh hrun hg
  have hexec : (AsanCall.slabGet c size answer).exec s = some { s with
      heap := h'
      allocators :=
        s.allocators.setCache c (some { cache with used := (cache.used + real) % sizeMax })
      live := ⟨.cache c, answer, slab, real, smallCacheSlabAlignment, ptrSize⟩ :: s.live } := by
    rw [AsanCall.exec, hcache, Option.bind_eq_bind, Option.bind_some, hrun, hreal]
    rfl
  have hids : (s.allocators.setCache c
      (some { cache with used := (cache.used + real) % sizeMax })).id =
      s.allocators.id := by
    rw [AsanAllocators.id_setCache, Option.map_some, ← hid, Function.update_eq_self]
  have hquota :
      (s.allocators.setCache c (some { cache with used := (cache.used + real) % sizeMax })).quota =
      s.allocators.quota := by
    have hq : s.allocators.quota c = some cache.quota := by
      rw [AsanAllocators.quota, hcache]
      rfl
    rw [AsanAllocators.quota_setCache, Option.map_some, ← hq, Function.update_eq_self]
  refine .inr ⟨id, _, hexec, ?_, hi.keeps_of_gives hg hfresh⟩
  refine hi.give hg hfresh hid hids (fun _ _ hw hs => hs.setCache hw) ?_
    (hquota ▸ hi.leases.give id)
  intro objs _ hsum hs cache' hcache'
  have heq : { cache with used := (cache.used + real) % sizeMax } = cache' := by
    simpa [AsanAllocators.setCache] using hcache'
  rw [← heq, List.map_cons, List.sum_cons, hs cache hcache, Nat.add_comm real,
    Nat.mod_eq_of_lt hsum]

theorem slabPut_meets (hi : s.Inv) {c : ι} (ha : (AsanCall.slabPut c o).Allowed s) :
    (AsanCall.slabPut c o).Meets s := by
  obtain ⟨ho, n, hid, hsmall⟩ := ha
  obtain ⟨cache, hcache, hn⟩ := Option.map_eq_some_iff.1 hid
  generalize hused :
    (cache.used + (sizeMax - loadLe s.heap.mem o.payload asanSlabSizeof)) % sizeMax = used
  have hexec : (AsanCall.slabPut c o).exec s = (s.heap.freeTagged n o.payload).map fun h => { s with
      heap := h
      allocators := s.allocators.setCache c (some { cache with used := used })
      live := s.live.erase o } := by
    rw [AsanCall.exec, hcache, Option.bind_eq_bind, Option.bind_some, asanSlabPut_eq, hn, hused]
    cases s.heap.freeTagged n o.payload <;> rfl
  have hids : (s.allocators.setCache c (some { cache with used := used })).id =
      s.allocators.id := by
    rw [AsanAllocators.id_setCache, Option.map_some, hn, ← hid, Function.update_eq_self]
  have hquota : (s.allocators.setCache c (some { cache with used := used })).quota =
      s.allocators.quota := by
    have hq : s.allocators.quota c = some cache.quota := by
      rw [AsanAllocators.quota, hcache]
      rfl
    rw [AsanAllocators.quota_setCache, Option.map_some, ← hq, Function.update_eq_self]
  rcases hi.tags.freeTagged ho (w := .cache c) id hid hsmall with ⟨hne, hrun⟩
    | ⟨howner, h', hrun, hmem, htags⟩
  · exact .inl ⟨hne, by rw [hexec, hrun]; rfl⟩
  · rw [hrun] at hexec
    refine .inr ⟨fun hne => hne howner, _, hexec, ?_, AsanCall.keeps_of_mem hmem⟩
    have hself : ¬o.owner.IsSmall := howner ▸ id
    refine hi.take htags ho hids (fun _ _ hw hs => hs.setCache (howner ▸ hw)) ?_
      (hquota ▸ hi.leases.take ho hself)
    have hsize : loadLe s.heap.mem o.payload asanSlabSizeof = o.size := by
      obtain ⟨m, -, hw⟩ := hi.tags.written o ho
      obtain ⟨w, block, payload, size, alignment, headerSize⟩ := o
      have howner : w = .cache c := howner
      subst howner
      exact hw.2.2.2.1
    rw [howner]
    intro objs _ hsum hs cache' hcache'
    have heq : { cache with used := used } = cache' := by
      simpa [AsanAllocators.setCache] using hcache'
    have hold := hs cache hcache
    rw [List.map_cons, List.sum_cons] at hold
    rw [← heq, ← hused, hsize,
      show cache.used + (sizeMax - o.size) = (objs.map (·.size)).sum + sizeMax by omega,
      Nat.add_mod_right, Nat.mod_eq_of_lt (by omega)]

/-! ### Allocators of small objects -/

theorem smallAllocCreate_meets (hi : s.Inv) {a c : ι}
    (ha : (AsanCall.smallAllocCreate a c).Allowed s) :
    (AsanCall.smallAllocCreate a c).Meets s := by
  obtain ⟨hc, hsome⟩ := ha
  obtain ⟨cache, hcache⟩ := Option.isSome_iff_exists.1 hsome
  refine .inr ⟨id, _, rfl, ?_, AsanCall.keeps_of_mem rfl⟩
  refine hi.create hc (AsanAllocators.id_setAlloc _ _) (fun _ _ hw hs => hs.setAlloc hw) ?_ ?_
  · intro alloc' halloc'
    have heq : AsanSmallAlloc.mk c 0 0 s.heap.smallAsanIdNext = alloc' := by
      simpa [AsanAllocators.setAlloc] using halloc'
    rw [← heq]
    exact ⟨rfl, rfl⟩
  · rw [AsanAllocators.lender_setAlloc]
    refine hi.leases.setLender (hi.no_blocks hc.1) fun c' hc' => ?_
    rw [← Option.some.inj hc']
    exact ⟨cache.quota, by rw [AsanAllocators.quota, hcache]; rfl⟩

theorem smallAllocDestroy_meets (hi : s.Inv) {a : ι}
    (ha : (AsanCall.smallAllocDestroy a).Allowed s) :
    (AsanCall.smallAllocDestroy a).Meets s := by
  refine .inr ⟨id, _, rfl, ?_, AsanCall.keeps_of_mem rfl⟩
  refine hi.destroy ha (AsanAllocators.id_setAlloc _ _) (fun _ _ hw hs => hs.setAlloc hw) ?_ ?_
  · intro alloc' halloc'
    simp [AsanAllocators.setAlloc] at halloc'
  · rw [AsanAllocators.lender_setAlloc]
    exact hi.leases.setLender ha.2 fun c hc => (by cases hc)

theorem smalloc_meets (hi : s.Inv) {a : ι} {size answer : Nat}
    (ha : (AsanCall.smalloc a size answer).Allowed s) :
    (AsanCall.smalloc a size answer).Meets s := by
  obtain ⟨alloc, cache, halloc, hcache, hsize, hfits, hfresh⟩ := ha
  have hid := AsanAllocators.id_alloc halloc
  have hq : s.allocators.quota alloc.cache = some cache.quota := by
    rw [AsanAllocators.quota, hcache]
    rfl
  have hlender : s.allocators.lender a = some alloc.cache := by
    rw [AsanAllocators.lender, halloc]
    rfl
  rcases hi.leases.lease hq hsize hfits with hfail | ⟨lessor, source, hlease, hleases⟩
  · have hexec : (AsanCall.smalloc a size answer).exec s = some s := by
      have hrun : asanSmalloc s.heap alloc cache.quota s.source size answer =
          some (0, alloc, cache.quota, s.source, s.heap) :=
        asanSmalloc_null hfail
      rw [AsanCall.exec, halloc, Option.bind_eq_bind, Option.bind_some, hcache,
        Option.bind_eq_bind, Option.bind_some, hrun]
      refine congrArg some ?_
      show ({ s with
        allocators := (s.allocators.setCache alloc.cache (some cache)).setAlloc a (some alloc) } :
          AsanState ι) = s
      rw [AsanAllocators.setCache_self hcache, AsanAllocators.setAlloc_self halloc]
    exact .inr ⟨id, s, hexec, hi, AsanCall.keeps_of_mem rfl⟩
  · have hfresh := hfresh size lessor source hlease
    obtain ⟨ptr, h', hrun, hg⟩ := asanSmalloc_spec a (hi.id_lt hid) hlease hfresh
    have hptr : ptr ≠ 0 := by
      have hafter : answer + smallObjectSizeof + 16 < ptr := hg.placed.after
      omega
    let alloc' := { alloc with
      used := (alloc.used + size) % sizeMax, objcount := (alloc.objcount + 1) % sizeMax }
    obtain ⟨hids, hquota, hlenders, hothers⟩ :=
      AsanAllocators.lease_tables alloc' lessor halloc hcache rfl rfl
    have hexec : (AsanCall.smalloc a size answer).exec s = some { s with
        heap := h'
        allocators := (s.allocators.setCache alloc.cache
            (some { cache with quota := lessor })).setAlloc a (some alloc')
        source := source
        live := ⟨.small a, answer, ptr, size, smallAsanAlignment,
            smallObjectSizeof⟩ :: s.live } := by
      rw [AsanCall.exec, halloc, Option.bind_eq_bind, Option.bind_some, hcache,
        Option.bind_eq_bind, Option.bind_some, hrun, Option.bind_eq_bind, Option.bind_some]
      dsimp only
      rw [if_neg hptr]
    refine .inr ⟨id, _, hexec, ?_, hi.keeps_of_gives hg hfresh⟩
    refine hi.give hg hfresh hid hids hothers ?_ ?_
    · intro objs hcount hsum hs alloc₁ halloc₁
      obtain ⟨hobjcount, hused⟩ := hs alloc halloc
      have heq : alloc' = alloc₁ := by simpa [AsanAllocators.setAlloc] using halloc₁
      rw [← heq, List.length_cons, List.map_cons, List.sum_cons]
      refine ⟨?_, ?_⟩
      · show (alloc.objcount + 1) % sizeMax = objs.length + 1
        rw [hobjcount, Nat.mod_eq_of_lt hcount]
      · show (alloc.used + size) % sizeMax = size + (objs.map (·.size)).sum
        rw [hused, Nat.mod_eq_of_lt hsum, Nat.add_comm]
    · rw [hquota, hlenders]
      exact hleases _ hlender rfl

theorem smfree_meets (hi : s.Inv) {a : ι} {size : Nat} (ha : (AsanCall.smfree a o size).Allowed s) :
    (AsanCall.smfree a o size).Meets s := by
  obtain ⟨hsome, ho, hsmall⟩ := ha
  obtain ⟨alloc, halloc⟩ := Option.isSome_iff_exists.1 hsome
  have hid := AsanAllocators.id_alloc halloc
  have hlender : s.allocators.lender a = some alloc.cache := by
    rw [AsanAllocators.lender, halloc]
    rfl
  obtain ⟨lessor₀, hq⟩ := hi.leases.lenders a alloc.cache hlender
  obtain ⟨cache, hcache, rfl⟩ := Option.map_eq_some_iff.1 hq
  have hheader := (hi.tags.holds.tagged o ho).header_from_payload (hi.tags.holds.placed o ho)
  obtain ⟨hload, howner⟩ : loadLe s.heap.mem o.header 8 = o.size ∧
      (loadLe s.heap.mem (o.header + 8) 4 = alloc.id ↔ o.owner = .small a) := by
    obtain ⟨n, hn, hw⟩ := hi.tags.written o ho
    obtain ⟨w, block, payload, size', alignment, headerSize⟩ := o
    cases w with
    | small b =>
        obtain ⟨hload, -, -, hword⟩ := hw
        refine ⟨hword, fun heq => ?_, fun heq => ?_⟩
        · exact hi.tags.ids_inj _ _ _ hn (hid.trans (congrArg some (heq.symm.trans hload)))
        · have heq : AsanOwner.small b = .small a := heq
          have hn : s.allocators.id (.small b) = some n := hn
          rw [heq, hid, Option.some.injEq] at hn
          exact hload.trans hn.symm
    | _ => exact absurd hsmall id
  have hrun := asanSmfree_eq alloc cache.quota s.source size hheader
  simp only [hload, howner] at hrun
  by_cases hright : o.size = size ∧ o.owner = .small a
  · obtain ⟨rfl, hself⟩ := hright
    obtain ⟨lessor, source, hend, hleases⟩ :=
      hi.leases.endLease hq ho (by rw [hself]; exact hlender)
    obtain ⟨h', hfree, hmem, hnext, hholds⟩ := hi.tags.holds.free ho
    let alloc' := { alloc with used := (alloc.used + (sizeMax - o.size)) % sizeMax,
                               objcount := (alloc.objcount + (sizeMax - 1)) % sizeMax }
    obtain ⟨hids, hquota, hlenders, hothers⟩ :=
      AsanAllocators.lease_tables alloc' lessor halloc hcache rfl rfl
    rw [if_pos ⟨rfl, hself⟩, hend, Option.bind_eq_bind, Option.bind_some, hfree] at hrun
    have hexec : (AsanCall.smfree a o o.size).exec s = some { s with
        heap := h'
        allocators := (s.allocators.setCache alloc.cache
            (some { cache with quota := lessor })).setAlloc a (some alloc')
        source := source
        live := s.live.erase o } := by
      rw [AsanCall.exec, halloc, Option.bind_eq_bind, Option.bind_some, hcache,
        Option.bind_eq_bind, Option.bind_some, hrun]
      rfl
    have hwrong : ¬(AsanCall.smfree a o o.size).Wrong s := by
      rintro (hne | hne)
      · exact hne hself
      · exact hne rfl
    refine .inr ⟨hwrong, _, hexec, ?_, AsanCall.keeps_of_mem hmem⟩
    refine hi.take (hi.tags.erase hmem hnext hholds) ho hids
      (fun w objs hw hs => hothers w objs (hself ▸ hw) hs) ?_ ?_
    · rw [hself]
      intro objs hcount hsum hs alloc₁ halloc₁
      obtain ⟨hobjcount, hused⟩ := hs alloc halloc
      rw [List.length_cons] at hobjcount
      rw [List.map_cons, List.sum_cons] at hused
      have heq : alloc' = alloc₁ := by simpa [AsanAllocators.setAlloc] using halloc₁
      rw [← heq]
      refine ⟨?_, ?_⟩
      · show (alloc.objcount + (sizeMax - 1)) % sizeMax = objs.length
        rw [show alloc.objcount + (sizeMax - 1) = objs.length + sizeMax by omega, Nat.add_mod_right,
          Nat.mod_eq_of_lt (by omega)]
      · show (alloc.used + (sizeMax - o.size)) % sizeMax = (objs.map (·.size)).sum
        rw [show alloc.used + (sizeMax - o.size) = (objs.map (·.size)).sum + sizeMax by omega,
          Nat.add_mod_right, Nat.mod_eq_of_lt (by omega)]
    · rw [hquota, hlenders]
      exact hleases
  · have hwrong : (AsanCall.smfree a o size).Wrong s := by
      by_cases hself : o.owner = .small a
      · exact .inr fun hsize => hright ⟨hsize, hself⟩
      · exact .inl hself
    refine .inl ⟨hwrong, ?_⟩
    rw [if_neg hright] at hrun
    rw [AsanCall.exec, halloc, Option.bind_eq_bind, Option.bind_some, hcache, Option.bind_eq_bind,
      Option.bind_some, hrun]
    rfl

/-! ### Clients and the quota -/

theorem write_meets (hi : s.Inv) {mem : Nat → UInt8} (ha : (AsanCall.write mem).Allowed s) :
    (AsanCall.write mem).Meets s := by
  refine .inr ⟨id, _, rfl, ?_, fun hne => absurd rfl (hne mem)⟩
  exact ⟨hi.tags.write rfl rfl ha, hi.serves, hi.leases⟩

theorem other_meets (hi : s.Inv) {op : QuotaOp} (ha : (AsanCall.other op).Allowed s) :
    (AsanCall.other op).Meets s := by
  obtain ⟨hclient, hfits⟩ := ha
  have hothers : s.others ≤ usedInUnits s.source := by
    have hheld := hi.leases.held
    rw [quotaUsed] at hheld
    apply Nat.le_of_mul_le_mul_right _ (show 0 < quotaUnitSize by decide)
    omega
  rcases hclient.run hfits hothers with hfail | ⟨source, hrun, heffect⟩
  · have hexec : (AsanCall.other op).exec s = some s := by
      rw [AsanCall.exec, hfail]
      rfl
    exact .inr ⟨id, s, hexec, hi, AsanCall.keeps_of_mem rfl⟩
  · have hexec : (AsanCall.other op).exec s =
        some { s with source := source, others := op.settle s.others } := by
      rw [AsanCall.exec, hrun]
      rfl
    exact .inr ⟨id, _, hexec, ⟨hi.tags, hi.serves, hi.leases.other heffect hclient⟩,
      AsanCall.keeps_of_mem rfl⟩

theorem AsanCall.meets (hi : s.Inv) (ha : op.Allowed s) : op.Meets s := by
  cases op with
  | slabArenaCreate a slabSize => exact slabArenaCreate_meets hi ha
  | slabArenaDestroy a => exact slabArenaDestroy_meets hi ha
  | slabMap a answer => exact slabMap_meets hi ha
  | slabUnmap a o => exact slabUnmap_meets hi ha
  | slabCacheCreate c => exact slabCacheCreate_meets hi ha
  | slabCacheDestroy c => exact slabCacheDestroy_meets hi ha
  | slabGet c size answer => exact slabGet_meets hi ha
  | slabPut c o => exact slabPut_meets hi ha
  | mempoolCreate p objsize => exact mempoolCreate_meets hi ha
  | mempoolDestroy p => exact mempoolDestroy_meets hi ha
  | mempoolAlloc p answer => exact mempoolAlloc_meets hi ha
  | mempoolFree p o => exact mempoolFree_meets hi ha
  | smallAllocCreate a c => exact smallAllocCreate_meets hi ha
  | smallAllocDestroy a => exact smallAllocDestroy_meets hi ha
  | smalloc a size answer => exact smalloc_meets hi ha
  | smfree a o size => exact smfree_meets hi ha
  | write mem => exact write_meets hi ha
  | other op => exact other_meets hi ha

/-! ## Runs -/

theorem AsanState.Created.inv (hc : s.Created) : s.Inv := by
  obtain ⟨hblocks, hnext, hallocators, hothers, hlive⟩ := hc
  have hids : ∀ w, s.allocators.id w = none := by
    intro w
    rw [hallocators]
    cases w <;> rfl
  constructor
  case tags =>
    rw [hlive]
    constructor
    case holds => exact ⟨by simp, by simp, by simp [hblocks], List.Pairwise.nil⟩
    case next => exact hnext
    case ids_lt =>
      intro w n hn
      rw [hids w] at hn
      cases hn
    case ids_inj =>
      intro w w' n hn
      rw [hids w] at hn
      cases hn
    case written => simp
  case serves =>
    intro w
    rw [hallocators]
    cases w <;> intro r hr <;> cases hr
  case leases =>
    rw [hallocators]
    constructor
    case lenders => exact fun a c hc => (by cases hc)
    case lessor => exact fun c lessor hc => (by cases hc)
    case held =>
      rw [hothers, quotaUsed]
      simp [AsanAllocators.quota]

theorem asanAllocatorsMachine_inv (hs : (asanAllocatorsMachine ι).Reachable s) : s.Inv := by
  refine Machine.Reachable.of_step (P := AsanState.Inv) _ (fun _ (hc : AsanState.Created _) =>
      hc.inv) (fun s op s' hi ha hex => ?_) hs
  rcases AsanCall.meets hi ha with ⟨-, hnone⟩ | ⟨-, s₁, hsome, hi', -⟩
  · have hex : op.exec s = some s' := hex
    rw [hnone] at hex
    cases hex
  · have hex : op.exec s = some s' := hex
    rw [hsome, Option.some.injEq] at hex
    exact hex ▸ hi'

/-- What an arena, a slab cache or a pool makes of a small object: it looks at the low half of
the size. -/
theorem AsanState.Inv.confused (hi : s.Inv) (ho : o ∈ s.live) (hsmall : o.owner.IsSmall)
    (id : Nat) :
    s.heap.freeTagged id o.payload = none ↔ o.size % 2 ^ 32 ≠ id := by
  have hload : loadLe s.heap.mem o.header 4 = o.size % 2 ^ 32 := by
    rcases hi.tags.load ho with ⟨hnot, -⟩ | ⟨-, hload⟩
    · exact absurd hsmall hnot
    · exact hload
  rcases hi.tags.holds.freeTagged ho id with ⟨hrun, hne⟩ | ⟨h', hrun, heq, -⟩
  · exact iff_of_true hrun (hload ▸ hne)
  · exact iff_of_false (by simp [hrun]) (fun hne => hne (hload ▸ heq))

/-- What somebody writes in front of a payload is found when the block is freed. -/
theorem AsanState.Inv.underflow (hi : s.Inv) (ho : o ∈ s.live) {mem : Nat → UInt8}
    (hsame : ∀ x, (x < magicBegin o.payload ∨ o.payload ≤ x) → mem x = s.heap.mem x) :
    ({ s.heap with mem := mem } : AsanHeap).free o.header = none ↔
      ∃ x, magicBegin o.payload ≤ x ∧ x < o.payload ∧ mem x ≠ s.heap.mem x := by
  have hp := hi.tags.holds.placed o ho
  have hafter := hp.after
  have hmagic := magicBegin_bounds o.payload
  have hfront : load16 mem o.block = load16 s.heap.mem o.block := by
    rw [load16, load16, hsame _ (.inl (by omega)), hsame _ (.inl (by omega))]
  rw [← (hi.tags.holds.tagged o ho).free_eq_none hp hfront]
  constructor
  · intro hnone
    by_contra hsome
    have hmem : mem = s.heap.mem := by
      have hnot := mt ((hi.tags.holds.tagged o ho).free_eq_none hp hfront).2 hsome
      funext x
      by_cases hx : magicBegin o.payload ≤ x ∧ x < o.payload
      · by_contra hne
        exact hnot ⟨x, hx.1, hx.2, hne⟩
      · exact hsame x (by omega)
    obtain ⟨h', hrun, -⟩ := hi.tags.holds.free ho
    rw [hmem] at hnone
    rw [hnone] at hrun
    cases hrun
  · intro hnone
    rw [AsanHeap.free, hnone]
    rfl

/-- **The allocators of a build with ASAN** in every run: what they count, what they lease and
what is on the heap is what clients have, whichever calls they make; and each mistake with an
allocator, with a size or with a write in front of a payload is found, but for small objects
whose size ends with an id. -/
theorem asan_allocators (hs : (asanAllocatorsMachine ι).Reachable s) :
    s.Inv ∧
    (∀ op : AsanCall ι, op.Allowed s → (op.exec s = none ↔ op.Wrong s) ∧
      ∀ s', op.exec s = some s' → op.Keeps s s') ∧
    (∀ o ∈ s.live, o.owner.IsSmall → ∀ id, s.heap.freeTagged id o.payload = none ↔
      o.size % 2 ^ 32 ≠ id) ∧
    ∀ o ∈ s.live, ∀ mem, (∀ x, (x < magicBegin o.payload ∨ o.payload ≤ x) → mem x = s.heap.mem x) →
      (({ s.heap with mem := mem } : AsanHeap).free o.header = none ↔
        ∃ x, magicBegin o.payload ≤ x ∧ x < o.payload ∧ mem x ≠ s.heap.mem x) := by
  have hi := asanAllocatorsMachine_inv hs
  refine ⟨hi, fun op ha => ?_, fun o ho hsmall id =>
    hi.confused ho hsmall id, fun o ho mem hsame => hi.underflow ho hsame⟩
  rcases AsanCall.meets hi ha with ⟨hwrong, hnone⟩ | ⟨hright, s₁, hsome, -, hkeeps⟩
  · refine ⟨iff_of_true hnone hwrong, fun s' hex => ?_⟩
    rw [hnone] at hex
    cases hex
  · refine ⟨iff_of_false (by simp [hsome]) hright, fun s' hex => ?_⟩
    rw [hsome, Option.some.injEq] at hex
    exact hex ▸ hkeeps

end Calls

/-! ## Two pools -/

/-- Two pools for objects of one size. -/
def twoPools : AsanState Bool where
  heap := { mem := fun _ => 0, blocks := [], smallAsanIdNext := 2 }
  allocators := AsanAllocators.setPool
    (AsanAllocators.setPool ⟨fun _ => none, fun _ => none, fun _ => none, fun _ => none⟩ false
      (some ⟨24, 0, 8, 0⟩))
    true (some ⟨24, 0, 8, 1⟩)
  source := 0
  others := 0
  live := []

theorem twoPools_reachable : (asanAllocatorsMachine Bool).Reachable twoPools := by
  let empty : AsanState Bool :=
    ⟨⟨fun _ => 0, [], 0⟩, ⟨fun _ => none, fun _ => none, fun _ => none, fun _ => none⟩, 0, 0, []⟩
  let onePool : AsanState Bool :=
    ⟨⟨fun _ => 0, [], 1⟩, empty.allocators.setPool false (some ⟨24, 0, 8, 0⟩), 0, 0, []⟩
  have h0 : (asanAllocatorsMachine Bool).Reachable empty :=
    .init ⟨rfl, by decide, rfl, by decide, rfl⟩
  have h1 : (asanAllocatorsMachine Bool).Reachable onePool :=
    .step (.mempoolCreate false 24) h0 ⟨⟨rfl, by decide⟩, by decide⟩ rfl
  exact .step (.mempoolCreate true 24) h1 ⟨⟨rfl, by decide⟩, by decide⟩ rfl

/-- An object of one pool, which the other one does not take. -/
theorem asan_allocators_two_pools :
    ∃ s o, (asanAllocatorsMachine Bool).Reachable s ∧ o ∈ s.live ∧ o.owner = .pool false ∧
    (AsanCall.mempoolFree false o).exec s ≠ none ∧ (AsanCall.mempoolFree true o).exec s = none := by
  have hallowed : (asanAllocatorsMachine Bool).allowed twoPools (.mempoolAlloc false 4096) :=
    ⟨⟨24, 0, 8, 0⟩, rfl, ⟨by decide, by decide⟩, by decide, by simp [twoPools]⟩
  have hcalls := (asan_allocators twoPools_reachable).2.1 (.mempoolAlloc false 4096) hallowed
  obtain ⟨s, hexec⟩ : ∃ s, (AsanCall.mempoolAlloc false 4096).exec twoPools = some s :=
    Option.ne_none_iff_exists'.1 fun hnone => hcalls.1.1 hnone
  have hs : (asanAllocatorsMachine Bool).Reachable s := .step _ twoPools_reachable hallowed hexec
  obtain ⟨o, hlive, howner, hid, hid'⟩ : ∃ o, s.live = [o] ∧ o.owner = .pool false ∧
      s.allocators.id (.pool false) = some 0 ∧ s.allocators.id (.pool true) = some 1 := by
    rw [AsanCall.exec] at hexec
    obtain ⟨pool, hpool, hexec⟩ := Option.bind_eq_some_iff.1 hexec
    obtain ⟨⟨ptr, pool', heap⟩, halloc, hexec⟩ := Option.bind_eq_some_iff.1 hexec
    obtain ⟨⟨ptr', heap'⟩, -, halloc⟩ := Option.bind_eq_some_iff.1 halloc
    rw [← Option.some.inj hpool] at halloc
    have hid : pool'.id = 0 := by
      rw [← congrArg (fun r => r.2.1.id) (Option.some.inj halloc)]
    rw [← Option.some.inj hexec]
    exact ⟨_, rfl, rfl, congrArg some hid, rfl⟩
  have ho : o ∈ s.live := by simp [hlive]
  have hnot : o.owner.IsSmall → False := by
    rw [howner]
    exact id
  have hright :=
    (asan_allocators hs).2.1 (.mempoolFree false o) ⟨ho, 0, hid, fun his => absurd his hnot⟩
  have hwrong :=
    (asan_allocators hs).2.1 (.mempoolFree true o) ⟨ho, 1, hid', fun his => absurd his hnot⟩
  refine ⟨s, o, hs, ho, howner, fun hnone => hright.1.1 hnone howner, hwrong.1.2 fun heq => ?_⟩
  rw [howner] at heq
  cases heq

end SmallAllocators
