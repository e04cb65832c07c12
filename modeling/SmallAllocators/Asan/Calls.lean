/-
SmallAllocators.Asan.Calls — what each call of the allocators does to the
blocks and to its own structure.
-/
import SmallAllocators.Asan.Owners

namespace SmallAllocators

open Memory

variable {ι : Type} {h : AsanHeap} {answer size : Nat}

/-! ## Blocks that are given out -/

/-- The size of the block with such a payload. -/
def asanBlockSize (payloadSize alignment headerSize : Nat) : Nat :=
  headerSize + payloadSize + 2 * alignment + 16

/-- An id, in a header of 4 bytes or more. -/
theorem AsanHeap.allocTagged_gives {headerSize id k : Nat} (w : AsanOwner ι)
    (hfresh : h.Fresh (asanBlockSize size (2 ^ k) headerSize) answer)
    (hsmall : headerSize + 2 * 2 ^ k + 8 ≤ uint16Max) (hheader : 4 ≤ headerSize)
    (hid : id < 2 ^ 32)
    (hwritten : ∀ payload mem, loadLe mem (answer + 8) 4 = id →
      (AsanObject.mk w answer payload size (2 ^ k) headerSize).Written mem id) :
    ∃ payload h', h.allocTagged size (2 ^ k) headerSize id answer = some (payload, h') ∧
      h.Gives h' ⟨w, answer, payload, size, 2 ^ k, headerSize⟩ id := by
  obtain ⟨payload, mem', hrun, hp, ht, hload, hsame⟩ :=
    h.allocTagged_spec w hfresh.malloced hsmall hheader hid
  refine ⟨payload, _, hrun, ?_⟩
  have hinside : payload + size ≤ answer + _ := hp.inside
  constructor
  case placed => exact hp
  case tagged => exact ht
  case written => exact hwritten payload mem' hload
  case blocks => rfl
  case next => rfl
  case same =>
    intro x hx
    dsimp only at hx
    exact hsame x (by omega)

theorem asanSlabMap_spec {arena : AsanArena} (a : ι) (hid : arena.id < 2 ^ 32)
    (hfresh : h.Fresh (asanBlockSize arena.slabSize smallArenaSlabAlignment ptrSize) answer) :
    ∃ slab h', asanSlabMap h arena answer = some (slab, h') ∧
      h.Gives h' ⟨AsanOwner.arena a, answer, slab, arena.slabSize, smallArenaSlabAlignment,
      ptrSize⟩ arena.id :=
  AsanHeap.allocTagged_gives (k := 3) (.arena a) hfresh (by decide) (by decide) hid
    fun _ _ hload => ⟨hload, rfl, rfl⟩

theorem asanMempoolAlloc_spec {pool : AsanMempool} (p : ι) (hc : pool.Created)
    (hid : pool.id < 2 ^ 32)
    (hfresh : h.Fresh (asanBlockSize pool.objsize pool.alignment mempoolObjectSizeof) answer) :
    ∃ ptr h', asanMempoolAlloc h pool answer =
      some (ptr, { pool with objcount := (pool.objcount + 1) % sizeMax }, h') ∧
      h.Gives h' ⟨AsanOwner.pool p, answer, ptr, pool.objsize, pool.alignment,
      mempoolObjectSizeof⟩ pool.id := by
  obtain ⟨k, hk, halign, -⟩ := hc.alignment
  rw [halign] at hfresh ⊢
  have hpow : 2 ^ k ≤ 2 ^ 12 := Nat.pow_le_pow_right (by decide) hk
  have hsmall : mempoolObjectSizeof + 2 * 2 ^ k + 8 ≤ uint16Max := by
    rw [mempoolObjectSizeof, uint16Max]
    omega
  obtain ⟨ptr, h', hrun, hg⟩ := AsanHeap.allocTagged_gives (.pool p) hfresh hsmall (le_refl 4) hid
    fun _ _ hload => ⟨hload, rfl⟩
  refine ⟨ptr, h', ?_, hg⟩
  simp only [asanMempoolAlloc, halign, hrun, Option.bind_eq_bind, Option.bind_some]

theorem asanSlabGet_eq {h' : AsanHeap} {cache : AsanSlabCache} {real slab : Nat}
    (hreal : asanSlabRealSize size = some real)
    (hrun : h.allocTagged real smallCacheSlabAlignment ptrSize cache.id answer = some (slab, h')) :
    asanSlabGet h cache size answer
      = some (slab, { cache with used := (cache.used + real) % sizeMax },
        h'.store slab asanSlabSizeof real) := by
  rw [asanSlabGet, hreal, Option.bind_eq_bind, Option.bind_some, hrun]
  rfl

/-- A block, and a number at the start of its payload. -/
theorem asanSlabGet_spec {cache : AsanSlabCache} (c : ι) (hid : cache.id < 2 ^ 32)
    (hsize : size < 2 ^ 63) (hfresh : h.Fresh
      (asanBlockSize (alignUp 12 (size + 8)) smallCacheSlabAlignment ptrSize) answer) :
    ∃ slab h', asanSlabGet h cache size answer
        = some (slab, { cache with used := (cache.used + alignUp 12 (size + 8)) % sizeMax }, h') ∧
      h.Gives h' ⟨AsanOwner.cache c, answer, slab, alignUp 12 (size + 8), smallCacheSlabAlignment,
      ptrSize⟩ cache.id := by
  have hmax : 2 ^ 63 + 2 ^ 13 < sizeMax := by decide
  have hle := le_alignUp 12 (size + 8)
  have hreal : asanSlabRealSize size = some (alignUp 12 (size + 8)) := by
    have hpage : smallGetpagesize = 2 ^ 12 := by decide
    rw [asanSlabRealSize, asanSlabSizeof, Nat.mod_eq_of_lt (by omega), hpage,
      smallAlign_eq (by omega)]
  generalize alignUp 12 (size + 8) = real at hfresh hreal hle ⊢
  have hmalloced := hfresh.malloced.size_lt
  obtain ⟨slab, mem', hrun, hp, ht, hload, hsame⟩ :=
    h.allocTagged_spec (k := 4) (AsanOwner.cache c) hfresh.malloced (by decide) (by decide) hid
  have hafter : answer + ptrSize + 16 < slab := hp.after
  have hinside := hp.inside
  simp only [AsanObject.blockSize] at hinside
  have hword : ∀ x, x < slab ∨ slab + 8 ≤ x → fill mem' slab 8 (byte real) x = mem' x :=
    fun x hx => fill_of_not (by omega)
  refine ⟨slab, AsanHeap.store { h with
    mem := mem',
    blocks := (answer, ptrSize + real + 2 * 2 ^ 4 + 16) :: h.blocks } slab 8 real, ?_, ?_⟩
  · have halign : smallCacheSlabAlignment = 2 ^ 4 := rfl
    exact asanSlabGet_eq hreal (halign ▸ hrun)
  · constructor
    case placed => exact hp
    case tagged => exact ht.congr hp fun x _ h2 _ => hword x (.inl h2)
    case written =>
      refine ⟨?_, rfl, rfl, ?_, ?_⟩
      · show loadLe (fill mem' slab 8 (byte real)) (answer + 8) 4 = cache.id
        rw [ptrSize] at hafter
        exact (loadLe_congr fun x h1 h2 => hword x (.inl (by omega))).trans hload
      · show loadLe (fill mem' slab 8 (byte real)) slab 8 = real
        rw [loadLe_fill]
        exact Nat.mod_eq_of_lt (by rw [asanBlockSize] at hmalloced; omega)
      · show 8 ≤ real
        omega
    case blocks => rfl
    case next => rfl
    case same =>
      intro x hx
      simp only [AsanObject.blockSize, smallCacheSlabAlignment] at hx
      exact (hword x (by omega)).trans (hsame x (by omega))

/-- What is allocated when the quota is there. -/
theorem asanSmalloc_spec {alloc : AsanSmallAlloc ι} {lessor lessor' : QuotaLessor}
    {source source' r : Nat} (a : ι) (hid : alloc.id < 2 ^ 32)
    (hlease : quotaLease lessor source size = some (some r, lessor', source'))
    (hfresh : h.Fresh (asanBlockSize size smallAsanAlignment smallObjectSizeof) answer) :
    ∃ ptr h', asanSmalloc h alloc lessor source size answer = some (ptr,
        { alloc with
          used := (alloc.used + size) % sizeMax, objcount := (alloc.objcount + 1) % sizeMax },
        lessor', source', h') ∧
      h.Gives h' ⟨AsanOwner.small a, answer, ptr, size, smallAsanAlignment,
      smallObjectSizeof⟩ alloc.id := by
  obtain ⟨ptr, mem', hrun, hp, ht, hsame⟩ :=
    h.alloc_spec (k := 2) (AsanOwner.small a) hfresh.malloced (by decide)
  have hmalloced := hfresh.malloced.size_lt
  have hafter : answer + smallObjectSizeof + 16 < ptr := hp.after
  have hinside := hp.inside
  simp only [AsanObject.blockSize] at hinside
  rw [smallObjectSizeof] at hafter
  generalize hmem :
    fill (fill mem' (answer + 8) 8 (byte size)) (answer + 8 + 8) 4 (byte alloc.id) = mem''
  have hother : ∀ x, x < answer + 8 ∨ answer + 24 ≤ x → mem'' x = mem' x := by
    intro x hx
    rw [← hmem, fill_of_not (by omega), fill_of_not (by omega)]
  have ht' : (AsanObject.mk (AsanOwner.small a) answer ptr size (2 ^ 2) smallObjectSizeof).Tagged
      mem'' := by
    refine ht.congr hp fun x _ _ hx => hother x ?_
    simp only [AsanObject.header_eq, smallObjectSizeof] at hx
    omega
  refine ⟨ptr, { h with
    mem := mem'',
    blocks := (answer, smallObjectSizeof + size + 2 * 2 ^ 2 + 16) :: h.blocks }, ?_, ?_⟩
  · have hfrom : smallAsanPayloadFromHeader mem'' (answer + 8) = ptr := ht'.payload_from_header hp
    have halign : smallAsanAlignment = 2 ^ 2 := rfl
    simp only [asanSmalloc, hlease, halign, hrun, AsanHeap.store, hmem, hfrom,
      Option.bind_eq_bind, Option.bind_some]
  · constructor
    case placed => exact hp
    case tagged => exact ht'
    case written =>
      refine ⟨?_, rfl, rfl, ?_⟩
      · show loadLe mem'' (answer + 8 + 8) 4 = alloc.id
        rw [← hmem, loadLe_fill]
        exact Nat.mod_eq_of_lt hid
      · show loadLe mem'' (answer + 8) 8 = size
        have hlow : ∀ x, answer + 8 ≤ x → x < answer + 8 + 8 →
            mem'' x = fill mem' (answer + 8) 8 (byte size) x :=
          fun x h1 h2 => by rw [← hmem, fill_of_not (by omega)]
        rw [loadLe_congr hlow, loadLe_fill]
        exact Nat.mod_eq_of_lt (by rw [asanBlockSize] at hmalloced; omega)
    case blocks => rfl
    case next => rfl
    case same =>
      intro x hx
      simp only [AsanObject.blockSize, smallAsanAlignment, smallObjectSizeof] at hx hinside
      exact (hother x (by omega)).trans (hsame x (by omega))

theorem asanSmalloc_null {alloc : AsanSmallAlloc ι} {lessor lessor' : QuotaLessor}
    {source source' : Nat}
    (hlease : quotaLease lessor source size = some (none, lessor', source')) :
    asanSmalloc h alloc lessor source size answer = some (0, alloc, lessor', source', h) := by
  simp only [asanSmalloc, hlease, Option.bind_eq_bind, Option.bind_some]

/-! ## Blocks that come back -/

theorem asanSlabUnmap_eq {arena : AsanArena} {ptr : Nat} (hpos : 0 < ptr) :
    asanSlabUnmap h arena ptr = h.freeTagged arena.id ptr := if_neg (Nat.ne_of_gt hpos)

theorem asanSlabPut_eq {cache : AsanSlabCache} {slab : Nat} :
    asanSlabPut h cache slab = (h.freeTagged cache.id slab).map fun h' =>
      ({ cache with used :=
            (cache.used + (sizeMax - loadLe h.mem slab asanSlabSizeof)) % sizeMax }, h') := by
  rw [asanSlabPut]
  cases h.freeTagged cache.id slab <;> rfl

theorem asanMempoolFree_eq {pool : AsanMempool} {ptr : Nat} :
    asanMempoolFree h pool ptr = (h.freeTagged pool.id ptr).map fun h' =>
      ({ pool with objcount := (pool.objcount + (sizeMax - 1)) % sizeMax }, h') := by
  rw [asanMempoolFree]
  cases h.freeTagged pool.id ptr <;> rfl

/-- A small object that comes back: its size and the id of its allocator are in the header. -/
theorem asanSmfree_eq (alloc : AsanSmallAlloc ι) (lessor : QuotaLessor) (source size : Nat)
    {ptr obj : Nat} (hobj : smallAsanHeaderFromPayload h.mem ptr = some obj) :
    asanSmfree h alloc lessor source ptr size =
      if loadLe h.mem obj 8 = size ∧ loadLe h.mem (obj + 8) 4 = alloc.id then do
        let (_, lessor, source) ← quotaEndLease lessor source size
        let h ← h.free obj
        some ({ alloc with used := (alloc.used + (sizeMax - size)) % sizeMax,
                           objcount := (alloc.objcount + (sizeMax - 1)) % sizeMax }, lessor,
                             source, h)
      else none := by
  rw [asanSmfree, hobj, Option.bind_eq_bind, Option.bind_some]
  by_cases hsize : loadLe h.mem obj 8 = size
  · by_cases hid : loadLe h.mem (obj + 8) 4 = alloc.id
    · rw [if_pos ⟨hsize, hid⟩, guard, if_pos hsize, guard, if_pos hid, hsize]
      rfl
    · rw [if_neg fun hboth => hid hboth.2, guard, if_pos hsize, guard, if_neg hid]
      rfl
  · rw [if_neg fun hboth => hsize hboth.1, guard, if_neg hsize]
    rfl

/-! ## Allocators that are created -/

theorem asanSlabArenaCreate_spec {slabSize : Nat} (hsize : slabSize < 2 ^ 32) :
    ∃ size, asanSlabArenaCreate h slabSize =
      some ({ slabSize := size, id := h.smallAsanReserveId.1 }, h.smallAsanReserveId.2) := by
  have hmin : 2 ≤ if slabSize < slabMinSize then slabMinSize else slabSize := by
    rw [slabMinSize]
    split <;> omega
  have hmax : (if slabSize < slabMinSize then slabMinSize else slabSize) ≤ 2 ^ 63 := by
    rw [slabMinSize]
    split <;> omega
  obtain ⟨k, -, hround, -⟩ := smallRound_spec hmin hmax
  refine ⟨2 ^ k % 2 ^ 32, ?_⟩
  rw [asanSlabArenaCreate, hround]
  rfl

theorem asanSlabCacheCreate_eq {source : Nat} :
    asanSlabCacheCreate h source =
      if quotaUseMin ≤ quotaTotal source then
        some ({ quota := { used := 0, leased := 0 }, used := 0, id := h.smallAsanReserveId.1 },
            h.smallAsanReserveId.2)
      else none := by
  rw [asanSlabCacheCreate, quotaLessorCreate, guard]
  by_cases hquota : quotaTotal source ≥ quotaUseMin
  · rw [if_pos hquota, if_pos hquota]
    rfl
  · rw [if_neg hquota, if_neg hquota]
    rfl

/-- The largest power of two that divides the size, or 4096. -/
theorem asanMempoolAlignment_spec {objsize : Nat} (hpos : 0 < objsize) (hlt : objsize < 2 ^ 32) :
    ∃ k ≤ 12, asanMempoolAlignment objsize = 2 ^ k ∧ 2 ^ k ∣ objsize ∧
      (k < 12 → ¬2 ^ (k + 1) ∣ objsize) := by
  obtain ⟨i, hi⟩ : ∃ i, objsize.testBit i = true :=
    Nat.exists_testBit_of_ne_zero (Nat.ne_of_gt hpos)
  have hi32 : i < 32 := by
    by_contra hge
    rw [Nat.testBit_lt_two_pow (hlt.trans_le (Nat.pow_le_pow_right (by decide) (by omega)))] at hi
    cases hi
  obtain ⟨j, hffs, hset, hlow⟩ := builtinFfs_spec hi hi32
  have hdvd : ∀ m ≤ j, 2 ^ m ∣ objsize := by
    intro m hm
    rw [Nat.dvd_iff_mod_eq_zero]
    refine Nat.eq_of_testBit_eq fun b => ?_
    rw [Nat.testBit_mod_two_pow, Nat.zero_testBit]
    by_cases hb : b < m
    · simp [hlow b (by omega)]
    · simp [hb]
  have hnot : ¬2 ^ (j + 1) ∣ objsize := by
    intro hdvd
    have hbit : (objsize % 2 ^ (j + 1)).testBit j = true := by
      rw [Nat.testBit_mod_two_pow, hset]
      simp
    rw [Nat.mod_eq_zero_of_dvd hdvd, Nat.zero_testBit] at hbit
    cases hbit
  have hcompute : asanMempoolAlignment objsize = if 2 ^ j > 2 ^ 12 then 2 ^ 12 else 2 ^ j := by
    rw [asanMempoolAlignment, hffs, Nat.add_sub_cancel, Nat.one_shiftLeft]
    rfl
  rw [hcompute]
  by_cases hj : j ≤ 12
  · rw [if_neg (Nat.not_lt.2 (Nat.pow_le_pow_right (by decide) hj))]
    exact ⟨j, hj, rfl, hdvd j (le_refl j), fun _ => hnot⟩
  · rw [if_pos (Nat.pow_lt_pow_right (by decide) (by omega))]
    exact ⟨12, le_refl 12, rfl, hdvd 12 (by omega), fun hlt => absurd hlt (lt_irrefl 12)⟩

theorem asanMempoolCreate_eq {objsize : Nat} :
    asanMempoolCreate h objsize =
      if 0 < objsize then
        some ({ objsize := objsize, objcount := 0, alignment := asanMempoolAlignment objsize,
                id := h.smallAsanReserveId.1 },
          h.smallAsanReserveId.2)
      else none := by
  rw [asanMempoolCreate, guard]
  by_cases hpos : objsize > 0
  · rw [if_pos hpos, if_pos hpos]
    rfl
  · rw [if_neg hpos, if_neg hpos]
    rfl

end SmallAllocators
