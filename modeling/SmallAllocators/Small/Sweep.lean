/-
SmallAllocators.Small.Sweep — what `small_mempool_group_sweep_sparse` does.

The sweep deactivates each pool that `small_mempool_can_be_deactivated`
accepts and gives its spare slab back. Whether a pool is accepted does not
depend on what the sweep did to others, so the outcome is told by the state
before it.
-/
import SmallAllocators.Small.Create

namespace SmallAllocators

variable {g : Geometry} {h : MslabHeap} {alloc alloc' : SmallAlloc} {n p q : Nat}

/-! ## Changes of one pool -/

namespace SmallAlloc

theorem setPool_cache (alloc : SmallAlloc) (i : Nat) (m : Mempool) (q : Nat) :
    (alloc.setPool i m).smallMempoolCache q
      = if q = i then { alloc.smallMempoolCache i with pool := m }
      else alloc.smallMempoolCache q := rfl

theorem setPool_pool (alloc : SmallAlloc) (i : Nat) (m : Mempool) (q : Nat) :
    (alloc.setPool i m).pool q = if q = i then m else alloc.pool q := by
  rw [pool, setPool_cache]
  split <;> rfl

@[simp] theorem setPool_pool_self (alloc : SmallAlloc) (i : Nat) (m : Mempool) :
    (alloc.setPool i m).pool i = m := by
  rw [setPool_pool, if_pos rfl]

theorem setPool_pool_ne {i : Nat} (m : Mempool) (hq : q ≠ i) :
    (alloc.setPool i m).pool q = alloc.pool q := by
  rw [setPool_pool, if_neg hq]

@[simp] theorem setPool_group (alloc : SmallAlloc) (i : Nat) (m : Mempool) (q : Nat) :
    (alloc.setPool i m).group q = alloc.group q := by
  rw [group, setPool_cache]
  split
  · next he => subst he; rfl
  · rfl

@[simp] theorem setPool_waste (alloc : SmallAlloc) (i : Nat) (m : Mempool) (q : Nat) :
    ((alloc.setPool i m).smallMempoolCache q).waste = (alloc.smallMempoolCache q).waste := by
  rw [setPool_cache]
  split
  · next he => subst he; rfl
  · rfl

@[simp] theorem setPool_usedPool (alloc : SmallAlloc) (i : Nat) (m : Mempool) (q : Nat) :
    ((alloc.setPool i m).smallMempoolCache q).usedPool = (alloc.smallMempoolCache q).usedPool := by
  rw [setPool_cache]
  split
  · next he => subst he; rfl
  · rfl

theorem setPool_sameLayout {i : Nat} {m : Mempool} (hm : (alloc.pool i).SameConfig m) :
    alloc.SameLayout (alloc.setPool i m) := by
  have hcache : ∀ q, (alloc.setPool i m).smallMempoolCache q
      = if q = i then { alloc.smallMempoolCache i with pool := m }
      else alloc.smallMempoolCache q := alloc.setPool_cache i m
  constructor
  case cacheSize => rfl
  case groupsSize => rfl
  case smallClass => rfl
  case objsizeMax => rfl
  case index => intro q; rw [hcache]; split <;> simp_all
  case appropriate => intro q; rw [hcache]; split <;> simp_all
  case objsizeMin => intro q; rw [hcache]; split <;> simp_all
  case config =>
    intro q
    rw [setPool_pool]
    split
    · next he => rw [he]; exact hm
    · exact .refl _
  case first => intro q; rw [setPool_group]
  case last => intro q; rw [setPool_group]
  case wasteMax => intro q; rw [setPool_group]

theorem setPool_self (alloc : SmallAlloc) (i : Nat) : alloc.setPool i (alloc.pool i) = alloc := by
  unfold setPool setSmallMempool pool
  congr
  funext q
  split
  · next he => rw [he]
  · rfl

theorem setPool_active (alloc : SmallAlloc) (i : Nat) (m : Mempool) (q : Nat) :
    (alloc.setPool i m).Active q ↔ alloc.Active q := by
  rw [Active, Active, setPool_group]

/-- A pool is served as before when all groups are what they were. -/
theorem UsedAt.of_group (hu : alloc.UsedAt p) (hgroup : ∀ q, alloc'.group q = alloc.group q)
    (hused : (alloc'.smallMempoolCache p).usedPool = (alloc.smallMempoolCache p).usedPool) :
    alloc'.UsedAt p := by
  have hactive : ∀ q, alloc'.Active q ↔ alloc.Active q := fun q => by rw [Active, Active, hgroup]
  constructor
  case mask => rw [hgroup]; exact hu.mask
  case lastActive => rw [hgroup]; exact hu.lastActive
  case used =>
    rw [hused]
    exact ⟨hu.used.le, by rw [hgroup]; exact hu.used.last, (hactive _).2 hu.used.active,
      fun r h1 h2 => by rw [hactive]; exact hu.used.lowest r h1 h2⟩

end SmallAlloc

/-! ## The spare slab -/

/-- The pool without its spare slab. -/
def dropSpare (h : MslabHeap) (p : Mempool) : Mempool :=
  if p.spare ≠ 0 then (p.listDel h p.spare).setSpare 0 else p

theorem dropSpare_sameConfig (h : MslabHeap) (p : Mempool) : p.SameConfig (dropSpare h p) := by
  unfold dropSpare
  split
  · exact ⟨rfl, rfl, rfl, rfl, rfl, rfl⟩
  · exact .refl p

theorem dropSpare_used (h : MslabHeap) (p : Mempool) :
    (dropSpare h p).stats.used = p.stats.used := by
  unfold dropSpare
  split <;> rfl

theorem dropSpare_slabs {h : MslabHeap} {p : Mempool} {a : Nat} (ha : a ∈ (dropSpare h p).slabs) :
    a ∈ p.slabs := by
  unfold dropSpare at ha
  split at ha
  · exact List.mem_of_mem_erase ha
  · exact ha

theorem dropSpare_inv {p : Mempool} {live cold : List Nat} (hi : p.Inv g h live cold) :
    (dropSpare h p).Inv g h live cold := by
  unfold dropSpare
  split
  · next hne => exact (mempoolFreeSpareSlab_spec hi hne).2
  · exact hi

/-- All slots of a slab are free when no object is live. -/
theorem Mempool.Inv.nfree_of_empty {p : Mempool} {cold : List Nat} (hi : p.Inv g h [] cold)
    {a : Nat} (ha : a ∈ p.slabs) :
    (h.mslab a).nfree = p.objcount := by
  obtain ⟨m, ks, hs⟩ := hi.contents.slab a ha
  have hlen := hs.liveIn_length hi.contents ha
  have hle := hs.nfree_le
  simp only [liveIn, List.filter_nil, List.length_nil] at hlen
  omega

/-- A pool without a free slot returns `NULL` if the cache has no slab. -/
theorem mempoolAlloc_full {p : Mempool} {live cold : List Nat} (hi : p.Inv g h live cold)
    (hfull : ∀ a ∈ p.slabs, (h.mslab a).nfree = 0) : mempoolAlloc g h p none = some (0, h, p) := by
  have hanswer : p.Answers g none := fun _ he => by cases he
  rcases mempoolAlloc_spec hi hanswer with ⟨heq, -⟩
    | ⟨a, k, h', p', cold', -, ha, hk, -, hi', hslabs, hsame, -⟩
  · exact heq
  · -- the slab would have more objects than slots
    have hslabs' : p'.slabs = p.slabs := by
      rcases hslabs with he | ⟨he, -⟩
      · exact he
      · cases he
    have hap : a ∈ p.slabs := hslabs' ▸ ha
    obtain ⟨m, ks, hs⟩ := hi.contents.slab a hap
    obtain ⟨m', ks', hs'⟩ := hi'.contents.slab a ha
    have hold := hs.liveIn_length hi.contents hap
    have hnew := hs'.liveIn_length hi'.contents ha
    have hz := hfull a hap
    have hin : a ≤ p.slot a k ∧ p.slot a k < a + g.slabOrderSize p.slabOrder := by
      have hbounds := hi.contents.config.slot_bounds (a := a) hk
      have hpos := hi.contents.config.objsize_pos
      omega
    have hcons : liveIn g p' (p.slot a k :: live) a = p.slot a k :: liveIn g p live a := by
      rw [liveIn, hsame.slabOrder, List.filter_cons_of_pos (by simpa using hin), liveIn]
    rw [hcons, List.length_cons, hsame.objcount] at hnew
    omega

/-- A pool without objects, with at least two in a slab, has at most its spare slab. -/
theorem dropSpare_empty {p : Mempool} {cold : List Nat} (hi : p.Inv g h [] cold)
    (hcount : 2 ≤ p.objcount) :
    (dropSpare h p).slabs = [] ∧ (dropSpare h p).spare = 0 := by
  have hspare : ∀ a ∈ p.slabs, a = p.spare := by
    intro a ha
    have hn := hi.nfree_of_empty ha
    have hs := hi.status a ha
    by_contra hne
    by_cases hhot : a ∈ p.hotSlabs
    · have := hs.ofHot hhot
      omega
    · by_cases hcold : a ∈ cold
      · have := (hs.ofCold hcold).2
        rw [Nat.shiftRight_eq_div_pow] at this
        have := Nat.div_le_self p.objcount (2 ^ maxColdFractionLb)
        omega
      · have := hs.ofFull hhot hcold hne
        omega
  have hinv := dropSpare_inv hi
  have hslabs : (dropSpare h p).slabs = [] := by
    refine List.eq_nil_iff_forall_not_mem.2 fun a ha => ?_
    have heq := hspare a (dropSpare_slabs ha)
    have hpos := hinv.contents.pos a ha
    unfold dropSpare at ha
    rw [if_pos (by omega), heq] at ha
    exact absurd rfl (hi.contents.nodup.mem_erase_iff.1 ha).1
  refine ⟨hslabs, ?_⟩
  by_contra hne
  have := (hinv.lists.spare hne).1
  rw [hslabs] at this
  cases this

/-! ## The sweep -/

theorem sweepSpare_eq (h : MslabHeap) (alloc : SmallAlloc) (i : Nat) :
    sweepSpare h alloc i = some (alloc.setPool i (dropSpare h (alloc.pool i))) := by
  unfold sweepSpare dropSpare
  split
  · next hne => simp [mempoolFreeSpareSlab, hne]
  · rw [SmallAlloc.setPool_self]

/-- The allocator after the pools of `done` were swept. -/
structure SmallAlloc.Swept (h : MslabHeap) (alloc : SmallAlloc) (n : Nat) (done : Nat → Prop)
    (alloc' : SmallAlloc) : Prop where
  layout : alloc.SameLayout alloc'
  waste : ∀ q, (alloc'.smallMempoolCache q).waste = (alloc.smallMempoolCache q).waste
  usedAt : ∀ q < n, alloc'.UsedAt q
  active : ∀ q < n,
    (alloc'.Active q ↔ alloc.Active q ∧ ¬ (done q ∧ smallMempoolCanBeDeactivated alloc q = true))
  swept : ∀ q, done q → smallMempoolCanBeDeactivated alloc q = true →
    alloc'.pool q = dropSpare h (alloc.pool q)
  kept : ∀ q, ¬ (done q ∧ smallMempoolCanBeDeactivated alloc q = true) →
    alloc'.pool q = alloc.pool q

/-- One round of the sweep. -/
theorem sweepPool_spec {alloc₁ : SmallAlloc} {done : Nat → Prop} {i : Nat} (hg : alloc.Grouped n)
    (hs : alloc.Swept h n done alloc₁) (hi : i < n) (hnot : ¬ done i) :
    ∃ alloc₂, sweepPool h alloc₁ i = some alloc₂ ∧
      alloc.Swept h n (fun q => done q ∨ q = i) alloc₂ := by
  have hg₁ := hs.layout.grouped hg
  have hpool := hs.kept i fun hd => hnot hd.1
  have hactive : alloc₁.Active i ↔ alloc.Active i := by
    rw [hs.active i hi]
    exact and_iff_left fun hd => hnot hd.1
  -- the pool is accepted if it was before the sweep
  have hcan : smallMempoolCanBeDeactivated alloc₁ i = smallMempoolCanBeDeactivated alloc i := by
    rw [Bool.eq_iff_iff, smallMempoolCanBeDeactivated_iff, smallMempoolCanBeDeactivated_iff,
      hactive, hpool, hs.waste, hs.layout.wasteMax, hs.layout.last]
  have hdone : ∀ q, q ≠ i → ((done q ∨ q = i) ↔ done q) := fun q hq => or_iff_left hq
  unfold sweepPool
  rw [hcan]
  cases hc : smallMempoolCanBeDeactivated alloc i with
  | false =>
      refine ⟨alloc₁, rfl, hs.layout, hs.waste,
        hs.usedAt, fun q hq => ?_, fun q hd hcq => ?_, fun q hnd => ?_⟩
      · rw [hs.active q hq]
        by_cases hqi : q = i
        · subst hqi
          simp [hc]
        · rw [hdone q hqi]
      · have hqi : q ≠ i := by
          rintro rfl
          rw [hc] at hcq
          cases hcq
        exact hs.swept q ((hdone q hqi).1 hd) hcq
      · exact hs.kept q fun hd => hnd ⟨Or.inl hd.1, hd.2⟩
  | true =>
      have hparts := smallMempoolCanBeDeactivated_iff.1 (hcan.trans hc)
      obtain ⟨alloc₂, hdeact, hsw⟩ :=
        smallMempoolDeactivate_spec hg₁ hi hs.usedAt hparts.1 hparts.2.2.2
      have hp₂ : alloc₂.pool i = alloc.pool i := (hsw.pool i).trans hpool
      refine ⟨alloc₂.setPool i (dropSpare h (alloc₂.pool i)), ?_, ?_⟩
      · simp only [if_true, hdeact, Option.bind_eq_bind, Option.bind_some]
        exact sweepSpare_eq h alloc₂ i
      · constructor
        case layout =>
          exact (hs.layout.trans hsw.layout).trans
            (SmallAlloc.setPool_sameLayout (dropSpare_sameConfig h _))
        case waste => intro q; rw [SmallAlloc.setPool_waste, hsw.waste, hs.waste]
        case usedAt =>
          exact fun q hq => (hsw.usedAt q hq).of_group (alloc₂.setPool_group i _)
            (alloc₂.setPool_usedPool i _ q)
        case active =>
          intro q hq
          rw [alloc₂.setPool_active, hsw.active q hq, hs.active q hq]
          by_cases hqi : q = i
          · subst hqi
            simp [hc]
          · rw [hdone q hqi]
            exact and_iff_left hqi
        case swept =>
          intro q hd hcq
          by_cases hqi : q = i
          · rw [hqi, SmallAlloc.setPool_pool_self, hp₂]
          · rw [SmallAlloc.setPool_pool_ne _ hqi, hsw.pool]
            exact hs.swept q ((hdone q hqi).1 hd) hcq
        case kept =>
          intro q hnd
          have hqi : q ≠ i := fun he => hnd ⟨Or.inr he, he ▸ hc⟩
          rw [SmallAlloc.setPool_pool_ne _ hqi, hsw.pool]
          exact hs.kept q fun hd => hnd ⟨Or.inl hd.1, hd.2⟩

theorem sweepPool_foldlM (hg : alloc.Grouped n) (l : List Nat) (hl : l.Nodup)
    (hlt : ∀ i ∈ l, i < n) {alloc₁ : SmallAlloc} {done : Nat → Prop}
    (hs : alloc.Swept h n done alloc₁) (hnot : ∀ i ∈ l, ¬ done i) :
    ∃ alloc₂, l.foldlM (sweepPool h) alloc₁ = some alloc₂ ∧
      alloc.Swept h n (fun q => done q ∨ q ∈ l) alloc₂ := by
  induction l generalizing alloc₁ done with
  | nil => exact ⟨alloc₁, rfl, by simpa using hs⟩
  | cons i l ih =>
      obtain ⟨hi, hl'⟩ := List.nodup_cons.1 hl
      obtain ⟨alloc₂, hstep, hs₂⟩ :=
        sweepPool_spec hg hs (hlt i List.mem_cons_self) (hnot i List.mem_cons_self)
      obtain ⟨alloc₃, hrest, hs₃⟩ :=
          ih hl' (fun j hj => hlt j (List.mem_cons_of_mem _ hj)) hs₂ (fun j hj hd => by
        rcases hd with hd | rfl
        · exact hnot j (List.mem_cons_of_mem _ hj) hd
        · exact hi hj)
      refine ⟨alloc₃, ?_, ?_⟩
      · rw [List.foldlM_cons, hstep, Option.bind_eq_bind, Option.bind_some]
        exact hrest
      · simpa only [List.mem_cons, or_assoc] using hs₃

/-- `small_mempool_group_sweep_sparse`. -/
theorem smallMempoolGroupSweepSparse_spec (hg : alloc.Grouped alloc.smallMempoolCacheSize)
    (hu : ∀ q < alloc.smallMempoolCacheSize, alloc.UsedAt q) :
    ∃ alloc', smallMempoolGroupSweepSparse h alloc = some alloc' ∧
      alloc.Swept h alloc.smallMempoolCacheSize
        (fun q => q < alloc.smallMempoolCacheSize) alloc' := by
  have hstart : alloc.Swept h alloc.smallMempoolCacheSize (fun _ => False) alloc :=
    ⟨.refl alloc, fun _ => rfl, hu, fun q _ => by simp, fun q hd => hd.elim, fun _ _ => rfl⟩
  obtain ⟨alloc', hex, hs⟩ :=
    sweepPool_foldlM hg (List.range alloc.smallMempoolCacheSize) List.nodup_range
    (fun i hi => List.mem_range.1 hi) hstart (fun _ _ hd => hd)
  exact ⟨alloc', hex, by simpa only [false_or, List.mem_range] using hs⟩

/-- The sweep moves requests to later pools only. -/
theorem SmallAlloc.Swept.used_le (hs : alloc.Swept h n (fun q => q < n) alloc')
    (hg : alloc.Grouped n) (hu : ∀ q < n, alloc.UsedAt q) (hp : p < n) :
    (alloc.smallMempoolCache p).usedPool ≤ (alloc'.smallMempoolCache p).usedPool ∧
      (alloc'.smallMempoolCache p).usedPool < n := by
  have hnew := (hs.usedAt p hp).used
  have hlt : (alloc'.smallMempoolCache p).usedPool < n := by
    refine hg.lt hp ⟨Nat.le_trans (hg.self p hp).1 hnew.le, ?_⟩
    rw [← hs.layout.last]
    exact hnew.last
  refine ⟨?_, hlt⟩
  by_contra hgt
  exact (hu p hp).used.lowest _ hnew.le (Nat.lt_of_not_le hgt) ((hs.active _ hlt).1 hnew.active).1

/-- A pool that serves requests and cannot be deactivated serves them after a sweep. -/
theorem SmallAlloc.Swept.used_eq (hs : alloc.Swept h n (fun q => q < n) alloc')
    (hg : alloc.Grouped n) (hu : ∀ q < n, alloc.UsedAt q) (hp : p < n)
    (hnot : smallMempoolCanBeDeactivated alloc (alloc.smallMempoolCache p).usedPool = false) :
    (alloc'.smallMempoolCache p).usedPool = (alloc.smallMempoolCache p).usedPool := by
  have hold := (hu p hp).used
  have hnew := (hs.usedAt p hp).used
  obtain ⟨hle, hlt⟩ := hs.used_le hg hu hp
  refine Nat.le_antisymm ?_ hle
  by_contra hgt
  refine hnew.lowest _ hold.le (Nat.lt_of_not_le hgt)
    ((hs.active _ (Nat.lt_of_le_of_lt hle hlt)).2 ⟨hold.active, ?_⟩)
  rintro ⟨-, hcan⟩
  rw [hnot] at hcan
  cases hcan

end SmallAllocators
