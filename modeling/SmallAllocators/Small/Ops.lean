/-
SmallAllocators.Small.Ops — what `smalloc` and `smfree` do to the pools and
to the objects.

`SmallInv.take` and `SmallInv.release` are about one pool; `smalloc_spec`
tells the two outcomes of `smalloc` for a size that has a pool, and
`smfree_spec` what `smfree` does to an object.
-/
import SmallAllocators.Small.Objects

namespace SmallAllocators

open Memory

variable {g : Geometry} {h h' : MslabHeap} {alloc alloc' : SmallAlloc} {live : List SmallObject}
    {p q a size : Nat}
  {o : SmallObject} {answer retry : Option Nat}

/-! ## Objects of a pool -/

/-- A slab that the cache may return for the pool: it is aligned, and overlaps nothing that is
in use. -/
structure SmallAlloc.FreshSlab (g : Geometry) (alloc : SmallAlloc) (live : List SmallObject)
    (p a : Nat) : Prop where
  pool : (alloc.pool p).Fresh g a
  slabs : ∀ q < alloc.smallMempoolCacheSize, q ≠ p → ∀ b ∈ (alloc.pool q).slabs,
    RangesApart a (alloc.slabSize g p) b (alloc.slabSize g q)
  blocks : ∀ o ∈ live, o.home = none → RangesApart o.start (o.length alloc) a (alloc.slabSize g p)

/-- What the cache may answer to a request of the pool. -/
def SmallAlloc.SlabAnswer (g : Geometry) (alloc : SmallAlloc) (live : List SmallObject) (p : Nat)
    (answer : Option Nat) : Prop :=
  ∀ a, answer = some a → alloc.FreshSlab g live p a

theorem SmallAlloc.SlabAnswer.pool (ha : alloc.SlabAnswer g live p answer) :
    (alloc.pool p).Answers g answer :=
  fun a h => (ha a h).pool

/-- An object is taken from a pool. -/
theorem SmallInv.take (hi : SmallInv g h alloc live) (hp : p < alloc.smallMempoolCacheSize)
    (hsize : size ≤ alloc.objsizeMax) (hin : alloc.InGroup (alloc.classOf size) p)
    (hle : alloc.classOf size ≤ p) (hanswer : alloc.SlabAnswer g live p answer) {k : Nat}
    {m : Mempool} {cold : List Nat} (ha : a ∈ m.slabs) (hk : k < (alloc.pool p).objcount)
    (hnew : (alloc.pool p).slot a k ∉ liveAt live p)
    (hinv : m.Inv g h' ((alloc.pool p).slot a k :: liveAt live p) cold)
    (hslabs : m.slabs = (alloc.pool p).slabs ∨ answer = some a ∧
      m.slabs = a :: (alloc.pool p).slabs)
    (hsame : (alloc.pool p).SameConfig m) (hmem : h'.mem = h.mem)
    (hframe : h.Frame (alloc.pool p).id m.slabs h') :
    SmallInv g h' (alloc.setPool p m) (⟨(alloc.pool p).slot a k, size, some p⟩ :: live) := by
  -- the slabs of the pool do not meet those of others and the large blocks
  have hmine :
      ∀ b ∈ m.slabs, (∀ q < alloc.smallMempoolCacheSize, q ≠ p → ∀ c ∈ (alloc.pool q).slabs,
      RangesApart b (alloc.slabSize g p) c (alloc.slabSize g q)) ∧
      ∀ o ∈ live, o.home = none → RangesApart o.start (o.length alloc) b (alloc.slabSize g p) := by
    intro b hb
    have hcase : b ∈ (alloc.pool p).slabs ∨ alloc.FreshSlab g live p b := by
      rcases hslabs with he | ⟨hans, he⟩
      · exact Or.inl (he ▸ hb)
      · rw [he] at hb
        rcases List.mem_cons.1 hb with rfl | hb
        · exact Or.inr (hanswer b hans)
        · exact Or.inl hb
    rcases hcase with hb | hfresh
    · exact ⟨fun q hq hne c hc => hi.slabs p hp q hq (Ne.symm hne) b hb c hc, fun o ho hnone =>
        hi.blocks o ho hnone p hp b hb⟩
    · exact ⟨hfresh.slabs, hfresh.blocks⟩
  have hlay := SmallAlloc.setPool_sameLayout (i := p) hsame
  have hsz : ∀ q, 0 < alloc.slabSize g q := fun q => alloc.slabSize_pos g q
  refine hi.change hlay (fun q hq => (hi.usedAt q hq).of_group (alloc.setPool_group p m)
      (alloc.setPool_usedPool p m q))
    (fun q hq => ?_) (fun q hq r hr hne b hb c hc => ?_) (fun o ho hos => ?_) (fun o ho hos => ?_)
    (fun o ho hnone q hq b hb => ?_) (List.pairwise_cons.2 ⟨fun o ho => ?_, hi.apart⟩)
  · by_cases hqp : q = p
    · subst hqp
      rw [SmallAlloc.setPool_pool_self, liveAt_cons_self]
      exact ⟨cold, hinv⟩
    · obtain ⟨cold', hinv'⟩ := hi.pools q hq
      rw [SmallAlloc.setPool_pool_ne _ hqp, liveAt_cons_ne _ (by simp [Ne.symm hqp])]
      refine ⟨cold', hinv'.frame hframe ?_ (fun b hb hbm => ?_) fun b hb x h1 h2 => by rw [hmem]⟩
      · rw [hi.id q hq, hi.id p hp]
        exact hqp
      · exact ((hmine b hbm).1 q hq hqp b hb).ne (hsz p) (hsz q) rfl
  · by_cases hqp : q = p
    · subst hqp
      rw [SmallAlloc.setPool_pool_self] at hb
      rw [SmallAlloc.setPool_pool_ne _ (Ne.symm hne)] at hc
      exact (hmine b hb).1 r hr (Ne.symm hne) c hc
    · rw [SmallAlloc.setPool_pool_ne _ hqp] at hb
      by_cases hrp : r = p
      · subst hrp
        rw [SmallAlloc.setPool_pool_self] at hc
        exact ((hmine c hc).1 q hq hqp b hb).symm
      · rw [SmallAlloc.setPool_pool_ne _ hrp] at hc
        exact hi.slabs q hq r hr hne b hb c hc
  · rcases List.mem_cons.1 ho with rfl | ho
    · exact ⟨p, rfl, hin, hle⟩
    · exact hi.small o ho hos
  · rcases List.mem_cons.1 ho with rfl | ho
    · exact absurd hsize (Nat.not_le.2 hos)
    · obtain ⟨hnone, hptr, hhead⟩ := hi.large o ho hos
      refine ⟨hnone, hptr, ?_⟩
      have hnot : o.ptr - slabSizeof ∉ m.slabs := by
        intro hb
        have hap := (hmine _ hb).2 o ho hnone
        have hstart : o.start = o.ptr - slabSizeof := by rw [SmallObject.start, hnone]
        rw [hstart] at hap
        exact hap.ne (hi.length_pos ho) (hsz p) rfl
      rw [hframe.slab _ hnot]
      exact hhead
  · rcases List.mem_cons.1 ho with rfl | ho'
    · cases hnone
    · by_cases hqp : q = p
      · subst hqp
        rw [SmallAlloc.setPool_pool_self] at hb
        exact (hmine b hb).2 o ho' hnone
      · rw [SmallAlloc.setPool_pool_ne _ hqp] at hb
        exact hi.blocks o ho' hnone q hq b hb
  · -- the new object overlaps no live one
    obtain ⟨h1, h2⟩ := hinv.contents.config.slot_bounds (a := a) (hsame.objcount.symm ▸ hk)
    rw [hsame.slot, hsame.objsize, hsame.slabOrder] at h2
    rw [hsame.slot] at h1
    change RangesApart ((alloc.pool p).slot a k) (alloc.pool p).objsize o.start (o.length alloc)
    cases hhome : o.home with
    | none =>
        refine ((hmine a ha).2 o ho hhome).symm.mono (by omega) h2 (Nat.le_refl _) (Nat.le_refl _)
    | some q =>
        have hstart : o.start = o.ptr := by rw [SmallObject.start, hhome]
        have hlen : o.length alloc = (alloc.pool q).objsize := by rw [SmallObject.length, hhome]
        rw [hstart, hlen]
        by_cases hqp : q = p
        · subst hqp
          have hmemq := mem_liveAt ho hhome
          have hap := hinv.contents.live_apart (x := (alloc.pool q).slot a k)
            (y := o.ptr) List.mem_cons_self
            (List.mem_cons_of_mem _ hmemq) fun he => hnew (he ▸ hmemq)
          rw [hsame.objsize] at hap
          exact hap
        · obtain ⟨b, hb, -, -, -, h3, h4⟩ := hi.slot_of ho hhome
          exact ((hmine a ha).1 q (hi.home_lt ho hhome).1 hqp b hb).mono (by omega) h2 (by omega) h4

/-- An object goes back to its home. -/
theorem SmallInv.release (hi : SmallInv g h alloc live) (ho : o ∈ live) (hq : o.home = some q)
    {m : Mempool} {cold : List Nat} (hinv : m.Inv g h' ((liveAt live q).erase o.ptr) cold)
    (hsub : ∀ b ∈ m.slabs, b ∈ (alloc.pool q).slabs) (hsame : (alloc.pool q).SameConfig m)
    (hmem : ∀ x, ¬ (o.ptr ≤ x ∧ x < o.ptr + (alloc.pool q).objsize) → h'.mem x = h.mem x)
    (hframe : h.Frame (alloc.pool q).id (alloc.pool q).slabs h') :
    SmallInv g h' (alloc.setPool q m) (live.erase o) := by
  have hqn := (hi.home_lt ho hq).1
  obtain ⟨b₀, hb₀, -, -, -, hlo, hup⟩ := hi.slot_of ho hq
  have hlay := SmallAlloc.setPool_sameLayout (i := q) hsame
  have hsz : ∀ r, 0 < alloc.slabSize g r := fun r => alloc.slabSize_pos g r
  have hslabsub : ∀ r, ∀ b ∈ ((alloc.setPool q m).pool r).slabs, b ∈ (alloc.pool r).slabs := by
    intro r b hb
    by_cases hrq : r = q
    · subst hrq
      rw [SmallAlloc.setPool_pool_self] at hb
      exact hsub b hb
    · rwa [SmallAlloc.setPool_pool_ne _ hrq] at hb
  refine hi.change hlay (fun r hr => (hi.usedAt r hr).of_group (alloc.setPool_group q m)
      (alloc.setPool_usedPool q m r))
    (fun r hr => ?_) (fun r hr t ht hne b hb c hc =>
      hi.slabs r hr t ht hne b (hslabsub r b hb) c (hslabsub t c hc))
    (fun o' ho' hos => hi.small o' (List.mem_of_mem_erase ho') hos) (fun o' ho' hos => ?_)
    (fun o' ho' hnone r hr b hb => hi.blocks o' (List.mem_of_mem_erase ho') hnone r hr b
      (hslabsub r b hb))
    (hi.apart.sublist List.erase_sublist)
  · by_cases hrq : r = q
    · subst hrq
      rw [SmallAlloc.setPool_pool_self]
      exact ⟨cold, hinv.perm (liveAt_erase_self ho hq)⟩
    · obtain ⟨cold', hinv'⟩ := hi.pools r hr
      rw [SmallAlloc.setPool_pool_ne _ hrq]
      have hne : o.home ≠ some r := by
        rw [hq]
        exact fun he => hrq (Option.some.inj he).symm
      refine ⟨cold', (hinv'.perm (liveAt_erase_ne ho hne)).frame hframe ?_ (fun b hb hbm => ?_)
        fun b hb x h1 h2 => hmem x ?_⟩
      · rw [hi.id r hr, hi.id q hqn]
        exact hrq
      · exact (hi.slabs r hr q hqn hrq b hb b hbm).ne (hsz r) (hsz q) rfl
      · have hap := hi.slabs r hr q hqn hrq b hb b₀ hb₀
        have h2' : x < b + alloc.slabSize g r := h2
        unfold RangesApart at hap
        omega
  · have ho'' := List.mem_of_mem_erase ho'
    obtain ⟨hnone, hptr, hhead⟩ := hi.large o' ho'' hos
    refine ⟨hnone, hptr, ?_⟩
    have hnot : o'.ptr - slabSizeof ∉ (alloc.pool q).slabs := by
      intro hb
      have hap := hi.blocks o' ho'' hnone q hqn _ hb
      have hstart : o'.start = o'.ptr - slabSizeof := by rw [SmallObject.start, hnone]
      rw [hstart] at hap
      exact hap.ne (hi.length_pos ho'') (hsz q) rfl
    rw [hframe.slab _ hnot]
    exact hhead

/-! ## Large objects -/

/-- A block that `malloc` may return for a large object: it overlaps nothing that is in use. -/
structure SmallAlloc.FreshBlock (g : Geometry) (alloc : SmallAlloc) (live : List SmallObject)
    (size a : Nat) : Prop where
  pos : 0 < a
  slabs : ∀ p < alloc.smallMempoolCacheSize, ∀ b ∈ (alloc.pool p).slabs,
    RangesApart a (largeSize size) b (alloc.slabSize g p)
  blocks : ∀ o ∈ live, o.home = none → RangesApart a (largeSize size) o.start (o.length alloc)

theorem SmallInv.takeLarge (hi : SmallInv g h alloc live) (hsize : alloc.objsizeMax < size)
    (hfresh : alloc.FreshBlock g live size a) :
    SmallInv g (createLarge g h a size) alloc (⟨a + slabSizeof, size, none⟩ :: live) := by
  have hstart : SmallObject.start ⟨a + slabSizeof, size, none⟩ = a := Nat.add_sub_cancel _ _
  have hsz : ∀ q, 0 < alloc.slabSize g q := fun q => alloc.slabSize_pos g q
  have hframe : h.Frame alloc.smallMempoolCacheSize [a] (createLarge g h a size) :=
    .of_slab List.mem_cons_self (fun b hb => h.setMslab_ne _ hb) rfl
  refine hi.change (.refl alloc) hi.usedAt (fun q hq => ?_) hi.slabs (fun o ho hos => ?_)
    (fun o ho hos => ?_)
    (fun o ho hnone q hq b hb => ?_) (List.pairwise_cons.2 ⟨fun o ho => ?_, hi.apart⟩)
  · obtain ⟨cold, hinv⟩ := hi.pools q hq
    rw [liveAt_cons_ne _ (by simp)]
    refine ⟨cold,
      hinv.frame hframe (by rw [hi.id q hq]; omega) (fun b hb hba => ?_) fun _ _ _ _ _ => rfl⟩
    exact (hfresh.slabs q hq b hb).ne (largeSize_pos size) (hsz q) (List.mem_singleton.1 hba).symm
  · rcases List.mem_cons.1 ho with rfl | ho
    · exact absurd hos (Nat.not_le.2 hsize)
    · exact hi.small o ho hos
  · rcases List.mem_cons.1 ho with rfl | ho
    · exact ⟨rfl, Nat.le_add_left _ _, by simp [createLarge]⟩
    · obtain ⟨hnone, hptr, hhead⟩ := hi.large o ho hos
      refine ⟨hnone, hptr, ?_⟩
      have hne : o.ptr - slabSizeof ≠ a := by
        have hap := hfresh.blocks o ho hnone
        rw [SmallObject.start, hnone] at hap
        exact (hap.ne (largeSize_pos size) (hi.length_pos ho)).symm
      rw [createLarge, h.setMslab_ne _ hne]
      exact hhead
  · rcases List.mem_cons.1 ho with rfl | ho
    · rw [hstart]
      exact hfresh.slabs q hq b hb
    · exact hi.blocks o ho hnone q hq b hb
  · change RangesApart (SmallObject.start ⟨a + slabSizeof, size, none⟩) (largeSize size) o.start
      (o.length alloc)
    rw [hstart]
    cases hhome : o.home with
    | none => exact hfresh.blocks o ho hhome
    | some q =>
        obtain ⟨b, hb, -, -, -, h3, h4⟩ := hi.slot_of ho hhome
        have hso : o.start = o.ptr := by rw [SmallObject.start, hhome]
        have hlen : o.length alloc = (alloc.pool q).objsize := by rw [SmallObject.length, hhome]
        rw [hso, hlen]
        exact (hfresh.slabs q (hi.home_lt ho hhome).1 b hb).mono (Nat.le_refl _) (Nat.le_refl _)
          (by omega) h4

theorem SmallInv.releaseLarge (hi : SmallInv g h alloc live) (ho : o ∈ live)
    (hnone : o.home = none) :
    SmallInv g h alloc (live.erase o) := by
  refine hi.change (.refl alloc) hi.usedAt (fun q hq => ?_) hi.slabs
    (fun o' ho' hos => hi.small o' (List.mem_of_mem_erase ho') hos)
    (fun o' ho' hos => hi.large o' (List.mem_of_mem_erase ho') hos)
    (fun o' ho' hn q hq b hb => hi.blocks o' (List.mem_of_mem_erase ho') hn q hq b hb)
    (hi.apart.sublist List.erase_sublist)
  obtain ⟨cold, hinv⟩ := hi.pools q hq
  exact ⟨cold, hinv.perm (liveAt_erase_ne ho (by simp [hnone]))⟩

/-! ## Waste -/

namespace SmallAlloc

theorem setWaste_cache (alloc : SmallAlloc) (i waste q : Nat) :
    (alloc.setWaste i waste).smallMempoolCache q
    = if q = i then { alloc.smallMempoolCache i with waste := waste }
    else alloc.smallMempoolCache q := rfl

@[simp] theorem setWaste_pool (alloc : SmallAlloc) (i waste q : Nat) :
    (alloc.setWaste i waste).pool q = alloc.pool q := by
  rw [pool, setWaste_cache]
  split
  · next he => subst he; rfl
  · rfl

@[simp] theorem setWaste_group (alloc : SmallAlloc) (i waste q : Nat) :
    (alloc.setWaste i waste).group q = alloc.group q := by
  rw [group, setWaste_cache]
  split
  · next he => subst he; rfl
  · rfl

@[simp] theorem setWaste_usedPool (alloc : SmallAlloc) (i waste q : Nat) :
    ((alloc.setWaste i waste).smallMempoolCache q).usedPool =
      (alloc.smallMempoolCache q).usedPool := by
  rw [setWaste_cache]
  split
  · next he => subst he; rfl
  · rfl

theorem setWaste_waste (alloc : SmallAlloc) (i waste q : Nat) :
    ((alloc.setWaste i waste).smallMempoolCache q).waste
    = if q = i then waste else (alloc.smallMempoolCache q).waste := by
  rw [setWaste_cache]
  split <;> rfl

theorem setWaste_active (alloc : SmallAlloc) (i waste q : Nat) :
    (alloc.setWaste i waste).Active q ↔ alloc.Active q := by
  rw [Active, Active, setWaste_group]

theorem setWaste_sameLayout (alloc : SmallAlloc) (i waste : Nat) :
    alloc.SameLayout (alloc.setWaste i waste) := by
  have hcache := alloc.setWaste_cache i waste
  constructor
  case cacheSize => rfl
  case groupsSize => rfl
  case smallClass => rfl
  case objsizeMax => rfl
  case index => intro q; rw [hcache]; split <;> simp_all
  case appropriate => intro q; rw [hcache]; split <;> simp_all
  case objsizeMin => intro q; rw [hcache]; split <;> simp_all
  case config => intro q; rw [setWaste_pool]; exact .refl _
  case first => intro q; rw [setWaste_group]
  case last => intro q; rw [setWaste_group]
  case wasteMax => intro q; rw [setWaste_group]

end SmallAlloc

/-- A change of waste keeps the invariant. -/
theorem SmallInv.setWaste (hi : SmallInv g h alloc live) (i waste : Nat) :
    SmallInv g h (alloc.setWaste i waste) live := by
  refine hi.shrink (alloc.setWaste_sameLayout i waste)
    (fun q hq => (hi.usedAt q hq).of_group (alloc.setWaste_group i waste)
      (alloc.setWaste_usedPool i waste q))
    (fun q _ cold hinv => ?_) fun q _ a ha => ?_
  · rwa [SmallAlloc.setWaste_pool]
  · rwa [SmallAlloc.setWaste_pool] at ha

theorem objsizeDiff_eq (hle : (alloc.pool p).objsize ≤ (alloc.pool q).objsize)
    (hlt : (alloc.pool q).objsize < 2 ^ 32) :
    objsizeDiff alloc q p = (alloc.pool q).objsize - (alloc.pool p).objsize := by
  rw [objsizeDiff, show 2 ^ 32 + (alloc.pool q).objsize - (alloc.pool p).objsize
      = (alloc.pool q).objsize - (alloc.pool p).objsize + 2 ^ 32 by omega, Nat.add_mod_right,
      Nat.mod_eq_of_lt (by omega)]

theorem SmallInv.objsize_lt (hi : SmallInv g h alloc live) (hp : p < alloc.smallMempoolCacheSize) :
    (alloc.pool p).objsize < 2 ^ 32 := by
  obtain ⟨cold, hinv⟩ := hi.pools p hp
  have hcfg := hinv.contents.config
  have hsize := hcfg.size
  have hlt := hcfg.slabOrderSize_lt
  have hmul : 1 * (alloc.pool p).objsize ≤ (alloc.pool p).objcount * (alloc.pool p).objsize :=
    Nat.mul_le_mul_right _ hcfg.objcount
  omega

/-- What `smalloc` charges to the pool of a size, and what it does not touch. -/
structure SmallAlloc.Charged (alloc : SmallAlloc) (p : Nat) (alloc' : SmallAlloc) : Prop where
  layout : alloc.SameLayout alloc'
  pool : ∀ q, alloc'.pool q = alloc.pool q
  waste : ∀ q, (alloc'.smallMempoolCache q).waste = (alloc.smallMempoolCache q).waste +
    if q = p then
    (alloc.pool (alloc.smallMempoolCache p).usedPool).objsize - (alloc.pool p).objsize else 0
  active : ∀ q < alloc.smallMempoolCacheSize, alloc.Active q → alloc'.Active q

theorem smallocCharge_spec (hi : SmallInv g h alloc live)
    (hth : ∀ q < alloc.smallMempoolCacheSize, alloc.Thrifty q)
    (hp : p < alloc.smallMempoolCacheSize) :
    ∃ alloc', smallocCharge alloc p = some alloc' ∧ alloc.Charged p alloc' ∧
      SmallInv g h alloc' live ∧
      ∀ q < alloc.smallMempoolCacheSize, alloc'.Thrifty q := by
  have hserve := (hi.usedAt p hp).used
  unfold smallocCharge
  by_cases hself : (alloc.smallMempoolCache p).usedPool = p
  · refine ⟨alloc, by simp [hself], ⟨.refl alloc, fun _ => rfl, fun q => ?_, fun _ _ h => h⟩,
      hi, hth⟩
    rw [hself, Nat.sub_self]
    split <;> rfl
  · -- the pool is inactive, so it has wasted little until now
    have hlt : p < (alloc.smallMempoolCache p).usedPool :=
      Nat.lt_of_le_of_ne hserve.le (Ne.symm hself)
    have hinactive : ¬ alloc.Active p := hserve.lowest p (Nat.le_refl _) hlt
    have hun : (alloc.smallMempoolCache p).usedPool < alloc.smallMempoolCacheSize :=
      hi.grouped.lt hp ⟨Nat.le_trans (hi.grouped.self p hp).1 hserve.le, hserve.last⟩
    have hwaste := hth p hp hinactive
    have hmax := (hi.grouped.wasteMax p hp).2
    have hobj := hi.objsize_lt hun
    have hdiff := objsizeDiff_eq (hi.grouped.mono _ _ hserve.le hun) hobj
    have hmod : ((alloc.smallMempoolCache p).waste +
        objsizeDiff alloc (alloc.smallMempoolCache p).usedPool p) % sizeMax
        = (alloc.smallMempoolCache p).waste +
          ((alloc.pool (alloc.smallMempoolCache p).usedPool).objsize - (alloc.pool p).objsize) := by
      rw [hdiff]
      refine Nat.mod_eq_of_lt ?_
      simp only [sizeMax]
      omega
    simp only [ne_eq, hself, not_false_eq_true, if_true, hmod, SmallAlloc.setWaste_group]
    generalize hw : (alloc.smallMempoolCache p).waste +
      ((alloc.pool (alloc.smallMempoolCache p).usedPool).objsize - (alloc.pool p).objsize) = waste
    have hi₁ := hi.setWaste p waste
    have hwaste₁ : ∀ q, ((alloc.setWaste p waste).smallMempoolCache q).waste =
        (alloc.smallMempoolCache q).waste +
        if q = p then (alloc.pool (alloc.smallMempoolCache p).usedPool).objsize -
        (alloc.pool p).objsize else 0 := by
      intro q
      rw [SmallAlloc.setWaste_waste]
      split
      · next he => rw [he, hw]
      · rfl
    have hth₁ : ∀ q < alloc.smallMempoolCacheSize, q ≠ p → (alloc.setWaste p waste).Thrifty q := by
      intro q hq hne hna
      rw [SmallAlloc.setWaste_active] at hna
      rw [SmallAlloc.setWaste_waste, if_neg hne, SmallAlloc.setWaste_group]
      exact hth q hq hna
    by_cases hge : waste ≥ (alloc.group p).wasteMax
    · rw [if_pos hge]
      obtain ⟨alloc', hact, hs⟩ := smallMempoolActivate_spec hi₁.grouped hp hi₁.usedAt
        (fun ha => hinactive ((alloc.setWaste_active p waste p).1 ha))
      refine ⟨alloc', hact, ⟨(alloc.setWaste_sameLayout p waste).trans hs.layout, fun q => ?_,
        fun q => ?_, fun q hq ha => ?_⟩,
        hi₁.switched hs, fun q hq => ?_⟩
      · rw [hs.pool, SmallAlloc.setWaste_pool]
      · rw [hs.waste, hwaste₁]
      · exact (hs.active q hq).2 (Or.inl ((alloc.setWaste_active p waste q).2 ha))
      · intro hna
        rw [hs.active q hq, not_or] at hna
        rw [hs.waste, hs.layout.wasteMax]
        exact hth₁ q hq hna.2 hna.1
    · rw [if_neg hge]
      refine ⟨_, rfl, ⟨alloc.setWaste_sameLayout p waste, alloc.setWaste_pool p waste,
        hwaste₁, fun q _ ha => ?_⟩, hi₁,
        fun q hq => ?_⟩
      · exact (alloc.setWaste_active p waste q).2 ha
      · by_cases hqp : q = p
        · intro _
          rw [hqp, SmallAlloc.setWaste_waste, if_pos rfl, SmallAlloc.setWaste_group]
          omega
        · exact hth₁ q hq hqp

/-! ## `smalloc` -/

/-- The pool that serves a size. -/
def SmallAlloc.poolFor (alloc : SmallAlloc) (size : Nat) : Nat :=
  (alloc.smallMempoolCache (alloc.classOf size)).usedPool

/-- The allocator when `mempool_alloc` succeeds: no sweep was made, or one that had to find a
new slab if it deactivated the pool that serves. -/
def SmallAlloc.Source (h : MslabHeap) (alloc : SmallAlloc) (u : Nat) (answer retry : Option Nat)
    (alloc₁ : SmallAlloc) : Prop :=
  alloc₁ = alloc ∨
  alloc.Swept h alloc.smallMempoolCacheSize (fun q => q < alloc.smallMempoolCacheSize) alloc₁ ∧
    (smallMempoolCanBeDeactivated alloc u = true → (alloc.pool u).slabs = [] ∧ answer = none ∧
      retry ≠ none)

/-- The pool that serves a size lies in the group of its class. -/
theorem SmallInv.poolFor (hi : SmallInv g h alloc live) (hsize : size ≤ alloc.objsizeMax) :
    alloc.poolFor size < alloc.smallMempoolCacheSize ∧
      alloc.InGroup (alloc.classOf size) (alloc.poolFor size) ∧
      alloc.classOf size ≤ alloc.poolFor size ∧
      size ≤ (alloc.pool (alloc.poolFor size)).objsize := by
  obtain ⟨hc, hfit⟩ := hi.search size hsize
  have hserve := (hi.usedAt _ hc).used
  have hin : alloc.InGroup (alloc.classOf size) (alloc.poolFor size) :=
    ⟨Nat.le_trans (hi.grouped.self _ hc).1 hserve.le, hserve.last⟩
  have hlt := hi.grouped.lt hc hin
  exact ⟨hlt, hin, hserve.le, Nat.le_trans hfit (hi.grouped.mono _ _ hserve.le hlt)⟩

theorem mempoolCount_eq_zero {m : Mempool} {live cold : List Nat} (hi : m.Inv g h live cold)
    (hc : mempoolCount m = 0) :
    live = [] := by
  have hpos := hi.contents.config.objsize_pos
  rw [mempoolCount, hi.contents.used, Nat.mul_div_cancel_left _ hpos] at hc
  exact List.length_eq_zero_iff.1 hc

/-- A pool that can be deactivated and has no free slot has no slab. -/
theorem SmallInv.slabs_nil (hi : SmallInv g h alloc live) (hp : p < alloc.smallMempoolCacheSize)
    (hcan : smallMempoolCanBeDeactivated alloc p = true)
    (hfull : ∀ a ∈ (alloc.pool p).slabs, (h.mslab a).nfree = 0) :
    (alloc.pool p).slabs = [] := by
  obtain ⟨cold, hinv⟩ := hi.pools p hp
  have hlive := mempoolCount_eq_zero hinv (smallMempoolCanBeDeactivated_iff.1 hcan).2.1
  rw [hlive] at hinv
  refine List.eq_nil_iff_forall_not_mem.2 fun a ha => ?_
  have h1 := hinv.nfree_of_empty ha
  have h2 := hfull a ha
  have h3 := hinv.contents.config.objcount
  omega

/-- The attempts of `smalloc` at `mempool_alloc`. -/
theorem smallocTry_spec (hi : SmallInv g h alloc live) (hsize : size ≤ alloc.objsizeMax)
    (hanswer : alloc.SlabAnswer g live (alloc.poolFor size) answer)
    (hretry : ∀ alloc₁, smallMempoolGroupSweepSparse h alloc = some alloc₁ →
      alloc₁.SlabAnswer g live (alloc.poolFor size) retry) :
    (∃ alloc₁, smallocTry g h alloc (alloc.poolFor size) answer retry = some (0, h, alloc₁) ∧
        answer = none ∧ retry = none ∧
      (∀ a ∈ (alloc.pool (alloc.poolFor size)).slabs, (h.mslab a).nfree = 0) ∧
      alloc.Swept h alloc.smallMempoolCacheSize (fun q => q < alloc.smallMempoolCacheSize) alloc₁) ∨
    ∃ ptr h' alloc₁ m, smallocTry g h alloc (alloc.poolFor size) answer retry
        = some (ptr, h', alloc₁.setPool (alloc.poolFor size) m) ∧ ptr ≠ 0 ∧
      alloc.Source h (alloc.poolFor size) answer retry alloc₁ ∧
      (alloc₁.pool (alloc.poolFor size)).SameConfig m ∧
      SmallInv g h' (alloc₁.setPool (alloc.poolFor size) m)
        (⟨ptr, size, some (alloc.poolFor size)⟩ :: live) := by
  obtain ⟨hlt, hin, hle, -⟩ := hi.poolFor hsize
  generalize alloc.poolFor size = u at *
  obtain ⟨cold, hinv⟩ := hi.pools u hlt
  rcases mempoolAlloc_spec hinv hanswer.pool with
    ⟨heq, hans, hfull⟩ | ⟨a, k, h', m, cold', heq, ha, hk, hnew, hinv', hslabs, hsame, hmem, hframe⟩
  · -- no object: a sweep, and one more attempt
    obtain ⟨alloc₁, hsweep, hs⟩ := smallMempoolGroupSweepSparse_spec (h := h) hi.grouped hi.usedAt
    have hi₁ := hi.swept hs
    have hlt₁ : u < alloc₁.smallMempoolCacheSize := hs.layout.cacheSize.symm ▸ hlt
    have hanswer₁ := hretry alloc₁ hsweep
    obtain ⟨cold₁, hinv₁⟩ := hi₁.pools u hlt₁
    have htry : smallocTry g h alloc u answer retry = smallocRetry g h alloc u retry := by
      simp [smallocTry, heq, SmallAlloc.setPool_self]
    rw [htry]
    rcases mempoolAlloc_spec hinv₁ hanswer₁.pool with
      ⟨heq₁, hret, -⟩ | ⟨a, k, h', m, cold', heq₁, ha, hk, hnew, hinv', hslabs, hsame, hmem, hframe⟩
    · left
      refine ⟨alloc₁, ?_, hans, hret, hfull, hs⟩
      simp [smallocRetry, hsweep, heq₁, SmallAlloc.setPool_self]
    · right
      have hptr : (alloc₁.pool u).slot a k ≠ 0 := by
        rw [← hsame.slot]
        exact (hinv'.contents.slot_pos ha (hsame.objcount.symm ▸ hk)).1.ne'
      refine ⟨_, h', alloc₁, m, by simp [smallocRetry, hsweep, heq₁], hptr,
        Or.inr ⟨hs, fun hcan => ?_⟩, hsame, ?_⟩
      · have hnil := hi.slabs_nil hlt hcan hfull
        refine ⟨hnil, hans, fun hnone => ?_⟩
        have hpool : (alloc₁.pool u).slabs = [] := by
          refine List.eq_nil_iff_forall_not_mem.2 fun b hb => ?_
          rw [hs.swept u hlt hcan] at hb
          have hb' := dropSpare_slabs hb
          rw [hnil] at hb'
          cases hb'
        rcases hslabs with he | ⟨he, -⟩
        · rw [he, hpool] at ha
          cases ha
        · rw [hnone] at he
          cases he
      · refine hi₁.take hlt₁ (by rw [hs.layout.objsizeMax]; exact hsize) ?_ ?_ hanswer₁ ha hk hnew
          hinv' hslabs hsame hmem
          hframe
        · rw [hs.layout.inGroup, hs.layout.classOf]
          exact hin
        · rw [hs.layout.classOf]
          exact hle
  · right
    have hptr : (alloc.pool u).slot a k ≠ 0 := by
      rw [← hsame.slot]
      exact (hinv'.contents.slot_pos ha (hsame.objcount.symm ▸ hk)).1.ne'
    exact ⟨_, h', alloc, m, by simp [smallocTry, heq, hptr], hptr, Or.inl rfl, hsame,
      hi.take hlt hsize hin hle hanswer ha hk hnew hinv' hslabs hsame hmem hframe⟩

/-- The state after `smalloc` returned an object: what it did to other pools, and what it
charged. -/
structure SmallAlloc.Moved (alloc₁ : SmallAlloc) (u p : Nat) (alloc' : SmallAlloc) : Prop where
  layout : alloc₁.SameLayout alloc'
  pool : ∀ q, q ≠ u → alloc'.pool q = alloc₁.pool q
  waste : ∀ q, (alloc'.smallMempoolCache q).waste = (alloc₁.smallMempoolCache q).waste +
    if q = p then
    (alloc₁.pool (alloc₁.smallMempoolCache p).usedPool).objsize - (alloc₁.pool p).objsize else 0
  active : ∀ q < alloc₁.smallMempoolCacheSize, alloc₁.Active q → alloc'.Active q

theorem SmallAlloc.Swept.thrifty
    (hs : alloc.Swept h alloc.smallMempoolCacheSize
      (fun q => q < alloc.smallMempoolCacheSize) alloc')
    (hth : ∀ q < alloc.smallMempoolCacheSize, alloc.Thrifty q) :
    ∀ q < alloc.smallMempoolCacheSize, alloc'.Thrifty q := by
  intro q hq hna
  rw [hs.waste, hs.layout.wasteMax]
  by_cases ha : alloc.Active q
  · have hcan : smallMempoolCanBeDeactivated alloc q = true := by
      by_contra hc
      exact hna ((hs.active q hq).2 ⟨ha, fun hd => hc hd.2⟩)
    have := (smallMempoolCanBeDeactivated_iff.1 hcan).2.2.1
    omega
  · exact hth q hq ha

/-- `smalloc` of a size that has a pool. -/
theorem smalloc_spec (hi : SmallInv g h alloc live)
    (hth : ∀ q < alloc.smallMempoolCacheSize, alloc.Thrifty q) (hsize : size ≤ alloc.objsizeMax)
    (hanswer : alloc.SlabAnswer g live (alloc.poolFor size) answer)
    (hretry : ∀ alloc₁, smallMempoolGroupSweepSparse h alloc = some alloc₁ →
      alloc₁.SlabAnswer g live (alloc.poolFor size) retry) :
    (∃ alloc', smalloc g h alloc size answer retry = some (0, h, alloc') ∧ answer = none ∧
        retry = none ∧
      (∀ a ∈ (alloc.pool (alloc.poolFor size)).slabs, (h.mslab a).nfree = 0) ∧
      alloc.Swept h alloc.smallMempoolCacheSize (fun q => q < alloc.smallMempoolCacheSize) alloc') ∨
    ∃ ptr h' alloc₁ alloc', smalloc g h alloc size answer retry = some (ptr, h', alloc') ∧ ptr ≠ 0 ∧
      alloc.Source h (alloc.poolFor size) answer retry alloc₁ ∧
      alloc₁.Moved (alloc.poolFor size) (alloc.classOf size) alloc' ∧
      SmallInv g h' alloc' (⟨ptr, size, some (alloc.poolFor size)⟩ :: live) ∧
      ∀ q < alloc.smallMempoolCacheSize, alloc'.Thrifty q := by
  have hsearch : smallMempoolSearch alloc size = some (alloc.classOf size) := by
    rw [smallMempoolSearch, if_neg (by omega), SmallAlloc.classOf]
  have hfit := (hi.poolFor hsize).2.2.2
  have hrun : smalloc g h alloc size answer retry = smallocFromPool g h alloc size
      (alloc.classOf size) answer retry := by
    rw [smalloc, hsearch]
  have hguard :
      size ≤ (alloc.pool (alloc.smallMempoolCache (alloc.classOf size)).usedPool).objsize := hfit
  rw [hrun, smallocFromPool]
  rcases smallocTry_spec hi hsize hanswer hretry with
    ⟨alloc₁, htry, hrest⟩ | ⟨ptr, h', alloc₁, m, htry, hptr, hsrc, hsame, hi₂⟩
  · left
    refine ⟨alloc₁, ?_, hrest⟩
    rw [SmallAlloc.poolFor] at htry
    simp [guard, hguard, htry]
  · right
    -- the pool is charged
    have hlay₁ : alloc.SameLayout alloc₁ := by
      rcases hsrc with rfl | ⟨hs, -⟩
      · exact .refl _
      · exact hs.layout
    have hth₁ : ∀ q < alloc.smallMempoolCacheSize, alloc₁.Thrifty q := by
      rcases hsrc with rfl | ⟨hs, -⟩
      · exact hth
      · exact hs.thrifty hth
    have hlay₂ := SmallAlloc.setPool_sameLayout (i := alloc.poolFor size) hsame
    have hsize₂ : (alloc₁.setPool (alloc.poolFor size) m).smallMempoolCacheSize =
        alloc.smallMempoolCacheSize :=
      hlay₂.cacheSize.trans hlay₁.cacheSize
    have hth₂ : ∀ q < (alloc₁.setPool (alloc.poolFor size) m).smallMempoolCacheSize,
        (alloc₁.setPool (alloc.poolFor size) m).Thrifty q := by
      intro q hq hna
      rw [SmallAlloc.setPool_active] at hna
      rw [SmallAlloc.setPool_waste, SmallAlloc.setPool_group]
      exact hth₁ q (hsize₂ ▸ hq) hna
    obtain ⟨alloc', hcharge, hc, hi', hth'⟩ := smallocCharge_spec hi₂ hth₂ (p := alloc.classOf size)
      (hsize₂ ▸ (hi.search size hsize).1)
    refine ⟨ptr, h', alloc₁, alloc', ?_, hptr, hsrc,
      ⟨hlay₂.trans hc.layout, fun q hq => ?_, fun q => ?_, fun q hq ha => ?_⟩, hi', hsize₂ ▸ hth'⟩
    · rw [SmallAlloc.poolFor] at htry hcharge
      simp [guard, hguard, htry, hptr, hcharge]
    · rw [hc.pool, SmallAlloc.setPool_pool_ne _ hq]
    · rw [hc.waste, SmallAlloc.setPool_waste, SmallAlloc.setPool_usedPool, (hlay₂.config _).objsize,
        (hlay₂.config _).objsize]
    · exact hc.active q (hlay₂.cacheSize.symm ▸ hq) ((alloc₁.setPool_active _ m q).2 ha)

/-! ## `smfree` -/

/-- What an object wastes, when the pool is that of its class. -/
def owedBy (alloc : SmallAlloc) (p : Nat) (o : SmallObject) : Nat :=
  if smallMempoolSearch alloc o.size = some p then
    (o.home.elim 0 fun q => (alloc.pool q).objsize) - (alloc.pool p).objsize
  else 0

/-- What the live objects of the pool's class waste. -/
def owed (alloc : SmallAlloc) (live : List SmallObject) (p : Nat) : Nat :=
  (live.map (owedBy alloc p)).sum

theorem owed_cons (alloc : SmallAlloc) (o : SmallObject) (live : List SmallObject) (p : Nat) :
    owed alloc (o :: live) p = owedBy alloc p o + owed alloc live p := by
  rw [owed, List.map_cons, List.sum_cons, owed]

theorem owed_erase (alloc : SmallAlloc) (ho : o ∈ live) (p : Nat) :
    owed alloc live p = owedBy alloc p o + owed alloc (live.erase o) p := by
  rw [← owed_cons]
  exact ((List.perm_cons_erase ho).map _).sum_eq

theorem SmallAlloc.SameLayout.search (hlay : alloc.SameLayout alloc') (size : Nat) :
    smallMempoolSearch alloc' size = smallMempoolSearch alloc size := by
  rw [smallMempoolSearch, smallMempoolSearch, hlay.objsizeMax, hlay.smallClass]

theorem SmallAlloc.SameLayout.owedBy (hlay : alloc.SameLayout alloc') (p : Nat) (o : SmallObject) :
    owedBy alloc' p o = owedBy alloc p o := by
  rw [SmallAllocators.owedBy, SmallAllocators.owedBy, hlay.search, (hlay.config p).objsize]
  cases o.home with
  | none => rfl
  | some q => simp only [Option.elim_some, (hlay.config q).objsize]

theorem SmallAlloc.SameLayout.owed (hlay : alloc.SameLayout alloc') (live : List SmallObject)
    (p : Nat) :
    owed alloc' live p = owed alloc live p := by
  rw [SmallAllocators.owed, SmallAllocators.owed, List.map_congr_left fun o _ => hlay.owedBy p o]

/-- The mask of the pool of an object's class leads to the slab and to the home of the object. -/
theorem SmallInv.find (hi : SmallInv g h alloc live) (ho : o ∈ live) (hq : o.home = some q) :
    ∃ b ∈ (alloc.pool q).slabs, ∃ k < (alloc.pool q).objcount, o.ptr = (alloc.pool q).slot b k ∧
      slabFromPtr h o.ptr (alloc.pool (alloc.classOf o.size)).slabPtrMask = some b ∧
      (h.mslab b).mempool = q := by
  obtain ⟨hqn, hsize⟩ := hi.home_lt ho hq
  obtain ⟨b, hb, k, hk, hptr, -, -⟩ := hi.slot_of ho hq
  obtain ⟨q', hq', hin, -⟩ := hi.small o ho hsize
  rw [hq, Option.some.injEq] at hq'
  subst hq'
  have hcn := (hi.search _ hsize).1
  obtain ⟨cold, hinv⟩ := hi.pools q hqn
  obtain ⟨coldc, hinvc⟩ := hi.pools _ hcn
  have hmask : (alloc.pool (alloc.classOf o.size)).slabPtrMask = (alloc.pool q).slabPtrMask := by
    rw [hinvc.contents.config.mask, hinv.contents.config.mask, (hi.grouped.same _ hcn q hin).2]
  obtain ⟨m, ks, hs⟩ := hinv.contents.slab b hb
  refine ⟨b, hb, k, hk, hptr, ?_, ?_⟩
  · rw [hmask, hptr]
    exact (mempoolFree_eq hinv hb hk).1
  · rw [hs.owner, hi.id q hqn]

/-- What `smfree` does to the allocator: it gives back what the object wasted, and at most slabs. -/
structure SmallAlloc.Freed (alloc : SmallAlloc) (o : SmallObject) (alloc' : SmallAlloc) : Prop where
  layout : alloc.SameLayout alloc'
  waste : ∀ q < alloc.smallMempoolCacheSize,
    (alloc'.smallMempoolCache q).waste + owedBy alloc q o = (alloc.smallMempoolCache q).waste
  active : ∀ q, alloc'.Active q ↔ alloc.Active q
  slabs : ∀ q, ∀ a ∈ (alloc'.pool q).slabs, a ∈ (alloc.pool q).slabs

theorem SmallAlloc.Freed.thrifty (hf : alloc.Freed o alloc')
    (hth : ∀ q < alloc.smallMempoolCacheSize, alloc.Thrifty q) :
    ∀ q < alloc.smallMempoolCacheSize, alloc'.Thrifty q := by
  intro q hq hna
  rw [hf.active] at hna
  have hold := hth q hq hna
  have hwaste := hf.waste q hq
  rw [hf.layout.wasteMax]
  omega

theorem smallMempoolSearch_of_le (hsize : size ≤ alloc.objsizeMax) :
    smallMempoolSearch alloc size = some (alloc.classOf size) := by
  rw [smallMempoolSearch, if_neg (Nat.not_lt.2 hsize), SmallAlloc.classOf]

theorem smallMempoolSearch_of_lt (hsize : alloc.objsizeMax < size) :
    smallMempoolSearch alloc size = none := by
  rw [smallMempoolSearch, if_pos hsize]

/-- Only bytes of the object are not the same. -/
def SmallObject.KeepsOthers (alloc : SmallAlloc) (o : SmallObject) (h h' : MslabHeap) : Prop :=
  ∀ x, ¬ (o.start ≤ x ∧ x < o.start + o.length alloc) → h'.mem x = h.mem x

/-- `smfree` of a large object. -/
theorem smfree_large (hi : SmallInv g h alloc live) (ho : o ∈ live)
    (hsize : alloc.objsizeMax < o.size) :
    smfree g h alloc o.ptr o.size = some (h, alloc) ∧ SmallInv g h alloc (live.erase o) ∧
      alloc.Freed o alloc ∧
      o.KeepsOthers alloc h h := by
  obtain ⟨hnone, -, hmagic, horder⟩ := hi.large o ho hsize
  have hsearch := smallMempoolSearch_of_lt hsize
  refine ⟨?_, hi.releaseLarge ho hnone,
    ⟨.refl alloc, fun q _ => ?_, fun _ => Iff.rfl, fun _ _ ha => ha⟩, fun _ _ => rfl⟩
  · simp only [smfree, hsearch, checkLarge, guard, if_pos hmagic, if_pos horder]
    rfl
  · rw [owedBy, hsearch, if_neg (by simp), Nat.add_zero]

/-- What an object wastes in the pool of its class. -/
theorem SmallInv.owedBy_class (hi : SmallInv g h alloc live) (ho : o ∈ live)
    (hq : o.home = some q) :
    objsizeDiff alloc q (alloc.classOf o.size) = owedBy alloc (alloc.classOf o.size) o ∧
      ∀ r, r ≠ alloc.classOf o.size → owedBy alloc r o = 0 := by
  obtain ⟨hqn, hsize⟩ := hi.home_lt ho hq
  obtain ⟨q', hq', -, hle⟩ := hi.small o ho hsize
  rw [hq, Option.some.injEq] at hq'
  subst hq'
  have hsearch := smallMempoolSearch_of_le hsize
  refine ⟨?_, fun r hr => ?_⟩
  · rw [objsizeDiff_eq (hi.grouped.mono _ _ hle hqn) (hi.objsize_lt hqn), owedBy, if_pos hsearch,
      hq, Option.elim_some]
  · rw [owedBy, if_neg]
    rw [hsearch]
    exact fun he => hr (Option.some.inj he).symm

theorem smfreeFromPool_eq {ptr b diff : Nat} {m : Mempool}
    (hslab : slabFromPtr h ptr (alloc.pool p).slabPtrMask = some b)
    (howner : (h.mslab b).mempool = q) (hdiff : objsizeDiff alloc q p = diff)
    (hguard : diff ≤ (alloc.smallMempoolCache p).waste)
    (hfree : mempoolFreeSlab h (alloc.pool q) b ptr = some (h', m)) :
    smfreeFromPool h alloc ptr p
      = some (h', (alloc.setWaste p ((alloc.smallMempoolCache p).waste - diff)).setPool q m) := by
  unfold smfreeFromPool
  simp only [hslab, Option.bind_eq_bind, Option.bind_some, howner]
  generalize objsizeDiff alloc q p = d at hdiff ⊢
  subst hdiff
  simp only [guard, if_pos hguard, Option.pure_def, Option.bind_some,
    SmallAlloc.setWaste_pool, hfree]

/-- `smfree` of an object that lives in a pool. -/
theorem smfree_small (hi : SmallInv g h alloc live) (ho : o ∈ live) (hq : o.home = some q)
    (hguard : owedBy alloc (alloc.classOf o.size) o ≤
      (alloc.smallMempoolCache (alloc.classOf o.size)).waste) :
    ∃ h' alloc', smfree g h alloc o.ptr o.size = some (h', alloc') ∧
      SmallInv g h' alloc' (live.erase o) ∧
      alloc.Freed o alloc' ∧ o.KeepsOthers alloc h h' := by
  obtain ⟨hqn, hsize⟩ := hi.home_lt ho hq
  have hsearch := smallMempoolSearch_of_le hsize
  obtain ⟨b, hb, k, hk, hptr, hslab, howner⟩ := hi.find ho hq
  obtain ⟨hdiff, hother⟩ := hi.owedBy_class ho hq
  generalize alloc.classOf o.size = p at *
  generalize hw : (alloc.smallMempoolCache p).waste - owedBy alloc p o = waste
  obtain ⟨cold, hinv⟩ := hi.pools q hqn
  obtain ⟨h', m, cold', hfree, hinv', hsub, hsame, hmem, hframe⟩ :=
    mempoolFreeSlab_spec hinv hb hk (hptr ▸ mem_liveAt ho hq)
  rw [← hptr] at hfree hinv' hmem
  have hpool := alloc.setWaste_pool p waste q
  have hi₂ := (hi.setWaste p waste).release ho hq hinv' (hpool.symm ▸ hsub) (hpool.symm ▸ hsame)
    (hpool.symm ▸ hmem) (hpool.symm ▸ hframe)
  have hlay : alloc.SameLayout ((alloc.setWaste p waste).setPool q m) :=
    (alloc.setWaste_sameLayout p waste).trans (SmallAlloc.setPool_sameLayout (hpool.symm ▸ hsame))
  refine ⟨h', _, ?_, hi₂, ⟨hlay, fun r hr => ?_, fun r => ?_, fun r a ha => ?_⟩, fun x hx =>
    hmem x ?_⟩
  · rw [smfree, hsearch]
    exact hw ▸ smfreeFromPool_eq hslab howner hdiff hguard hfree
  · rw [SmallAlloc.setPool_waste, SmallAlloc.setWaste_waste]
    split
    · next he =>
        subst he
        omega
    · next hne => rw [hother r hne, Nat.add_zero]
  · rw [SmallAlloc.setPool_active, SmallAlloc.setWaste_active]
  · by_cases hrq : r = q
    · subst hrq
      rw [SmallAlloc.setPool_pool_self] at ha
      exact hsub a ha
    · rwa [SmallAlloc.setPool_pool_ne _ hrq, SmallAlloc.setWaste_pool] at ha
  · rwa [SmallObject.start, SmallObject.length, hq] at hx

/-- `smfree` of a live object. -/
theorem smfree_spec (hi : SmallInv g h alloc live)
    (hcov : ∀ q < alloc.smallMempoolCacheSize,
      owed alloc live q ≤ (alloc.smallMempoolCache q).waste)
    (ho : o ∈ live) :
    ∃ h' alloc', smfree g h alloc o.ptr o.size = some (h', alloc') ∧
      SmallInv g h' alloc' (live.erase o) ∧
      alloc.Freed o alloc' ∧ o.KeepsOthers alloc h h' := by
  by_cases hsize : o.size ≤ alloc.objsizeMax
  · obtain ⟨q, hq, -, -⟩ := hi.small o ho hsize
    refine smfree_small hi ho hq ?_
    have hsum := owed_erase alloc ho (alloc.classOf o.size)
    have hle := hcov _ (hi.search _ hsize).1
    omega
  · exact ⟨h, alloc, smfree_large hi ho (Nat.lt_of_not_le hsize)⟩

end SmallAllocators
