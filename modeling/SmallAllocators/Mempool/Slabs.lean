/-
SmallAllocators.Mempool.Slabs — objects come from the slabs of a pool and
return to them.

One lemma for each change of the contents of a pool: an object is taken
from a slab, an object is put on the free list of its slab, a slab is added,
and a slab without objects is dropped.
-/
import SmallAllocators.Mempool.Invariant

namespace SmallAllocators

open Memory

variable {g : Geometry} {h : MslabHeap} {p : Mempool} {live : List Nat} {a b : Nat}

/-! ## Slots of different slabs -/

theorem slabOrderSize_lt {order : Nat} (h : order ≤ g.orderMax) :
    g.slabOrderSize order < 2 ^ 32 := by
  refine Nat.lt_of_le_of_lt ?_ g.slabSize_lt
  rw [Geometry.slabOrderSize, Nat.one_shiftLeft, g.slabSize_eq]
  exact Nat.pow_le_pow_right (by decide) (Nat.add_le_add_right h _)

theorem Mempool.Config.slabOrderSize_lt (hp : p.Config g) : g.slabOrderSize p.slabOrder < 2 ^ 32 :=
  SmallAllocators.slabOrderSize_lt hp.order

theorem Mempool.Config.objsize_pos (hp : p.Config g) : 0 < p.objsize :=
  Nat.lt_of_lt_of_le (by decide) hp.objsize

/-- The slots of two slabs do not overlap. -/
theorem Contents.slots_apart (hc : Contents g h p live) (ha : a ∈ p.slabs) (hb : b ∈ p.slabs)
    (hne : a ≠ b) {k k' : Nat} (hk : k < p.objcount) (hk' : k' < p.objcount) :
    p.slot a k + p.objsize ≤ p.slot b k' ∨ p.slot b k' + p.objsize ≤ p.slot a k := by
  have h1 := hc.config.slot_bounds (a := a) hk
  have h2 := hc.config.slot_bounds (a := b) hk'
  rcases slab_apart (hc.place a ha).2.1 (hc.place b hb).2.1 hne with h3 | h3 <;> omega

theorem Contents.slot_ne (hc : Contents g h p live) (ha : a ∈ p.slabs) (hb : b ∈ p.slabs)
    (hne : a ≠ b) {k k' : Nat} (hk : k < p.objcount) (hk' : k' < p.objcount) :
    p.slot b k' ≠ p.slot a k := by
  have hpos := hc.config.objsize_pos
  intro heq
  rcases hc.slots_apart ha hb hne hk hk' with h1 | h1 <;> omega

theorem Contents.slot_pos (hc : Contents g h p live) (ha : a ∈ p.slabs) {k : Nat}
    (hk : k < p.objcount) :
    0 < p.slot a k ∧ p.slot a k < sizeMax := by
  have h1 := hc.config.slot_bounds (a := a) hk
  have hpos := hc.config.objsize_pos
  obtain ⟨h2, -, h3⟩ := hc.place a ha
  omega

/-- Live objects do not overlap. -/
theorem Contents.live_apart (hc : Contents g h p live) {x y : Nat} (hx : x ∈ live) (hy : y ∈ live)
    (hne : x ≠ y) :
    x + p.objsize ≤ y ∨ y + p.objsize ≤ x := by
  obtain ⟨a, ha, k, hk, rfl⟩ := hc.live_slot x hx
  obtain ⟨b, hb, k', hk', rfl⟩ := hc.live_slot y hy
  by_cases hab : a = b
  · subst hab
    exact Mempool.slot_apart fun he => hne (he ▸ rfl)
  · exact hc.slots_apart ha hb hab hk hk'

/-- The mask leads from a slot to its slab. -/
theorem Contents.slot_and_mask (hc : Contents g h p live) (ha : a ∈ p.slabs) {k : Nat}
    (hk : k < p.objcount) :
    p.slot a k &&& p.slabPtrMask = a := by
  obtain ⟨h1, h2⟩ := hc.config.slot_bounds (a := a) hk
  obtain ⟨hpos, ⟨i, hi⟩, -⟩ := hc.place a ha
  have hobj := hc.config.objsize_pos
  have hlt := (hc.slot_pos ha hk).2
  have hle : p.slabOrder + g.order0SizeLb ≤ 64 := by
    by_contra hgt
    have hsz := hc.config.slabOrderSize_lt
    rw [Geometry.slabOrderSize, Nat.one_shiftLeft] at hsz
    have := (Nat.pow_lt_pow_iff_right (by decide)).1 hsz
    omega
  have hmask := and_high_mask (x := p.slot a k) hle hlt
  rw [hc.config.mask]
  rw [Geometry.slabOrderSize, Nat.one_shiftLeft] at *
  refine hmask.trans ?_
  have hpow := Nat.two_pow_pos (p.slabOrder + g.order0SizeLb)
  have hdiv : p.slot a k / 2 ^ (p.slabOrder + g.order0SizeLb) = i := by
    rw [Nat.div_eq_iff hpow]
    rw [Nat.mul_comm] at hi
    omega
  rw [hdiv, hi, Nat.mul_comm]

/-! ## An object is taken -/

@[simp] theorem mslabTake_mem (h : MslabHeap) (p : Mempool) (a : Nat) :
    (mslabTake h p a).2.mem = h.mem := by
  unfold mslabTake
  dsimp only
  split <;> rfl

@[simp] theorem mslabTake_nextInCold (h : MslabHeap) (p : Mempool) (a : Nat) :
    (mslabTake h p a).2.nextInCold = h.nextInCold := by
  unfold mslabTake
  dsimp only
  split <;> rfl

theorem mslabTake_ne (h : MslabHeap) (p : Mempool) (hne : b ≠ a) :
    (mslabTake h p a).2.mslab b = h.mslab b := by
  unfold mslabTake
  dsimp only
  split <;> exact h.setMslab_ne _ hne

theorem mslabTake_nfree (h : MslabHeap) (p : Mempool) (a : Nat) :
    ((mslabTake h p a).2.mslab a).nfree = (h.mslab a).nfree - 1 := by
  unfold mslabTake
  dsimp only
  split <;> simp

@[simp] theorem mslabTake_inHotSlabs (h : MslabHeap) (p : Mempool) (a b : Nat) :
    ((mslabTake h p a).2.mslab b).inHotSlabs = (h.mslab b).inHotSlabs := by
  by_cases hb : b = a
  · subst hb
    unfold mslabTake
    dsimp only
    split <;> simp
  · rw [mslabTake_ne h p hb]

/-- The slab that an object is taken from. -/
theorem mslabTake_slab {m : Nat} {ks : List Nat} (hp : p.Config g)
    (hpos : ∀ k < p.objcount, 0 < p.slot a k) (hs : SlabOk g h p live a m ks)
    (hn : 0 < (h.mslab a).nfree) :
    ∃ k m' ks', k < p.objcount ∧ (mslabTake h p a).1 = p.slot a k ∧ p.slot a k ∉ live ∧
      SlabOk g (mslabTake h p a).2 p (p.slot a k :: live) a m' ks' := by
  have hnfree := hs.nfree
  unfold mslabTake
  cases ks with
  | nil =>
      have hlist : (h.mslab a).freeList = 0 := hs.chain
      simp only [List.length_nil] at hnfree
      have hm : m < p.objcount := by omega
      refine ⟨m, m + 1, [], hm, ?_, fun hl => absurd ((hs.live m hm).1 hl).1 (Nat.lt_irrefl m), ?_⟩
      · simp only [hlist, ne_eq, not_true_eq_false, if_false, hs.offset, Mempool.slot]
        omega
      · simp only [hlist, ne_eq, not_true_eq_false, if_false]
        have hb := hp.slot_bounds (a := a) hm
        have hlt := hp.slabOrderSize_lt
        constructor
        case chain => simp [FreeChain]
        case offset =>
          simp only [MslabHeap.setMslab_self, hs.offset]
          rw [Nat.mod_eq_of_lt (by unfold Mempool.slot at hb; omega), Nat.add_mul, Nat.one_mul]
          omega
        case nfree => simp only [MslabHeap.setMslab_self, List.length_nil]; omega
        case live =>
          intro k hk
          have hl := hs.live k hk
          simp only [List.not_mem_nil, not_false_eq_true, and_true] at hl
          simp only [List.mem_cons, hl, List.not_mem_nil, not_false_eq_true, and_true]
          constructor
          · rintro (he | hlt)
            · rw [hp.slot_inj he]; omega
            · omega
          · intro hlt
            by_cases he : k = m
            · exact Or.inl (he ▸ rfl)
            · exact Or.inr (by omega)
        case magic => simpa using hs.magic
        case order => simpa using hs.order
        case size => simpa using hs.size
        case owner => simpa using hs.owner
        case used => exact hm
        case nodup => exact List.nodup_nil
        case lt => simp
  | cons k ks =>
      obtain ⟨hfirst, hchain⟩ := hs.chain
      have hkm := hs.lt k List.mem_cons_self
      have hk : k < p.objcount := Nat.lt_of_lt_of_le hkm hs.used
      have hne : (h.mslab a).freeList ≠ 0 := by rw [hfirst]; exact (hpos k hk).ne'
      obtain ⟨hknotin, hnodup⟩ := List.nodup_cons.1 hs.nodup
      refine ⟨k, m, ks, hk, by rw [if_pos hne]; exact hfirst, fun hl =>
        ((hs.live k hk).1 hl).2 List.mem_cons_self, ?_⟩
      simp only [ne_eq, hne, not_false_eq_true, if_true]
      constructor
      case chain => simpa using hchain
      case offset => simpa using hs.offset
      case nfree =>
        simp only [List.length_cons] at hnfree
        simp only [MslabHeap.setMslab_self]
        omega
      case live =>
        intro k' hk'
        have hl := hs.live k' hk'
        simp only [List.mem_cons, not_or] at hl
        simp only [List.mem_cons, hl]
        constructor
        · rintro (he | ⟨h1, -, h2⟩)
          · rw [hp.slot_inj he]
            exact ⟨hkm, hknotin⟩
          · exact ⟨h1, h2⟩
        · rintro ⟨h1, h2⟩
          by_cases he : k' = k
          · exact Or.inl (he ▸ rfl)
          · exact Or.inr ⟨h1, he, h2⟩
      case magic => simpa using hs.magic
      case order => simpa using hs.order
      case size => simpa using hs.size
      case owner => simpa using hs.owner
      case used => exact hs.used
      case nodup => exact hnodup
      case lt => exact fun k' hk' => hs.lt k' (List.mem_cons_of_mem _ hk')

theorem Mempool.setUsed_sameConfig (p : Mempool) (used : Nat) : p.SameConfig (p.setUsed used) :=
  ⟨rfl, rfl, rfl, rfl, rfl, rfl⟩

/-- `mslab_alloc` takes a free slot, which is live then. -/
theorem mslabTake_spec (hc : Contents g h p live) (ha : a ∈ p.slabs) (hn : 0 < (h.mslab a).nfree) :
    ∃ k, k < p.objcount ∧ (mslabTake h p a).1 = p.slot a k ∧ p.slot a k ∉ live ∧
      Contents g (mslabTake h p a).2 (p.setUsed (p.stats.used + p.objsize))
        (p.slot a k :: live) := by
  obtain ⟨m, ks, hs⟩ := hc.slab a ha
  obtain ⟨k, m', ks', hk, hptr, hnew, hs'⟩ :=
    mslabTake_slab hc.config (fun k hk => (hc.slot_pos ha hk).1) hs hn
  have hsame := p.setUsed_sameConfig (p.stats.used + p.objsize)
  refine ⟨k, hk, hptr, hnew, ?_⟩
  constructor
  case config => exact hsame.config hc.config
  case nodup => exact hc.nodup
  case place => exact hc.place
  case slab =>
    intro b hb
    by_cases hba : b = a
    · subst hba
      exact ⟨m', ks', hs'.congr hc.config hsame (.refl _) (fun _ _ _ => rfl) fun _ _ => Iff.rfl⟩
    · obtain ⟨n, ls, hsb⟩ := hc.slab b hb
      refine ⟨n, ls,
        hsb.congr hc.config hsame (.of_eq (mslabTake_ne h p hba)) (fun _ _ _ => by simp) ?_⟩
      intro k' hk'
      rw [List.mem_cons, or_iff_right (hc.slot_ne ha hb (Ne.symm hba) hk hk')]
  case live_slot =>
    intro x hx
    rcases List.mem_cons.1 hx with rfl | hx
    · exact ⟨a, ha, k, hk, rfl⟩
    · exact hc.live_slot x hx
  case live_nodup => exact List.nodup_cons.2 ⟨hnew, hc.live_nodup⟩
  case used =>
    simp only [Mempool.setUsed, List.length_cons, hc.used]
    rw [Nat.mul_add, Nat.mul_one]
  case total => exact hc.total

/-! ## An object is put back -/

/-- The memory after the bytes of an object were overwritten and the object was put on the free
list. -/
def mslabReturn (h : MslabHeap) (p : Mempool) (a ptr : Nat) : MslabHeap :=
  mslabPush { h with mem := fill h.mem ptr p.objsize fun _ => 35 } a ptr

theorem mslabReturn_mem (hp : p.Config g) {ptr x : Nat} (hx : ¬ (ptr ≤ x ∧ x < ptr + p.objsize)) :
    (mslabReturn h p a ptr).mem x = h.mem x := by
  have hsz := hp.objsize
  unfold mslabReturn mslabPush
  dsimp only
  rw [MslabHeap.setMslab_mem]
  dsimp only
  rw [storePtr_of_not (by omega), fill_of_not hx]

theorem mslabReturn_loadPtr {ptr : Nat} (hv : (h.mslab a).freeList < sizeMax) :
    loadPtr (mslabReturn h p a ptr).mem ptr = (h.mslab a).freeList := loadPtr_storePtr _ _ hv

@[simp] theorem mslabReturn_nextInCold (h : MslabHeap) (p : Mempool) (a ptr : Nat) :
    (mslabReturn h p a ptr).nextInCold = h.nextInCold := rfl

@[simp] theorem mslabReturn_self (h : MslabHeap) (p : Mempool) (a ptr : Nat) :
    (mslabReturn h p a ptr).mslab a =
      { h.mslab a with freeList := ptr, nfree := (h.mslab a).nfree + 1 } :=
  MslabHeap.setMslab_self _ _ _

theorem mslabReturn_ne (h : MslabHeap) (p : Mempool) {ptr : Nat} (hne : b ≠ a) :
    (mslabReturn h p a ptr).mslab b = h.mslab b := MslabHeap.setMslab_ne _ _ hne

theorem FreeChain.head_lt {mem : Nat → UInt8} {ptr : Nat} {ks : List Nat}
    (hc : FreeChain p mem a ptr ks) (hlt : ∀ k ∈ ks, p.slot a k < sizeMax) : ptr < sizeMax := by
  cases ks with
  | nil =>
      have hz : ptr = 0 := hc
      rw [hz]
      decide
  | cons k ks =>
      rw [hc.1]
      exact hlt k List.mem_cons_self

/-- The slab that an object is put back to. -/
theorem mslabReturn_slab {m k : Nat} {ks : List Nat} (hp : p.Config g)
    (hlt : ∀ k < p.objcount, p.slot a k < sizeMax) (hs : SlabOk g h p live a m ks)
    (hnodup : live.Nodup) (hk : k < p.objcount) (hlive : p.slot a k ∈ live) :
    SlabOk g (mslabReturn h p a (p.slot a k)) p (live.erase (p.slot a k)) a m (k :: ks) := by
  obtain ⟨hkm, hknotin⟩ := (hs.live k hk).1 hlive
  have hsz := hp.objsize
  constructor
  case chain =>
    rw [mslabReturn_self]
    refine ⟨rfl, ?_⟩
    rw [mslabReturn_loadPtr (hs.chain.head_lt fun k' hk' =>
        hlt k' (Nat.lt_of_lt_of_le (hs.lt k' hk') hs.used))]
    refine hs.chain.congr fun k' hk' x h1 h2 => mslabReturn_mem hp ?_
    have hne : k ≠ k' := fun he => hknotin (he ▸ hk')
    rcases Mempool.slot_apart (p := p) (a := a) hne with h3 | h3 <;> omega
  case nodup => exact List.nodup_cons.2 ⟨hknotin, hs.nodup⟩
  case lt =>
    intro k' hk'
    rcases List.mem_cons.1 hk' with rfl | hk'
    · exact hkm
    · exact hs.lt k' hk'
  case nfree =>
    have hnfree := hs.nfree
    simp only [mslabReturn_self, List.length_cons]
    omega
  case live =>
    intro k' hk'
    rw [hnodup.mem_erase_iff, hs.live k' hk', List.mem_cons, not_or]
    constructor
    · rintro ⟨h1, h2, h3⟩
      exact ⟨h2, fun he => h1 (he ▸ rfl), h3⟩
    · rintro ⟨h1, h2, h3⟩
      exact ⟨fun he => h2 (hp.slot_inj he), h1, h3⟩
  case offset => simpa using hs.offset
  case magic => simpa using hs.magic
  case order => simpa using hs.order
  case size => simpa using hs.size
  case owner => simpa using hs.owner
  case used => exact hs.used

/-- `mslab_free` puts an object on the free list of its slab, and it is not live any more. -/
theorem mslabReturn_spec (hc : Contents g h p live) (ha : a ∈ p.slabs) {k : Nat}
    (hk : k < p.objcount) (hlive : p.slot a k ∈ live) :
    Contents g (mslabReturn h p a (p.slot a k)) (p.setUsed (p.stats.used - p.objsize))
      (live.erase (p.slot a k)) := by
  obtain ⟨m, ks, hs⟩ := hc.slab a ha
  have hs' := mslabReturn_slab hc.config
    (fun k hk => (hc.slot_pos ha hk).2) hs hc.live_nodup hk hlive
  have hsame := p.setUsed_sameConfig (p.stats.used - p.objsize)
  constructor
  case config => exact hsame.config hc.config
  case nodup => exact hc.nodup
  case place => exact hc.place
  case slab =>
    intro b hb
    by_cases hba : b = a
    · subst hba
      exact ⟨m, k :: ks, hs'.congr hc.config hsame (.refl _) (fun _ _ _ => rfl) fun _ _ => Iff.rfl⟩
    · obtain ⟨n, ls, hsb⟩ := hc.slab b hb
      refine ⟨n, ls, hsb.congr hc.config hsame (.of_eq (mslabReturn_ne h p hba))
        (fun x h1 h2 => ?_) fun k' hk' => ?_⟩
      · refine mslabReturn_mem hc.config ?_
        have hbounds := hc.config.slot_bounds (a := a) hk
        rcases slab_apart (hc.place a ha).2.1 (hc.place b hb).2.1 (Ne.symm hba) with h3 | h3
          <;> omega
      · rw [hc.live_nodup.mem_erase_iff, and_iff_right (hc.slot_ne ha hb (Ne.symm hba) hk hk')]
  case live_slot => exact fun x hx => hc.live_slot x (List.mem_of_mem_erase hx)
  case live_nodup => exact hc.live_nodup.erase _
  case used =>
    simp only [Mempool.setUsed, hc.used, List.length_erase_of_mem hlive]
    rw [Nat.mul_sub, Nat.mul_one]
  case total => exact hc.total

/-! ## Slabs come and go -/

@[simp] theorem mslabCreate_mem (g : Geometry) (h : MslabHeap) (a : Nat) (p : Mempool) :
    (mslabCreate g h a p).mem = h.mem := rfl

theorem mslabCreate_self (g : Geometry) (h : MslabHeap) (a : Nat) (p : Mempool) :
    (mslabCreate g h a p).mslab a =
      { magic := slabMagic, order := p.slabOrder, size := g.slabOrderSize p.slabOrder,
        freeList := 0,
        freeOffset := p.offset, nfree := p.objcount, inHotSlabs := false, mempool := p.id } :=
  MslabHeap.setMslab_self _ _ _

theorem mslabCreate_ne (g : Geometry) (h : MslabHeap) (p : Mempool) (hne : b ≠ a) :
    (mslabCreate g h a p).mslab b = h.mslab b := MslabHeap.setMslab_ne _ _ hne

/-- A slab that the cache may return for the pool: it is aligned, and not one of the pool's. -/
structure Mempool.Fresh (g : Geometry) (p : Mempool) (a : Nat) : Prop where
  pos : 0 < a
  aligned : g.slabOrderSize p.slabOrder ∣ a
  bound : a + g.slabOrderSize p.slabOrder ≤ sizeMax
  absent : a ∉ p.slabs

/-- A new slab has only free slots. -/
theorem mslabCreate_spec (hc : Contents g h p live) (hf : p.Fresh g a) :
    Contents g (mslabCreate g h a p) (p.listAdd (mslabCreate g h a p) a) live := by
  have hself := mslabCreate_self g h a p
  have hsame : p.SameConfig (p.listAdd (mslabCreate g h a p) a) := ⟨rfl, rfl, rfl, rfl, rfl, rfl⟩
  have hne : ∀ b ∈ p.slabs, b ≠ a := fun b hb he => hf.absent (he ▸ hb)
  constructor
  case config => exact hsame.config hc.config
  case nodup => exact List.nodup_cons.2 ⟨hf.absent, hc.nodup⟩
  case place =>
    intro b hb
    rcases List.mem_cons.1 hb with rfl | hb
    · exact ⟨hf.pos, hf.aligned, hf.bound⟩
    · exact hc.place b hb
  case slab =>
    intro b hb
    rcases List.mem_cons.1 hb with rfl | hb
    · refine ⟨0, [], ?_⟩
      constructor
      case live =>
        intro k hk
        simp only [Nat.not_lt_zero, false_and, iff_false]
        intro hl
        obtain ⟨c, hcm, k', hk', heq⟩ := hc.live_slot _ hl
        have h1 := hc.config.slot_bounds (a := b) hk
        have h2 := hc.config.slot_bounds (a := c) hk'
        have hpos := hc.config.objsize_pos
        have hslot : p.slot b k = p.slot c k' := heq
        rcases slab_apart hf.aligned (hc.place c hcm).2.1 (Ne.symm (hne c hcm)) with h3 | h3
          <;> omega
      case nfree => rw [hself]; simp; rfl
      case offset => rw [hself]; simp; rfl
      case chain => rw [hself]; rfl
      case magic => rw [hself]
      case order => rw [hself]; rfl
      case size => rw [hself]; rfl
      case owner => rw [hself]; rfl
      case used => exact Nat.zero_le _
      case nodup => exact List.nodup_nil
      case lt => simp
    · obtain ⟨m, ks, hs⟩ := hc.slab b hb
      exact ⟨m, ks,
        hs.congr hc.config hsame (.of_eq (mslabCreate_ne g h p (hne b hb))) (fun _ _ _ => rfl)
        fun _ _ => Iff.rfl⟩
  case live_slot =>
    intro x hx
    obtain ⟨b, hb, k, hk, heq⟩ := hc.live_slot x hx
    exact ⟨b, List.mem_cons_of_mem _ hb, k, hk, heq⟩
  case live_nodup => exact hc.live_nodup
  case used => exact hc.used
  case total =>
    simp only [Mempool.listAdd, hself, List.length_cons, hc.total]
    rw [Nat.mul_add, Nat.mul_one]

/-- A slab without objects leaves the pool. -/
theorem listDel_spec (hc : Contents g h p live) (ha : a ∈ p.slabs)
    (hn : (h.mslab a).nfree = p.objcount) :
    Contents g h (p.listDel h a) live := by
  have hsame : p.SameConfig (p.listDel h a) := ⟨rfl, rfl, rfl, rfl, rfl, rfl⟩
  obtain ⟨m, ks, hs⟩ := hc.slab a ha
  -- all slots are free: the free list has all that were used
  have hempty : ∀ k < p.objcount, p.slot a k ∉ live := by
    intro k hk hl
    obtain ⟨hkm, hknotin⟩ := (hs.live k hk).1 hl
    have hsub : (k :: ks).Subperm (List.range m) := by
      refine List.subperm_of_subset (List.nodup_cons.2 ⟨hknotin, hs.nodup⟩) fun x hx =>
        List.mem_range.2 ?_
      rcases List.mem_cons.1 hx with rfl | hx
      · exact hkm
      · exact hs.lt x hx
    have hlen := hsub.length_le
    rw [List.length_cons, List.length_range] at hlen
    have hnfree := hs.nfree
    have hused := hs.used
    omega
  constructor
  case config => exact hsame.config hc.config
  case nodup => exact hc.nodup.erase _
  case place => exact fun b hb => hc.place b (List.mem_of_mem_erase hb)
  case slab =>
    intro b hb
    obtain ⟨n, ls, hsb⟩ := hc.slab b (List.mem_of_mem_erase hb)
    exact ⟨n, ls, hsb.congr hc.config hsame (.refl _) (fun _ _ _ => rfl) fun _ _ => Iff.rfl⟩
  case live_slot =>
    intro x hx
    obtain ⟨b, hb, k, hk, rfl⟩ := hc.live_slot x hx
    have hba : b ≠ a := fun he => hempty k hk (he ▸ hx)
    exact ⟨b, (List.mem_erase_of_ne hba).2 hb, k, hk, rfl⟩
  case live_nodup => exact hc.live_nodup
  case used => exact hc.used
  case total =>
    simp only [Mempool.listDel, hs.size, hc.total, List.length_erase_of_mem ha]
    rw [Nat.mul_sub, Nat.mul_one]

end SmallAllocators
