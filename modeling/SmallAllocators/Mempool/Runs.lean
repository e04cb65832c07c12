/-
SmallAllocators.Mempool.Runs — runs of a pool.

`live` has the objects that the client allocated and did not free. The
client may overwrite them at any time, and the cache may have no slab for
the pool at any time.
-/
import SmallAllocators.Lib.Runs
import SmallAllocators.Mempool.Ops
import SmallAllocators.SlabCache.Runs

namespace SmallAllocators

open Memory

structure MempoolState where
  heap : MslabHeap
  pool : Mempool
  live : List Nat

inductive MempoolOp where
  /-- `mempool_alloc`, with what the cache answers. -/
  | alloc (answer : Option Nat)
  | free (ptr : Nat)
  | freeSpareSlab
  /-- The client writes to its objects, and others to their memory. -/
  | write (mem : Nat → UInt8)

/-- Only bytes of live objects and bytes outside the slabs of the pool are not the same. -/
def MempoolState.Writes (g : Geometry) (s : MempoolState) (mem : Nat → UInt8) : Prop :=
  ∀ a ∈ s.pool.slabs, ∀ x, a ≤ x → x < a + g.slabOrderSize s.pool.slabOrder →
    (∀ y ∈ s.live, ¬ (y ≤ x ∧ x < y + s.pool.objsize)) → mem x = s.heap.mem x

def MempoolOp.Allowed (g : Geometry) (s : MempoolState) : MempoolOp → Prop
  | .alloc answer => s.pool.Answers g answer
  | .free ptr => ptr ∈ s.live
  | .freeSpareSlab => s.pool.spare ≠ 0
  | .write mem => s.Writes g mem

def MempoolOp.exec (g : Geometry) (s : MempoolState) : MempoolOp → Option MempoolState
  | .alloc answer => do
    let (ptr, heap, pool) ← mempoolAlloc g s.heap s.pool answer
    some { heap := heap, pool := pool, live := if ptr = 0 then s.live else ptr :: s.live }
  | .free ptr => do
    let (heap, pool) ← mempoolFree s.heap s.pool ptr
    some { heap := heap, pool := pool, live := s.live.erase ptr }
  | .freeSpareSlab => do
    let pool ← mempoolFreeSpareSlab s.heap s.pool
    some { s with pool := pool }
  | .write mem => some { s with heap := { s.heap with mem := mem } }

/-- The pool is new: `mempool_create_with_order` returned it, for objects of at least `least`
bytes. -/
def MempoolState.Created (g : Geometry) (least : Nat) (s : MempoolState) : Prop :=
  ∃ heap id objsize order, least ≤ objsize ∧
    mempoolCreateWithOrder g heap id objsize order = some (s.heap, s.pool) ∧ s.live = []

/-- The pool and its client. An object can hold a pointer when `least` is `sizeof(void *)`. -/
def mempoolMachine (g : Geometry) (least : Nat) : Machine MempoolState MempoolOp where
  init := MempoolState.Created g least
  allowed s op := op.Allowed g s
  exec s op := op.exec g s

variable {g : Geometry} {s : MempoolState}

def MempoolState.Inv (g : Geometry) (s : MempoolState) : Prop :=
  ∃ cold, s.pool.Inv g s.heap s.live cold

theorem order0Size_le (g : Geometry) (order : Nat) : g.order0Size ≤ g.slabOrderSize order := by
  rw [Geometry.slabOrderSize, Nat.one_shiftLeft, g.order0Size_eq]
  exact Nat.pow_le_pow_right (by decide) (Nat.le_add_left _ _)

/-- The objects of a pool fill the end of its slabs. -/
structure Mempool.Shape (g : Geometry) (p : Mempool) : Prop where
  order : p.slabOrder ≤ g.orderMax
  objcount : 0 < p.objcount
  header : mslabSizeof ≤ p.offset
  size : p.offset + p.objcount * p.objsize = g.slabOrderSize p.slabOrder
  mask : p.slabPtrMask = sizeMax - 1 - (g.slabOrderSize p.slabOrder - 1)

theorem Mempool.Shape.config {p : Mempool} (hp : p.Shape g) (hsize : ptrSize ≤ p.objsize) :
    p.Config g :=
  ⟨hp.order, hsize, hp.objcount, hp.header, hp.size, hp.mask⟩

/-- `mempool_create_with_order`, for objects of any size. -/
theorem mempoolCreateWithOrder_shape {heap heap' : MslabHeap} {id objsize order : Nat}
    {pool : Mempool} (hg : mslabSizeof ≤ g.order0Size)
    (hex : mempoolCreateWithOrder g heap id objsize order = some (heap', pool)) :
    pool.Shape g ∧ heap' = heap.setLinks (rlistCreate heap.nextInCold (.head id)) ∧
      pool = { id := id, slabs := [], stats := { used := 0, total := 0 }, hotSlabs := [],
               firstHotSlab := 0, spare := 0, objsize := objsize, slabOrder := order, objcount :=
                          (g.slabOrderSize order - mslabSizeof) / objsize,
               offset := pool.offset, slabPtrMask := pool.slabPtrMask } := by
  by_cases horder : order ≤ g.orderMax
  · have hlt := slabOrderSize_lt horder
    have hge := Nat.le_trans hg (order0Size_le g order)
    have hmod : g.slabOrderSize order % 2 ^ 32 = g.slabOrderSize order := Nat.mod_eq_of_lt hlt
    have hsub : (g.slabOrderSize order + 2 ^ 32 - mslabSizeof) % 2 ^ 32 =
        g.slabOrderSize order - mslabSizeof := by
      rw [show g.slabOrderSize order + 2 ^ 32 - mslabSizeof =
        (g.slabOrderSize order - mslabSizeof) + 2 ^ 32 by omega,
        Nat.add_mod_right, Nat.mod_eq_of_lt (by omega)]
    simp only [mempoolCreateWithOrder, guard, horder, if_true, hmod, hsub,
      Option.bind_eq_bind] at hex
    generalize hcount : (g.slabOrderSize order - mslabSizeof) / objsize = objcount at hex
    by_cases hzero : objcount = 0
    · simp [hzero] at hex
    · have hmul : objcount * objsize ≤ g.slabOrderSize order - mslabSizeof := by
        rw [← hcount]
        exact Nat.div_mul_le_self _ _
      have hoff : (g.slabOrderSize order + 2 ^ 32 - objcount * objsize % 2 ^ 32) % 2 ^ 32
          = g.slabOrderSize order - objcount * objsize := by
        rw [Nat.mod_eq_of_lt (show objcount * objsize < 2 ^ 32 by omega),
          show g.slabOrderSize order + 2 ^ 32 - objcount * objsize =
          (g.slabOrderSize order - objcount * objsize) + 2 ^ 32 by omega,
          Nat.add_mod_right, Nat.mod_eq_of_lt (by omega)]
      simp only [ne_eq, hzero, not_false_eq_true, if_true, Option.pure_def, Option.bind_some,
        Option.some.injEq, Prod.mk.injEq, hoff] at hex
      obtain ⟨rfl, rfl⟩ := hex
      exact ⟨⟨horder, Nat.pos_of_ne_zero hzero, by simp only; omega, by simp only; omega, rfl⟩,
        rfl, rfl⟩
  · simp [mempoolCreateWithOrder, guard, horder] at hex

/-- `mempool_create_with_order`, for objects that can hold a pointer. -/
theorem mempoolCreateWithOrder_spec {heap heap' : MslabHeap} {id objsize order : Nat}
    {pool : Mempool} (hg : mslabSizeof ≤ g.order0Size) (hsize : ptrSize ≤ objsize)
    (hex : mempoolCreateWithOrder g heap id objsize order = some (heap', pool)) :
    pool.Inv g heap' [] [] := by
  obtain ⟨hshape, rfl, hpool⟩ := mempoolCreateWithOrder_shape hg hex
  have hconfig : pool.Config g := hshape.config (by rw [hpool]; exact hsize)
  rw [hpool] at hconfig ⊢
  refine ⟨?_, ?_, by simp⟩
  · constructor
    case config => exact hconfig
    case nodup => exact List.nodup_nil
    case place => simp
    case slab => simp
    case live_slot => simp
    case live_nodup => exact List.nodup_nil
    case used => rfl
    case total => rfl
  · constructor
    case hotSorted => exact List.Pairwise.nil
    case hotMem => simp
    case hotFlag => simp
    case first => rfl
    case ring => exact rlistCreate_ring _ _
    case coldMem => simp
    case loose => simp
    case spare => simp

theorem MempoolState.Created.inv (hg : mslabSizeof ≤ g.order0Size) (hs : s.Created g ptrSize) :
    s.Inv g := by
  obtain ⟨heap, id, objsize, order, hsize, hex, hlive⟩ := hs
  refine ⟨[], ?_⟩
  rw [hlive]
  exact mempoolCreateWithOrder_spec hg hsize hex

/-- The free slots keep their bytes when the client writes. -/
theorem MempoolState.Writes.inv {mem : Nat → UInt8} {cold : List Nat}
    (hi : s.pool.Inv g s.heap s.live cold) (hw : s.Writes g mem) :
    s.pool.Inv g { s.heap with mem := mem } s.live cold := by
  obtain ⟨hc, hl, hst⟩ := hi
  refine ⟨{ hc with slab := fun a ha => ?_ }, { hl with }, fun a ha => { hst a ha with }⟩
  obtain ⟨m, ks, hs⟩ := hc.slab a ha
  refine ⟨m, ks, { hs with chain := hs.chain.congr fun k hk x h1 h2 => ?_ }⟩
  have hkc : k < s.pool.objcount := Nat.lt_of_lt_of_le (hs.lt k hk) hs.used
  have hb := hc.config.slot_bounds (a := a) hkc
  have hsz := hc.config.objsize
  refine hw a ha x (by omega) (by omega) fun y hy hxy => ?_
  -- the slot is free, so no live object overlaps it
  obtain ⟨b, hbm, k', hk', rfl⟩ := hc.live_slot y hy
  by_cases hab : a = b
  · subst hab
    have hne : k ≠ k' := fun he => ((hs.live k' hk').1 hy).2 (he ▸ hk)
    rcases Mempool.slot_apart (p := s.pool) (a := a) hne with h3 | h3 <;> omega
  · rcases hc.slots_apart ha hbm hab hkc hk' with h3 | h3 <;> omega

/-- Each operation of a run returns and keeps the invariant. -/
theorem MempoolOp.exec_inv (hi : s.Inv g) (op : MempoolOp) (hop : op.Allowed g s) :
    ∃ s', op.exec g s = some s' ∧ s'.Inv g := by
  obtain ⟨cold, hi⟩ := hi
  cases op with
  | alloc answer =>
      rcases mempoolAlloc_spec hi hop with ⟨heq, -, -⟩
        | ⟨a, k, h', p', cold', heq, ha, hk, -, hinv, -, hsame, -⟩
      · exact ⟨s, by simp [MempoolOp.exec, heq], cold, hi⟩
      · have hpos : s.pool.slot a k ≠ 0 := by
          rw [← hsame.slot]
          exact (hinv.contents.slot_pos ha (hsame.objcount ▸ hk)).1.ne'
        exact ⟨⟨h', p', s.pool.slot a k :: s.live⟩, by simp [MempoolOp.exec, heq, hpos],
          cold', hinv⟩
  | free ptr =>
      obtain ⟨a, ha, k, hk, rfl⟩ := hi.contents.live_slot ptr hop
      obtain ⟨h', p', cold', heq, hinv, -⟩ := mempoolFreeSlab_spec hi ha hk hop
      obtain ⟨-, hfree⟩ := mempoolFree_eq hi ha hk
      exact ⟨⟨h', p', s.live.erase (s.pool.slot a k)⟩, by simp [MempoolOp.exec, hfree, heq],
        cold', hinv⟩
  | freeSpareSlab =>
      obtain ⟨heq, hinv⟩ := mempoolFreeSpareSlab_spec hi hop
      exact ⟨_, by simp [MempoolOp.exec, heq]; rfl, cold, hinv⟩
  | write mem => exact ⟨_, rfl, cold, hop.inv hi⟩

theorem MempoolState.reachable_inv (hg : mslabSizeof ≤ g.order0Size)
    (hs : (mempoolMachine g ptrSize).Reachable s) : s.Inv g :=
  ((mempoolMachine g ptrSize).invariant (fun _ h => h.inv hg)
      (fun _ op h hop => MempoolOp.exec_inv h op hop) hs).1

/-! ## The states of the slabs -/

/-- The live objects of a slab. -/
def liveIn (g : Geometry) (p : Mempool) (live : List Nat) (a : Nat) : List Nat :=
  live.filter fun x => a ≤ x ∧ x < a + g.slabOrderSize p.slabOrder

/-- The live objects of a slab are its slots that are not free. -/
theorem SlabOk.liveIn_length {h : MslabHeap} {p : Mempool} {live ks : List Nat} {a m : Nat}
    (hc : Contents g h p live) (ha : a ∈ p.slabs) (hs : SlabOk g h p live a m ks) :
    (liveIn g p live a).length + (h.mslab a).nfree = p.objcount := by
  have hperm :
      (liveIn g p live a).Perm (((List.range m).filter fun k => k ∉ ks).map (p.slot a)) := by
    refine (List.perm_ext_iff_of_nodup (hc.live_nodup.filter _) ?_).2 fun x => ?_
    · exact (List.nodup_range.filter _).map fun k k' hkk => hc.config.slot_inj hkk
    · simp only [List.mem_filter, decide_eq_true_eq, List.mem_map, List.mem_range, decide_not,
        Bool.not_eq_true', decide_eq_false_iff_not]
      constructor
      · rintro ⟨hx, h1, h2⟩
        obtain ⟨b, hb, k, hk, rfl⟩ := hc.live_slot x hx
        have hba : b = a := by
          by_contra hne
          have hbounds := hc.config.slot_bounds (a := b) hk
          have hpos := hc.config.objsize_pos
          rcases slab_apart (hc.place b hb).2.1 (hc.place a ha).2.1 hne with h3 | h3 <;> omega
        subst hba
        exact ⟨k, (hs.live k hk).1 hx, rfl⟩
      · rintro ⟨k, ⟨hkm, hknot⟩, rfl⟩
        have hk : k < p.objcount := Nat.lt_of_lt_of_le hkm hs.used
        have hbounds := hc.config.slot_bounds (a := a) hk
        have hpos := hc.config.objsize_pos
        exact ⟨(hs.live k hk).2 ⟨hkm, hknot⟩, by omega, by omega⟩
  have hsplit : ((List.range m).filter fun k => k ∉ ks).length + ks.length = m := by
    have hin : ((List.range m).filter fun k => k ∈ ks).Perm ks := by
      refine (List.perm_ext_iff_of_nodup (List.nodup_range.filter _) hs.nodup).2 fun k => ?_
      simp only [List.mem_filter, List.mem_range, decide_eq_true_eq]
      exact ⟨fun hk => hk.2, fun hk => ⟨hs.lt k hk, hk⟩⟩
    have hlen := List.length_eq_length_filter_add (l := List.range m) fun k => decide (k ∈ ks)
    rw [List.length_range, hin.length_eq] at hlen
    simp only [decide_not]
    omega
  have hlen := hperm.length_eq
  rw [List.length_map] at hlen
  have hnfree := hs.nfree
  have hused := hs.used
  omega

/-- The four states of a slab of the pool. -/
inductive MslabState (h : MslabHeap) (p : Mempool) (cold : List Nat) (a : Nat) : Prop where
  | hot (hot : a ∈ p.hotSlabs) (flag : (h.mslab a).inHotSlabs = true) (notCold : a ∉ cold)
      (notSpare : a ≠ p.spare) (pos : 1 ≤ (h.mslab a).nfree) (lt : (h.mslab a).nfree < p.objcount)
  | cold (notHot : a ∉ p.hotSlabs) (flag : (h.mslab a).inHotSlabs = false) (cold : a ∈ cold)
      (notSpare : a ≠ p.spare)
      (pos : 1 ≤ (h.mslab a).nfree) (lt : (h.mslab a).nfree < p.objcount >>> maxColdFractionLb)
  | spare (notHot : a ∉ p.hotSlabs) (flag : (h.mslab a).inHotSlabs = false) (notCold : a ∉ cold)
      (spare : a = p.spare) (eq : (h.mslab a).nfree = p.objcount)
  | full (notHot : a ∉ p.hotSlabs) (flag : (h.mslab a).inHotSlabs = false) (notCold : a ∉ cold)
      (notSpare : a ≠ p.spare) (eq : (h.mslab a).nfree = 0)

/-- The slabs of a pool, each in one state, and the pool's counters. -/
structure MempoolState.Exact (g : Geometry) (s : MempoolState) (cold : List Nat) : Prop where
  /-- The list of cold slabs has these slabs. -/
  ring : IsRing s.heap.nextInCold (.head s.pool.id) (cold.map .slab)
  states : ∀ a ∈ s.pool.slabs, MslabState s.heap s.pool cold a
  hotMem : ∀ a ∈ s.pool.hotSlabs, a ∈ s.pool.slabs
  coldMem : ∀ a ∈ cold, a ∈ s.pool.slabs
  spareMem : s.pool.spare ≠ 0 → s.pool.spare ∈ s.pool.slabs
  nfree : ∀ a ∈ s.pool.slabs, (s.heap.mslab a).nfree =
    s.pool.objcount - (liveIn g s.pool s.live a).length ∧
    (liveIn g s.pool s.live a).length ≤ s.pool.objcount
  firstNull : s.pool.firstHotSlab = 0 ↔ s.pool.hotSlabs = []
  firstLowest : s.pool.firstHotSlab ≠ 0 → s.pool.firstHotSlab ∈ s.pool.hotSlabs ∧
    ∀ a ∈ s.pool.hotSlabs, s.pool.firstHotSlab ≤ a
  used : s.pool.stats.used = s.pool.objsize * s.live.length
  total : s.pool.stats.total = g.slabOrderSize s.pool.slabOrder * s.pool.slabs.length
  oneSpare : ∀ a ∈ s.pool.slabs, ∀ b ∈ s.pool.slabs, (s.heap.mslab a).nfree = s.pool.objcount →
    (s.heap.mslab b).nfree = s.pool.objcount → a = b
  returns : ∀ op : MempoolOp, op.Allowed g s → ∃ s', op.exec g s = some s'
  null : ∀ answer, s.pool.Answers g answer →
    ∃ ptr heap pool, mempoolAlloc g s.heap s.pool answer = some (ptr, heap, pool) ∧
    (ptr = 0 → answer = none ∧ (∀ a ∈ s.pool.slabs, (s.heap.mslab a).nfree = 0) ∧ heap = s.heap ∧
      pool = s.pool)

theorem Mempool.Inv.slabState {h : MslabHeap} {p : Mempool} {live cold : List Nat}
    (hi : p.Inv g h live cold) (hcount : 2 ≤ p.objcount) {a : Nat} (ha : a ∈ p.slabs) :
    MslabState h p cold a := by
  obtain ⟨hc, hl, hst⟩ := hi
  have hflag := hl.hotFlag a ha
  have hs := hst a ha
  by_cases hhot : a ∈ p.hotSlabs
  · obtain ⟨h1, h2⟩ := hs.ofHot hhot
    refine .hot hhot (by simpa [hhot] using hflag) (fun hm => (hl.coldMem a hm).2.1 hhot)
      (fun he => ?_) h1 (by omega)
    exact (hl.spare (he ▸ (hc.pos a ha).ne')).2 (he ▸ hhot)
  · have hflag' : (h.mslab a).inHotSlabs = false := by simpa [hhot] using hflag
    by_cases hcold : a ∈ cold
    · obtain ⟨h1, h2⟩ := hs.ofCold hcold
      exact .cold hhot hflag' hcold (hl.coldMem a hcold).2.2 h1 h2
    · by_cases hspare : a = p.spare
      · exact .spare hhot hflag' hcold hspare (hs.ofSpare hspare)
      · exact .full hhot hflag' hcold hspare (hs.ofFull hhot hcold hspare)

/-- **Each slab of a pool is in one state** in every run, and the counters of the pool are exact. -/
theorem mempool_slab_states (hg : mslabSizeof ≤ g.order0Size)
    (hs : (mempoolMachine g ptrSize).Reachable s) (hcount : 2 ≤ s.pool.objcount) :
    ∃ cold, s.Exact g cold := by
  obtain ⟨cold, hi⟩ := MempoolState.reachable_inv hg hs
  have hc := hi.contents
  have hl := hi.lists
  have hfree : ∀ a ∈ s.pool.slabs, (s.heap.mslab a).nfree = s.pool.objcount → a = s.pool.spare := by
    intro a ha hn
    cases hi.slabState hcount ha with
    | hot _ _ _ _ _ hlt => omega
    | cold _ _ _ _ _ hlt =>
        rw [Nat.shiftRight_eq_div_pow] at hlt
        have := Nat.div_le_self s.pool.objcount (2 ^ maxColdFractionLb)
        omega
    | spare _ _ _ hspare _ => exact hspare
    | full _ _ _ _ hz => omega
  refine ⟨cold, ?_⟩
  constructor
  case ring => exact hl.ring
  case states => exact fun a ha => hi.slabState hcount ha
  case hotMem => exact hl.hotMem
  case coldMem => exact fun a ha => (hl.coldMem a ha).1
  case spareMem => exact fun hne => (hl.spare hne).1
  case nfree =>
    intro a ha
    obtain ⟨m, ks, hslab⟩ := hc.slab a ha
    have hlen := hslab.liveIn_length hc ha
    omega
  case firstNull =>
    have hf := hl.first
    cases hcase : s.pool.hotSlabs with
    | nil => simp [hf, hcase]
    | cons b tree =>
        rw [hcase] at hf
        have hb := hc.pos b (hl.hotMem b (by rw [hcase]; exact List.mem_cons_self))
        simp only [List.headD_cons] at hf
        simp only [hf, reduceCtorEq, iff_false]
        omega
  case firstLowest =>
    intro hne
    have hf := hl.first
    have hsorted := hl.hotSorted
    cases hcase : s.pool.hotSlabs with
    | nil => rw [hcase] at hf; exact absurd hf hne
    | cons b tree =>
        rw [hcase] at hf hsorted
        have hf' : s.pool.firstHotSlab = b := hf
        rw [hf']
        refine ⟨List.mem_cons_self, fun a ha => ?_⟩
        rcases List.mem_cons.1 ha with rfl | ha
        · exact Nat.le_refl _
        · exact Nat.le_of_lt (List.rel_of_pairwise_cons hsorted ha)
  case used => exact hc.used
  case total => exact hc.total
  case oneSpare => exact fun a ha b hb h1 h2 => (hfree a ha h1).trans (hfree b hb h2).symm
  case returns =>
    intro op hop
    obtain ⟨s', hex, -⟩ := MempoolOp.exec_inv ⟨cold, hi⟩ op hop
    exact ⟨s', hex⟩
  case null =>
    intro answer hanswer
    rcases mempoolAlloc_spec hi hanswer with ⟨heq, h1, h2⟩
      | ⟨a, k, h', p', cold', heq, ha, hk, -, hinv, -, hsame, -⟩
    · exact ⟨0, s.heap, s.pool, heq, fun _ => ⟨h1, h2, rfl, rfl⟩⟩
    · refine ⟨s.pool.slot a k, h', p', heq, fun hz => absurd hz ?_⟩
      rw [← hsame.slot]
      exact (hinv.contents.slot_pos ha (hsame.objcount ▸ hk)).1.ne'

/-! ## Deciding what is allowed -/

instance (p : Mempool) (a : Nat) : Decidable (p.Fresh g a) :=
  decidable_of_iff (0 < a ∧ g.slabOrderSize p.slabOrder ∣ a ∧
      a + g.slabOrderSize p.slabOrder ≤ sizeMax ∧ a ∉ p.slabs)
    ⟨fun h => ⟨h.1, h.2.1, h.2.2.1, h.2.2.2⟩, fun h => ⟨h.pos, h.aligned, h.bound, h.absent⟩⟩

instance (p : Mempool) (answer : Option Nat) : Decidable (p.Answers g answer) :=
  inferInstanceAs (Decidable (∀ a ∈ answer, p.Fresh g a))

/-- Whether a call of the pool is allowed. -/
def MempoolOp.check (g : Geometry) (s : MempoolState) : MempoolOp → Bool
  | .alloc answer => decide (s.pool.Answers g answer)
  | .free ptr => decide (ptr ∈ s.live)
  | .freeSpareSlab => decide (s.pool.spare ≠ 0)
  | .write _ => false

theorem MempoolOp.check_allowed (s : MempoolState) (op : MempoolOp) (hop : op.check g s = true) :
    op.Allowed g s := by
  cases op with
  | alloc answer =>
      rw [MempoolOp.check, decide_eq_true_eq] at hop
      exact hop
  | free ptr =>
      rw [MempoolOp.check, decide_eq_true_eq] at hop
      exact hop
  | freeSpareSlab =>
      rw [MempoolOp.check, decide_eq_true_eq] at hop
      exact hop
  | write mem => cases hop

/-- A heap with nothing in it. -/
def emptyHeap : MslabHeap where
  mslab := fun _ => ⟨0, 0, 0, 0, 0, 0, false, 0⟩
  nextInCold := ⟨id, id⟩
  mem := fun _ => 0

/-- A new pool of objects of 1000 bytes, three in a slab of one page. -/
def threeObjects : MempoolState where
  heap := emptyHeap.setLinks (rlistCreate emptyHeap.nextInCold (.head 0))
  pool :=
    { id := 0, slabs := [], stats := { used := 0, total := 0 }, hotSlabs := [], firstHotSlab := 0,
      spare := 0, objsize := 1000, slabOrder := 0, objcount := 3, offset := 1096,
      slabPtrMask := sizeMax - 1 - 4095 }
  live := []

/-- A pool that `mempool_create_with_order` returns for slabs of one page, before its first
call. -/
def onePagePool (objsize : Nat) : Option MempoolState :=
  (mempoolCreateWithOrder fourPages emptyHeap 0 objsize 0).map fun r => ⟨r.1, r.2, []⟩

theorem onePagePool_reachable {objsize least : Nat} {ops : List MempoolOp}
    (hleast : least ≤ objsize)
    (hs : (onePagePool objsize).bind ((mempoolMachine fourPages least).run
      (fun s op => op.check fourPages s) ops) = some s) :
    (mempoolMachine fourPages least).Reachable s := by
  obtain ⟨s₀, hs₀, hrun⟩ := Option.bind_eq_some_iff.1 hs
  obtain ⟨⟨h, pool⟩, hcreate, rfl⟩ := Option.map_eq_some_iff.1 hs₀
  exact Machine.Reachable.run _ (fun s op hop => MempoolOp.check_allowed s op hop) ops
    (.init ⟨emptyHeap, 0, objsize, 0, hleast, hcreate, rfl⟩) hrun

/-- A slab of three objects gets full, another one is hot, then an object of the first is freed,
and both of the other. -/
def twoSlabs : List MempoolOp :=
  [.alloc (some 16384), .alloc none, .alloc none, .alloc (some 20480), .alloc none,
    .free 18480, .free 21576, .free 22576]

/-- The first slab is hot, and the second one is the spare slab. -/
theorem mempool_slab_states_three :
    ∃ s, (mempoolMachine fourPages ptrSize).Reachable s ∧ s.live = [19480, 17480] ∧
      s.pool.spare = 20480 ∧ s.pool.firstHotSlab = 16384 ∧ ∃ cold, s.Exact fourPages cold := by
  have hrun : ((onePagePool 1000).bind ((mempoolMachine fourPages ptrSize).run
      (fun s op => op.check fourPages s) twoSlabs)).map
      (fun s => (s.live, s.pool.spare, s.pool.firstHotSlab, s.pool.objcount))
      = some ([19480, 17480], 20480, 16384, 3) := by decide +kernel
  obtain ⟨s, hs, hfields⟩ := Option.map_eq_some_iff.1 hrun
  obtain ⟨hlive, hspare, hfirst, hcount⟩ : s.live = [19480, 17480] ∧ s.pool.spare = 20480 ∧
      s.pool.firstHotSlab = 16384 ∧ s.pool.objcount = 3 := by simpa using hfields
  have hreach := onePagePool_reachable (by decide) hs
  exact ⟨s, hreach, hlive, hspare, hfirst,
    mempool_slab_states (by decide) hreach (by rw [hcount]; decide)⟩

/-- Objects of 4 bytes: two of three are freed, and allocated again. The second pointer on the
free list lies over the first one, so what is then on the list is no address of an object. -/
def overlaidFreeList : List MempoolOp :=
  [.alloc (some 16384), .alloc none, .alloc none, .free 16496, .free 16500,
    .alloc none, .alloc none, .alloc none]

/-- An object that is too small for a pointer breaks the free list of its slab: the pool returns
an address that is no object, and counts it as an object of the slab. -/
theorem mempool_small_objects :
    ∃ s, (mempoolMachine fourPages 1).Reachable s ∧ s.pool.objsize = 4 ∧ 2 ≤ s.pool.objcount ∧
      s.live = [16496 * 2 ^ 32, 16496, 16500, 16504] ∧ ¬ ∃ cold, s.Exact fourPages cold := by
  have hrun : ((onePagePool 4).bind ((mempoolMachine fourPages 1).run
      (fun s op => op.check fourPages s) overlaidFreeList)).map
      (fun s => (s.pool.objsize, s.pool.objcount, s.live, s.pool.slabs, s.pool.slabOrder,
        (s.heap.mslab 16384).nfree))
      = some (4, 996, [16496 * 2 ^ 32, 16496, 16500, 16504], [16384], 0, 992) := by
    decide +kernel
  obtain ⟨s, hs, hfields⟩ := Option.map_eq_some_iff.1 hrun
  obtain ⟨hsize, hcount, hlive, hslabs, horder, hnfree⟩ : s.pool.objsize = 4 ∧
      s.pool.objcount = 996 ∧ s.live = [16496 * 2 ^ 32, 16496, 16500, 16504] ∧
      s.pool.slabs = [16384] ∧ s.pool.slabOrder = 0 ∧ (s.heap.mslab 16384).nfree = 992 := by
    simpa using hfields
  refine ⟨s, onePagePool_reachable (by decide) hs, hsize, by omega, hlive, ?_⟩
  rintro ⟨cold, hexact⟩
  have hcounted := (hexact.nfree 16384 (by simp [hslabs])).1
  have hin : (liveIn fourPages s.pool s.live 16384).length = 3 := by
    rw [liveIn, hlive, horder]
    decide
  omega

/-! ## Objects -/

/-- Objects are slots of the slabs; they do not overlap, and the other slots are free. -/
structure MempoolState.Exclusive (g : Geometry) (s : MempoolState) : Prop where
  slot : ∀ x ∈ s.live, ∃ a ∈ s.pool.slabs, ∃ k < s.pool.objcount,
    x = a + s.pool.offset + k * s.pool.objsize ∧
    a + mslabSizeof ≤ x ∧ x + s.pool.objsize ≤ a + g.slabOrderSize s.pool.slabOrder ∧
    slabFromPtr s.heap x s.pool.slabPtrMask = some a
  nodup : s.live.Nodup
  apart : ∀ x ∈ s.live, ∀ y ∈ s.live, x ≠ y → x + s.pool.objsize ≤ y ∨ y + s.pool.objsize ≤ x
  /-- What `mempool_alloc` returns is a slot that is not live. -/
  alloc : ∀ answer, s.pool.Answers g answer →
    ∃ ptr heap pool, mempoolAlloc g s.heap s.pool answer = some (ptr, heap, pool) ∧
    (ptr ≠ 0 → ptr ∉ s.live ∧ heap.mem = s.heap.mem ∧ ∃ a ∈ pool.slabs, ∃ k < s.pool.objcount,
      ptr = a + s.pool.offset + k * s.pool.objsize)
  /-- `mempool_free` changes no byte of another live object. -/
  free : ∀ ptr ∈ s.live, ∃ heap pool, mempoolFree s.heap s.pool ptr = some (heap, pool) ∧
    ∀ y ∈ s.live, y ≠ ptr → read heap.mem y s.pool.objsize = read s.heap.mem y s.pool.objsize
  /-- The free list and the untouched slots are the slots that are not live. -/
  freeSlots : ∀ a ∈ s.pool.slabs, ∃ m ks,
    FreeChain s.pool s.heap.mem a (s.heap.mslab a).freeList ks ∧
    (s.heap.mslab a).freeOffset = s.pool.offset + m * s.pool.objsize ∧ m ≤ s.pool.objcount ∧
    ks.Nodup ∧
    (∀ k ∈ ks, k < m) ∧ (s.heap.mslab a).nfree = ks.length + (s.pool.objcount - m) ∧
    ∀ k < s.pool.objcount, s.pool.slot a k ∉ s.live ↔ k ∈ ks ∨ m ≤ k

/-- **Objects of a pool are exclusive and in bounds** in every run. -/
theorem mempool_objects_exclusive (hg : mslabSizeof ≤ g.order0Size)
    (hs : (mempoolMachine g ptrSize).Reachable s) :
    s.Exclusive g := by
  obtain ⟨cold, hi⟩ := MempoolState.reachable_inv hg hs
  have hc := hi.contents
  constructor
  case slot =>
    intro x hx
    obtain ⟨a, ha, k, hk, rfl⟩ := hc.live_slot x hx
    obtain ⟨h1, h2⟩ := hc.config.slot_bounds (a := a) hk
    exact ⟨a, ha, k, hk, rfl, h1, h2, (mempoolFree_eq hi ha hk).1⟩
  case nodup => exact hc.live_nodup
  case apart => exact fun x hx y hy hne => hc.live_apart hx hy hne
  case alloc =>
    intro answer hanswer
    rcases mempoolAlloc_spec hi hanswer with ⟨heq, -, -⟩
      | ⟨a, k, h', p', cold', heq, ha, hk, hnew, -, -, -, hmem, -⟩
    · exact ⟨0, s.heap, s.pool, heq, fun hne => absurd rfl hne⟩
    · exact ⟨s.pool.slot a k, h', p', heq, fun _ => ⟨hnew, hmem, a, ha, k, hk, rfl⟩⟩
  case free =>
    intro ptr hptr
    obtain ⟨a, ha, k, hk, rfl⟩ := hc.live_slot ptr hptr
    obtain ⟨h', p', cold', heq, -, -, -, hmem, -⟩ := mempoolFreeSlab_spec hi ha hk hptr
    refine ⟨h', p', (mempoolFree_eq hi ha hk).2.trans heq, fun y hy hne =>
      read_congr fun x h1 h2 => hmem x ?_⟩
    rcases hc.live_apart hy hptr hne with h3 | h3 <;> omega
  case freeSlots =>
    intro a ha
    obtain ⟨m, ks, hslab⟩ := hc.slab a ha
    refine ⟨m, ks, hslab.chain, hslab.offset, hslab.used, hslab.nodup, hslab.lt,
      hslab.nfree, fun k hk => ?_⟩
    rw [hslab.live k hk]
    by_cases hkm : k < m
    · simp [hkm, Nat.not_le.2 hkm]
    · simp [hkm, Nat.le_of_not_lt hkm]

/-- Two objects in the first slab, when an object between them is free. -/
theorem mempool_objects_exclusive_three :
    ∃ s, (mempoolMachine fourPages ptrSize).Reachable s ∧ s.live = [19480, 17480] ∧
      s.Exclusive fourPages := by
  have hrun : ((onePagePool 1000).bind ((mempoolMachine fourPages ptrSize).run
      (fun s op => op.check fourPages s) twoSlabs)).map (fun s => s.live) =
      some [19480, 17480] := by
    decide +kernel
  obtain ⟨s, hs, hlive⟩ := Option.map_eq_some_iff.1 hrun
  have hreach := onePagePool_reachable (by decide) hs
  exact ⟨s, hreach, hlive, mempool_objects_exclusive (by decide) hreach⟩

end SmallAllocators
