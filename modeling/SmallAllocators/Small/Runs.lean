/-
SmallAllocators.Small.Runs — runs of an allocator of small objects.

The cache may have no slab at any time, and what it returns overlaps
nothing that is in use. The client frees objects with the size that it
asked for, and may overwrite its objects at any time.
-/
import SmallAllocators.Small.Ops

namespace SmallAllocators

open Memory

structure SmallState where
  heap : MslabHeap
  alloc : SmallAlloc
  live : List SmallObject

inductive SmallOp where
  /-- `smalloc`, with what the cache answers to the first request and to the one after a sweep. -/
  | alloc (size : Nat) (answer retry : Option Nat)
  | free (o : SmallObject)
  /-- The client writes to its objects, and others to their memory. -/
  | write (mem : Nat → UInt8)

/-- Only bytes of live objects and bytes outside the slabs of the pools are not the same. -/
def SmallState.Writes (g : Geometry) (s : SmallState) (mem : Nat → UInt8) : Prop :=
  ∀ p < s.alloc.smallMempoolCacheSize, ∀ a ∈ (s.alloc.pool p).slabs, ∀ x, a ≤ x →
  x < a + s.alloc.slabSize g p →
    (∀ o ∈ s.live, ¬ (o.start ≤ x ∧ x < o.start + o.length s.alloc)) → mem x = s.heap.mem x

/-- What the cache may answer to the requests of `smalloc`. -/
def SmallState.Answers (g : Geometry) (s : SmallState) (size : Nat)
    (answer retry : Option Nat) : Prop :=
  if size ≤ s.alloc.objsizeMax then
    s.alloc.SlabAnswer g s.live (s.alloc.poolFor size) answer ∧
      ∀ alloc₁, smallMempoolGroupSweepSparse s.heap s.alloc = some alloc₁ →
        alloc₁.SlabAnswer g s.live (s.alloc.poolFor size) retry
  else ∀ a, answer = some a → s.alloc.FreshBlock g s.live size a

def SmallOp.Allowed (g : Geometry) (s : SmallState) : SmallOp → Prop
  | .alloc size answer retry => s.Answers g size answer retry
  | .free o => o ∈ s.live
  | .write mem => s.Writes g mem

/-- The pool that an object of the size is taken from. -/
def SmallState.homeFor (s : SmallState) (size : Nat) : Option Nat :=
  if size ≤ s.alloc.objsizeMax then some (s.alloc.poolFor size) else none

def SmallOp.exec (g : Geometry) (s : SmallState) : SmallOp → Option SmallState
  | .alloc size answer retry => do
    let (ptr, h, a) ← smalloc g s.heap s.alloc size answer retry
    some { heap := h, alloc := a,
           live := if ptr = 0 then s.live else ⟨ptr, size, s.homeFor size⟩ :: s.live }
  | .free o => do
    let (h, a) ← smfree g s.heap s.alloc o.ptr o.size
    some { heap := h, alloc := a, live := s.live.erase o }
  | .write mem => some { s with heap := { s.heap with mem := mem } }

/-- The allocator is new: `small_alloc_create` returned it, for objects of at least `least`
bytes. -/
def SmallState.Created (g : Geometry) (least : Nat) (s : SmallState) : Prop :=
  ∃ orderOf heap alloc objsizeMin granularity effectiveBits, least ≤ objsizeMin ∧
  objsizeMin < 2 ^ 32 ∧ granularity < 2 ^ 32 ∧
    smallAllocCreate g orderOf heap alloc objsizeMin granularity effectiveBits =
    some (s.heap, s.alloc) ∧ s.live = []

/-- The allocator and its client. An object can hold a pointer when `least` is `sizeof(void *)`. -/
def smallMachine (g : Geometry) (least : Nat) : Machine SmallState SmallOp where
  init := SmallState.Created g least
  allowed s op := op.Allowed g s
  exec s op := op.exec g s

variable {g : Geometry} {s : SmallState}

/-! ## The invariant over runs -/

/-- The invariant between two calls. The waste of a pool is at least what its objects waste. -/
structure SmallState.Good (g : Geometry) (s : SmallState) : Prop where
  inv : SmallInv g s.heap s.alloc s.live
  thrifty : ∀ p < s.alloc.smallMempoolCacheSize, s.alloc.Thrifty p
  covered : ∀ p < s.alloc.smallMempoolCacheSize,
    owed s.alloc s.live p ≤ (s.alloc.smallMempoolCache p).waste

theorem SmallAlloc.Ready.inv {h : MslabHeap} {alloc : SmallAlloc} (hr : alloc.Ready g h)
    (hsize : ptrSize ≤ (alloc.pool 0).objsize) : SmallInv g h alloc [] := by
  constructor
  case grouped => exact hr.grouped
  case usedAt => exact hr.usedAt
  case id => exact fun p hp => (hr.pools p hp).id
  case pools =>
    intro p hp
    exact ⟨[], (hr.pools p hp).inv (Nat.le_trans hsize (hr.grouped.mono 0 p (Nat.zero_le _) hp))⟩
  case slabs =>
    intro p hp q hq _ a ha
    rw [(hr.pools p hp).slabs] at ha
    cases ha
  case search => exact fun size hs => ⟨(hr.search size hs).1, (hr.search size hs).2.1⟩
  case small => simp
  case large => simp
  case blocks => simp
  case apart => exact List.Pairwise.nil

theorem SmallAlloc.Ready.good (hr : s.alloc.Ready g s.heap)
    (hsize : ptrSize ≤ (s.alloc.pool 0).objsize) (hlive : s.live = []) : s.Good g := by
  refine ⟨hlive ▸ hr.inv hsize, fun p hp _ => ?_, fun p hp => ?_⟩
  · rw [hr.waste p hp]
    exact (hr.grouped.wasteMax p hp).1
  · rw [hlive]
    exact Nat.zero_le _

theorem SmallState.Created.good (hgeo : mslabSizeof ≤ g.order0Size) (hs : s.Created g ptrSize) :
    s.Good g := by
  obtain ⟨orderOf, heap, alloc, objsizeMin, granularity, effectiveBits, hmin, hmin32, hgran, hex,
    hlive⟩ := hs
  have hptr : ptrSize = 8 := rfl
  obtain ⟨hready, a, -, hle, hfirst⟩ := smallAllocCreate_ready hgeo (by omega) hmin32 hgran hex
  exact hready.good (by omega) hlive

/-- The client's writes leave the free slots as they are. -/
theorem SmallState.Writes.inv {mem : Nat → UInt8} (hi : SmallInv g s.heap s.alloc s.live)
    (hw : s.Writes g mem) :
    SmallInv g { s.heap with mem := mem } s.alloc s.live := by
  refine hi.change (.refl _) hi.usedAt
    (fun p hp => ?_) hi.slabs hi.small hi.large hi.blocks hi.apart
  obtain ⟨cold, hinv⟩ := hi.pools p hp
  refine ⟨cold, MempoolState.Writes.inv (s := ⟨s.heap, s.alloc.pool p, liveAt s.live p⟩) hinv
    fun a ha x h1 h2 hnot => ?_⟩
  refine hw p hp a ha x h1 h2 fun o ho hx => ?_
  have h2' : x < a + s.alloc.slabSize g p := h2
  cases hhome : o.home with
  | none =>
      have hap := hi.blocks o ho hhome p hp a ha
      unfold RangesApart at hap
      omega
  | some q =>
      have hstart : o.start = o.ptr := by rw [SmallObject.start, hhome]
      have hlen : o.length s.alloc = (s.alloc.pool q).objsize := by rw [SmallObject.length, hhome]
      rw [hstart, hlen] at hx
      by_cases hqp : q = p
      · subst hqp
        exact hnot o.ptr (mem_liveAt ho hhome) hx
      · obtain ⟨b, hb, -, -, -, h3, h4⟩ := hi.slot_of ho hhome
        have hap := hi.slabs p hp q (hi.home_lt ho hhome).1 (Ne.symm hqp) a ha b hb
        unfold RangesApart at hap
        omega

/-! ## Steps -/

/-- What a pool is charged for the new object, when `alloc₁` is the allocator that the object
was taken from. -/
def SmallAlloc.charge (alloc₁ : SmallAlloc) (c p : Nat) : Nat :=
  if p = c then
    (alloc₁.pool (alloc₁.smallMempoolCache c).usedPool).objsize - (alloc₁.pool c).objsize else 0

/-- The request found the pool that serves it without a slab and empty, and a slab only after
the sweep had deactivated this pool: the new object is in a pool that is inactive, and is
charged as one of the next pool. -/
def SmallState.Redirects (s : SmallState) (size : Nat) (answer retry : Option Nat) : Prop :=
  size ≤ s.alloc.objsizeMax ∧ smallMempoolCanBeDeactivated s.alloc (s.alloc.poolFor size) = true ∧
    (s.alloc.pool (s.alloc.poolFor size)).slabs = [] ∧ answer = none ∧ retry ≠ none

theorem SmallAlloc.Source.layout {h : MslabHeap} {alloc alloc₁ : SmallAlloc} {u : Nat}
    {answer retry : Option Nat} (hsrc : alloc.Source h u answer retry alloc₁) :
    alloc.SameLayout alloc₁ := by
  rcases hsrc with rfl | ⟨hs, -⟩
  · exact .refl _
  · exact hs.layout

theorem SmallAlloc.Source.waste {h : MslabHeap} {alloc alloc₁ : SmallAlloc} {u : Nat}
    {answer retry : Option Nat} (hsrc : alloc.Source h u answer retry alloc₁) (p : Nat) :
    (alloc₁.smallMempoolCache p).waste = (alloc.smallMempoolCache p).waste := by
  rcases hsrc with rfl | ⟨hs, -⟩
  · rfl
  · exact hs.waste p

theorem SmallAlloc.Moved.charged {alloc₁ alloc' : SmallAlloc} {u c : Nat}
    (hmove : alloc₁.Moved u c alloc') (p : Nat) :
    (alloc'.smallMempoolCache p).waste = (alloc₁.smallMempoolCache p).waste + alloc₁.charge c p :=
  hmove.waste p

/-- What `smalloc` charges covers what the new object wastes, and is that unless the request is
redirected. -/
theorem charge_owedBy {alloc₁ : SmallAlloc} {answer retry : Option Nat} {size : Nat} (ptr : Nat)
    (hi : SmallInv g s.heap s.alloc s.live) (hsize : size ≤ s.alloc.objsizeMax)
    (hsrc : s.alloc.Source s.heap (s.alloc.poolFor size) answer retry alloc₁) (p : Nat) :
    owedBy s.alloc p ⟨ptr, size, some (s.alloc.poolFor size)⟩ ≤
      alloc₁.charge (s.alloc.classOf size) p ∧
      (¬ s.Redirects size answer retry →
        alloc₁.charge (s.alloc.classOf size) p = owedBy s.alloc p ⟨ptr, size,
        some (s.alloc.poolFor size)⟩) := by
  have hc := (hi.search size hsize).1
  have howed : owedBy s.alloc p ⟨ptr, size, some (s.alloc.poolFor size)⟩
      = if p = s.alloc.classOf size then
      (s.alloc.pool (s.alloc.poolFor size)).objsize - (s.alloc.pool p).objsize else 0 := by
    rw [owedBy, smallMempoolSearch_of_le hsize]
    simp only [Option.some.injEq, Option.elim_some, eq_comm (b := p)]
  rw [howed, SmallAlloc.charge]
  by_cases hp : p = s.alloc.classOf size
  · subst hp
    rw [if_pos rfl, if_pos rfl]
    rcases hsrc with rfl | ⟨hs, hre⟩
    · exact ⟨Nat.le_refl _, fun _ => rfl⟩
    · obtain ⟨hle, hlt⟩ := hs.used_le hi.grouped hi.usedAt hc
      rw [(hs.layout.config _).objsize, (hs.layout.config _).objsize]
      refine ⟨Nat.sub_le_sub_right (hi.grouped.mono _ _ hle hlt) _, fun hnot => ?_⟩
      have hcan : smallMempoolCanBeDeactivated s.alloc (s.alloc.poolFor size) = false := by
        rw [Bool.eq_false_iff]
        intro hcan
        obtain ⟨hnil, hans, hret⟩ := hre hcan
        exact hnot ⟨hsize, hcan, hnil, hans, hret⟩
      rw [hs.used_eq hi.grouped hi.usedAt hc hcan, SmallAlloc.poolFor]
  · rw [if_neg hp, if_neg hp]
    exact ⟨Nat.le_refl _, fun _ => rfl⟩

/-- The outcomes of `smalloc` for a size that has a pool. -/
inductive SmallState.Served (s : SmallState) (size : Nat) (answer retry : Option Nat)
    (s' : SmallState) : Prop where
  /-- `NULL`: the pool had no free slot, the cache no slab, and a sweep was made. -/
  | full : answer = none → retry = none →
      (∀ a ∈ (s.alloc.pool (s.alloc.poolFor size)).slabs, (s.heap.mslab a).nfree = 0) →
      s.alloc.Swept s.heap s.alloc.smallMempoolCacheSize
        (fun q => q < s.alloc.smallMempoolCacheSize) s'.alloc →
      s'.heap = s.heap → s'.live = s.live → Served s size answer retry s'
  /-- An object of the pool that serves the size. -/
  | object (ptr : Nat) (alloc₁ : SmallAlloc) : ptr ≠ 0 →
      s.alloc.Source s.heap (s.alloc.poolFor size) answer retry alloc₁ →
      alloc₁.Moved (s.alloc.poolFor size) (s.alloc.classOf size) s'.alloc →
      s'.live = ⟨ptr, size, some (s.alloc.poolFor size)⟩ :: s.live → Served s size answer retry s'

theorem SmallState.exec_alloc {size : Nat} {answer retry : Option Nat} {ptr : Nat}
    {h' : MslabHeap} {alloc' : SmallAlloc}
    (hrun : smalloc g s.heap s.alloc size answer retry = some (ptr, h', alloc')) :
    SmallOp.exec g s (.alloc size answer retry)
      = some ⟨h', alloc', if ptr = 0 then s.live else ⟨ptr, size, s.homeFor size⟩ :: s.live⟩ := by
  simp only [SmallOp.exec, hrun, Option.bind_eq_bind, Option.bind_some]

/-- `smalloc` of a size that has a pool returns, and keeps the invariant. -/
theorem SmallState.Good.alloc {size : Nat} {answer retry : Option Nat} (hg : s.Good g)
    (hsize : size ≤ s.alloc.objsizeMax) (hop : s.Answers g size answer retry) :
    ∃ s', SmallOp.exec g s (.alloc size answer retry) = some s' ∧ s'.Good g ∧
      s.Served size answer retry s' := by
  have hhome : s.homeFor size = some (s.alloc.poolFor size) := if_pos hsize
  rw [SmallState.Answers, if_pos hsize] at hop
  rcases smalloc_spec hg.inv hg.thrifty hsize hop.1 hop.2 with
    ⟨alloc', hrun, hans, hret, hfull, hs⟩ | ⟨ptr, h', alloc₁, alloc', hrun, hptr, hsrc, hmove,
    hi', hth'⟩
  · refine ⟨⟨s.heap, alloc', s.live⟩, SmallState.exec_alloc hrun, ⟨hg.inv.swept hs, ?_, ?_⟩,
      .full hans hret hfull hs rfl rfl⟩
    · rw [hs.layout.cacheSize]
      exact hs.thrifty hg.thrifty
    · intro p hp
      rw [hs.layout.cacheSize] at hp
      rw [hs.layout.owed, hs.waste]
      exact hg.covered p hp
  · have hlay := hsrc.layout.trans hmove.layout
    have hex : SmallOp.exec g s (.alloc size answer retry)
        = some ⟨h', alloc', ⟨ptr, size, some (s.alloc.poolFor size)⟩ :: s.live⟩ := by
      rw [SmallState.exec_alloc hrun, if_neg hptr, hhome]
    refine ⟨_, hex, ⟨hi', ?_, ?_⟩, .object ptr alloc₁ hptr hsrc hmove rfl⟩
    · rw [hlay.cacheSize]
      exact hth'
    · intro p hp
      rw [hlay.cacheSize] at hp
      have hcov := hg.covered p hp
      have hcharge := (charge_owedBy ptr hg.inv hsize hsrc p).1
      rw [hlay.owed, owed_cons, hmove.charged, hsrc.waste]
      omega

/-- `smalloc` of a size that has no pool. -/
theorem SmallState.Good.allocLarge {size : Nat} {answer retry : Option Nat} (hg : s.Good g)
    (hsize : s.alloc.objsizeMax < size) (hop : s.Answers g size answer retry) :
    ∃ s', SmallOp.exec g s (.alloc size answer retry) = some s' ∧ s'.Good g ∧ s'.alloc = s.alloc ∧
      (s' = s ∨ ∃ ptr, s'.live = ⟨ptr, size, none⟩ :: s.live) := by
  have hhome : s.homeFor size = none := if_neg (Nat.not_le.2 hsize)
  have hsearch := smallMempoolSearch_of_lt hsize
  rw [SmallState.Answers, if_neg (Nat.not_le.2 hsize)] at hop
  cases answer with
  | none =>
      have hrun : smalloc g s.heap s.alloc size none retry = some (0, s.heap, s.alloc) := by
        rw [smalloc, hsearch]
        rfl
      exact ⟨s, SmallState.exec_alloc hrun, hg, rfl, Or.inl rfl⟩
  | some a =>
      have hrun : smalloc g s.heap s.alloc size (some a) retry
          = some (a + slabSizeof, createLarge g s.heap a size, s.alloc) := by
        rw [smalloc, hsearch]
        rfl
      have hpos : a + slabSizeof ≠ 0 := by
        have := (hop a rfl).pos
        omega
      have hex := SmallState.exec_alloc hrun
      rw [if_neg hpos, hhome] at hex
      refine ⟨_, hex, ⟨hg.inv.takeLarge hsize (hop a rfl), hg.thrifty, fun p hp => ?_⟩, rfl,
        Or.inr ⟨_, rfl⟩⟩
      rw [owed_cons, owedBy, hsearch, if_neg (by simp), Nat.zero_add]
      exact hg.covered p hp

/-- `smfree` returns, and keeps the invariant. -/
theorem SmallState.Good.free {o : SmallObject} (hg : s.Good g) (ho : o ∈ s.live) :
    ∃ s', SmallOp.exec g s (.free o) = some s' ∧ s'.Good g ∧ s'.live = s.live.erase o ∧
      s.alloc.Freed o s'.alloc ∧
      o.KeepsOthers s.alloc s.heap s'.heap := by
  obtain ⟨h', alloc', hrun, hi', hf, hkeeps⟩ := smfree_spec hg.inv hg.covered ho
  have hex : SmallOp.exec g s (.free o) = some ⟨h', alloc', s.live.erase o⟩ := by
    simp only [SmallOp.exec, hrun, Option.bind_eq_bind, Option.bind_some]
  refine ⟨_, hex, ⟨hi', ?_, fun p hp => ?_⟩, rfl, hf, hkeeps⟩
  · rw [hf.layout.cacheSize]
    exact hf.thrifty hg.thrifty
  · rw [hf.layout.cacheSize] at hp
    have hcov := hg.covered p hp
    have hsum := owed_erase s.alloc ho p
    have hwaste := hf.waste p hp
    change owed alloc' (s.live.erase o) p ≤ (alloc'.smallMempoolCache p).waste
    rw [hf.layout.owed]
    omega

theorem SmallState.Good.write {mem : Nat → UInt8} (hg : s.Good g) (hw : s.Writes g mem) :
    SmallState.Good g { s with heap := { s.heap with mem := mem } } :=
  ⟨hw.inv hg.inv, hg.thrifty, hg.covered⟩

/-- What each call does, in the words of the allocator. -/
inductive SmallState.Step (s : SmallState) : SmallOp → SmallState → Prop where
  | small {size : Nat} {answer retry : Option Nat} {s' : SmallState} : size ≤ s.alloc.objsizeMax →
      s.Served size answer retry s' → Step s (.alloc size answer retry) s'
  | large {size : Nat} {answer retry : Option Nat} {s' : SmallState} : s.alloc.objsizeMax < size →
      s'.alloc = s.alloc →
      (s' = s ∨ ∃ ptr, s'.live = ⟨ptr, size, none⟩ :: s.live) → Step s (.alloc size answer retry) s'
  | free {o : SmallObject} {s' : SmallState} : o ∈ s.live → s'.live = s.live.erase o →
      s.alloc.Freed o s'.alloc →
      Step s (.free o) s'
  | write {mem : Nat → UInt8} {s' : SmallState} : s'.alloc = s.alloc → s'.live = s.live →
      Step s (.write mem) s'

/-- Every allowed call returns, keeps the invariant, and does what `Step` says. -/
theorem SmallOp.exec_good (hg : s.Good g) (op : SmallOp) (hop : op.Allowed g s) :
    ∃ s', op.exec g s = some s' ∧ s'.Good g ∧ s.Step op s' := by
  cases op with
  | alloc size answer retry =>
      by_cases hsize : size ≤ s.alloc.objsizeMax
      · obtain ⟨s', hex, hg', hserved⟩ := hg.alloc hsize hop
        exact ⟨s', hex, hg', .small hsize hserved⟩
      · obtain ⟨s', hex, hg', halloc, hlive⟩ := hg.allocLarge (Nat.lt_of_not_le hsize) hop
        exact ⟨s', hex, hg', .large (Nat.lt_of_not_le hsize) halloc hlive⟩
  | free o =>
      obtain ⟨s', hex, hg', hlive, hf, -⟩ := hg.free hop
      exact ⟨s', hex, hg', .free hop hlive hf⟩
  | write mem => exact ⟨_, rfl, hg.write hop, .write rfl rfl⟩

theorem SmallState.reachable_good (hgeo : mslabSizeof ≤ g.order0Size)
    (hs : (smallMachine g ptrSize).Reachable s) :
    s.Good g ∧ ∀ op : SmallOp, op.Allowed g s → ∃ s', op.exec g s = some s' ∧ s'.Good g := by
  refine Machine.invariant (smallMachine g ptrSize) (fun s hs => SmallState.Created.good hgeo hs)
    (fun s op hg hop => ?_) hs
  obtain ⟨s', hex, hg', -⟩ := SmallOp.exec_good hg op hop
  exact ⟨s', hex, hg'⟩

/-! ## The contract -/

/-- What the client may rely on between two calls. -/
structure SmallState.Contract (g : Geometry) (s : SmallState) : Prop where
  /-- A small object lies in a slot of a pool for objects of at least its size, and the mask of
  the pool that `small_mempool_search` finds leads to the slab and to the pool. -/
  small : ∀ o ∈ s.live, o.size ≤ s.alloc.objsizeMax → ∃ c q a k,
    smallMempoolSearch s.alloc o.size = some c ∧ o.home = some q ∧
    q < s.alloc.smallMempoolCacheSize ∧
    o.size ≤ (s.alloc.pool q).objsize ∧ a ∈ (s.alloc.pool q).slabs ∧ k < (s.alloc.pool q).objcount ∧
    o.ptr = (s.alloc.pool q).slot a k ∧
    slabFromPtr s.heap o.ptr (s.alloc.pool c).slabPtrMask = some a ∧
    (s.heap.mslab a).mempool = q ∧
    smallAllocInfo s.heap s.alloc o.ptr o.size =
      some { isLarge := false, realSize := (s.alloc.pool q).objsize }
  large : ∀ o ∈ s.live, s.alloc.objsizeMax < o.size → smallMempoolSearch s.alloc o.size = none ∧
    smallAllocInfo s.heap s.alloc o.ptr o.size = some { isLarge := true, realSize := o.size }
  /-- The memory of the objects: their slots, or their blocks from `malloc`. -/
  disjoint : s.live.Pairwise (SmallObject.Apart s.alloc)
  /-- The bytes that were asked for are bytes of this memory. -/
  inside : ∀ o ∈ s.live, o.start ≤ o.ptr ∧ o.ptr + o.size ≤ o.start + o.length s.alloc
  /-- No byte that was asked for is a byte of two objects. -/
  objects : s.live.Pairwise fun o o' => RangesApart o.ptr o.size o'.ptr o'.size

/-- The size of the request can be represented together with the header of a slab. -/
def SmallOp.Fits : SmallOp → Prop
  | .alloc size _ _ => size + slabSizeof < sizeMax
  | _ => True

theorem smallAllocInfo_small {h : MslabHeap} {alloc : SmallAlloc} {ptr size c a q : Nat}
    (hsearch : smallMempoolSearch alloc size = some c)
    (hslab : slabFromPtr h ptr (alloc.pool c).slabPtrMask = some a)
    (howner : (h.mslab a).mempool = q) (hsize : size ≤ (alloc.pool q).objsize) :
    smallAllocInfo h alloc ptr size =
      some { isLarge := false, realSize := (alloc.pool q).objsize } := by
  simp [smallAllocInfo, fillInfo, hsearch, hslab, howner, guard, hsize]

theorem smallAllocInfo_large {h : MslabHeap} {alloc : SmallAlloc} {ptr size : Nat}
    (hsearch : smallMempoolSearch alloc size = none) :
    smallAllocInfo h alloc ptr size = some { isLarge := true, realSize := size } := by
  simp [smallAllocInfo, fillInfo, hsearch, guard]

theorem SmallInv.size_le {h : MslabHeap} {alloc : SmallAlloc} {live : List SmallObject}
    {o : SmallObject} {q : Nat} (hi : SmallInv g h alloc live) (ho : o ∈ live)
    (hq : o.home = some q) : o.size ≤ (alloc.pool q).objsize := by
  obtain ⟨hqn, hsize⟩ := hi.home_lt ho hq
  obtain ⟨q', hq', -, hle⟩ := hi.small o ho hsize
  rw [hq, Option.some.injEq] at hq'
  subst hq'
  exact Nat.le_trans (hi.search _ hsize).2 (hi.grouped.mono _ _ hle hqn)

/-- The bytes of an object are in its memory. -/
theorem SmallState.Good.inside (hg : s.Good g) {o : SmallObject} (ho : o ∈ s.live)
    (hfits : o.size + slabSizeof < sizeMax) :
    o.start ≤ o.ptr ∧ o.ptr + o.size ≤ o.start + o.length s.alloc := by
  cases hhome : o.home with
  | none =>
      have hlarge : s.alloc.objsizeMax < o.size := by
        by_contra hle
        obtain ⟨q, hq, -⟩ := hg.inv.small o ho (Nat.le_of_not_lt hle)
        rw [hhome] at hq
        cases hq
      obtain ⟨-, hptr, -⟩ := hg.inv.large o ho hlarge
      simp only [SmallObject.start, SmallObject.length, hhome, largeSize, Nat.mod_eq_of_lt hfits]
      omega
  | some q =>
      have hfit := hg.inv.size_le ho hhome
      simp only [SmallObject.start, SmallObject.length, hhome]
      omega

theorem SmallState.Good.contract (hg : s.Good g)
    (hfits : ∀ o ∈ s.live, o.size + slabSizeof < sizeMax) : s.Contract g := by
  constructor
  case small =>
    intro o ho hsize
    obtain ⟨q, hq, -, -⟩ := hg.inv.small o ho hsize
    obtain ⟨a, ha, k, hk, hptr, hslab, howner⟩ := hg.inv.find ho hq
    have hsearch := smallMempoolSearch_of_le hsize
    have hfit := hg.inv.size_le ho hq
    exact ⟨s.alloc.classOf o.size, q, a, k, hsearch, hq, (hg.inv.home_lt ho hq).1, hfit, ha, hk,
      hptr, hslab, howner, smallAllocInfo_small hsearch hslab howner hfit⟩
  case large =>
    intro o _ hsize
    exact ⟨smallMempoolSearch_of_lt hsize, smallAllocInfo_large (smallMempoolSearch_of_lt hsize)⟩
  case disjoint => exact hg.inv.apart
  case inside => exact fun o ho => hg.inside ho (hfits o ho)
  case objects =>
    refine hg.inv.apart.imp_of_mem fun {o o'} ho ho' hapart => ?_
    have hin := hg.inside ho (hfits o ho)
    have hin' := hg.inside ho' (hfits o' ho')
    unfold SmallObject.Apart RangesApart at hapart
    unfold RangesApart
    omega

/-- The objects of a client are those that it asked for. -/
theorem SmallState.Step.forall_live {P : Nat → Prop} {op : SmallOp} {s' : SmallState}
    (hstep : s.Step op s') (hop : ∀ size answer retry, op = .alloc size answer retry → P size)
    (hlive : ∀ o ∈ s.live, P o.size) : ∀ o ∈ s'.live, P o.size := by
  cases hstep with
  | small _ hserved =>
      cases hserved with
      | full _ _ _ _ _ hsame => exact hsame ▸ hlive
      | object ptr alloc₁ _ _ _ hcons =>
          rw [hcons]
          exact List.forall_mem_cons.2 ⟨hop _ _ _ rfl, hlive⟩
  | large _ _ hcase =>
      rcases hcase with rfl | ⟨ptr, hcons⟩
      · exact hlive
      · rw [hcons]
        exact List.forall_mem_cons.2 ⟨hop _ _ _ rfl, hlive⟩
  | free _ herase _ =>
      rw [herase]
      exact fun o ho => hlive o (List.mem_of_mem_erase ho)
  | write _ hsame => exact hsame ▸ hlive

/-- In a run of requests that fit, every object fits. -/
theorem SmallState.reachable_fits (hgeo : mslabSizeof ≤ g.order0Size)
    (hs : ((smallMachine g ptrSize).restrict SmallOp.Fits).Reachable s) :
    s.Good g ∧ ∀ o ∈ s.live, o.size + slabSizeof < sizeMax := by
  refine Machine.Reachable.of_step _ (P := fun s => s.Good g ∧ ∀ o ∈ s.live,
      o.size + slabSizeof < sizeMax)
    (fun s hs => ⟨SmallState.Created.good hgeo hs, ?_⟩) (fun s op s' h hop hex => ?_) hs
  · obtain ⟨-, -, -, -, -, -, -, -, -, -, hlive⟩ := hs
    simp [hlive]
  · obtain ⟨s₁, hex₁, hgood, hstep⟩ := SmallOp.exec_good h.1 op hop.1
    obtain rfl := Option.some.inj (hex₁.symm.trans hex)
    have hasked : ∀ size answer retry, op = .alloc size answer retry →
        size + slabSizeof < sizeMax := by
      rintro size answer retry rfl
      exact hop.2
    exact ⟨hgood, hstep.forall_live (P := fun size => size + slabSizeof < sizeMax) hasked h.2⟩

/-- **The contract of `smalloc` and `smfree`**, in every run of requests that can be represented
together with the slab header: objects lie in pools that are large enough and are found again
whichever pool serves their size now, they do not overlap, and no assertion fails. An allocator is
created if `mempool_create` accepts the size of each pool. -/
theorem smalloc_smfree_contract (hgeo : mslabSizeof ≤ g.order0Size) :
    (∀ (orderOf : Nat → Nat) (heap : MslabHeap) (alloc : SmallAlloc)
        (objsizeMin k effectiveBits : Nat),
      ptrSize ≤ objsizeMin → k < 32 → alignUp k objsizeMin < 2 ^ 32 → 0 < objsizeLimit g k →
      ∃ sc, smallClassCreate (2 ^ k) effectiveBits (alignUp k objsizeMin) = some sc ∧
        ((∀ heap i, mempoolCreate g orderOf heap i (poolObjsize sc (objsizeLimit g k) i) ≠ none) →
          ∃ r, smallAllocCreate g orderOf heap alloc objsizeMin (2 ^ k) effectiveBits = some r)) ∧
    ∀ s, ((smallMachine g ptrSize).restrict SmallOp.Fits).Reachable s →
      s.Contract g ∧ ∀ op : SmallOp, op.Allowed g s → ∃ s', op.exec g s = some s' := by
  constructor
  · intro orderOf heap alloc objsizeMin k effectiveBits hmin hk hlt hlimit
    have hpos : 0 < objsizeMin := Nat.lt_of_lt_of_le (by decide) hmin
    obtain ⟨sc, hsc, hcase⟩ :=
      smallAllocCreate_spec orderOf heap alloc effectiveBits hgeo hk hpos hlt hlimit
    refine ⟨sc, hsc, fun haccept => ?_⟩
    rcases hcase with ⟨-, heap', i, hnone⟩ | ⟨h', alloc', hex, -⟩
    · exact absurd hnone (haccept heap' i)
    · exact ⟨(h', alloc'), hex⟩
  · intro s hs
    obtain ⟨hg, hfits⟩ := SmallState.reachable_fits hgeo hs
    refine ⟨hg.contract hfits, fun op hop => ?_⟩
    obtain ⟨s', hex, -⟩ := SmallOp.exec_good hg op hop
    exact ⟨s', hex⟩

/-! ## Deciding what is allowed -/

instance (a n b m : Nat) : Decidable (RangesApart a n b m) := inferInstanceAs (Decidable (_ ∨ _))

instance (alloc : SmallAlloc) (live : List SmallObject) (p a : Nat) :
    Decidable (alloc.FreshSlab g live p a) :=
  decidable_of_iff ((alloc.pool p).Fresh g a ∧
      (∀ q < alloc.smallMempoolCacheSize, q ≠ p → ∀ b ∈ (alloc.pool q).slabs,
        RangesApart a (alloc.slabSize g p) b (alloc.slabSize g q)) ∧
      ∀ o ∈ live, o.home = none → RangesApart o.start (o.length alloc) a (alloc.slabSize g p))
    ⟨fun h => ⟨h.1, h.2.1, h.2.2⟩, fun h => ⟨h.pool, h.slabs, h.blocks⟩⟩

instance (alloc : SmallAlloc) (live : List SmallObject) (size a : Nat) :
    Decidable (alloc.FreshBlock g live size a) :=
  decidable_of_iff (0 < a ∧
      (∀ p < alloc.smallMempoolCacheSize, ∀ b ∈ (alloc.pool p).slabs,
        RangesApart a (largeSize size) b (alloc.slabSize g p)) ∧
      ∀ o ∈ live, o.home = none → RangesApart a (largeSize size) o.start (o.length alloc))
    ⟨fun h => ⟨h.1, h.2.1, h.2.2⟩, fun h => ⟨h.pos, h.slabs, h.blocks⟩⟩

instance (alloc : SmallAlloc) (live : List SmallObject) (p : Nat) (answer : Option Nat) :
    Decidable (alloc.SlabAnswer g live p answer) :=
  inferInstanceAs (Decidable (∀ a ∈ answer, alloc.FreshSlab g live p a))

instance (s : SmallState) (size : Nat) (answer retry : Option Nat) :
    Decidable (s.Answers g size answer retry) :=
  inferInstanceAs (Decidable (if size ≤ s.alloc.objsizeMax then
    s.alloc.SlabAnswer g s.live (s.alloc.poolFor size) answer ∧
      ∀ alloc₁ ∈ smallMempoolGroupSweepSparse s.heap s.alloc,
      alloc₁.SlabAnswer g s.live (s.alloc.poolFor size) retry
  else ∀ a ∈ answer, s.alloc.FreshBlock g s.live size a))

/-- Whether a call of `smalloc` or `smfree` is allowed. -/
def SmallOp.check (g : Geometry) (s : SmallState) : SmallOp → Bool
  | .alloc size answer retry => decide (s.Answers g size answer retry)
  | .free o => decide (o ∈ s.live)
  | .write _ => false

theorem SmallOp.check_allowed (s : SmallState) (op : SmallOp) (hop : op.check g s = true) :
    op.Allowed g s := by
  cases op with
  | alloc size answer retry =>
      rw [SmallOp.check, decide_eq_true_eq] at hop
      exact hop
  | free o =>
      rw [SmallOp.check, decide_eq_true_eq] at hop
      exact hop
  | write mem => cases hop

/-- Whether a request fits. -/
def SmallOp.fitsCheck : SmallOp → Bool
  | .alloc size _ _ => decide (size + slabSizeof < sizeMax)
  | _ => true

theorem SmallOp.fitsCheck_fits (op : SmallOp) (hop : op.fitsCheck = true) : op.Fits := by
  cases op with
  | alloc size answer retry => simpa [SmallOp.fitsCheck, SmallOp.Fits] using hop
  | free o => trivial
  | write mem => trivial

/-- A new allocator with pools for 512, 1024, 2048 and 4096 bytes, all with slabs of 64
kilobytes. -/
def fourPools : Option SmallState :=
  (smallAllocCreate sixteenPages (fun _ => 4) emptyHeap rawAlloc 512 512 0).map fun r =>
    ⟨r.1, r.2, []⟩

theorem fourPools_created (hs : fourPools = some s) : s.Created sixteenPages ptrSize := by
  obtain ⟨⟨h', alloc'⟩, hex, rfl⟩ := Option.map_eq_some_iff.1 hs
  exact ⟨_, _, _, _, _, _, by decide, by decide, by decide, hex, rfl⟩

/-- Five objects in the last pool, the fifth of which activates the first pool. Four of them are
freed. -/
def fiveObjects : List SmallOp :=
  [.alloc 512 (some 65536) none, .alloc 512 none none, .alloc 512 none none, .alloc 512 none none,
    .alloc 512 none none,
    .free ⟨69632, 512, some 3⟩, .free ⟨73728, 512, some 3⟩, .free ⟨77824, 512, some 3⟩,
    .free ⟨81920, 512, some 3⟩]

/-- What is left after calls of the new allocator is reachable. -/
theorem fourPools_reachable {ops : List SmallOp} {s : SmallState}
    (hs : fourPools.bind ((smallMachine sixteenPages ptrSize).run
      (fun s op => op.check sixteenPages s) ops) = some s) :
    (smallMachine sixteenPages ptrSize).Reachable s := by
  obtain ⟨s₀, hs₀, hrun⟩ := Option.bind_eq_some_iff.1 hs
  exact Machine.Reachable.run _ (fun s op hop => SmallOp.check_allowed s op hop) ops
    (.init (fourPools_created hs₀)) hrun

theorem fourPools_reachable_fits {ops : List SmallOp} {s : SmallState}
    (hs : fourPools.bind (((smallMachine sixteenPages ptrSize).restrict SmallOp.Fits).run
      (fun s op => op.check sixteenPages s && op.fitsCheck) ops) = some s) :
    ((smallMachine sixteenPages ptrSize).restrict SmallOp.Fits).Reachable s := by
  obtain ⟨s₀, hs₀, hrun⟩ := Option.bind_eq_some_iff.1 hs
  refine Machine.Reachable.run _ (fun s op hop => ?_) ops (.init (fourPools_created hs₀)) hrun
  obtain ⟨hcheck, hfits⟩ := Bool.and_eq_true_iff.1 hop
  exact ⟨SmallOp.check_allowed s op hcheck, op.fitsCheck_fits hfits⟩

theorem smalloc_smfree_contract_four :
    ∃ s, ((smallMachine sixteenPages ptrSize).restrict SmallOp.Fits).Reachable s ∧
      s.live = [⟨86016, 512, some 3⟩] ∧ s.Contract sixteenPages := by
  have hrun : (fourPools.bind (((smallMachine sixteenPages ptrSize).restrict SmallOp.Fits).run
      (fun s op => op.check sixteenPages s && op.fitsCheck) fiveObjects)).map
      (fun s => s.live) = some [⟨86016, 512, some 3⟩] := by decide +kernel
  obtain ⟨s, hs, hlive⟩ := Option.map_eq_some_iff.1 hrun
  have hreach := fourPools_reachable_fits hs
  exact ⟨s, hreach, hlive, ((smalloc_smfree_contract (by decide)).2 s hreach).1⟩

/-- A request of all but 32 bytes of the address space gets a block of 16 bytes, and one of 8192
bytes the memory behind that block. -/
def wrappedObject : List SmallOp :=
  [.alloc (2 ^ 64 - 32) (some 4096) none, .alloc 8192 (some 4112) none]

/-- The pointer of the first object lies behind its block, in the block of the second one. -/
theorem smalloc_wrapped_overlaps :
    ∃ s, (smallMachine sixteenPages ptrSize).Reachable s ∧
      s.live = [⟨4160, 8192, none⟩, ⟨4144, 2 ^ 64 - 32, none⟩] ∧ ¬ s.Contract sixteenPages := by
  have hrun : (fourPools.bind ((smallMachine sixteenPages ptrSize).run
      (fun s op => op.check sixteenPages s) wrappedObject)).map (fun s => s.live)
      = some [⟨4160, 8192, none⟩, ⟨4144, 2 ^ 64 - 32, none⟩] := by decide +kernel
  obtain ⟨s, hs, hlive⟩ := Option.map_eq_some_iff.1 hrun
  refine ⟨s, fourPools_reachable hs, hlive, fun h => ?_⟩
  have hobjects := h.objects
  rw [hlive] at hobjects
  have hapart :=
    (List.pairwise_cons.1 hobjects).1 ⟨4144, 2 ^ 64 - 32, none⟩ (List.mem_singleton.2 rfl)
  simp [RangesApart] at hapart

end SmallAllocators
