/-
SmallAllocators.Small.Groups — which pool serves which size.

The pools of a group lie side by side and have slabs of one size. A pool is
served by the first active pool of its group that is not before it, and the
last pool of a group is always active. `Grouped` has what does not change
after creation, and `UsedAt` what activation and deactivation keep.
-/
import Mathlib.Tactic.Common
import SmallAllocators.Mempool.Invariant
import SmallAllocators.Small.Model

namespace SmallAllocators

variable {alloc alloc' : SmallAlloc} {n p q : Nat}

/-! ## Masks -/

theorem builtinFfs_spec {x i : Nat} (hx : x.testBit i = true) (hi : i < 32) :
    ∃ j, builtinFfs x = j + 1 ∧ x.testBit j = true ∧ ∀ k < j, x.testBit k = false := by
  have hsome : ((List.range 32).find? fun i => x.testBit i).isSome := by
    rw [List.find?_isSome]
    exact ⟨i, List.mem_range.2 hi, hx⟩
  obtain ⟨j, hj⟩ := Option.isSome_iff_exists.1 hsome
  refine ⟨j, by simp [builtinFfs, hj],
    List.find?_some (p := fun i => x.testBit i) hj, fun k hk => ?_⟩
  rw [List.find?_range_eq_some] at hj
  simpa using hj.2.2 k hk

theorem and_bit_eq_zero_iff {mask i : Nat} : mask &&& 1 <<< i = 0 ↔ mask.testBit i = false := by
  rw [Nat.one_shiftLeft, Nat.and_two_pow]
  cases mask.testBit i with
  | false => simp
  | true => simp

theorem testBit_or_bit (mask i j : Nat) :
    (mask ||| 1 <<< i).testBit j = (mask.testBit j || decide (j = i)) := by
  rw [Nat.testBit_or, Nat.one_shiftLeft, Nat.testBit_two_pow]
  simp [eq_comm]

theorem testBit_clear_bit {i j : Nat} (mask : Nat) (hi : i < 32) (hj : j < 32) :
    (mask &&& (2 ^ 32 - 1 - 1 <<< i)).testBit j = (mask.testBit j && decide (j ≠ i)) := by
  have hlt : 1 <<< i < 2 ^ 32 := by
    rw [Nat.one_shiftLeft]
    exact Nat.pow_lt_pow_right (by omega) hi
  rw [Nat.testBit_and, Nat.sub_sub, Nat.add_comm 1, Nat.testBit_two_pow_sub_succ hlt,
    Nat.one_shiftLeft, Nat.testBit_two_pow]
  simp [hj, eq_comm]

/-! ## The layout -/

/-- The pool may serve requests. -/
def SmallAlloc.Active (alloc : SmallAlloc) (p : Nat) : Prop :=
  (alloc.group p).activePoolMask.testBit (p - (alloc.group p).first) = true

/-- The pool `q` is in the group of `p`. -/
def SmallAlloc.InGroup (alloc : SmallAlloc) (p q : Nat) : Prop :=
  (alloc.group p).first ≤ q ∧ q ≤ (alloc.group p).last

/-- The first `n` pools are in groups. -/
structure SmallAlloc.Grouped (alloc : SmallAlloc) (n : Nat) : Prop where
  index : ∀ p < n, (alloc.smallMempoolCache p).group < alloc.smallMempoolGroupsSize
  onto : ∀ j < alloc.smallMempoolGroupsSize, ∃ p < n, (alloc.smallMempoolCache p).group = j
  self : ∀ p < n, alloc.InGroup p p
  last : ∀ p < n, (alloc.group p).last < n ∧
    (alloc.group p).last < (alloc.group p).first + poolPerGroupMax
  same : ∀ p < n, ∀ q, alloc.InGroup p q →
    (alloc.smallMempoolCache q).group = (alloc.smallMempoolCache p).group ∧
    (alloc.pool q).slabOrder = (alloc.pool p).slabOrder
  appropriate : ∀ p < n, ∀ i, (alloc.smallMempoolCache p).appropriatePoolMask.testBit i
    = decide (p - (alloc.group p).first ≤ i ∧ i < poolPerGroupMax)
  wasteMax : ∀ p < n, 0 < (alloc.group p).wasteMax ∧ (alloc.group p).wasteMax < 2 ^ 32
  mono : ∀ p q, p ≤ q → q < n → (alloc.pool p).objsize ≤ (alloc.pool q).objsize

/-- `u` is the first active pool that is not before `p`. -/
structure SmallAlloc.Serves (alloc : SmallAlloc) (p u : Nat) : Prop where
  le : p ≤ u
  last : u ≤ (alloc.group p).last
  active : alloc.Active u
  lowest : ∀ r, p ≤ r → r < u → ¬ alloc.Active r

/-- The pool is served, and its group has an active pool at the end. -/
structure SmallAlloc.UsedAt (alloc : SmallAlloc) (p : Nat) : Prop where
  mask : ∀ i, (alloc.group p).activePoolMask.testBit i = true →
    (alloc.group p).first + i ≤ (alloc.group p).last
  lastActive :
    (alloc.group p).activePoolMask.testBit ((alloc.group p).last - (alloc.group p).first) = true
  used : alloc.Serves p (alloc.smallMempoolCache p).usedPool

/-- An inactive pool has wasted little. -/
def SmallAlloc.Thrifty (alloc : SmallAlloc) (p : Nat) : Prop :=
  ¬ alloc.Active p → (alloc.smallMempoolCache p).waste < (alloc.group p).wasteMax

theorem SmallAlloc.Grouped.group_eq (hg : alloc.Grouped n) (hp : p < n) (hq : alloc.InGroup p q) :
    alloc.group q = alloc.group p := by
  rw [SmallAlloc.group, SmallAlloc.group, (hg.same p hp q hq).1]

theorem SmallAlloc.Grouped.lt (hg : alloc.Grouped n) (hp : p < n) (hq : alloc.InGroup p q) :
    q < n :=
  Nat.lt_of_le_of_lt hq.2 (hg.last p hp).1

/-- A pool with the same group pointer lies between the ends of the group. -/
theorem SmallAlloc.Grouped.inGroup_iff (hg : alloc.Grouped n) (hp : p < n) (hq : q < n) :
    alloc.InGroup p q ↔ (alloc.smallMempoolCache q).group = (alloc.smallMempoolCache p).group := by
  constructor
  · intro h
    exact (hg.same p hp q h).1
  · intro h
    have hself := hg.self q hq
    unfold SmallAlloc.InGroup SmallAlloc.group at hself ⊢
    rwa [h] at hself

/-- The two allocators have the same pools and groups, up to what serves requests. -/
structure SmallAlloc.SameLayout (alloc alloc' : SmallAlloc) : Prop where
  cacheSize : alloc'.smallMempoolCacheSize = alloc.smallMempoolCacheSize
  groupsSize : alloc'.smallMempoolGroupsSize = alloc.smallMempoolGroupsSize
  smallClass : alloc'.smallClass = alloc.smallClass
  objsizeMax : alloc'.objsizeMax = alloc.objsizeMax
  index : ∀ p, (alloc'.smallMempoolCache p).group = (alloc.smallMempoolCache p).group
  appropriate : ∀ p, (alloc'.smallMempoolCache p).appropriatePoolMask =
    (alloc.smallMempoolCache p).appropriatePoolMask
  objsizeMin : ∀ p, (alloc'.smallMempoolCache p).objsizeMin = (alloc.smallMempoolCache p).objsizeMin
  config : ∀ p, (alloc.pool p).SameConfig (alloc'.pool p)
  first : ∀ p, (alloc'.group p).first = (alloc.group p).first
  last : ∀ p, (alloc'.group p).last = (alloc.group p).last
  wasteMax : ∀ p, (alloc'.group p).wasteMax = (alloc.group p).wasteMax

namespace SmallAlloc.SameLayout

theorem refl (alloc : SmallAlloc) : alloc.SameLayout alloc :=
  ⟨rfl, rfl, rfl, rfl, fun _ => rfl, fun _ => rfl, fun _ => rfl, fun _ => .refl _, fun _ =>
    rfl, fun _ => rfl, fun _ => rfl⟩

theorem trans {alloc₁ alloc₂ alloc₃ : SmallAlloc} (h : alloc₁.SameLayout alloc₂)
    (h' : alloc₂.SameLayout alloc₃) :
    alloc₁.SameLayout alloc₃ :=
  ⟨h'.cacheSize.trans h.cacheSize, h'.groupsSize.trans h.groupsSize,
    h'.smallClass.trans h.smallClass,
    h'.objsizeMax.trans h.objsizeMax, fun p => (h'.index p).trans (h.index p),
    fun p => (h'.appropriate p).trans (h.appropriate p), fun p =>
    (h'.objsizeMin p).trans (h.objsizeMin p), fun p => (h.config p).trans (h'.config p),
    fun p => (h'.first p).trans (h.first p), fun p => (h'.last p).trans (h.last p),
    fun p => (h'.wasteMax p).trans (h.wasteMax p)⟩

theorem inGroup (h : alloc.SameLayout alloc') (p q : Nat) :
    alloc'.InGroup p q ↔ alloc.InGroup p q := by
  rw [InGroup, InGroup, h.first, h.last]

theorem grouped (h : alloc.SameLayout alloc') (hg : alloc.Grouped n) : alloc'.Grouped n := by
  constructor
  case index => intro p hp; rw [h.index, h.groupsSize]; exact hg.index p hp
  case onto =>
    intro j hj
    rw [h.groupsSize] at hj
    obtain ⟨p, hp, heq⟩ := hg.onto j hj
    exact ⟨p, hp, (h.index p).trans heq⟩
  case self => intro p hp; rw [h.inGroup]; exact hg.self p hp
  case last => intro p hp; rw [h.last, h.first]; exact hg.last p hp
  case same =>
    intro p hp q hq
    rw [h.inGroup] at hq
    rw [h.index, h.index, (h.config p).slabOrder, (h.config q).slabOrder]
    exact hg.same p hp q hq
  case appropriate => intro p hp i; rw [h.appropriate, h.first]; exact hg.appropriate p hp i
  case wasteMax => intro p hp; rw [h.wasteMax]; exact hg.wasteMax p hp
  case mono =>
    intro p q hpq hq; rw [(h.config p).objsize, (h.config q).objsize]; exact hg.mono p q hpq hq

end SmallAlloc.SameLayout

/-! ## `small_mempool_update_group` -/

/-- The allocator with other pools in use. -/
def SmallAlloc.withUsed (alloc : SmallAlloc) (used : Nat → Nat) : SmallAlloc :=
  { alloc with smallMempoolCache := fun i => { alloc.smallMempoolCache i with usedPool := used i } }

/-- The pool that the loop picks for the pool `i`. -/
def pickPool (group : SmallMempoolGroup) (alloc : SmallAlloc) (i : Nat) : Nat :=
  group.first +
  (builtinFfs (group.activePoolMask &&& (alloc.smallMempoolCache i).appropriatePoolMask) - 1)

theorem updateUsedPool_eq {group : SmallMempoolGroup} {i : Nat}
    (hffs : builtinFfs
      (group.activePoolMask &&& (alloc.smallMempoolCache i).appropriatePoolMask) ≠ 0)
    (hle : i ≤ pickPool group alloc i)
    (hsize : (alloc.pool i).objsize ≤ (alloc.pool (pickPool group alloc i)).objsize) :
    updateUsedPool group alloc i = some (alloc.setUsedPool i (pickPool group alloc i)) := by
  unfold pickPool at hle hsize ⊢
  simp [updateUsedPool, guard, hffs, hle, hsize]

theorem updateUsedPool_foldlM (group : SmallMempoolGroup) (l : List Nat) (alloc : SmallAlloc)
    (h : ∀ i ∈ l,
      builtinFfs (group.activePoolMask &&& (alloc.smallMempoolCache i).appropriatePoolMask) ≠ 0 ∧
      i ≤ pickPool group alloc i ∧
      (alloc.pool i).objsize ≤ (alloc.pool (pickPool group alloc i)).objsize) :
    l.foldlM (updateUsedPool group) alloc = some (alloc.withUsed fun i =>
      if i ∈ l then pickPool group alloc i else (alloc.smallMempoolCache i).usedPool) := by
  induction l generalizing alloc with
  | nil => simp [SmallAlloc.withUsed]
  | cons i l ih =>
      obtain ⟨h1, h2, h3⟩ := h i List.mem_cons_self
      have hmask : ∀ x,
          ((alloc.setUsedPool i (pickPool group alloc i)).smallMempoolCache x).appropriatePoolMask
          = (alloc.smallMempoolCache x).appropriatePoolMask := by
        intro x
        simp only [SmallAlloc.setUsedPool, SmallAlloc.setSmallMempool]
        split <;> simp_all
      have hpool : ∀ x, (alloc.setUsedPool i (pickPool group alloc i)).pool x = alloc.pool x := by
        intro x
        simp only [SmallAlloc.setUsedPool, SmallAlloc.setSmallMempool, SmallAlloc.pool]
        split <;> simp_all
      have hpick : ∀ x, pickPool group (alloc.setUsedPool i (pickPool group alloc i)) x =
          pickPool group alloc x := by
        intro x
        rw [pickPool, hmask]
        rfl
      rw [List.foldlM_cons, updateUsedPool_eq h1 h2 h3, Option.bind_eq_bind, Option.bind_some, ih]
      · simp only [SmallAlloc.withUsed, SmallAlloc.setUsedPool, SmallAlloc.setSmallMempool,
          Option.some.injEq, SmallAlloc.mk.injEq, and_self, and_true]
        funext x
        by_cases hx : x = i
        · simp [hx, pickPool]
        · by_cases hxl : x ∈ l <;> simp [hx, hxl, pickPool]
      · intro j hj
        rw [hmask, hpick, hpool, hpool]
        exact h j (List.mem_cons_of_mem _ hj)

theorem mem_poolsFromTo {first last i : Nat} :
    i ∈ poolsFromTo first last ↔ first ≤ i ∧ i ≤ last := by
  rw [poolsFromTo, List.mem_range'_1]
  omega

/-- `small_mempool_update_group`: every pool of the group is served again. -/
theorem updateGroup_spec (hg : alloc.Grouped n) (hp : p < n)
    (hmask : ∀ i, (alloc.group p).activePoolMask.testBit i = true →
      (alloc.group p).first + i ≤ (alloc.group p).last)
    (hlast : (alloc.group p).activePoolMask.testBit
      ((alloc.group p).last - (alloc.group p).first) = true) :
    ∃ u, smallMempoolUpdateGroup alloc p = some (alloc.withUsed u) ∧
      (∀ q, alloc.InGroup p q → alloc.Serves q (u q)) ∧
      ∀ q, ¬ alloc.InGroup p q → u q = (alloc.smallMempoolCache q).usedPool := by
  have hlt := hg.last p hp
  -- what the loop picks for a pool of the group
  have hpick : ∀ q, alloc.InGroup p q →
      builtinFfs ((alloc.group p).activePoolMask &&&
        (alloc.smallMempoolCache q).appropriatePoolMask) ≠ 0 ∧
      alloc.Serves q (pickPool (alloc.group p) alloc q) := by
    intro q hq
    have hqn := hg.lt hp hq
    have hgq := hg.group_eq hp hq
    have happ := hg.appropriate q hqn
    rw [hgq] at happ
    have hbit : ((alloc.group p).activePoolMask &&&
        (alloc.smallMempoolCache q).appropriatePoolMask).testBit
        ((alloc.group p).last - (alloc.group p).first) = true := by
      rw [Nat.testBit_and, hlast, happ]
      have h1 := hq.1
      have h2 := hq.2
      simp only [Bool.true_and, decide_eq_true_eq]
      omega
    have hlt32 : (alloc.group p).last - (alloc.group p).first < 32 := by
      simp only [poolPerGroupMax] at hlt
      omega
    obtain ⟨j, hj, hjbit, hjlow⟩ := builtinFfs_spec hbit hlt32
    rw [Nat.testBit_and, happ, Bool.and_eq_true, decide_eq_true_eq] at hjbit
    have hle := hmask j hjbit.1
    have hpick : pickPool (alloc.group p) alloc q = (alloc.group p).first + j := by
      rw [pickPool, hj, Nat.add_sub_cancel]
    have hfirst := hq.1
    refine ⟨by omega, ?_⟩
    rw [hpick]
    have hin : alloc.InGroup p ((alloc.group p).first + j) := ⟨by omega, hle⟩
    refine ⟨by omega, by rw [hgq]; exact hle, ?_, fun r hqr hr => ?_⟩
    · rw [SmallAlloc.Active, hg.group_eq hp hin, Nat.add_sub_cancel_left]
      exact hjbit.1
    · have hlow := hjlow (r - (alloc.group p).first) (by omega)
      rw [Nat.testBit_and, happ] at hlow
      have hd : decide (q - (alloc.group p).first ≤ r - (alloc.group p).first ∧
          r - (alloc.group p).first < poolPerGroupMax) = true := by
        rw [decide_eq_true_eq]
        omega
      rw [hd, Bool.and_true] at hlow
      rw [SmallAlloc.Active, hg.group_eq hp ⟨by omega, by omega⟩, hlow]
      exact Bool.false_ne_true
  refine ⟨fun q => if q ∈ poolsFromTo (alloc.group p).first (alloc.group p).last then
    pickPool (alloc.group p) alloc q
    else (alloc.smallMempoolCache q).usedPool, ?_, ?_, ?_⟩
  · rw [smallMempoolUpdateGroup]
    refine updateUsedPool_foldlM _ _ _ fun i hi => ?_
    rw [mem_poolsFromTo] at hi
    obtain ⟨h1, h2⟩ := hpick i hi
    have hin : alloc.InGroup p (pickPool (alloc.group p) alloc i) := ⟨by have := h2.le; omega, by
      have := h2.last
      rw [hg.group_eq hp hi] at this
      exact this⟩
    exact ⟨h1, h2.le, hg.mono _ _ h2.le (hg.lt hp hin)⟩
  · intro q hq
    beta_reduce
    rw [if_pos (mem_poolsFromTo.2 hq)]
    exact (hpick q hq).2
  · intro q hq
    beta_reduce
    rw [if_neg fun h => hq (mem_poolsFromTo.1 h)]

/-! ## Activation and deactivation -/

theorem SmallAlloc.setActivePoolMask_group (alloc : SmallAlloc) (p q mask : Nat) :
    (alloc.setActivePoolMask p mask).group q =
      if (alloc.smallMempoolCache q).group = (alloc.smallMempoolCache p).group then
        { alloc.group p with activePoolMask := mask } else alloc.group q := rfl

theorem SmallAlloc.sameLayout_setActivePoolMask (alloc : SmallAlloc) (p mask : Nat)
    (used : Nat → Nat) :
    alloc.SameLayout ((alloc.setActivePoolMask p mask).withUsed used) := by
  have hgroup : ∀ q, ((alloc.setActivePoolMask p mask).withUsed used).group q
      = if (alloc.smallMempoolCache q).group = (alloc.smallMempoolCache p).group then
        { alloc.group p with activePoolMask := mask } else alloc.group q := fun _ => rfl
  constructor
  case cacheSize => rfl
  case groupsSize => rfl
  case smallClass => rfl
  case objsizeMax => rfl
  case index => exact fun _ => rfl
  case appropriate => exact fun _ => rfl
  case objsizeMin => exact fun _ => rfl
  case config => exact fun _ => .refl _
  case first => intro q; rw [hgroup]; split <;> simp_all [SmallAlloc.group]
  case last => intro q; rw [hgroup]; split <;> simp_all [SmallAlloc.group]
  case wasteMax => intro q; rw [hgroup]; split <;> simp_all [SmallAlloc.group]

/-- What a change of the active pools of a group does: the pools keep their objects and their
waste. -/
structure SmallAlloc.Retargeted (alloc : SmallAlloc) (p mask n : Nat) (alloc' : SmallAlloc) :
    Prop where
  layout : alloc.SameLayout alloc'
  pool : ∀ q, alloc'.pool q = alloc.pool q
  waste : ∀ q, (alloc'.smallMempoolCache q).waste = (alloc.smallMempoolCache q).waste
  usedAt : ∀ q < n, alloc'.UsedAt q
  activeIn : ∀ q, alloc.InGroup p q →
    (alloc'.Active q ↔ mask.testBit (q - (alloc.group p).first) = true)
  activeOut : ∀ q < n, ¬ alloc.InGroup p q → (alloc'.Active q ↔ alloc.Active q)

theorem retarget_spec (mask : Nat) (hg : alloc.Grouped n) (hp : p < n)
    (hmask : ∀ i, mask.testBit i = true → (alloc.group p).first + i ≤ (alloc.group p).last)
    (hlast : mask.testBit ((alloc.group p).last - (alloc.group p).first) = true)
    (hout : ∀ q < n, ¬ alloc.InGroup p q → alloc.UsedAt q) :
    ∃ alloc', smallMempoolUpdateGroup (alloc.setActivePoolMask p mask) p = some alloc' ∧
      alloc.Retargeted p mask n alloc' := by
  have hlay :=
    alloc.sameLayout_setActivePoolMask p mask fun i => (alloc.smallMempoolCache i).usedPool
  have hg₁ : (alloc.setActivePoolMask p mask).Grouped n := hlay.grouped hg
  have hgroupIn : ∀ q, alloc.InGroup p q →
      (alloc.setActivePoolMask p mask).group q = { alloc.group p with activePoolMask := mask } := by
    intro q hq
    rw [alloc.setActivePoolMask_group, if_pos (hg.same p hp q hq).1]
  have hgroupOut : ∀ q < n, ¬ alloc.InGroup p q →
      (alloc.setActivePoolMask p mask).group q = alloc.group q := by
    intro q hq hnot
    rw [alloc.setActivePoolMask_group, if_neg fun he => hnot ((hg.inGroup_iff hp hq).2 he)]
  have hself := hgroupIn p (hg.self p hp)
  have hin : ∀ q, (alloc.setActivePoolMask p mask).InGroup p q ↔ alloc.InGroup p q :=
    fun q => hlay.inGroup p q
  obtain ⟨u, hupd, hserve, hkeep⟩ :=
    updateGroup_spec hg₁ hp (by rw [hself]; exact hmask) (by rw [hself]; exact hlast)
  have hactiveIn : ∀ q, alloc.InGroup p q →
      ((alloc.setActivePoolMask p mask).Active q ↔
        mask.testBit (q - (alloc.group p).first) = true) := by
    intro q hq
    rw [SmallAlloc.Active, hgroupIn q hq]
  have hactiveOut : ∀ q < n, ¬ alloc.InGroup p q →
      ((alloc.setActivePoolMask p mask).Active q ↔ alloc.Active q) := by
    intro q hq hnot
    rw [SmallAlloc.Active, hgroupOut q hq hnot, SmallAlloc.Active]
  refine ⟨_, hupd, alloc.sameLayout_setActivePoolMask p mask u, fun _ => rfl, fun _ =>
    rfl, fun q hq => ?_, hactiveIn, hactiveOut⟩
  by_cases hinq : alloc.InGroup p q
  · have hserveq := hserve q ((hin q).2 hinq)
    constructor
    case mask =>
      change ∀ i, ((alloc.setActivePoolMask p mask).group q).activePoolMask.testBit i = true → _
      rw [hgroupIn q hinq]
      intro i hi
      exact (congrArg SmallMempoolGroup.first (hgroupIn q hinq)).symm ▸
        (congrArg SmallMempoolGroup.last (hgroupIn q hinq)).symm ▸ hmask i hi
    case lastActive =>
      change ((alloc.setActivePoolMask p mask).group q).activePoolMask.testBit
        (((alloc.setActivePoolMask p mask).group q).last -
          ((alloc.setActivePoolMask p mask).group q).first) = true
      rw [hgroupIn q hinq]
      exact hlast
    case used => exact ⟨hserveq.le, hserveq.last, hserveq.active, hserveq.lowest⟩
  · have hold := hout q hq hinq
    have hgq := hgroupOut q hq hinq
    have hactive : ∀ r, q ≤ r → r ≤ (alloc.group q).last →
        ((alloc.setActivePoolMask p mask).Active r ↔ alloc.Active r) := by
      intro r hqr hr
      have hinr : alloc.InGroup q r := ⟨Nat.le_trans (hg.self q hq).1 hqr, hr⟩
      refine hactiveOut r (hg.lt hq hinr) fun hpr => hinq ?_
      rw [hg.inGroup_iff hp hq, ← (hg.same q hq r hinr).1, (hg.same p hp r hpr).1]
    have hserveq := hold.used
    constructor
    case mask =>
      change ∀ i, ((alloc.setActivePoolMask p mask).group q).activePoolMask.testBit i = true →
        ((alloc.setActivePoolMask p mask).group q).first + i ≤
        ((alloc.setActivePoolMask p mask).group q).last
      rw [hgq]
      exact hold.mask
    case lastActive =>
      change ((alloc.setActivePoolMask p mask).group q).activePoolMask.testBit
        (((alloc.setActivePoolMask p mask).group q).last -
          ((alloc.setActivePoolMask p mask).group q).first) = true
      rw [hgq]
      exact hold.lastActive
    case used =>
      change SmallAlloc.Serves _ q (u q)
      rw [hkeep q fun h => hinq ((hin q).1 h)]
      refine ⟨hserveq.le, ?_, ?_, fun r hqr hr => ?_⟩
      · change _ ≤ ((alloc.setActivePoolMask p mask).group q).last
        rw [hgq]
        exact hserveq.last
      · exact (hactive _ hserveq.le hserveq.last).2 hserveq.active
      · intro ha
        have hra : alloc.Active r := (hactive r hqr (Nat.le_trans hr.le hserveq.last)).1 ha
        exact hserveq.lowest r hqr hr hra

/-- What activation and deactivation keep, and which pools are active then. -/
structure SmallAlloc.Switched (alloc : SmallAlloc) (n : Nat) (active : Nat → Prop)
    (alloc' : SmallAlloc) : Prop where
  layout : alloc.SameLayout alloc'
  pool : ∀ q, alloc'.pool q = alloc.pool q
  waste : ∀ q, (alloc'.smallMempoolCache q).waste = (alloc.smallMempoolCache q).waste
  usedAt : ∀ q < n, alloc'.UsedAt q
  active : ∀ q < n, (alloc'.Active q ↔ active q)

/-- `small_mempool_activate`. -/
theorem smallMempoolActivate_spec (hg : alloc.Grouped n) (hp : p < n) (hu : ∀ q < n, alloc.UsedAt q)
    (hna : ¬ alloc.Active p) :
    ∃ alloc', smallMempoolActivate alloc p = some alloc' ∧
      alloc.Switched n (fun q => alloc.Active q ∨ q = p) alloc' := by
  have hself := hg.self p hp
  have hup := hu p hp
  obtain ⟨alloc', hupd, hr⟩ :=
    retarget_spec ((alloc.group p).activePoolMask ||| 1 <<< (p - (alloc.group p).first))
    hg hp
    (by
      intro i hi
      rw [testBit_or_bit, Bool.or_eq_true, decide_eq_true_eq] at hi
      have h1 := hself.1
      have h2 := hself.2
      rcases hi with hi | hi
      · exact hup.mask i hi
      · omega)
    (by rw [testBit_or_bit, hup.lastActive, Bool.true_or]) (fun q hq _ => hu q hq)
  refine ⟨alloc', ?_, hr.layout, hr.pool, hr.waste, hr.usedAt, fun q hq => ?_⟩
  · have hguard : (alloc.group p).activePoolMask &&& 1 <<< (p - (alloc.group p).first) = 0 :=
      and_bit_eq_zero_iff.2 (by simpa [SmallAlloc.Active] using hna)
    simp only [smallMempoolActivate, smallMempoolGetGroupIndex, hguard, guard, if_true, hupd]
    rfl
  · by_cases hin : alloc.InGroup p q
    · rw [hr.activeIn q hin, testBit_or_bit, Bool.or_eq_true, decide_eq_true_eq, SmallAlloc.Active,
        hg.group_eq hp hin]
      have h1 := hself.1
      have h2 := hin.1
      have hiff : q - (alloc.group p).first = p - (alloc.group p).first ↔ q = p := by omega
      rw [hiff]
    · rw [hr.activeOut q hq hin]
      have hne : q ≠ p := fun he => hin (he ▸ hself)
      simp [hne]

/-- `small_mempool_deactivate` of a pool that is not the last one. -/
theorem smallMempoolDeactivate_spec (hg : alloc.Grouped n) (hp : p < n)
    (hu : ∀ q < n, alloc.UsedAt q) (ha : alloc.Active p) (hlast : p ≠ (alloc.group p).last) :
    ∃ alloc', smallMempoolDeactivate alloc p = some alloc' ∧
      alloc.Switched n (fun q => alloc.Active q ∧ q ≠ p) alloc' := by
  have hself := hg.self p hp
  have hup := hu p hp
  have hlt := hg.last p hp
  have h1 := hself.1
  have h2 := hself.2
  have hidx : p - (alloc.group p).first < 32 := by
    simp only [poolPerGroupMax] at hlt
    omega
  have hbit : ∀ i, (alloc.group p).first + i ≤ (alloc.group p).last →
      ((alloc.group p).activePoolMask &&&
      (2 ^ 32 - 1 - 1 <<< (p - (alloc.group p).first))).testBit i
      = ((alloc.group p).activePoolMask.testBit i && decide (i ≠ p - (alloc.group p).first)) := by
    intro i hi
    refine testBit_clear_bit _ hidx ?_
    simp only [poolPerGroupMax] at hlt
    omega
  obtain ⟨alloc', hupd, hr⟩ := retarget_spec
    ((alloc.group p).activePoolMask &&& (2 ^ 32 - 1 - 1 <<< (p - (alloc.group p).first))) hg hp
    (by
      intro i hi
      rw [Nat.testBit_and, Bool.and_eq_true] at hi
      exact hup.mask i hi.1)
    (by
      rw [hbit _ (by omega), hup.lastActive, Bool.true_and, decide_eq_true_eq]
      omega)
    (fun q hq _ => hu q hq)
  refine ⟨alloc', ?_, hr.layout, hr.pool, hr.waste, hr.usedAt, fun q hq => ?_⟩
  · have hguard :
        (alloc.group p).activePoolMask &&& 1 <<< smallMempoolGetGroupIndex alloc p ≠ 0 := by
      rw [ne_eq, and_bit_eq_zero_iff, Bool.not_eq_false]
      exact ha
    simp only [smallMempoolDeactivate, guard, if_pos hguard]
    exact hupd
  · by_cases hin : alloc.InGroup p q
    · have h3 := hin.1
      have h4 := hin.2
      rw [hr.activeIn q hin, hbit _ (by omega), Bool.and_eq_true, decide_eq_true_eq,
        SmallAlloc.Active, hg.group_eq hp hin]
      have hiff : q - (alloc.group p).first ≠ p - (alloc.group p).first ↔ q ≠ p := by omega
      rw [hiff]
    · rw [hr.activeOut q hq hin]
      have hne : q ≠ p := fun he => hin (he ▸ hself)
      simp [hne]

theorem smallMempoolCanBeDeactivated_iff : smallMempoolCanBeDeactivated alloc p = true ↔
    alloc.Active p ∧ mempoolCount (alloc.pool p) = 0 ∧
      (alloc.smallMempoolCache p).waste < (alloc.group p).wasteMax / 4 ∧
      p ≠ (alloc.group p).last := by
  unfold smallMempoolCanBeDeactivated SmallAlloc.Active smallMempoolGetGroupIndex
  simp only [and_bit_eq_zero_iff]
  cases (alloc.group p).activePoolMask.testBit (p - (alloc.group p).first) with
  | false => simp
  | true => by_cases h : mempoolCount (alloc.pool p) = 0 <;> simp [h]

end SmallAllocators
