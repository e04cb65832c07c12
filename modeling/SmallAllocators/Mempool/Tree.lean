/-
SmallAllocators.Mempool.Tree — pools with the red-black trees of `rb.h`.

`Mempool.Model` has the hot slabs of a pool as a list in the order of their
addresses. Here they are the nodes of a red-black tree, whose links are in
the slab headers, and the functions of the pool call `mslab_tree_insert`,
`mslab_tree_remove` and `mslab_tree_next` on it. The memory of a slab that
is not the pool's is somebody else's, and so are the links in it.

`mempool_on_red_black_tree` says that every run of a pool with a tree is a
run of the pool with a list: what is proved about the latter holds for the
former, and the tree adds no failed assertion and no path that is too long.
-/
import SmallAllocators.Mempool.Runs
import SmallAllocators.Rb.Lookup

namespace SmallAllocators

/-! ## The pool -/

/-- Without an augmentation there is nothing to compute. -/
def noValue : Nat → Option Unit → Option Unit → Unit := fun _ _ _ => ()

/-- `mslab_cmp`. -/
def mslabCmp (lhs rhs : Nat) : Ordering := compare lhs rhs

/-- `mslab_tree_t`. -/
abbrev MslabTree := RbTree Nat Unit

/-- `mslab_tree_next`. Its loops have no bound; no tree of slabs is as high as this. -/
def mslabTreeNext (tree : MslabTree) (slab : Nat) : Option (Option Nat) :=
  rbNext mslabCmp tree.links 128 slab

/-- `struct mempool`, with a tree of hot slabs. -/
structure TreeMempool where
  hotSlabs : MslabTree
  /-- The other fields: the list of hot slabs in it is not used. -/
  rest : Mempool

namespace TreeMempool

variable (h : MslabHeap) (pool : TreeMempool) (slab : Nat)

/-- A function of the pool that does not look at the hot slabs. -/
def map (f : Mempool → Mempool) : TreeMempool := { pool with rest := f pool.rest }

def setFirstHot (first : Nat) : TreeMempool :=
  pool.map fun rest => { rest with firstHotSlab := first }

def skipHot : Option TreeMempool :=
  if slab = pool.rest.firstHotSlab then do
    let next ← mslabTreeNext pool.hotSlabs slab
    some (pool.setFirstHot (next.getD 0))
  else some pool

def removeHot : Option (MslabHeap × TreeMempool) := do
  let pool ← pool.skipHot slab
  let tree ← rbRemove noValue mslabCmp pool.hotSlabs slab
  some (h.setHotFlag slab false, { pool with hotSlabs := tree })

def insertHot : Option (MslabHeap × TreeMempool) := do
  let tree ← rbInsert noValue mslabCmp pool.hotSlabs slab
  some (h.setHotFlag slab true, { pool with hotSlabs := tree })

/-- `mslab_alloc`. -/
def mslabAlloc : Option (Nat × MslabHeap × TreeMempool) := do
  guard ((h.mslab slab).nfree ≠ 0)
  let (result, h) := mslabTake h pool.rest slab
  if (h.mslab slab).nfree = 0 then
    let (h, pool) ← pool.removeHot h slab
    some (result, h, pool)
  else some (result, h, pool)

/-- The end of `mslab_free` for a slab without objects. -/
def retireSlab : Option TreeMempool := do
  let rest ← SmallAllocators.retireSlab h pool.rest slab
  some { pool with rest := rest }

def mslabPlace : Option (MslabHeap × TreeMempool) :=
  let s := h.mslab slab
  if s.inHotSlabs = false ∧ s.nfree ≥ pool.rest.objcount >>> maxColdFractionLb then do
    let h := h.setLinks (rlistDel h.nextInCold (.slab slab))
    let (h, pool) ← pool.insertHot h slab
    if pool.rest.firstHotSlab = 0 ∨ mslabCmp pool.rest.firstHotSlab slab = .gt then
      some (h, pool.setFirstHot slab)
    else some (h, pool)
  else if s.nfree = 1 then
    some (h.setLinks (rlistAdd h.nextInCold (.head pool.rest.id) (.slab slab)), pool)
  else if s.nfree = pool.rest.objcount then do
    let (h, pool) ← pool.removeHot h slab
    let pool ← pool.retireSlab h slab
    some (h, pool)
  else some (h, pool)

/-- The end of `mempool_alloc`, with a slab. -/
def mempoolTake : Option (Nat × MslabHeap × TreeMempool) := do
  let pool := pool.map fun rest => rest.setUsed (rest.stats.used + rest.objsize)
  let (ptr, h, pool) ← pool.mslabAlloc h slab
  guard (ptr ≠ 0)
  some (ptr, h, pool)

/-- `mempool_alloc`. -/
def mempoolAlloc (g : Geometry) (answer : Option Nat) : Option (Nat × MslabHeap × TreeMempool) :=
  if pool.rest.firstHotSlab ≠ 0 then pool.mempoolTake h pool.rest.firstHotSlab
  else
    match mempoolSlab g h pool.rest answer with
    | none => some (0, h, pool)
    | some (slab, h, rest) => do
      guard ((h.mslab slab).inHotSlabs = false)
      let (h, pool) ← insertHot h { pool with rest := rest } slab
      (pool.setFirstHot slab).mempoolTake h slab

/-- `mempool_free_slab`. -/
def mempoolFreeSlab (ptr : Nat) : Option (MslabHeap × TreeMempool) := do
  guard (ptr ≠ 0)
  let h := { h with mem := Memory.fill h.mem ptr pool.rest.objsize fun _ => 35 }
  guard ((h.mslab slab).order = pool.rest.slabOrder)
  let pool := pool.map fun rest => rest.setUsed (rest.stats.used - rest.objsize)
  pool.mslabPlace (mslabPush h slab ptr) slab

/-- `mempool_free`. -/
def mempoolFree (ptr : Nat) : Option (MslabHeap × TreeMempool) := do
  guard (ptr ≠ 0)
  let slab ← slabFromPtr h ptr pool.rest.slabPtrMask
  pool.mempoolFreeSlab h slab ptr

/-- `mempool_free_spare_slab`. -/
def mempoolFreeSpareSlab : Option TreeMempool := do
  let rest ← SmallAllocators.mempoolFreeSpareSlab h pool.rest
  some { pool with rest := rest }

/-- `mempool_create_with_order`. -/
def mempoolCreateWithOrder (g : Geometry) (tree : MslabTree) (id objsize order : Nat) :
    Option (MslabHeap × TreeMempool) := do
  let (h, rest) ← SmallAllocators.mempoolCreateWithOrder g h id objsize order
  some (h, { hotSlabs := rbNew tree, rest := rest })

end TreeMempool

/-! ## A tree and a list -/

/-- The pool with the list of its hot slabs. -/
def TreeMempool.asList (pool : TreeMempool) (hot : List Nat) : Mempool :=
  { pool.rest with hotSlabs := hot }

/-- The tree of the pool has these hot slabs. -/
structure TreeMempool.Holds (pool : TreeMempool) (hot : List Nat) : Prop where
  tree : HoldsTree noValue pool.hotSlabs hot
  order : InOrder mslabCmp hot

instance : Std.TransCmp mslabCmp := inferInstanceAs (Std.TransCmp (compare : Nat → Nat → Ordering))

instance : Std.LawfulEqCmp mslabCmp :=
  inferInstanceAs (Std.LawfulEqCmp (compare : Nat → Nat → Ordering))

theorem inOrder_mslabCmp {nodes : List Nat} : InOrder mslabCmp nodes ↔ nodes.Pairwise (· < ·) := by
  simp [InOrder, mslabCmp, Nat.compare_eq_lt]

section Simulation

variable {g : Geometry} {h h' : MslabHeap} {p' : Mempool} {pool : TreeMempool} {hot : List Nat}
    {slab ptr : Nat}

theorem TreeMempool.Holds.orderedSet (hh : pool.Holds hot) (hroom : hot.length + 1 < 2 ^ 64) :
    OrderedSet mslabCmp pool.hotSlabs.links 128 hot := by
  obtain ⟨⟨s, n, hroot, hrep, -, hb, rfl⟩, hord⟩ := hh
  have hlog : Nat.log2 (s.nodes.length + 1) < 64 := (Nat.log2_lt (by omega)).2 hroom
  have hheight : s.binary.height ≤ 128 := by
    have hle := hb.height_le_rbRounds
    rw [rbRounds] at hle
    simp only [ColorTree.height_binary]
    omega
  have hset := OrderedSet.of_linked (t := pool.hotSlabs.links) (s := s.binary)
    (by simpa [RbTree.links] using hroot)
    hrep.linked (by simpa using hord) hheight
  simpa using hset

/-- `mslab_tree_next` is the next slab of the list. -/
theorem TreeMempool.Holds.next (hh : pool.Holds hot) (hmem : slab ∈ hot)
    (hroom : hot.length + 1 < 2 ^ 64) :
    ∃ next, mslabTreeNext pool.hotSlabs slab = some next ∧ next.getD 0 = treeNext hot slab := by
  obtain ⟨before, after, hsplit⟩ := List.append_of_mem hmem
  refine ⟨after.head?, (hh.orderedSet hroom).next before slab after hsplit, ?_⟩
  have hord := inOrder_mslabCmp.1 hh.order
  rw [hsplit] at hord ⊢
  obtain ⟨-, hright, hcross⟩ := List.pairwise_append.1 hord
  have hnone : before.find? (fun x => decide (slab < x)) = none := by
    refine List.find?_eq_none.2 fun x hx => ?_
    have := hcross x hx slab List.mem_cons_self
    simp only [decide_eq_true_eq]
    omega
  cases after with
  | nil => simp [treeNext, hnone]
  | cons b after =>
      have hb : slab < b := (List.pairwise_cons.1 hright).1 b List.mem_cons_self
      simp [treeNext, hnone, hb]

theorem skipHot_asList (hh : pool.Holds hot) (hmem : slab ∈ hot) (hroom : hot.length + 1 < 2 ^ 64) :
    ∃ pool', pool.skipHot slab = some pool' ∧ (pool.asList hot).skipHot slab = pool'.asList hot ∧
      pool'.hotSlabs = pool.hotSlabs := by
  obtain ⟨next, hnext, hget⟩ := hh.next hmem hroom
  by_cases hfirst : slab = pool.rest.firstHotSlab
  · refine ⟨pool.setFirstHot (next.getD 0), ?_, ?_, rfl⟩
    · rw [TreeMempool.skipHot, if_pos hfirst, hnext]
      rfl
    · rw [Mempool.skipHot, if_pos (show slab = (pool.asList hot).firstHotSlab from hfirst)]
      rw [show treeNext (pool.asList hot).hotSlabs slab = next.getD 0 from hget.symm]
      rfl
  · refine ⟨pool, ?_, ?_, rfl⟩
    · rw [TreeMempool.skipHot, if_neg hfirst]
    · rw [Mempool.skipHot, if_neg (show ¬ slab = (pool.asList hot).firstHotSlab from hfirst)]

/-- A slab leaves the tree as it leaves the list. -/
theorem removeHot_asList (hh : pool.Holds hot) (hroom : hot.length + 1 < 2 ^ 64)
    (hex : removeHot h (pool.asList hot) slab = some (h', p')) :
    ∃ pool' hot', pool.removeHot h slab = some (h', pool') ∧ p' = pool'.asList hot' ∧
      pool'.Holds hot' := by
  have hhot : ((pool.asList hot).skipHot slab).hotSlabs = hot := by
    rw [Mempool.skipHot]
    split <;> rfl
  have hmem : slab ∈ hot := by
    by_contra hno
    simp [removeHot, treeRemove, hhot, guard, hno] at hex
  obtain ⟨pool1, hskip, hlist, htree⟩ := skipHot_asList hh hmem hroom
  obtain ⟨tree, before, after, hremove, hsplit, hholds⟩ := rbRemove_spec hh.tree hh.order hmem hroom
  have hnodup := hh.order.nodup
  have herase : hot.erase slab = before ++ after := by
    have hno : slab ∉ before := by
      rw [hsplit] at hnodup
      exact fun hin => (List.nodup_append.1 hnodup).2.2 slab hin slab List.mem_cons_self rfl
    rw [hsplit, List.erase_append_right _ hno, List.erase_cons_head]
  refine ⟨{ pool1 with hotSlabs := tree }, before ++ after, ?_, ?_, ?_, ?_⟩
  · rw [removeHot, treeRemove, hhot, guard, if_pos hmem] at hex
    simp only [Option.pure_def, Option.bind_eq_bind, Option.bind_some, Option.some.injEq,
      Prod.mk.injEq] at hex
    rw [TreeMempool.removeHot, hskip, Option.bind_eq_bind, Option.bind_some, htree, hremove,
      ← hex.1]
    rfl
  · rw [removeHot, treeRemove, hhot, guard, if_pos hmem] at hex
    simp only [Option.pure_def, Option.bind_eq_bind, Option.bind_some, Option.some.injEq,
      Prod.mk.injEq] at hex
    rw [← hex.2, hlist, herase]
    rfl
  · exact hholds
  · refine List.Pairwise.sublist ?_ hh.order
    rw [hsplit]
    exact (List.sublist_cons_self _ _).append_left _

/-- A slab enters the tree as it enters the list. -/
theorem insertHot_asList (hh : pool.Holds hot) (hroom : hot.length + 1 < 2 ^ 64)
    (hex : insertHot h (pool.asList hot) slab = some (h', p')) :
    ∃ pool' hot', pool.insertHot h slab = some (h', pool') ∧ p' = pool'.asList hot' ∧
      pool'.Holds hot' ∧
      hot'.length = hot.length + 1 := by
  have habs : slab ∉ hot := by
    by_contra hin
    simp [insertHot, treeInsert, TreeMempool.asList, guard, hin] at hex
  obtain ⟨tree, nodes, hinsert, hholds, hord, hperm⟩ := rbInsert_spec hh.tree hh.order habs hroom
  have hsorted := pairwise_orderedInsert (inOrder_mslabCmp.1 hh.order) habs
  have hnodes : nodes = hot.orderedInsert (· ≤ ·) slab :=
    hord.eq_of_perm (inOrder_mslabCmp.2 hsorted) (hperm.trans (List.perm_orderedInsert _ _ _).symm)
  refine ⟨{ pool with hotSlabs := tree }, nodes, ?_, ?_, ⟨hholds, hord⟩, hperm.length_eq⟩
  · rw [insertHot, treeInsert, guard,
      if_pos (show slab ∉ (pool.asList hot).hotSlabs from habs)] at hex
    simp only [Option.pure_def, Option.bind_eq_bind, Option.bind_some, Option.some.injEq,
      Prod.mk.injEq] at hex
    rw [TreeMempool.insertHot, hinsert, ← hex.1]
    rfl
  · rw [insertHot, treeInsert, guard,
      if_pos (show slab ∉ (pool.asList hot).hotSlabs from habs)] at hex
    simp only [Option.pure_def, Option.bind_eq_bind, Option.bind_some, Option.some.injEq,
      Prod.mk.injEq] at hex
    rw [← hex.2, hnodes]
    rfl

theorem mempoolFreeSpareSlab_hot (h : MslabHeap) (p : Mempool) (hot : List Nat) :
    mempoolFreeSpareSlab h { p with hotSlabs := hot } =
      (mempoolFreeSpareSlab h p).map fun q => { q with hotSlabs := hot } := by
  by_cases hspare :
    p.spare = 0 <;> simp [mempoolFreeSpareSlab, guard, hspare, Mempool.listDel, Mempool.setSpare]

theorem retireSlab_hot (h : MslabHeap) (p : Mempool) (slab : Nat) (hot : List Nat) :
    retireSlab h { p with hotSlabs := hot } slab = (retireSlab h p slab).map fun q =>
      { q with hotSlabs := hot } := by
  rw [retireSlab, retireSlab, mempoolFreeSpareSlab_hot]
  by_cases hlow : p.spare > slab
  · rw [if_pos hlow, if_pos hlow]
    cases mempoolFreeSpareSlab h p <;> rfl
  · rw [if_neg hlow, if_neg hlow]
    by_cases hspare : p.spare ≠ 0
    · rw [if_pos hspare, if_pos hspare]
      rfl
    · rw [if_neg hspare, if_neg hspare]
      rfl

theorem mempoolSlab_hot (g : Geometry) (h : MslabHeap) (p : Mempool) (answer : Option Nat)
    (hot : List Nat) :
    mempoolSlab g h { p with hotSlabs := hot } answer =
      (mempoolSlab g h p answer).map fun r => (r.1, r.2.1, { r.2.2 with hotSlabs := hot }) := by
  by_cases hspare : p.spare ≠ 0
  · simp [mempoolSlab, hspare, Mempool.setSpare]
  · cases answer with
    | some slab => simp [mempoolSlab, hspare, Mempool.listAdd, mslabCreate]
    | none =>
        simp only [mempoolSlab, hspare, if_false]
        by_cases hempty : rlistEmpty h.nextInCold (.head p.id)
        · simp [hempty]
        · rcases hshift : rlistShift h.nextInCold (.head p.id) with ⟨node, links⟩
          cases node <;> simp [hempty]

theorem mslabAlloc_asList (hh : pool.Holds hot) (hroom : hot.length + 1 < 2 ^ 64)
    (hex : mslabAlloc h (pool.asList hot) slab = some (ptr, h', p')) :
    ∃ pool' hot', pool.mslabAlloc h slab = some (ptr, h', pool') ∧ p' = pool'.asList hot' ∧
      pool'.Holds hot' := by
  by_cases hfree : (h.mslab slab).nfree ≠ 0
  · rcases htake : mslabTake h pool.rest slab with ⟨result, h1⟩
    have htake' : mslabTake h (pool.asList hot) slab = (result, h1) := htake
    rw [mslabAlloc, guard, if_pos hfree, htake'] at hex
    simp only [Option.pure_def, Option.bind_eq_bind, Option.bind_some] at hex
    simp only [TreeMempool.mslabAlloc, guard, if_pos hfree, htake, Option.pure_def,
      Option.bind_eq_bind, Option.bind_some]
    by_cases hfull : (h1.mslab slab).nfree = 0
    · rw [if_pos hfull] at hex
      obtain ⟨⟨h2, p2⟩, hremove, hex⟩ := Option.bind_eq_some_iff.1 hex
      obtain ⟨rfl, rfl, rfl⟩ : result = ptr ∧ h2 = h' ∧ p2 = p' := by simpa using hex
      obtain ⟨pool', hot', hpool, hp, hholds⟩ := removeHot_asList hh hroom hremove
      refine ⟨pool', hot', ?_, hp, hholds⟩
      rw [if_pos hfull, hpool]
      rfl
    · rw [if_neg hfull] at hex
      obtain ⟨rfl, rfl, rfl⟩ : result = ptr ∧ h1 = h' ∧ pool.asList hot = p' := by simpa using hex
      exact ⟨pool, hot, by rw [if_neg hfull], rfl, hh⟩
  · simp [mslabAlloc, guard, hfree] at hex

theorem mempoolTake_asList (hh : pool.Holds hot) (hroom : hot.length + 1 < 2 ^ 64)
    (hex : mempoolTake h (pool.asList hot) slab = some (ptr, h', p')) :
    ∃ pool' hot', pool.mempoolTake h slab = some (ptr, h', pool') ∧ p' = pool'.asList hot' ∧
      pool'.Holds hot' := by
  rw [mempoolTake, Option.bind_eq_bind] at hex
  obtain ⟨⟨ptr1, h1, p1⟩, halloc, hex⟩ := Option.bind_eq_some_iff.1 hex
  by_cases hnull : ptr1 ≠ 0
  · obtain ⟨rfl, rfl, rfl⟩ : ptr1 = ptr ∧ h1 = h' ∧ p1 = p' := by
      simpa [guard, hnull] using hex
    have hh' : (pool.map fun rest => rest.setUsed (rest.stats.used + rest.objsize)).Holds hot :=
      ⟨hh.tree, hh.order⟩
    obtain ⟨pool', hot', hpool, hp, hholds⟩ := mslabAlloc_asList hh' hroom halloc
    refine ⟨pool', hot', ?_, hp, hholds⟩
    rw [TreeMempool.mempoolTake, hpool]
    simp [guard, hnull]
  · simp [guard, hnull] at hex

/-- `mempool_alloc` with the tree does what it does with the list. -/
theorem mempoolAlloc_asList {answer : Option Nat} (hh : pool.Holds hot)
    (hroom : hot.length + 2 < 2 ^ 64)
    (hex : mempoolAlloc g h (pool.asList hot) answer = some (ptr, h', p')) :
    ∃ pool' hot', pool.mempoolAlloc h g answer = some (ptr, h', pool') ∧ p' = pool'.asList hot' ∧
      pool'.Holds hot' := by
  by_cases hfirst : pool.rest.firstHotSlab ≠ 0
  · rw [mempoolAlloc, if_pos (show (pool.asList hot).firstHotSlab ≠ 0 from hfirst)] at hex
    rw [TreeMempool.mempoolAlloc, if_pos hfirst]
    exact mempoolTake_asList hh (by omega) hex
  · rw [mempoolAlloc, if_neg (show ¬ (pool.asList hot).firstHotSlab ≠ 0 from hfirst),
      TreeMempool.asList, mempoolSlab_hot] at hex
    rw [TreeMempool.mempoolAlloc, if_neg hfirst]
    rcases hslab : mempoolSlab g h pool.rest answer with _ | ⟨slab, h1, rest⟩
    · rw [hslab] at hex
      obtain ⟨rfl, rfl, rfl⟩ : 0 = ptr ∧ h = h' ∧ pool.asList hot = p' := by
        simpa [TreeMempool.asList] using hex
      exact ⟨pool, hot, rfl, rfl, hh⟩
    · rw [hslab] at hex
      simp only [Option.map_some, Option.bind_eq_bind] at hex ⊢
      by_cases hflag : (h1.mslab slab).inHotSlabs = false
      · rw [guard, if_pos hflag] at hex
        rw [guard, if_pos hflag]
        simp only [Option.pure_def, Option.bind_some] at hex ⊢
        obtain ⟨⟨h2, p2⟩, hinsert, hex⟩ := Option.bind_eq_some_iff.1 hex
        have hh1 : TreeMempool.Holds { pool with rest := rest } hot := ⟨hh.tree, hh.order⟩
        obtain ⟨pool2, hot2, hpool2, rfl, hholds2, hlen⟩ := insertHot_asList hh1 (by omega) hinsert
        have hh2 : (pool2.setFirstHot slab).Holds hot2 := ⟨hholds2.tree, hholds2.order⟩
        rw [hpool2]
        exact mempoolTake_asList hh2 (by omega) hex
      · simp [guard, hflag] at hex

theorem retireSlab_asList (hex : retireSlab h (pool.asList hot) slab = some p') :
    ∃ pool', pool.retireSlab h slab = some pool' ∧ p' = pool'.asList hot ∧
      pool'.hotSlabs = pool.hotSlabs := by
  rw [TreeMempool.asList, retireSlab_hot] at hex
  obtain ⟨rest, hrest, rfl⟩ := Option.map_eq_some_iff.1 hex
  exact ⟨{ pool with rest := rest }, by rw [TreeMempool.retireSlab, hrest]; rfl, rfl, rfl⟩

theorem mslabPlace_asList (hh : pool.Holds hot) (hroom : hot.length + 1 < 2 ^ 64)
    (hex : mslabPlace h (pool.asList hot) slab = some (h', p')) :
    ∃ pool' hot', pool.mslabPlace h slab = some (h', pool') ∧ p' = pool'.asList hot' ∧
      pool'.Holds hot' := by
  simp only [mslabPlace, Option.bind_eq_bind] at hex
  simp only [TreeMempool.mslabPlace, Option.bind_eq_bind]
  by_cases henter : (h.mslab slab).inHotSlabs = false ∧
    (h.mslab slab).nfree ≥ pool.rest.objcount >>> maxColdFractionLb
  · rw [if_pos henter]
    rw [if_pos (show _ ∧ _ ≥ (pool.asList hot).objcount >>> maxColdFractionLb from henter)] at hex
    obtain ⟨⟨h1, p1⟩, hinsert, hex⟩ := Option.bind_eq_some_iff.1 hex
    obtain ⟨pool1, hot1, hpool, rfl, hholds, -⟩ := insertHot_asList hh hroom hinsert
    rw [hpool, Option.bind_some]
    have hcmp : (mslabCmp pool1.rest.firstHotSlab slab = .gt) ↔ pool1.rest.firstHotSlab > slab := by
      simp [mslabCmp, Nat.compare_eq_gt]
    by_cases hlow : pool1.rest.firstHotSlab = 0 ∨ pool1.rest.firstHotSlab > slab
    · rw [if_pos (show (pool1.asList hot1).firstHotSlab = 0 ∨
          (pool1.asList hot1).firstHotSlab > slab from hlow)] at hex
      obtain ⟨rfl, rfl⟩ := Prod.mk.inj (Option.some.inj hex)
      refine ⟨pool1.setFirstHot slab, hot1, ?_, rfl, hholds.tree, hholds.order⟩
      rw [if_pos (hlow.imp_right hcmp.2)]
    · rw [if_neg (show ¬ ((pool1.asList hot1).firstHotSlab = 0 ∨
          (pool1.asList hot1).firstHotSlab > slab) from hlow)] at hex
      obtain ⟨rfl, rfl⟩ := Prod.mk.inj (Option.some.inj hex)
      refine ⟨pool1, hot1, ?_, rfl, hholds⟩
      rw [if_neg fun hor => hlow (hor.imp_right hcmp.1)]
  · rw [if_neg henter]
    rw [if_neg (show ¬ (_ ∧
        _ ≥ (pool.asList hot).objcount >>> maxColdFractionLb) from henter)] at hex
    by_cases hone : (h.mslab slab).nfree = 1
    · rw [if_pos hone] at hex ⊢
      obtain ⟨rfl, rfl⟩ := Prod.mk.inj (Option.some.inj hex)
      exact ⟨pool, hot, rfl, rfl, hh⟩
    · rw [if_neg hone] at hex ⊢
      by_cases hall : (h.mslab slab).nfree = pool.rest.objcount
      · rw [if_pos (show _ = (pool.asList hot).objcount from hall)] at hex
        rw [if_pos hall]
        obtain ⟨⟨h1, p1⟩, hremove, hex⟩ := Option.bind_eq_some_iff.1 hex
        obtain ⟨pool1, hot1, hpool, rfl, hholds⟩ := removeHot_asList hh hroom hremove
        rw [hpool, Option.bind_some]
        obtain ⟨p2, hretire, hex⟩ := Option.bind_eq_some_iff.1 hex
        obtain ⟨pool2, hpool2, rfl, htree⟩ := retireSlab_asList hretire
        obtain ⟨rfl, rfl⟩ := Prod.mk.inj (Option.some.inj hex)
        refine ⟨pool2, hot1, ?_, rfl, htree ▸ hholds.tree, hholds.order⟩
        rw [hpool2]
        rfl
      · rw [if_neg (show ¬ _ = (pool.asList hot).objcount from hall)] at hex
        rw [if_neg hall]
        obtain ⟨rfl, rfl⟩ := Prod.mk.inj (Option.some.inj hex)
        exact ⟨pool, hot, rfl, rfl, hh⟩

/-- `mempool_free` with the tree does what it does with the list. -/
theorem mempoolFree_asList (hh : pool.Holds hot) (hroom : hot.length + 1 < 2 ^ 64)
    (hex : mempoolFree h (pool.asList hot) ptr = some (h', p')) :
    ∃ pool' hot', pool.mempoolFree h ptr = some (h', pool') ∧ p' = pool'.asList hot' ∧
      pool'.Holds hot' := by
  by_cases hnull : ptr ≠ 0
  · rw [mempoolFree, guard, if_pos hnull] at hex
    simp only [Option.pure_def, Option.bind_eq_bind, Option.bind_some] at hex
    obtain ⟨slab, hslab, hex⟩ := Option.bind_eq_some_iff.1 hex
    rw [mempoolFreeSlab, guard, if_pos hnull] at hex
    simp only [Option.pure_def, Option.bind_eq_bind, Option.bind_some] at hex
    by_cases horder : (h.mslab slab).order = pool.rest.slabOrder
    · rw [guard, if_pos (show _ = (pool.asList hot).slabOrder from horder)] at hex
      have hh' : (pool.map fun rest => rest.setUsed (rest.stats.used - rest.objsize)).Holds hot :=
        ⟨hh.tree, hh.order⟩
      obtain ⟨pool', hot', hpool, hp, hholds⟩ := mslabPlace_asList hh' hroom hex
      refine ⟨pool', hot', ?_, hp, hholds⟩
      rw [TreeMempool.mempoolFree, guard, if_pos hnull]
      simp only [Option.pure_def, Option.bind_eq_bind, Option.bind_some]
      rw [show slabFromPtr h ptr pool.rest.slabPtrMask = some slab from hslab, Option.bind_some,
        TreeMempool.mempoolFreeSlab, guard, if_pos hnull]
      simp only [Option.pure_def, Option.bind_eq_bind, Option.bind_some]
      rw [guard, if_pos horder]
      exact hpool
    · rw [guard, if_neg (show ¬ _ = (pool.asList hot).slabOrder from horder)] at hex
      simp at hex
  · simp [mempoolFree, guard, hnull] at hex

theorem mempoolFreeSpareSlab_asList (hex : mempoolFreeSpareSlab h (pool.asList hot) = some p') :
    ∃ pool', pool.mempoolFreeSpareSlab h = some pool' ∧ p' = pool'.asList hot ∧
      pool'.hotSlabs = pool.hotSlabs := by
  rw [TreeMempool.asList, mempoolFreeSpareSlab_hot] at hex
  obtain ⟨rest, hrest, rfl⟩ := Option.map_eq_some_iff.1 hex
  exact ⟨{ pool with rest := rest }, by rw [TreeMempool.mempoolFreeSpareSlab, hrest]; rfl, rfl, rfl⟩

end Simulation

/-! ## Runs -/

structure TreeMempoolState where
  heap : MslabHeap
  pool : TreeMempool
  live : List Nat

/-- The pool with the list of its hot slabs. -/
def TreeMempoolState.asList (s : TreeMempoolState) (hot : List Nat) : MempoolState :=
  { heap := s.heap, pool := s.pool.asList hot, live := s.live }

inductive TreeMempoolOp where
  /-- A call of the pool, or a write of a client. -/
  | call (op : MempoolOp)
  /-- Others write to the links of slabs that are not the pool's. -/
  | links (node : Nat → RbNode Nat Unit)

def TreeMempoolOp.Allowed (g : Geometry) (s : TreeMempoolState) : TreeMempoolOp → Prop
  | .call op => op.Allowed g { heap := s.heap, pool := s.pool.rest, live := s.live }
  | .links node => ∀ a ∈ s.pool.rest.slabs, node a = s.pool.hotSlabs.node a

def TreeMempoolOp.exec (g : Geometry) (s : TreeMempoolState) :
    TreeMempoolOp → Option TreeMempoolState
  | .call (.alloc answer) => do
    let (ptr, heap, pool) ← s.pool.mempoolAlloc s.heap g answer
    some { heap := heap, pool := pool, live := if ptr = 0 then s.live else ptr :: s.live }
  | .call (.free ptr) => do
    let (heap, pool) ← s.pool.mempoolFree s.heap ptr
    some { heap := heap, pool := pool, live := s.live.erase ptr }
  | .call .freeSpareSlab => do
    let pool ← s.pool.mempoolFreeSpareSlab s.heap
    some { s with pool := pool }
  | .call (.write mem) => some { s with heap := { s.heap with mem := mem } }
  | .links node =>
      some { s with pool := { s.pool with hotSlabs := { s.pool.hotSlabs with node := node } } }

/-- The pool is new. -/
def TreeMempoolState.Created (g : Geometry) (s : TreeMempoolState) : Prop :=
  ∃ heap tree id objsize order, ptrSize ≤ objsize ∧
    TreeMempool.mempoolCreateWithOrder heap g tree id objsize order = some (s.heap, s.pool) ∧
    s.live = []

def treeMempoolMachine (g : Geometry) : Machine TreeMempoolState TreeMempoolOp where
  init := TreeMempoolState.Created g
  allowed s op := op.Allowed g s
  exec s op := op.exec g s

section Runs

variable {g : Geometry} {s : TreeMempoolState} {hot : List Nat}

/-- There are fewer slabs than addresses. -/
theorem Contents.slabs_length {h : MslabHeap} {p : Mempool} {live : List Nat}
    (hc : Contents g h p live) (hg : mslabSizeof ≤ g.order0Size) :
    p.slabs.length + 2 < 2 ^ 64 := by
  have hsize : mslabSizeof ≤ g.slabOrderSize p.slabOrder := Nat.le_trans hg (order0Size_le g _)
  have hnodup : (p.slabs.map fun a => a / g.slabOrderSize p.slabOrder).Nodup := by
    refine hc.nodup.map_on fun a ha b hb hab => ?_
    exact Nat.div_left_inj (hc.place a ha).2.1 (hc.place b hb).2.1 |>.1 hab
  have hsub : (p.slabs.map fun a => a / g.slabOrderSize p.slabOrder) ⊆ List.range
      (sizeMax / mslabSizeof) := by
    intro k hk
    obtain ⟨a, ha, rfl⟩ := List.mem_map.1 hk
    have hplace := (hc.place a ha).2.2
    rw [List.mem_range]
    calc a / g.slabOrderSize p.slabOrder ≤ a / mslabSizeof := Nat.div_le_div_left hsize (by decide)
      _ < sizeMax / mslabSizeof := by
        simp only [mslabSizeof, sizeMax] at *
        omega
  have hle := (List.subperm_of_subset hnodup hsub).length_le
  rw [List.length_map, List.length_range] at hle
  simp only [mslabSizeof, sizeMax] at hle
  omega

theorem Mempool.Inv.hot_length {h : MslabHeap} {p : Mempool} {live cold : List Nat}
    (hi : p.Inv g h live cold) (hg : mslabSizeof ≤ g.order0Size) :
    p.hotSlabs.length + 2 < 2 ^ 64 := by
  have hroom := hi.contents.slabs_length hg
  have hle := (List.subperm_of_subset
      (hi.lists.hotSorted.imp Nat.ne_of_lt) hi.lists.hotMem).length_le
  omega

/-- A call does to the tree what it does to the list. -/
theorem TreeMempoolOp.call_spec (hg : mslabSizeof ≤ g.order0Size)
    (hrun : (mempoolMachine g ptrSize).Reachable (s.asList hot)) (hh : s.pool.Holds hot)
    (op : MempoolOp) (hop : op.Allowed g (s.asList hot)) :
    ∃ s' hot', (TreeMempoolOp.call op).exec g s = some s' ∧
      op.exec g (s.asList hot) = some (s'.asList hot') ∧
      s'.pool.Holds hot' := by
  have hinv := MempoolState.reachable_inv hg hrun
  obtain ⟨t, hex, -⟩ := MempoolOp.exec_inv hinv op hop
  obtain ⟨cold, hi⟩ := hinv
  have hroom : hot.length + 2 < 2 ^ 64 := hi.hot_length hg
  cases op with
  | alloc answer =>
      rw [MempoolOp.exec, Option.bind_eq_bind] at hex ⊢
      obtain ⟨⟨ptr, h', p'⟩, halloc, -⟩ := Option.bind_eq_some_iff.1 hex
      obtain ⟨pool', hot', hpool, rfl, hholds⟩ := mempoolAlloc_asList (h := s.heap) hh hroom halloc
      refine ⟨⟨h', pool', if ptr = 0 then s.live else ptr :: s.live⟩, hot', ?_, ?_, hholds⟩
      · rw [TreeMempoolOp.exec, hpool]
        rfl
      · rw [halloc]
        rfl
  | free ptr =>
      rw [MempoolOp.exec, Option.bind_eq_bind] at hex ⊢
      obtain ⟨⟨h', p'⟩, hfree, -⟩ := Option.bind_eq_some_iff.1 hex
      obtain ⟨pool', hot', hpool, rfl, hholds⟩ :=
        mempoolFree_asList (h := s.heap) hh (by omega) hfree
      refine ⟨⟨h', pool', s.live.erase ptr⟩, hot', ?_, ?_, hholds⟩
      · rw [TreeMempoolOp.exec, hpool]
        rfl
      · rw [hfree]
        rfl
  | freeSpareSlab =>
      rw [MempoolOp.exec, Option.bind_eq_bind] at hex ⊢
      obtain ⟨p', hspare, -⟩ := Option.bind_eq_some_iff.1 hex
      obtain ⟨pool', hpool, rfl, htree⟩ := mempoolFreeSpareSlab_asList (h := s.heap) hspare
      refine ⟨{ s with pool := pool' }, hot, ?_, ?_, htree ▸ hh.tree, hh.order⟩
      · rw [TreeMempoolOp.exec, hpool]
        rfl
      · rw [hspare]
        rfl
  | write mem => exact ⟨_, hot, rfl, rfl, hh⟩

/-- The pool runs as one with a list of its hot slabs, and its tree has the slabs of the list. -/
structure TreeMempoolState.Refines (g : Geometry) (s : TreeMempoolState) (hot : List Nat) :
    Prop where
  run : (mempoolMachine g ptrSize).Reachable (s.asList hot)
  holds : s.pool.Holds hot
  /-- The functions of the tree answer as the list does. -/
  orderedSet : OrderedSet mslabCmp s.pool.hotSlabs.links 128 hot
  /-- `first_hot_slab` is the first node of the tree, or `NULL`. -/
  first : ∃ node, rbFirst s.pool.hotSlabs.links 128 = some node ∧
    s.pool.rest.firstHotSlab = node.getD 0 ∧ node ≠ some 0
  /-- A call returns, and it does what it does with the list. -/
  call : ∀ op, (TreeMempoolOp.call op).Allowed g s →
    ∃ s' hot', (TreeMempoolOp.call op).exec g s = some s' ∧
    op.exec g (s.asList hot) = some (s'.asList hot') ∧ s'.pool.Holds hot'

theorem TreeMempoolOp.Allowed.asList {op : MempoolOp} (hop : (TreeMempoolOp.call op).Allowed g s) :
    op.Allowed g (s.asList hot) := by
  cases op with
  | alloc answer => exact fun a ha => { hop a ha with }
  | free ptr => exact hop
  | freeSpareSlab => exact hop
  | write mem => exact hop

theorem TreeMempoolState.Created.holds (hg : mslabSizeof ≤ g.order0Size) (hs : s.Created g) :
    (mempoolMachine g ptrSize).Reachable (s.asList []) ∧ s.pool.Holds [] := by
  obtain ⟨heap, tree, id, objsize, order, hsize, hex, hlive⟩ := hs
  rw [TreeMempool.mempoolCreateWithOrder, Option.bind_eq_bind] at hex
  obtain ⟨⟨h, rest⟩, hcreate, hex⟩ := Option.bind_eq_some_iff.1 hex
  obtain ⟨hheap, hpool⟩ : h = s.heap ∧ { hotSlabs := rbNew tree, rest := rest } = s.pool := by
    simpa using hex
  have hlist : s.pool.asList [] = rest := by
    obtain ⟨-, -, hrest⟩ := mempoolCreateWithOrder_shape hg hcreate
    rw [← hpool, TreeMempool.asList, hrest]
  refine ⟨.init ⟨heap, id, objsize, order, hsize, ?_, hlive⟩, ?_, List.Pairwise.nil⟩
  · rw [TreeMempoolState.asList, hlist, ← hheap]
    exact hcreate
  · rw [← hpool]
    exact ⟨.nil, 0, rfl, trivial, trivial, .nil, rfl⟩

/-- Each step is one of the pool with a list, or changes nothing that it has. -/
theorem TreeMempoolOp.exec_holds (hg : mslabSizeof ≤ g.order0Size) (op : TreeMempoolOp)
    (hs : ∃ hot, (mempoolMachine g ptrSize).Reachable (s.asList hot) ∧ s.pool.Holds hot)
    (hop : op.Allowed g s) :
    ∃ s', op.exec g s = some s' ∧ ∃ hot, (mempoolMachine g ptrSize).Reachable (s'.asList hot) ∧
      s'.pool.Holds hot := by
  obtain ⟨hot, hrun, hh⟩ := hs
  cases op with
  | call op =>
      obtain ⟨s', hot', hex, hlist, hholds⟩ := call_spec hg hrun hh op hop.asList
      exact ⟨s', hex, hot', .step op hrun hop.asList hlist, hholds⟩
  | links node =>
      refine ⟨_, rfl, hot, hrun, ?_, hh.order⟩
      obtain ⟨cold, hi⟩ := MempoolState.reachable_inv hg hrun
      obtain ⟨shape, n, hroot, hrep, haug, hb, hnodes⟩ := hh.tree
      refine ⟨shape, n, hroot, hrep.congr fun x hx => ?_, haug, hb, hnodes⟩
      exact hop x (hi.lists.hotMem x (by rw [← hnodes]; exact hx))

/-- **A pool with a red-black tree is a pool with a list**: every run of it is a run of the pool
with the list of its hot slabs, the tree has the slabs of the list in order, and every call
returns what it returns there. -/
theorem mempool_on_red_black_tree (hg : mslabSizeof ≤ g.order0Size)
    (hs : (treeMempoolMachine g).Reachable s) :
    ∃ hot, s.Refines g hot := by
  obtain ⟨⟨hot, hrun, hh⟩, -⟩ := (treeMempoolMachine g).invariant
    (P := fun s => ∃ hot, (mempoolMachine g ptrSize).Reachable (s.asList hot) ∧ s.pool.Holds hot)
    (fun s hs => ⟨[], hs.holds hg⟩) (fun s op hs hop => TreeMempoolOp.exec_holds hg op hs hop) hs
  obtain ⟨cold, hi⟩ := MempoolState.reachable_inv hg hrun
  have hroom : hot.length + 2 < 2 ^ 64 := hi.hot_length hg
  have hset := hh.orderedSet (by omega)
  refine ⟨hot, ?_⟩
  constructor
  case run => exact hrun
  case holds => exact hh
  case orderedSet => exact hset
  case first =>
    refine ⟨hot.head?, hset.first, ?_, ?_⟩
    · rw [← List.headD_eq_head?_getD]
      exact hi.lists.first
    · intro hzero
      have hpos := (hi.contents.place 0 (hi.lists.hotMem 0 (List.mem_of_head? hzero))).1
      omega
  case call => exact fun op hop => TreeMempoolOp.call_spec hg hrun hh op hop.asList

/-- A new pool of objects of 1000 bytes, and somebody's data where the links will be. -/
def threeObjectsTree : TreeMempoolState where
  heap := threeObjects.heap
  pool := { hotSlabs := { root := none, node := fun a => ⟨some a, none, true, ()⟩ },
            rest := threeObjects.pool }
  live := []

theorem threeObjectsTree_created : (treeMempoolMachine fourPages).Reachable threeObjectsTree := by
  refine .init ⟨emptyHeap, ⟨some 5, fun a => ⟨some a, none, true, ()⟩⟩, 0, 1000, 0, by decide,
    ?_, rfl⟩
  simp [TreeMempool.mempoolCreateWithOrder, mempoolCreateWithOrder, guard, fourPages,
    Geometry.slabOrderSize, mslabSizeof,
    threeObjectsTree, threeObjects, MslabHeap.setLinks, rbNew, RbTree.setRoot]

theorem threeObjectsTree_none {s : TreeMempoolState} :
    (treeMempoolMachine fourPages).allowed s (.call (.alloc none)) := by
  intro a ha
  cases ha

theorem threeObjectsTree_some {s : TreeMempoolState} {a : Nat} (horder : s.pool.rest.slabOrder = 0)
    (ha : 0 < a ∧ 4096 ∣ a ∧ a + 4096 ≤ sizeMax ∧ a ∉ s.pool.rest.slabs) :
    (treeMempoolMachine fourPages).allowed s (.call (.alloc (some a))) := by
  intro b hb
  obtain rfl := Option.some.inj hb
  have hsize : fourPages.slabOrderSize s.pool.rest.slabOrder = 4096 := by rw [horder]; rfl
  exact ⟨ha.1, hsize ▸ ha.2.1, hsize ▸ ha.2.2.1, ha.2.2.2⟩

/-- A full slab enters the tree again behind a lower one, which then is full and leaves it. -/
theorem mempool_on_red_black_tree_three : ∃ s, (treeMempoolMachine fourPages).Reachable s ∧
    s.pool.rest.firstHotSlab = 20480 ∧ s.pool.hotSlabs.root = some 20480 ∧ s.live.length = 5 ∧
    ∃ hot, s.Refines fourPages hot := by
  have h1 := Machine.Reachable.step (.call (.alloc (some 20480))) threeObjectsTree_created
    (threeObjectsTree_some rfl (by decide)) rfl
  have h2 := Machine.Reachable.step (.call (.alloc none)) h1 threeObjectsTree_none rfl
  have h3 := Machine.Reachable.step (.call (.alloc none)) h2 threeObjectsTree_none rfl
  have h4 := Machine.Reachable.step (.call (.alloc (some 16384))) h3
    (threeObjectsTree_some rfl ⟨by decide, by decide, by decide,
      show 16384 ∉ [20480] by decide⟩) rfl
  have h5 := Machine.Reachable.step (.call (.free 23576)) h4
    (List.mem_cons_of_mem _ List.mem_cons_self) rfl
  have h6 := Machine.Reachable.step (.call (.alloc none)) h5 threeObjectsTree_none rfl
  have h7 := Machine.Reachable.step (.call (.alloc none)) h6 threeObjectsTree_none rfl
  exact ⟨_, h7, rfl, rfl, rfl, mempool_on_red_black_tree (by decide) h7⟩

end Runs

end SmallAllocators
