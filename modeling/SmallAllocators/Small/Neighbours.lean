/-
SmallAllocators.Small.Neighbours — what `smfree` does to other objects.

`mslab_free` makes a node of the free list of the object: it writes a
pointer to its first bytes. `small_alloc_create` takes any `objsize_min`,
and when that is less than `sizeof(void *)` after it was rounded up to
the granularity, the pointer does not fit into an object of the first pool.
The bytes behind it are the next object's: `smfree` changes them, and what
the client writes there becomes a part of the free list.
-/
import SmallAllocators.Small.Runs

namespace SmallAllocators

open Memory

variable {g : Geometry} {s : SmallState} {o o' : SmallObject}

/-! ## Objects that hold a pointer -/

/-- The objects are the client's: `smfree` changes no byte of an object that stays live, and
what `smalloc` returns overlaps no live object. -/
structure SmallState.Exclusive (g : Geometry) (s : SmallState) : Prop where
  free : ∀ o ∈ s.live, ∃ s', SmallOp.exec g s (.free o) = some s' ∧ s'.live = s.live.erase o ∧
    ∀ o' ∈ s'.live, ∀ x, o'.start ≤ x → x < o'.start + o'.length s.alloc →
    s'.heap.mem x = s.heap.mem x
  alloc : ∀ size answer retry, s.Answers g size answer retry →
    ∃ s', SmallOp.exec g s (.alloc size answer retry) = some s' ∧
    (s'.live = s.live ∨ ∃ o, s'.live = o :: s.live ∧ o.size = size ∧
      ∀ o' ∈ s.live, o.start ≠ o'.start ∧ o.Apart s.alloc o')

/-- The allocator is new, and `objsize_min` is at least `sizeof(void *)` when it is rounded up
to the granularity. -/
def SmallState.CreatedWide (g : Geometry) (s : SmallState) : Prop :=
  ∃ orderOf heap alloc objsizeMin granularity effectiveBits a, 0 < objsizeMin ∧
  objsizeMin < 2 ^ 32 ∧ granularity < 2 ^ 32 ∧
    smallAlign objsizeMin granularity = some a ∧ ptrSize ≤ a ∧
    smallAllocCreate g orderOf heap alloc objsizeMin granularity effectiveBits =
    some (s.heap, s.alloc) ∧ s.live = []

/-- The runs of such allocators. -/
def smallWideMachine (g : Geometry) : Machine SmallState SmallOp :=
  { smallMachine g 1 with init := SmallState.CreatedWide g }

theorem SmallState.CreatedWide.good (hgeo : mslabSizeof ≤ g.order0Size) (hs : s.CreatedWide g) :
    s.Good g := by
  obtain ⟨orderOf, heap, alloc, objsizeMin, granularity, effectiveBits, a, hmin, hmin32, hgran,
    halign, hwide, hex, hlive⟩ := hs
  obtain ⟨hready, a', halign', -, hfirst⟩ := smallAllocCreate_ready hgeo hmin hmin32 hgran hex
  rw [halign, Option.some.injEq] at halign'
  subst halign'
  exact hready.good (by omega) hlive

/-- An object that stays live is another one. -/
theorem SmallInv.apart_of_mem_erase {live : List SmallObject} {h : MslabHeap} {alloc : SmallAlloc}
    (hi : SmallInv g h alloc live) (ho : o ∈ live) (ho' : o' ∈ live.erase o) :
    o.Apart alloc o' := by
  have hperm := List.perm_cons_erase ho
  have hap : (o :: live.erase o).Pairwise (SmallObject.Apart alloc) := by
    refine (List.Perm.pairwise_iff (fun h => ?_) hperm).1 hi.apart
    exact RangesApart.symm h
  exact (List.pairwise_cons.1 hap).1 o' ho'

/-- A new object is apart from all others. -/
theorem SmallState.Good.apart_new {s' : SmallState} (hg' : s'.Good g)
    (hlive : s'.live = o :: s.live) (hlay : s.alloc.SameLayout s'.alloc) :
    ∀ o' ∈ s.live, o.start ≠ o'.start ∧ o.Apart s.alloc o' := by
  intro o' ho'
  have hap := hg'.inv.apart
  rw [hlive] at hap
  have hap' := (List.pairwise_cons.1 hap).1 o' ho'
  have hpos := hg'.inv.length_pos (o := o) (by simp [hlive])
  have hpos' := hg'.inv.length_pos (o := o') (by simp [hlive, ho'])
  exact ⟨RangesApart.ne hap' hpos hpos', (hlay.apart o o').1 hap'⟩

theorem SmallState.Good.exclusive (hg : s.Good g) : s.Exclusive g := by
  constructor
  case free =>
    intro o ho
    obtain ⟨s', hex, -, hlive, -, hkeeps⟩ := hg.free ho
    refine ⟨s', hex, hlive, fun o' ho' x h1 h2 => hkeeps x ?_⟩
    rw [hlive] at ho'
    have hap := hg.inv.apart_of_mem_erase ho ho'
    unfold SmallObject.Apart RangesApart at hap
    omega
  case alloc =>
    intro size answer retry hop
    obtain ⟨s', hex, hg', hstep⟩ := SmallOp.exec_good hg (.alloc size answer retry) hop
    refine ⟨s', hex, ?_⟩
    cases hstep with
    | small hsize hserved =>
        cases hserved with
        | full _ _ _ _ _ hlive => exact Or.inl hlive
        | object ptr alloc₁ hptr hsrc hmove hlive =>
            exact Or.inr ⟨_, hlive, rfl, hg'.apart_new hlive (hsrc.layout.trans hmove.layout)⟩
    | large hsize halloc hlive =>
        rcases hlive with rfl | ⟨ptr, hlive⟩
        · exact Or.inl rfl
        · exact Or.inr ⟨_, hlive, rfl, hg'.apart_new hlive (by rw [halloc]; exact .refl _)⟩

/-- **`smfree` stays inside the object** in every run of an allocator whose objects can hold a
pointer, and no object is handed out while it is live. -/
theorem smfree_stays_inside (hgeo : mslabSizeof ≤ g.order0Size)
    (hs : (smallWideMachine g).Reachable s) : s.Exclusive g := by
  have hgood : s.Good g := by
    refine Machine.Reachable.of_step (smallWideMachine g)
      (fun s hs => SmallState.CreatedWide.good hgeo hs) (fun s op s' hg hop hex => ?_) hs
    obtain ⟨s'', hex', hg', -⟩ := SmallOp.exec_good hg op hop
    have heq : s' = s'' := Option.some.inj (hex.symm.trans hex')
    exact heq ▸ hg'
  exact hgood.exclusive

/-- The order that `mempool_create` picks: a slab that is a hundred times as large as its header,
and as an object, if the arena has such slabs. -/
def Geometry.poolOrder (g : Geometry) (objsize : Nat) : Nat :=
  g.slabOrder (min (max objsize mslabSizeof * 100) g.slabSize)

/-- A new allocator of granularity 4 on slabs of up to 64 kilobytes. -/
def tinyPools (objsizeMin : Nat) : Option SmallState :=
  (smallAllocCreate sixteenPages sixteenPages.poolOrder emptyHeap rawAlloc objsizeMin 4 0).map
    fun r => ⟨r.1, r.2, []⟩

/-- 34 objects in the last pool of the first group, the last of which activates the first pool,
and `n + 1` objects there. -/
def tinyObjects (n : Nat) : List SmallOp :=
  .alloc 4 (some (2 ^ 32 + 65536)) none :: List.replicate 33 (.alloc 4 none none) ++
    .alloc 4 (some 65536) none :: List.replicate n (.alloc 4 none none)

/-- `objsize_min` 5 makes objects of 8 bytes. -/
theorem smfree_stays_inside_five : ∃ s, (smallWideMachine sixteenPages).Reachable s ∧
    (s.live.filter fun o => o.home = some 0) = [⟨65656, 4, some 0⟩, ⟨65648, 4, some 0⟩] ∧
    s.Exclusive sixteenPages := by
  have hrun : ((tinyPools 5).bind
      ((smallWideMachine sixteenPages).run (fun s op => op.check sixteenPages s)
      (tinyObjects 1))).map (fun s => s.live.filter fun o => o.home = some 0)
      = some [⟨65656, 4, some 0⟩, ⟨65648, 4, some 0⟩] := by decide +kernel
  obtain ⟨s, hs, hlive⟩ := Option.map_eq_some_iff.1 hrun
  obtain ⟨s₀, hs₀, hops⟩ := Option.bind_eq_some_iff.1 hs
  obtain ⟨⟨h', alloc'⟩, hex, rfl⟩ := Option.map_eq_some_iff.1 hs₀
  have hinit : (smallWideMachine sixteenPages).Reachable ⟨h', alloc', []⟩ :=
    .init ⟨_, _, _, 5, 4, _, 8, by decide, by decide, by decide, by decide, by decide, hex, rfl⟩
  have hreach := Machine.Reachable.run (smallWideMachine sixteenPages)
    (fun s op hop => SmallOp.check_allowed s op hop) (tinyObjects 1) hinit hops
  exact ⟨s, hreach, hlive, smfree_stays_inside (by decide) hreach⟩

/-! ## Objects that do not -/

def runTiny (ops : List SmallOp) (s : SmallState) : Option SmallState :=
  (smallMachine sixteenPages 1).run (fun s op => op.check sixteenPages s) ops s

/-- The client writes the number 1 to its object of 4 bytes. -/
def writeOne (s : SmallState) : SmallState :=
  { s with heap := { s.heap with mem := fill s.heap.mem 65676 4 fun i => if i = 0 then 1 else 0 } }

theorem writeOne_reachable (hs : (smallMachine sixteenPages 1).Reachable s)
    (ho : ⟨65676, 4, some 0⟩ ∈ s.live) (hsize : (s.alloc.pool 0).objsize = 4) :
    (smallMachine sixteenPages 1).Reachable (writeOne s) := by
  refine .step (.write _) hs (fun p _ a _ x _ _ hnot => fill_of_not ?_) rfl
  have hx := hnot _ ho
  simpa [SmallObject.start, SmallObject.length, hsize] using hx

theorem runTiny_reachable {ops : List SmallOp} {s' : SmallState}
    (hs : (smallMachine sixteenPages 1).Reachable s) (hrun : runTiny ops s = some s') :
    (smallMachine sixteenPages 1).Reachable s' :=
  Machine.Reachable.run _ (fun s op hop => SmallOp.check_allowed s op hop) ops hs hrun

theorem tinyPools_reachable (hs : tinyPools 4 = some s) :
    (smallMachine sixteenPages 1).Reachable s := by
  obtain ⟨⟨h', alloc'⟩, hex, rfl⟩ := Option.map_eq_some_iff.1 hs
  exact .init ⟨_, _, _, _, _, _, by decide, by decide, by decide, hex, rfl⟩

/-- What there is of the client's object: whether it is live, the size of the objects of its
pool, and its first byte. -/
def lastObject (s : SmallState) : Bool × Nat × UInt8 :=
  (decide (⟨65676, 4, some 0⟩ ∈ s.live), (s.alloc.pool 0).objsize, s.heap.mem 65676)

theorem writeThenRun_reachable {ops : List SmallOp} {s' : SmallState} {b : UInt8}
    (hs : (smallMachine sixteenPages 1).Reachable s) (hlast : lastObject s = (true, 4, b))
    (hrun : runTiny ops (writeOne s) = some s') : (smallMachine sixteenPages 1).Reachable s' := by
  simp only [lastObject, Prod.mk.injEq, decide_eq_true_eq] at hlast
  exact runTiny_reachable (writeOne_reachable hs hlast.1 hlast.2.1) hrun

/-- Eight objects in the first pool: the client wrote to the last one and freed the fifth. -/
def eightObjects : Option SmallState :=
  ((tinyPools 4).bind (runTiny (tinyObjects 7))).bind fun s =>
    runTiny [.free ⟨65664, 4, some 0⟩] (writeOne s)

/-- Then the seventh is freed, the client writes again, and the seventh is handed out again. -/
def sevenObjects : Option SmallState :=
  (eightObjects.bind (runTiny [.free ⟨65672, 4, some 0⟩])).bind fun s =>
    runTiny [.alloc 4 none none] (writeOne s)

theorem eightObjects_reachable (hs : eightObjects = some s) :
    (smallMachine sixteenPages 1).Reachable s := by
  obtain ⟨s₁, hs₁, hrun⟩ := Option.bind_eq_some_iff.1 hs
  obtain ⟨s₀, hs₀, hops⟩ := Option.bind_eq_some_iff.1 hs₁
  have hlast : ((tinyPools 4).bind (runTiny (tinyObjects 7))).map lastObject =
      some (true, 4, 0) := by decide +kernel
  rw [hs₁, Option.map_some, Option.some.injEq] at hlast
  exact writeThenRun_reachable (runTiny_reachable (tinyPools_reachable hs₀) hops) hlast hrun

theorem sevenObjects_reachable (hs : sevenObjects = some s) :
    (smallMachine sixteenPages 1).Reachable s := by
  obtain ⟨s₁, hs₁, hrun⟩ := Option.bind_eq_some_iff.1 hs
  obtain ⟨s₀, hs₀, hfree⟩ := Option.bind_eq_some_iff.1 hs₁
  have hlast : (eightObjects.bind (runTiny [.free ⟨65672, 4, some 0⟩])).map lastObject =
      some (true, 4, 0) := by
    decide +kernel
  rw [hs₁, Option.map_some, Option.some.injEq] at hlast
  exact writeThenRun_reachable (runTiny_reachable (eightObjects_reachable hs₀) hfree) hlast hrun

/-- **Objects of 4 bytes are not exclusive.** `smfree` of the seventh object clears what the
client wrote to the eighth; and after the client wrote again, `smalloc` hands out an object of
another pool that is live. -/
theorem smfree_overwrites_neighbour :
    (∃ s s', (smallMachine sixteenPages 1).Reachable s ∧ ⟨65672, 4, some 0⟩ ∈ s.live ∧
      SmallOp.exec sixteenPages s (.free ⟨65672, 4, some 0⟩) = some s' ∧
      ⟨65676, 4, some 0⟩ ∈ s'.live ∧
      s.heap.mem 65676 = 1 ∧ s'.heap.mem 65676 = 0) ∧
    ∃ s s', (smallMachine sixteenPages 1).Reachable s ∧ s.Answers sixteenPages 4 none none ∧
      ⟨2 ^ 32 + 65664, 4, some 5⟩ ∈ s.live ∧ SmallOp.exec sixteenPages s (.alloc 4 none none) =
      some s' ∧
      s'.live = ⟨2 ^ 32 + 65664, 4, some 0⟩ :: s.live := by
  constructor
  · have hrun : (eightObjects.bind fun s =>
        (SmallOp.exec sixteenPages s (.free ⟨65672, 4, some 0⟩)).map fun s' =>
        (decide (⟨65672, 4, some 0⟩ ∈ s.live), lastObject s, lastObject s'))
        = some (true, (true, 4, 1), (true, 4, 0)) := by decide +kernel
    obtain ⟨s, hs, hmap⟩ := Option.bind_eq_some_iff.1 hrun
    obtain ⟨s', hex, hlast⟩ := Option.map_eq_some_iff.1 hmap
    simp only [lastObject, Prod.mk.injEq, decide_eq_true_eq] at hlast
    obtain ⟨hlive, ⟨-, -, hbefore⟩, hlive', -, hafter⟩ := hlast
    exact ⟨s, s', eightObjects_reachable hs, hlive, hex, hlive', hbefore, hafter⟩
  · have hrun :
        (sevenObjects.bind fun s => (SmallOp.exec sixteenPages s (.alloc 4 none none)).map fun s' =>
        (decide (s.Answers sixteenPages 4 none none), decide (⟨2 ^ 32 + 65664, 4, some 5⟩ ∈ s.live),
          decide (s'.live = ⟨2 ^ 32 + 65664, 4, some 0⟩ :: s.live))) =
          some (true, true, true) := by decide +kernel
    obtain ⟨s, hs, hmap⟩ := Option.bind_eq_some_iff.1 hrun
    obtain ⟨s', hex, hfacts⟩ := Option.map_eq_some_iff.1 hmap
    simp only [Prod.mk.injEq, decide_eq_true_eq] at hfacts
    obtain ⟨hop, hlive, hlive'⟩ := hfacts
    exact ⟨s, s', sevenObjects_reachable hs, hop, hlive, hex, hlive'⟩

end SmallAllocators
