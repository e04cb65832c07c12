/-
SmallAllocators.SlabCache.Runs — runs of the slab cache.

The machine: a cache, the slabs that the clients have, and the calls they
may make. Clients put only slabs they have, and overwrite the bytes of
their slabs as they like, the `next_in_list` links included. The arena and
`malloc` may fail at any call; what they return is not in use already.

Everything the cache promises over whole runs is read off the invariant
here: the arena slabs stay partitioned, the counters stay exact, free
slabs coalesce completely, and no assertion ever fails.
-/
import SmallAllocators.Lib.Runs
import SmallAllocators.SlabCache.Check

namespace SmallAllocators

open Blocks

variable {g : Geometry} {c : SlabCache} {G : Ghost} {a b k : Nat}

/-! ## The machine -/

/-- A cache, and the slabs that clients got and did not put back. -/
structure SlabState where
  cache : SlabCache
  live : Finset Nat

inductive SlabOp where
  | get (size : Nat) (answer : Option Nat)
  | getWithOrder (order : Nat) (answer : Option Nat)
  | getLarge (size : Nat) (answer : Option Nat)
  | put (a : Nat)
  | putWithOrder (a : Nat)
  /-- A client writes to its slab `a`; the new contents of memory are those of `mem`. -/
  | write (a : Nat) (mem : SlabCache)

/-- The arena slabs that were mapped and not unmapped. -/
def SlabCache.mapped (c : SlabCache) : Multiset Nat :=
  (c.maps : Multiset Nat) - (c.unmaps : Multiset Nat)

/-- The large slabs among those of the clients. -/
def SlabState.large (g : Geometry) (s : SlabState) : Finset Nat :=
  {a ∈ s.live | (s.cache.slab a).order = g.orderMax + 1}

/-- What `slab_map` may return: an aligned arena slab, disjoint from the memory in use. -/
structure SlabState.MapAnswer (g : Geometry) (s : SlabState) (m : Nat) : Prop where
  aligned : g.slabSize ∣ m
  mapped : ∀ r ∈ s.cache.mapped, ∀ x, InBlock g.top m x → ¬ InBlock g.top r x
  large : ∀ a ∈ s.large g, ∀ x, s.cache.InLarge a x → ¬ InBlock g.top m x

/-- What `malloc(size)` may return: a block disjoint from the memory in use. -/
structure SlabState.MallocAnswer (g : Geometry) (s : SlabState) (size a : Nat) : Prop where
  mapped : ∀ x, a ≤ x → x < a + max size 1 → ∀ m ∈ s.cache.mapped, ¬ InBlock g.top m x
  large : ∀ x, a ≤ x → x < a + max size 1 → ∀ b ∈ s.large g, ¬ s.cache.InLarge b x

/-- The calls that clients may make, and the answers that the arena and `malloc` may give. -/
def SlabOp.Allowed (g : Geometry) (s : SlabState) : SlabOp → Prop
  | .get size answer => ∀ m, answer = some m →
      if g.slabOrder ((size + slabSizeof) % sizeMax) = g.orderMax + 1 then
        s.MallocAnswer g ((size + slabSizeof) % sizeMax) m
      else s.MapAnswer g m
  | .getWithOrder order answer => order ≤ g.orderMax ∧ ∀ m, answer = some m → s.MapAnswer g m
  | .getLarge size answer => ∀ a, answer = some a →
      s.MallocAnswer g ((size + slabSizeof) % sizeMax) a
  | .put a => a ∈ s.live
  | .putWithOrder a => a ∈ s.live ∧ (s.cache.slab a).order ≤ g.orderMax
  | .write a _ => a ∈ s.live

/-- The memory after a client wrote to its slab `a`: anything but the header of the slab, of which
only `next_in_list` may change. -/
def clientWrite (c : SlabCache) (a : Nat) (mem : SlabCache) : SlabCache :=
  let hit : Nat → Bool := fun x => a < x && x < a + (c.slab a).size
  let write (own : Bool) (l l' : Links SlabNode) : Links SlabNode :=
    { next := fun n => match n with
        | .slab x => if hit x || (own && x = a) then l'.next n else l.next n
        | n => l.next n
      prev := fun n => match n with
        | .slab x => if hit x || (own && x = a) then l'.prev n else l.prev n
        | n => l.prev n }
  { c with
    slab := fun x => if hit x then mem.slab x else c.slab x
    nextInCache := write false c.nextInCache mem.nextInCache
    nextInList := write true c.nextInList mem.nextInList }

/-- A call that returned the slab `r`, or `NULL`. -/
def SlabState.obtain (s : SlabState) (r : Option Nat) (c : SlabCache) : SlabState :=
  { cache := c, live := s.live ∪ r.toFinset }

def SlabOp.exec (g : Geometry) (s : SlabState) : SlabOp → Option SlabState
  | .get size answer => do
    let (r, c) ← slabGet g s.cache size answer
    some (s.obtain r c)
  | .getWithOrder order answer => do
    let (r, c) ← slabGetWithOrder g s.cache order answer
    some (s.obtain r c)
  | .getLarge size answer =>
    let (r, c) := slabGetLarge g s.cache size answer
    some (s.obtain r c)
  | .put a => do
    let c ← slabPut g s.cache a
    some { cache := c, live := s.live.erase a }
  | .putWithOrder a => do
    let c ← slabPutWithOrder g s.cache a
    some { cache := c, live := s.live.erase a }
  | .write a mem => some { s with cache := clientWrite s.cache a mem }

/-- The slab cache with its clients, from `slab_cache_create` on. -/
def slabMachine (g : Geometry) : Machine SlabState SlabOp where
  init := fun s => ∃ slab inCache inList,
    s = { cache := slabCacheCreate g slab inCache inList, live := ∅ }
  allowed := SlabOp.Allowed g
  exec := SlabOp.exec g

/-! ## The invariant over runs -/

/-- The invariant between two calls. -/
def SlabState.Good (g : Geometry) (s : SlabState) : Prop :=
  ∃ G : Ghost, s.cache.Inv g G ∅ ∅ ∧ G.live = s.live

theorem SlabCache.Inv.mapped (h : c.Inv g G ∅ ∅) : c.mapped = G.regions.val := by
  rw [SlabCache.mapped, h.alloc.maps, add_tsub_cancel_left]

theorem SlabCache.Inv.large_eq (h : c.Inv g G ∅ ∅) :
    SlabState.large g { cache := c, live := G.live } = G.large := by
  ext a
  rw [SlabState.large, Finset.mem_filter]
  show a ∈ G.live ∧ (c.slab a).order = g.orderMax + 1 ↔ _
  rw [h.live a]
  constructor
  · rintro ⟨h1, h2⟩
    refine h1.resolve_left fun ht => ?_
    have := h.order_le ht.1
    omega
  · intro hl
    exact ⟨Or.inr hl, h.alloc.largeOrder a hl⟩

theorem createLists_ring (l : Links SlabNode) (n : Nat) :
    ∀ k ≤ n, IsRing (createLists l n) (.orders k) [] := by
  induction n with
  | zero =>
      intro k hk
      obtain rfl : k = 0 := by omega
      exact rlistCreate_ring l _
  | succ n ih =>
      intro k hk
      by_cases hkn : k = n + 1
      · rw [hkn]
        exact rlistCreate_ring _ _
      · refine (ih k (by omega)).congr fun y hy => rlistCreate_same ?_
        rw [List.mem_singleton] at hy
        rw [hy]
        simpa using hkn

theorem slabCacheCreate_good (g : Geometry) (slab : Nat → Slab) (inCache inList : Links SlabNode) :
    SlabState.Good g { cache := slabCacheCreate g slab inCache inList, live := ∅ } := by
  refine ⟨{ tiles := ∅, regions := ∅, large := ∅, free := fun _ => [], allocated := [],
            live := ∅ }, ?_, rfl⟩
  constructor
  case tiles => exact ⟨Tiling.empty _ _, by simp, by simp, by simp⟩
  case lists => exact ⟨createLists_ring inList g.orderMax, by simp⟩
  case alloc =>
    exact ⟨rlistCreate_ring _ _, by simp, by simp, by simp, by simp, by simp, rfl,
      fun h => absurd rfl h⟩
  case stats => exact ⟨by simp [slabCacheCreate], by simp [slabCacheCreate],
    by simp [slabCacheCreate], by simp [slabCacheCreate]⟩
  case coalesced => exact ⟨by simp, by simp⟩
  case live => simp
  case heldTiles => simp
  case unbilledHeld => exact Finset.Subset.refl _

theorem clientWrite_overwritten (c : SlabCache) (a : Nat) (mem : SlabCache) :
    ∀ x, ¬ (a < x ∧ x < a + (c.slab a).size) → (clientWrite c a mem).slab x = c.slab x ∧
      c.nextInCache.SameAt (clientWrite c a mem).nextInCache (.slab x) ∧
      (x ≠ a → c.nextInList.SameAt (clientWrite c a mem).nextInList (.slab x)) := by
  intro x hx
  have hhit : (decide (a < x) && decide (x < a + (c.slab a).size)) = false := by
    simpa using hx
  refine ⟨?_, ⟨?_, ?_⟩, fun hxa => ⟨?_, ?_⟩⟩
  · simp only [clientWrite, hhit, Bool.false_eq_true, if_false]
  · simp only [clientWrite, hhit, Bool.false_or, Bool.false_and, Bool.false_eq_true, if_false]
  · simp only [clientWrite, hhit, Bool.false_or, Bool.false_and, Bool.false_eq_true, if_false]
  · simp only [clientWrite, hhit, hxa, decide_false, Bool.and_false, Bool.or_false,
      Bool.false_eq_true, if_false]
  · simp only [clientWrite, hhit, hxa, decide_false, Bool.and_false, Bool.or_false,
      Bool.false_eq_true, if_false]

/-- No slab of a client starts inside another one. -/
theorem SlabCache.Inv.not_inside_live (h : c.Inv g G ∅ ∅) (ha : a ∈ G.live) (hb : b ∈ G.live) :
    ¬ (a < b ∧ b < a + (c.slab a).size) := by
  rintro ⟨h1, h2⟩
  obtain ⟨hbt, hbl⟩ : b ∉ G.tiles ∧ b ∉ G.large := by
    rcases (h.live a).mp ha with ⟨hat, -⟩ | hal
    · exact h.not_inside hat h1 h2
    · exact h.not_inside_large hal h1 h2
  exact ((h.live b).mp hb).elim (fun ht => hbt ht.1) hbl

/-- What a client writes to its slab does not concern the cache. -/
theorem SlabCache.Inv.clientWrite (h : c.Inv g G ∅ ∅) (ha : a ∈ G.live) (mem : SlabCache) :
    (clientWrite c a mem).Inv g G ∅ ∅ := by
  have hout : ∀ x, a < x ∧ x < a + (c.slab a).size → x ∉ G.tiles ∧ x ∉ G.large := by
    rintro x ⟨h1, h2⟩
    rcases (h.live a).mp ha with ⟨hat, -⟩ | hal
    · exact h.not_inside hat h1 h2
    · exact h.not_inside_large hal h1 h2
  have hw := clientWrite_overwritten c a mem
  have htile : ∀ x, x ∈ G.tiles → ¬ (a < x ∧ x < a + (c.slab a).size) := fun x hx hin =>
    (hout x hin).1 hx
  have hlarge : ∀ x, x ∈ G.large → ¬ (a < x ∧ x < a + (c.slab a).size) := fun x hx hin =>
    (hout x hin).2 hx
  refine h.frame (fun x hx => (hw x (htile x hx)).1) (fun x hx => (hw x (hlarge x hx)).1)
    (fun k _ => ⟨rfl, rfl⟩) (fun x hx hxu _ => (hw x (htile x hx)).2.2 ?_) ⟨rfl, rfl⟩
    (fun x hx => (hw x ?_).2.1) rfl rfl rfl rfl
  · rintro rfl
    rcases (h.live x).mp ha with ⟨-, hu⟩ | hl
    · exact hu hxu
    · exact h.large_not_tile hl hx
  · rcases (h.alloc.mem x).mp hx with hr | hl
    · exact htile x (h.region_tile hr)
    · exact hlarge x hl

/-! ## Every call keeps the invariant -/

section Step

variable {s : SlabState}

theorem SlabState.MapAnswer.fresh (hm : s.MapAnswer g a) (h : s.cache.Inv g G ∅ ∅)
    (hl : G.live = s.live) : FreshRegion g s.cache G a where
  aligned := by
    rw [← g.slabSize_eq_top]
    exact hm.aligned
  fresh := fun ha => by
    refine hm.mapped a ?_ a (inBlock_self _ _) (inBlock_self _ _)
    rw [h.mapped]
    exact ha
  outside := fun b hb => hm.large b (by
    have := h.large_eq
    rw [hl] at this
    rwa [show s.large g = G.large from this])

theorem SlabState.MallocAnswer.fresh {size : Nat} (hm : s.MallocAnswer g size a)
    (h : s.cache.Inv g G ∅ ∅) (hl : G.live = s.live) : FreshLarge g s.cache G size a where
  regions := fun x h1 h2 m hm' => hm.mapped x h1 h2 m (by rw [h.mapped]; exact hm')
  large := fun x h1 h2 b hb => hm.large x h1 h2 b (by
    have := h.large_eq
    rw [hl] at this
    rwa [show s.large g = G.large from this])

/-- The size of the slab that a call may return. -/
def SlabOp.slabSize (g : Geometry) : SlabOp → Option Nat
  | .get size _ => some (g.slabRealSize size)
  | .getWithOrder order _ => some (g.slabOrderSize order)
  | .getLarge size _ => some ((size + slabSizeof) % sizeMax)
  | _ => none

/-- What a call does: the slabs that clients keep are as before, and a new one has the size of the
request. -/
structure SlabOp.Effect (g : Geometry) (s : SlabState) (op : SlabOp) (s' : SlabState) : Prop where
  good : s'.Good g
  slab : ∀ x ∈ s'.live, x ∈ s.live ∧ s'.cache.slab x = s.cache.slab x ∨
    op.slabSize g = some (s'.cache.slab x).size

theorem Obtained.good {c' : SlabCache} {G' : Ghost} (ho : Obtained g s.cache G a c' G')
    (hl : G.live = s.live) : SlabState.Good g (s.obtain (some a) c') := by
  refine ⟨G', ho.inv, ?_⟩
  rw [ho.live, hl]
  ext x
  simp [SlabState.obtain]

theorem SlabState.Good.obtain_none (h : s.Good g) : SlabState.Good g (s.obtain none s.cache) := by
  obtain ⟨G, hinv, hl⟩ := h
  exact ⟨G, hinv, by simp [SlabState.obtain, hl]⟩

theorem Obtained.effect {op : SlabOp} {c' : SlabCache} {G' : Ghost}
    (ho : Obtained g s.cache G a c' G') (hl : G.live = s.live)
    (hsize : op.slabSize g = some (c'.slab a).size) :
    op.Effect g s (s.obtain (some a) c') := by
  refine ⟨ho.good hl, fun x hx => ?_⟩
  obtain hx | rfl : x ∈ s.live ∨ x = a := by simpa [SlabState.obtain, or_comm] using hx
  · exact .inl ⟨hx, ho.slab x (hl ▸ hx)⟩
  · exact .inr hsize

theorem Released.effect {op : SlabOp} {c' : SlabCache} {G' : Ghost}
    (hr : Released g s.cache G a c' G') (hl : G.live = s.live) :
    op.Effect g s { cache := c', live := s.live.erase a } := by
  have hl' : G'.live = s.live.erase a := by rw [hr.live, hl]
  exact ⟨⟨G', hr.inv, hl'⟩, fun x hx => .inl ⟨Finset.mem_of_mem_erase hx, hr.slab x (hl' ▸ hx)⟩⟩

theorem SlabState.Good.same {op : SlabOp} (h : s.Good g) :
    op.Effect g s (s.obtain none s.cache) := by
  refine ⟨h.obtain_none, fun x hx => .inl ⟨?_, rfl⟩⟩
  simpa [SlabState.obtain] using hx

/-- Every call that the clients may make returns. -/
theorem SlabOp.exec_effect (hs : s.Good g) (op : SlabOp) (hop : op.Allowed g s) :
    ∃ s', op.exec g s = some s' ∧ op.Effect g s s' := by
  have hnone : op.Effect g s (s.obtain none s.cache) := hs.same
  obtain ⟨G, h, hl⟩ := hs
  cases op with
  | get size answer =>
      have hans : ∀ m, answer = some m →
          if g.slabOrder ((size + slabSizeof) % sizeMax) = g.orderMax + 1 then
            FreshLarge g s.cache G ((size + slabSizeof) % sizeMax) m
          else FreshRegion g s.cache G m := by
        intro m hm
        have := hop m hm
        split at this
        · rw [if_pos ‹_›]
          exact this.fresh h hl
        · rw [if_neg ‹_›]
          exact this.fresh h hl
      rcases slabGet_spec h hans with heq | ⟨a, c', G', heq, ho⟩
      · exact ⟨_, by simp [SlabOp.exec, heq], hnone⟩
      · exact ⟨_, by simp [SlabOp.exec, heq], ho.effect hl (congrArg some (slabGet_size heq).symm)⟩
  | getWithOrder order answer =>
      rcases slabGetWithOrder_spec h hop.1 fun m hm => (hop.2 m hm).fresh h hl with
        ⟨heq, -⟩ | ⟨a, c', G', heq, ho, hat, horder⟩
      · exact ⟨_, by simp [SlabOp.exec, heq], hnone⟩
      · have hsize : (c'.slab a).size = g.slabOrderSize order := by
          rw [ho.inv.tiles.size a hat, SlabCache.exp, horder, g.slabOrderSize_eq]
        exact ⟨_, by simp [SlabOp.exec, heq], ho.effect hl (congrArg some hsize.symm)⟩
  | getLarge size answer =>
      cases answer with
      | none => exact ⟨_, rfl, hnone⟩
      | some a =>
          obtain ⟨c', G', heq, ho, -, -, hsize⟩ := slabGetLarge_spec h ((hop a rfl).fresh h hl)
          exact ⟨_, by simp only [SlabOp.exec, heq], ho.effect hl (congrArg some hsize.symm)⟩
  | put a =>
      obtain ⟨c', G', heq, hr⟩ := slabPut_spec h (hl ▸ (show a ∈ s.live from hop))
      exact ⟨_, by simp [SlabOp.exec, heq], hr.effect hl⟩
  | putWithOrder a =>
      obtain ⟨c', G', heq, hr⟩ := slabPutWithOrder_spec h (hl ▸ hop.1) hop.2
      exact ⟨_, by simp [SlabOp.exec, heq], hr.effect hl⟩
  | write a mem =>
      have ha : a ∈ G.live := hl ▸ (show a ∈ s.live from hop)
      refine ⟨_, rfl, ⟨G, h.clientWrite ha mem, hl⟩, fun x hx => .inl ⟨hx, ?_⟩⟩
      exact (clientWrite_overwritten s.cache a mem x (h.not_inside_live ha (hl ▸ hx))).1

/-- Every call that the clients may make returns, and keeps the invariant. -/
theorem SlabOp.exec_good (hs : s.Good g) (op : SlabOp) (hop : op.Allowed g s) :
    ∃ s', op.exec g s = some s' ∧ s'.Good g := by
  obtain ⟨s', hex, heffect⟩ := SlabOp.exec_effect hs op hop
  exact ⟨s', hex, heffect.good⟩

theorem slabMachine_good (hs : (slabMachine g).Reachable s) :
    s.Good g ∧ ∀ op, (slabMachine g).allowed s op →
      ∃ s', (slabMachine g).exec s op = some s' ∧ s'.Good g := by
  refine (slabMachine g).invariant ?_ ?_ hs
  · rintro _ ⟨slab, inCache, inList, rfl⟩
    exact slabCacheCreate_good g slab inCache inList
  · exact fun s op hgood hop => SlabOp.exec_good hgood op hop

end Step

/-! ## A cache over arena slabs of four pages -/

/-- Arena slabs of four pages, slabs of one, two and four pages. -/
def fourPages : Geometry where
  slabSize := 16384
  order0Size := 4096
  order0SizeLb := 12
  orderMax := 2
  order0Size_eq := by decide
  slabSize_eq := by decide
  slabSize_lt := by decide
  orderMax_lt := by decide

def fourPagesStart : SlabState where
  cache := slabCacheCreate fourPages (fun _ => Slab.poisoned) ⟨id, id⟩ ⟨id, id⟩
  live := ∅

/-- A client has one page of the first arena slab. -/
theorem fourPages_after_get :
    ∃ s, (slabMachine fourPages).Reachable s ∧ s.live = {16384} ∧ s.cache.maps ≠ [] ∧
      (SlabOp.exec fourPages s (.put 16384)).map (fun s' => (s'.live, s'.cache.maps)) =
        some (∅, [16384]) := by
  have hallowed : (SlabOp.getWithOrder 0 (some 16384)).Allowed fourPages fourPagesStart := by
    refine ⟨by decide, fun m hm => ?_⟩
    rw [Option.some.injEq] at hm
    subst hm
    refine ⟨by decide, ?_, ?_⟩
    · intro r hr
      simp [fourPagesStart, slabCacheCreate, SlabCache.mapped] at hr
    · intro a ha
      exact absurd (Finset.mem_filter.mp ha).1 (Finset.notMem_empty a)
  cases hex : SlabOp.exec fourPages fourPagesStart (.getWithOrder 0 (some 16384)) with
  | none => exact absurd (congrArg Option.isSome hex) (by decide)
  | some s =>
      have hstart : (slabMachine fourPages).Reachable fourPagesStart := .init ⟨_, _, _, rfl⟩
      have hrun : (slabMachine fourPages).Reachable s :=
        .step (.getWithOrder 0 (some 16384)) hstart hallowed hex
      have hlive : (SlabOp.exec fourPages fourPagesStart (.getWithOrder 0 (some 16384))).map
          (fun s => (s.live, s.cache.maps)) = some ({16384}, [16384]) := by decide
      have hput : (SlabOp.exec fourPages fourPagesStart (.getWithOrder 0 (some 16384))).map
          (fun s => (SlabOp.exec fourPages s (.put 16384)).map
            (fun s' => (s'.live, s'.cache.maps))) = some (some (∅, [16384])) := by decide
      rw [hex, Option.map_some, Option.some.injEq] at hput
      rw [hex, Option.map_some, Option.some.injEq, Prod.mk.injEq] at hlive
      exact ⟨s, hrun, hlive.1, by simp [hlive.2], hput⟩

/-- The page is put back: the clients have nothing, and the cache has an arena slab. -/
theorem fourPages_after_put :
    ∃ s, (slabMachine fourPages).Reachable s ∧ s.live = ∅ ∧ s.cache.maps ≠ [] := by
  obtain ⟨s, hrun, hlive, -, hput⟩ := fourPages_after_get
  cases hex : SlabOp.exec fourPages s (.put 16384) with
  | none => simp [hex] at hput
  | some s' =>
      rw [hex, Option.map_some, Option.some.injEq, Prod.mk.injEq] at hput
      refine ⟨s', .step (.put 16384) hrun ?_ hex, hput.1, by simp [hput.2]⟩
      show 16384 ∈ s.live
      simp [hlive]

/-! ## The partition of the arena slabs -/

/-- The arena slabs are exactly partitioned into the slabs `T`. The list `orders[k]` holds `F k`,
the list of allocated slabs holds `A`, the clients have `live`, and the slabs `transit` are on
their way to a list. -/
structure SlabCache.Partitioned (g : Geometry) (c : SlabCache) (live transit T : Finset Nat)
    (F : Nat → List Nat) (A : List Nat) : Prop where
  cover : ∀ m ∈ c.mapped, ∀ x, m ≤ x → x < m + g.slabSize →
    ∃! a, a ∈ T ∧ a ≤ x ∧ x < a + (c.slab a).size
  inside : ∀ a ∈ T, ∃ m ∈ c.mapped, m ≤ a ∧ a + (c.slab a).size ≤ m + g.slabSize
  magic : ∀ a ∈ T, (c.slab a).magic = slabMagic
  order : ∀ a ∈ T, (c.slab a).order ≤ g.orderMax
  size : ∀ a ∈ T, (c.slab a).size = g.order0Size <<< (c.slab a).order
  aligned : ∀ a ∈ T, (c.slab a).size ∣ a
  inUse : ∀ a ∈ T, a ∈ live ∧ (c.slab a).inUse = (c.slab a).order + 1 ∧ a ∉ F (c.slab a).order ∨
    a ∉ live ∧ (c.slab a).inUse = 0 ∧ (a ∈ F (c.slab a).order ↔ a ∉ transit)
  lists : ∀ k ≤ g.orderMax, IsRing c.nextInList (.orders k) ((F k).map .slab)
  listed : ∀ k ≤ g.orderMax, ∀ a ∈ F k, a ∈ T ∧ (c.slab a).order = k
  clients : ∀ a ∈ live, a ∈ T ∨ (c.slab a).order = g.orderMax + 1
  allocated : IsRing c.nextInCache .allocated (A.map .slab)
  allocated_mem : ∀ a, a ∈ A ↔ a ∈ c.mapped ∨ a ∈ live ∧ (c.slab a).order = g.orderMax + 1

/-- The invariant, in terms of the memory and of what the clients have. -/
theorem SlabCache.Inv.partitioned {held unbilled : Finset Nat} (h : c.Inv g G held unbilled) :
    c.Partitioned g G.live held G.tiles G.free G.allocated := by
  have hmapped : c.mapped = G.regions.val := by
    rw [SlabCache.mapped, h.alloc.maps, add_tsub_cancel_left]
  have hsize : ∀ a ∈ G.tiles, (c.slab a).size = 2 ^ c.exp g a := h.tiles.size
  have hlarge : ∀ a, a ∈ G.live ∧ (c.slab a).order = g.orderMax + 1 ↔ a ∈ G.large := by
    intro a
    rw [h.live a]
    constructor
    · rintro ⟨h1, h2⟩
      refine h1.resolve_left fun ht => ?_
      have := h.order_le ht.1
      omega
    · exact fun hl => ⟨Or.inr hl, h.alloc.largeOrder a hl⟩
  constructor
  case cover =>
    intro m hm x h1 h2
    rw [hmapped] at hm
    rw [g.slabSize_eq_top] at h2
    obtain ⟨a, ha, hax⟩ := h.tiles.tiling.cover m hm x ⟨h1, h2⟩
    refine ⟨a, ⟨ha, hax.1, by rw [hsize a ha]; exact hax.2⟩, ?_⟩
    rintro b ⟨hb, hb1, hb2⟩
    rw [hsize b hb] at hb2
    exact h.tiles.tiling.unique b hb a ha x ⟨hb1, hb2⟩ hax
  case inside =>
    intro a ha
    obtain ⟨m, hm, hall⟩ := h.tiles.tiling.block_inside ha
    have hpos := Nat.two_pow_pos (c.exp g a)
    have h1 := hall a (inBlock_self _ _)
    have h2 := hall (a + (2 ^ c.exp g a - 1)) ⟨by omega, by omega⟩
    refine ⟨m, by rw [hmapped]; exact hm, h1.1, ?_⟩
    rw [hsize a ha, g.slabSize_eq_top]
    have := h2.2
    omega
  case magic => exact h.tiles.magic
  case order => exact fun a ha => h.order_le ha
  case size =>
    intro a ha
    rw [hsize a ha, g.order0Size_eq, Nat.shiftLeft_eq, ← Nat.pow_add, SlabCache.exp, Nat.add_comm]
  case aligned =>
    intro a ha
    rw [hsize a ha]
    exact h.tiles.tiling.dvd a ha
  case inUse =>
    intro a ha
    have hmem := h.lists.mem _ (h.order_le ha) a
    have hnl : a ∉ G.large := fun hl => h.large_not_tile hl ha
    have hlive : a ∈ G.live ↔ (c.slab a).inUse ≠ 0 := by simp [h.live a, ha, hnl]
    rcases h.tiles.inUse a ha with h0 | h1
    · exact Or.inr ⟨by simp [hlive, h0], h0, by simp [hmem, ha, h0]⟩
    · exact Or.inl ⟨hlive.mpr (by omega), h1, by simp [hmem, h1]⟩
  case lists => exact h.lists.ring
  case listed =>
    intro k hk a ha
    obtain ⟨h1, -, h2, -⟩ := (h.lists.mem k hk a).mp ha
    exact ⟨h1, h2⟩
  case clients =>
    intro a ha
    exact ((h.live a).mp ha).imp And.left (h.alloc.largeOrder a)
  case allocated => exact h.alloc.ring
  case allocated_mem =>
    intro a
    rw [h.alloc.mem a, hlarge, hmapped]
    rfl

/-- The merge test of `slab_put_with_order` for a slab that a client has: it looks at the header
of a slab, of at most the order of the slab in transit, and says whether that slab is a whole free
slab of the same order. -/
theorem MergeTest.buddy_spec {inLoop : Bool} {c' : SlabCache} {a' : Nat}
    (ht : MergeTest g c a inLoop c' a') (h : c.Inv g G ∅ ∅) (ha : a ∈ G.live)
    (hle : (c.slab a).order ≤ g.orderMax) (hb : slabBuddy g c' a' = some (some b)) :
    ∃ T F A, c'.Partitioned g (G.live.erase a) {a'} T F A ∧ a' ∈ T ∧ b ∈ T ∧
      (∀ x ∈ G.live.erase a, x ≤ b → b < x + (c'.slab x).size → x = b) ∧
      (c'.slab b).order ≤ (c'.slab a').order ∧
      (canMerge c' a' (some b) = true ↔ b ∈ F (c'.slab a').order) := by
  obtain ⟨hat, hau⟩ : a ∈ G.tiles ∧ (c.slab a).inUse ≠ 0 := by
    refine ((h.live a).mp ha).resolve_right fun hl => ?_
    have := h.alloc.largeOrder a hl
    omega
  obtain ⟨G', h', hl'⟩ := ht.inv h hat hau
  have hat' := (h'.heldTiles a' (by simp)).1
  obtain ⟨hbt, hbo, -, -⟩ := h'.buddy_header hat' hb
  rw [← hl']
  refine ⟨G'.tiles, G'.free, G'.allocated, h'.partitioned, hat', hbt, ?_, hbo, h'.canMerge_iff hb⟩
  intro x hx hxb hbx
  by_contra hne
  rcases (h'.live x).mp hx with ⟨hxt, -⟩ | hxl
  · exact (h'.not_inside hxt (by omega) hbx).1 hbt
  · exact (h'.not_inside_large hxl (by omega) hbx).1 hbt

/-- **The buddy system keeps the arena slabs partitioned.** In every reachable state the mapped
arena slabs are exactly partitioned into slabs with valid headers, each in use or on the free list
of its order; every allowed call returns; and the header that `slab_put_with_order` inspects is
always that of a slab, with the merge decided by whether it is a whole free slab of the same
order. -/
theorem slab_cache_partitioned (g : Geometry) (s : SlabState) (hs : (slabMachine g).Reachable s) :
    (∃ T F A, s.cache.Partitioned g s.live ∅ T F A) ∧
    (∀ op : SlabOp, op.Allowed g s → ∃ s', op.exec g s = some s') ∧
    ∀ a ∈ s.live, (s.cache.slab a).order ≤ g.orderMax →
      ∀ inLoop c' a' b, MergeTest g s.cache a inLoop c' a' → slabBuddy g c' a' = some (some b) →
        ∃ T F A, c'.Partitioned g (s.live.erase a) {a'} T F A ∧ a' ∈ T ∧ b ∈ T ∧
          (∀ x ∈ s.live.erase a, x ≤ b → b < x + (c'.slab x).size → x = b) ∧
          (c'.slab b).order ≤ (c'.slab a').order ∧
          (canMerge c' a' (some b) = true ↔ b ∈ F (c'.slab a').order) := by
  obtain ⟨⟨G, h, hl⟩, hstep⟩ := slabMachine_good hs
  refine ⟨⟨_, _, _, hl ▸ h.partitioned⟩, fun op hop => ?_, fun a ha hle _ c' a' b ht hb => ?_⟩
  · obtain ⟨s', hex, -⟩ := hstep op hop
    exact ⟨s', hex⟩
  · rw [← hl] at ha ⊢
    exact ht.buddy_spec h ha hle hb

theorem slab_cache_partitioned_one_page :
    ∃ s, (slabMachine fourPages).Reachable s ∧ s.live = {16384} ∧
      ∃ T F A, s.cache.Partitioned fourPages s.live ∅ T F A := by
  obtain ⟨s, hs, hlive, -⟩ := fourPages_after_get
  exact ⟨s, hs, hlive, (slab_cache_partitioned fourPages s hs).1⟩

/-! ## The counters -/

/-- The slabs of order `k` that clients have. -/
theorem SlabCache.Inv.live_of_order (h : c.Inv g G ∅ ∅) (hk : k ≤ g.orderMax) :
    {a ∈ G.live | (c.slab a).order = k} =
      {a ∈ G.tiles | (c.slab a).order = k ∧ (c.slab a).inUse ≠ 0} := by
  ext a
  rw [Finset.mem_filter, Finset.mem_filter, h.live a]
  constructor
  · rintro ⟨h1, h2⟩
    rcases h1 with ⟨hat, hau⟩ | hl
    · exact ⟨hat, h2, hau⟩
    · have := h.alloc.largeOrder a hl
      omega
  · rintro ⟨h1, h2, h3⟩
    exact ⟨Or.inl ⟨h1, h3⟩, h2⟩

theorem SlabCache.Inv.used_eq (h : c.Inv g G ∅ ∅) (hk : k ≤ g.orderMax) :
    (c.orders k).used = ∑ a ∈ G.live with (c.slab a).order = k, (c.slab a).size := by
  rw [h.live_of_order hk, h.stats.used k hk, Finset.sum_filter]
  refine Finset.sum_congr rfl fun a _ => ?_
  rw [SlabCache.billUsed, SlabCache.usedSize]
  by_cases ho : (c.slab a).order = k <;> by_cases hu : (c.slab a).inUse = 0 <;> simp [ho, hu]

theorem SlabCache.Inv.total_eq (h : c.Inv g G ∅ ∅) (hk : k ≤ g.orderMax) :
    (c.orders k).total = ∑ a ∈ G.live with (c.slab a).order = k, (c.slab a).size +
      ((G.free k).map fun a => (c.slab a).size).sum := by
  have hfree :
      (G.free k).toFinset = {a ∈ G.tiles | (c.slab a).order = k ∧ (c.slab a).inUse = 0} := by
    ext a
    rw [List.mem_toFinset, h.lists.mem k hk a, Finset.mem_filter]
    simp
  rw [← List.sum_toFinset _ (h.lists.nodup hk), hfree, h.live_of_order hk, h.stats.total k hk,
    Finset.sdiff_empty, Finset.sum_filter, Finset.sum_filter, ← Finset.sum_add_distrib]
  refine Finset.sum_congr rfl fun a _ => ?_
  rw [SlabCache.bill]
  by_cases ho : (c.slab a).order = k <;> by_cases hu : (c.slab a).inUse = 0 <;> simp [ho, hu]

theorem SlabCache.Inv.allUsed_eq (h : c.Inv g G ∅ ∅) :
    c.allocated.used = ∑ a ∈ G.live, (c.slab a).size := by
  have hset : G.live = {a ∈ G.tiles | (c.slab a).inUse ≠ 0} ∪ G.large := by
    ext a
    rw [h.live a, Finset.mem_union, Finset.mem_filter]
  have hdis : Disjoint {a ∈ G.tiles | (c.slab a).inUse ≠ 0} G.large := by
    rw [Finset.disjoint_left]
    exact fun a ht hl => h.large_not_tile hl (Finset.mem_filter.mp ht).1
  rw [hset, Finset.sum_union hdis, Finset.sum_filter, h.stats.allUsed]
  congr 1
  refine Finset.sum_congr rfl fun a _ => ?_
  rw [SlabCache.usedSize]
  by_cases hu : (c.slab a).inUse = 0 <;> simp [hu]

/-- What the counters of the cache are, by the slabs that are mapped, those of the clients and
those on the free lists; and `slab_cache_check` does not abort. -/
structure SlabState.Counted (g : Geometry) (s : SlabState) : Prop where
  total : s.cache.allocated.total =
    g.slabSize * s.cache.mapped.card + ∑ a ∈ s.large g, (s.cache.slab a).size
  used : s.cache.allocated.used = ∑ a ∈ s.live, (s.cache.slab a).size
  orders : ∃ F : Nat → List Nat, ∀ k ≤ g.orderMax,
    IsRing s.cache.nextInList (.orders k) ((F k).map .slab) ∧
    (s.cache.orders k).total = ∑ a ∈ s.live with (s.cache.slab a).order = k, (s.cache.slab a).size +
      ((F k).map fun a => (s.cache.slab a).size).sum ∧
    (s.cache.orders k).used =
      ∑ a ∈ s.live with (s.cache.slab a).order = k, (s.cache.slab a).size
  check : ∃ n, ∀ fuel, n ≤ fuel → slabCacheCheck g s.cache fuel = some true

theorem SlabState.Good.counted {s : SlabState} (hs : s.Good g) (h0 : 256 ≤ g.order0Size) :
    s.Counted g := by
  obtain ⟨G, h, hl⟩ := hs
  have hlarge : s.large g = G.large := by
    rw [← h.large_eq, hl]
  constructor
  case total =>
    rw [h.stats.allTotal, hlarge, h.mapped, Nat.mul_comm]
    rfl
  case used => rw [h.allUsed_eq, hl]
  case orders =>
    refine ⟨G.free, fun k hk => ⟨h.lists.ring k hk, ?_, ?_⟩⟩
    · rw [h.total_eq hk, hl]
    · rw [h.used_eq hk, hl]
  case check => exact ⟨G.allocated.length + 1, fun fuel hf => slabCacheCheck_spec h h0 (by omega)⟩

/-! ## Coalescing -/

/-- Once every slab is back, the free slabs are whole arena slabs, and there is at most one. -/
theorem SlabCache.Inv.regions_card_le (h : c.Inv g G ∅ ∅) (hl : G.live = ∅) :
    G.regions.card ≤ 1 := by
  have hnone : ∀ a ∈ G.tiles, (c.slab a).inUse = 0 := by
    intro a ha
    by_contra hu
    have : a ∈ G.live := (h.live a).mpr (Or.inl ⟨ha, hu⟩)
    simp [hl] at this
  have htop : ∀ a ∈ G.tiles, c.exp g a = g.top := by
    refine h.tiles.tiling.eq_top_of_coalesced fun a ha hlt hb he => ?_
    have hlt' : (c.slab a).order < g.orderMax := by
      simp only [SlabCache.exp, Geometry.top] at hlt
      omega
    have ho : (c.slab (buddy (c.exp g a) a)).order = (c.slab a).order := by
      simp only [SlabCache.exp] at he ⊢
      omega
    exact h.coalesced.buddies a ha _ hb (by simp) (by simp) (hnone a ha) (hnone _ hb) hlt' ho rfl
  have hsub : G.regions ⊆ (G.free g.orderMax).toFinset := by
    intro m hm
    have hmt := h.region_tile hm
    rw [List.mem_toFinset, h.lists.mem _ (Nat.le_refl _)]
    refine ⟨hmt, by simp, ?_, hnone m hmt⟩
    have := htop m hmt
    simp only [SlabCache.exp, Geometry.top] at this
    omega
  exact (Finset.card_le_card hsub).trans ((List.toFinset_card_le _).trans h.coalesced.maxOne)

/-- **Free slabs coalesce completely.** In every reachable state no two buddies below the largest
order are both free and at most one free slab has the largest order. When the clients have put
everything back, the cache keeps one arena slab, if it ever mapped one, and has unmapped each of
the others once. -/
theorem slab_cache_coalesced (g : Geometry) (s : SlabState) (hs : (slabMachine g).Reachable s) :
    (∃ T F A, s.cache.Partitioned g s.live ∅ T F A ∧
      (∀ k < g.orderMax, ∀ a ∈ F k, a ^^^ g.slabOrderSize k ∉ F k) ∧
      (F g.orderMax).length ≤ 1) ∧
    (s.live = ∅ → slabCacheUsed s.cache = 0 ∧
      (s.cache.maps ≠ [] → s.cache.allocated.total = g.slabSize ∧
        ∃ m, (s.cache.maps : Multiset Nat) = m ::ₘ (s.cache.unmaps : Multiset Nat))) := by
  obtain ⟨⟨G, h, hl⟩, -⟩ := slabMachine_good hs
  refine ⟨⟨G.tiles, G.free, G.allocated, hl ▸ h.partitioned, ?_, h.coalesced.maxOne⟩, ?_⟩
  · intro k hk a ha hb
    obtain ⟨hat, -, hao, hau⟩ := (h.lists.mem k hk.le a).mp ha
    obtain ⟨hbt, -, hbo, hbu⟩ := (h.lists.mem k hk.le _).mp hb
    refine h.coalesced.buddies a hat _ hbt (by simp) (by simp) hau hbu (by omega) (by omega) ?_
    rw [g.slabOrderSize_eq, buddy, SlabCache.exp, hao]
  · intro hempty
    rw [hempty] at hl
    have hlarge : G.large = ∅ := by
      rw [Finset.eq_empty_iff_forall_notMem]
      intro a ha
      have : a ∈ G.live := (h.live a).mpr (Or.inr ha)
      simp [hl] at this
    refine ⟨?_, fun hmaps => ?_⟩
    · rw [slabCacheUsed, h.allUsed_eq, hl]
      rfl
    · have hone : G.regions.card = 1 := by
        have h1 := h.regions_card_le hl
        have h2 := Finset.card_pos.mpr (h.alloc.kept hmaps)
        omega
      obtain ⟨m, hm⟩ := Finset.card_eq_one.mp hone
      refine ⟨?_, m, ?_⟩
      · rw [h.stats.allTotal, hlarge, hone]
        simp
      · rw [h.alloc.maps, hm]
        show _ + {m} = _
        rw [add_comm, Multiset.singleton_add]

theorem slab_cache_coalesced_after_put :
    ∃ s, (slabMachine fourPages).Reachable s ∧ s.live = ∅ ∧
      s.cache.allocated.total = fourPages.slabSize := by
  obtain ⟨s, hs, hlive, hmaps⟩ := fourPages_after_put
  exact ⟨s, hs, hlive, (((slab_cache_coalesced fourPages s hs).2 hlive).2 hmaps).1⟩

end SmallAllocators
