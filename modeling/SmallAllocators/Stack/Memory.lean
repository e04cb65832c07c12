/-
SmallAllocators.Stack.Memory — a slab cache and the memory behind it.

What the clients of a cache see: the slabs that they have do not overlap, a
slab that they get is new, and a slab that they put leaves the others as
they are. `CacheState.Gets` and `CacheState.Keeps` say it of one call and of
many.
-/
import SmallAllocators.Stack.Model

namespace SmallAllocators

open Blocks

variable {C : StackConfig} {s s' : CacheState} {a b order size : Nat} {answer r : Option Nat}

/-- The invariant of the cache and of the memory. -/
structure CacheState.Inv (C : StackConfig) (s : CacheState) : Prop where
  cache : s.cache.Good C.geometry
  backing : s.backing.Inv (fun _ => C.arena) (s.cache.holding () C.geometry)

/-- The header of a slab. -/
def CacheState.slab (s : CacheState) (a : Nat) : Slab := s.cache.cache.slab a

/-- A cache with nothing else on its memory. -/
theorem CacheState.Inv.beside (h : s.Inv C) :
    s.backing.Inv (fun _ => C.arena) (s.cache.holding () C.geometry + 0) := by
  rw [add_zero]
  exact h.backing

/-! ## The slabs of the clients -/

section Live

theorem not_inBlock_apart {n m : Nat} (hn : 0 < n) (hm : 0 < m)
    (h : ∀ x, a ≤ x → x < a + n → b ≤ x → ¬ x < b + m) : RangesApart a n b m := by
  have hmax := h (max a b)
  unfold RangesApart
  omega

/-- Two slabs that clients have do not overlap. -/
theorem CacheState.Inv.live_apart (h : s.Inv C) (ha : a ∈ s.cache.live) (hb : b ∈ s.cache.live)
    (hne : a ≠ b) (hposa : 0 < (s.slab a).size) (hposb : 0 < (s.slab b).size) :
    RangesApart a (s.slab a).size b (s.slab b).size := by
  obtain ⟨G, hinv, hlive⟩ := h.cache
  rw [← hlive] at ha hb
  unfold CacheState.slab at *
  have hlarge : ∀ {x y : Nat}, (s.cache.cache.slab x).size ≠ 0 → x ≤ y →
      y < x + (s.cache.cache.slab x).size →
      s.cache.cache.InLarge x y := fun _ h1 h2 => ⟨h1, by omega⟩
  have htile : ∀ {x y : Nat}, x ∈ G.tiles → x ≤ y → y < x + (s.cache.cache.slab x).size →
      InBlock (s.cache.cache.exp C.geometry x) x y := by
    intro x y hx h1 h2
    rw [hinv.tiles.size x hx] at h2
    exact ⟨h1, h2⟩
  refine not_inBlock_apart hposa hposb fun x h1 h2 h3 h4 => hne ?_
  rcases (hinv.live a).1 ha with ⟨hat, -⟩ | hal
  · rcases (hinv.live b).1 hb with ⟨hbt, -⟩ | hbl
    · exact hinv.tiles.tiling.unique a hat b hbt x (htile hat h1 h2) (htile hbt h3 h4)
    · obtain ⟨m, hm, hin⟩ := hinv.tiles.tiling.block_inside hat
      exact absurd (hin x (htile hat h1 h2))
        (hinv.alloc.outside b hbl x (hlarge (by omega) h3 h4) m hm)
  · rcases (hinv.live b).1 hb with ⟨hbt, -⟩ | hbl
    · obtain ⟨m, hm, hin⟩ := hinv.tiles.tiling.block_inside hbt
      exact absurd (hin x (htile hbt h3 h4))
        (hinv.alloc.outside a hal x (hlarge (by omega) h1 h2) m hm)
    · exact hinv.alloc.disjoint a hal b hbl x (hlarge (by omega) h1 h2) (hlarge (by omega) h3 h4)

/-- A slab of the buddy system lies in a slab of the arena that the cache has. -/
theorem CacheState.Inv.inArena (h : s.Inv C) (ha : a ∈ s.cache.live)
    (horder : (s.slab a).order ≤ C.geometry.orderMax) :
    ∃ m ∈ (s.cache.holding () C.geometry).1 (), m ≤ a ∧ a + (s.slab a).size ≤ m + C.arena.slabSize ∧
      (s.slab a).size = C.geometry.slabOrderSize (s.slab a).order ∧
      C.geometry.slabOrderSize (s.slab a).order ∣ a := by
  obtain ⟨G, hinv, hlive⟩ := h.cache
  rw [← hlive] at ha
  unfold CacheState.slab at *
  have hat : a ∈ G.tiles := by
    rcases (hinv.live a).1 ha with ⟨hat, -⟩ | hal
    · exact hat
    · have := hinv.alloc.largeOrder a hal
      omega
  have hexp : 2 ^ s.cache.cache.exp C.geometry a = C.geometry.slabOrderSize
      (s.cache.cache.slab a).order := by
    rw [Geometry.slabOrderSize_eq, SlabCache.exp]
  obtain ⟨m, hm, hin⟩ := hinv.tiles.tiling.block_inside hat
  have hmapped : m ∈ (s.cache.holding () C.geometry).1 () := by
    show m ∈ (Pi.single () s.cache.cache.mapped : Unit → Multiset Nat) ()
    rw [Pi.single_eq_same, hinv.mapped]
    exact hm
  have hpos := Nat.two_pow_pos (s.cache.cache.exp C.geometry a)
  have hfirst := hin a (inBlock_self _ _)
  have hlast := hin (a + 2 ^ s.cache.cache.exp C.geometry a - 1) (by
    simp only [InBlock]
    omega)
  rw [InBlock] at hfirst hlast
  rw [← C.slabSize_eq, C.geometry.slabSize_eq_top, hinv.tiles.size a hat, ← hexp]
  exact ⟨m, hmapped, hfirst.1, by omega, rfl, hinv.tiles.tiling.dvd a hat⟩

/-- Where a slab of the buddy system is. -/
theorem CacheState.Inv.place (h : s.Inv C) (ha : a ∈ s.cache.live)
    (horder : (s.slab a).order ≤ C.geometry.orderMax) :
    0 < a ∧ C.geometry.slabOrderSize (s.slab a).order ∣ a ∧
      a + C.geometry.slabOrderSize (s.slab a).order ≤ sizeMax ∧
      (s.slab a).size = C.geometry.slabOrderSize (s.slab a).order := by
  obtain ⟨m, hm, hle, hend, hsize, hdvd⟩ := h.inArena ha horder
  obtain ⟨hne, -, hbound⟩ := (h.backing.arena ()).slab hm
  exact ⟨by omega, hdvd, by omega, hsize⟩

end Live

/-! ## Slabs that a client gets -/

/-- A client gets the slab `a`. -/
structure CacheState.Gets (s : CacheState) (a : Nat) (s' : CacheState) : Prop where
  fresh : a ∉ s.cache.live
  live : s'.cache.live = insert a s.cache.live
  slab : ∀ x ∈ s.cache.live, s'.slab x = s.slab x

theorem Obtained.gets {g : Geometry} {G G' : Ghost} {st : SlabState} {cache : SlabCache}
    {backing backing' : Backing Unit} (ho : Obtained g st.cache G a cache G')
    (hlive : G.live = st.live) :
    CacheState.Gets ⟨st, backing⟩ a ⟨st.obtain (some a) cache, backing'⟩ where
  fresh := hlive ▸ ho.fresh
  live := by
    show st.live ∪ (some a).toFinset = insert a st.live
    rw [Option.toFinset_some, Finset.union_comm, Finset.insert_eq]
  slab := fun x hx => ho.slab x (hlive ▸ hx)

theorem SlabState.obtain_none_eq (st : SlabState) : st.obtain none st.cache = st := by
  simp [SlabState.obtain]

/-- A new slab of the arena does not meet the memory of the cache. -/
theorem CacheState.Inv.mapAnswer (h : s.Inv C) {m : Nat} {b' : Backing Unit} {G : Ghost}
    (hinv : s.cache.cache.Inv C.geometry G ∅ ∅) (hlive : G.live = s.cache.live)
    (hanswer : ∀ m, answer = some m → s.backing.FreshSlab (fun _ => C.arena) () m)
    (hmap : s.backing.map (fun _ => C.arena) () answer = some (some m, b')) :
    FreshRegion C.geometry s.cache.cache G m := by
  rcases Backing.map_cases h.beside hanswer hmap with ⟨hnone, -⟩ | ⟨m', hsome, h'⟩
  · cases hnone
  · cases hsome
    exact (h'.mapAnswer C.slabSize_eq).fresh hinv hlive

/-- `slab_get_with_order` returns: it changes nothing, or a client gets a slab of the order. -/
theorem CacheState.Inv.getWithOrder (h : s.Inv C) (horder : order ≤ C.geometry.orderMax)
    (hfits : usedInUnits s.backing.quota + ceilUnits C.arena.slabSize < 2 ^ 32)
    (hanswer : ∀ m, answer = some m → s.backing.FreshSlab (fun _ => C.arena) () m) :
    s.getWithOrder C order answer = some (none, s) ∨
    ∃ a s', s.getWithOrder C order answer = some (some a, s') ∧ s'.Inv C ∧ s.Gets a s' ∧
    (s'.slab a).order = order := by
  obtain ⟨G, hinv, hlive⟩ := h.cache
  -- the memory answers, if it is asked
  obtain ⟨⟨answer', b'⟩, hmap⟩ : ∃ r, s.arenaAnswer C order answer = some r := by
    unfold CacheState.arenaAnswer
    split
    · obtain ⟨r, hr⟩ := SlabArena.slabMap_returns (s.backing.arena ()) answer hfits
      exact ⟨_, by rw [Backing.map, hr, Option.bind_eq_bind, Option.bind_some]⟩
    · exact ⟨_, rfl⟩
  have hfresh : ∀ m, answer' = some m → FreshRegion C.geometry s.cache.cache G m := by
    intro m hm
    subst hm
    unfold CacheState.arenaAnswer at hmap
    split at hmap
    · exact h.mapAnswer hinv hlive hanswer hmap
    · cases hmap
  have hcall :
      ∀ r cache', slabGetWithOrder C.geometry s.cache.cache order answer' = some (r, cache') →
      s.getWithOrder C order answer = some (r, ⟨s.cache.obtain r cache', b'⟩) ∧
        Backing.Gives (fun _ => C.arena) () C.geometry 0 s.backing r
          (s.cache.obtain r cache') b' := by
    intro r cache' hget
    refine ⟨?_, h.beside.getWithOrder h.cache C.slabSize_eq horder hanswer hmap hget⟩
    simp [CacheState.getWithOrder, hmap, hget]
  rcases slabGetWithOrder_spec hinv horder hfresh with ⟨heq, -⟩ | ⟨a, cache', G', heq, ho, -, hao⟩
  · left
    obtain ⟨hrun, hgives⟩ := hcall none s.cache.cache heq
    rw [hrun, hgives.null rfl, SlabState.obtain_none_eq]
  · right
    obtain ⟨hrun, hgives⟩ := hcall (some a) cache' heq
    have hbacking := hgives.inv
    rw [add_zero] at hbacking
    exact ⟨a, _, hrun, ⟨hgives.good, hbacking⟩, ho.gets hlive, hao⟩

/-- `slab_get_large` returns: it changes nothing, or a client gets a large slab. -/
theorem CacheState.Inv.getLarge (h : s.Inv C) (hsize : size + slabSizeof < quotaMax)
    (hfits : usedInUnits s.backing.quota + ceilUnits (size + slabSizeof) < 2 ^ 32)
    (hanswer : ∀ a, answer = some a →
      s.backing.FreshBlock (fun _ => C.arena) (size + slabSizeof) a) :
    s.getLarge C size answer = some (none, s) ∨
    ∃ s' a, answer = some a ∧ s.getLarge C size answer = some (some a, s') ∧ s'.Inv C ∧
    s.Gets a s' ∧
      (s'.slab a).order = C.geometry.orderMax + 1 ∧ (s'.slab a).size = size + slabSizeof := by
  obtain ⟨G, hinv, hlive⟩ := h.cache
  have hpos : 1 ≤ size + slabSizeof := Nat.le_add_left_of_le (by decide)
  have hmod : (size + slabSizeof) % sizeMax = size + slabSizeof :=
    Nat.mod_eq_of_lt (Nat.lt_trans hsize (by decide))
  obtain ⟨⟨ptr, quota⟩, hbilled⟩ := billedMalloc_returns hpos hsize hfits answer
  obtain ⟨b', hmalloc⟩ : ∃ b', s.backing.malloc (size + slabSizeof) answer = some (ptr, b') := by
    cases ptr with
    | none => exact ⟨_, by simp [Backing.malloc, hbilled]; rfl⟩
    | some a => exact ⟨_, by simp [Backing.malloc, hbilled]; rfl⟩
  have hcall : ∀ r cache', slabGetLarge C.geometry s.cache.cache size ptr = (r, cache') →
      s.getLarge C size answer = some (r, ⟨s.cache.obtain r cache', b'⟩) ∧
        Backing.Gives (fun _ => C.arena) () C.geometry 0 s.backing r
          (s.cache.obtain r cache') b' := by
    intro r cache' hget
    refine ⟨?_, h.beside.getLarge h.cache C.slabSize_eq hsize hanswer hmalloc hget⟩
    simp [CacheState.getLarge, Backing.slabGetLarge, hmod, hmalloc, hget]
  rcases Backing.malloc_cases h.backing hpos hsize hanswer hmalloc with ⟨rfl, rfl⟩
    | ⟨a, rfl, hblock, h'⟩
  · left
    obtain ⟨hrun, hgives⟩ := hcall none s.cache.cache rfl
    rw [hrun, SlabState.obtain_none_eq]
  · right
    have hfresh := (Backing.Inv.mallocAnswer h.beside
        (by rw [add_zero]; exact h') C.slabSize_eq hpos hblock).fresh hinv hlive
    rw [← hmod] at hfresh
    obtain ⟨cache', G', heq, ho, -, horder, hbytes⟩ := slabGetLarge_spec hinv hfresh
    obtain ⟨hrun, hgives⟩ := hcall (some a) cache' heq
    have hbacking := hgives.inv
    rw [add_zero] at hbacking
    have hans : answer = some a := by
      rcases billedMalloc_cases hpos hsize hbilled with ⟨hnone, -⟩ | ⟨a', ha, hans, -⟩
      · cases hnone
      · rw [hans, ha]
    exact ⟨_, a, hans, hrun, ⟨hgives.good, hbacking⟩, ho.gets hlive, horder, hbytes.trans hmod⟩

/-! ## Slabs that clients put -/

/-- Clients put the slabs. -/
structure CacheState.Puts (s : CacheState) (slabs : List Nat) (s' : CacheState) : Prop where
  live : s'.cache.live = s.cache.live \ slabs.toFinset
  slab : ∀ x ∈ s'.cache.live, s'.slab x = s.slab x

/-- Nothing is billed or released, and nothing came from `mmap` or `malloc`. -/
structure CacheState.SameMemory (s s' : CacheState) : Prop where
  quota : s'.backing.quota = s.backing.quota
  heap : s'.backing.heap = s.backing.heap
  mapped : (s'.backing.arena ()).mapped = (s.backing.arena ()).mapped

theorem CacheState.SameMemory.freshSlab {m : Nat} (h : s.SameMemory s')
    (hm : s.backing.FreshSlab (fun _ => C.arena) () m) :
    s'.backing.FreshSlab (fun _ => C.arena) () m where
  ne_zero := hm.ne_zero
  aligned := hm.aligned
  bound := hm.bound
  heap := h.heap.symm ▸ hm.heap
  prealloc := hm.prealloc
  mapped := h.mapped.symm ▸ hm.mapped

/-- `slab_unmap` puts a slab in the cache of the arena, and that is all. -/
theorem Backing.unmapAll_same {backing backing' : Backing Unit} {xs : List Nat}
    (h : backing.unmapAll () xs = some backing') :
    backing'.quota = backing.quota ∧ backing'.heap = backing.heap ∧
      (backing'.arena ()).mapped = (backing.arena ()).mapped := by
  induction xs generalizing backing' with
  | nil =>
      cases h
      exact ⟨rfl, rfl, rfl⟩
  | cons a xs ih =>
      obtain ⟨b₁, hrest, hunmap⟩ := Option.bind_eq_some_iff.1 h
      obtain ⟨u, -, heq⟩ := Option.bind_eq_some_iff.1 hunmap
      cases heq
      obtain ⟨hquota, hheap, hmapped⟩ := ih hrest
      refine ⟨hquota, hheap, ?_⟩
      rw [← hmapped]
      simp [SlabArena.slabUnmap]
      split <;> rfl

/-- The cache does not depend on the memory behind it. -/
theorem Backing.slabPut_cache {g : Geometry} {cache cache' cache₁ : SlabCache}
    {backing backing' : Backing Unit} (h : backing.slabPut () g cache a = some (cache', backing'))
    (hput : SmallAllocators.slabPut g cache a = some cache₁) :
    cache' = cache₁ := by
  unfold Backing.slabPut at h
  unfold SmallAllocators.slabPut at hput
  split at h
  · next hle =>
    rw [if_pos hle] at hput
    simp [hput, Option.bind_eq_some_iff] at h
    exact h.2.symm
  · next hgt =>
    rw [if_neg hgt] at hput
    simp [hput, Option.bind_eq_some_iff] at h
    exact h.2.symm

theorem Backing.slabPut_same {g : Geometry} {cache cache' : SlabCache}
    {backing backing' : Backing Unit} (h : backing.slabPut () g cache a = some (cache', backing'))
    (hle : (cache.slab a).order ≤ g.orderMax) :
    backing'.quota = backing.quota ∧ backing'.heap = backing.heap ∧
      (backing'.arena ()).mapped = (backing.arena ()).mapped := by
  rw [Backing.slabPut, if_pos hle] at h
  obtain ⟨c₁, -, h⟩ := Option.bind_eq_some_iff.1 h
  obtain ⟨b₁, hunmap, h⟩ := Option.bind_eq_some_iff.1 h
  cases h
  exact Backing.unmapAll_same hunmap

/-- `slab_put` of a slab that a client has. -/
theorem CacheState.Inv.put (h : s.Inv C) (ha : a ∈ s.cache.live) :
    ∃ s', s.put C a = some s' ∧ s'.Inv C ∧ s.Puts [a] s' ∧
      ((s.slab a).order ≤ C.geometry.orderMax → s.SameMemory s') := by
  obtain ⟨cache', b', hput, hgood, hbacking⟩ := h.beside.put h.cache ha
  rw [add_zero] at hbacking
  refine ⟨⟨⟨cache', s.cache.live.erase a⟩, b'⟩, by simp [CacheState.put, hput], ⟨hgood, hbacking⟩,
    ⟨?_, fun x hx => ?_⟩, fun hle => ?_⟩
  · simp [Finset.sdiff_singleton_eq_erase]
  · obtain ⟨G, hinv, hlive⟩ := h.cache
    obtain ⟨c', G', hspec, hr⟩ := slabPut_spec hinv (hlive ▸ ha)
    have hsame : cache' = c' := Backing.slabPut_cache hput hspec
    subst hsame
    exact hr.slab x (by rw [hr.live, hlive]; exact hx)
  · obtain ⟨hquota, hheap, hmapped⟩ := Backing.slabPut_same hput hle
    exact ⟨hquota, hheap, hmapped⟩

/-- Slabs of the buddy system go back, one after another. -/
theorem CacheState.Inv.putAll {slabs : List Nat} (h : s.Inv C) (hnodup : slabs.Nodup)
    (hslabs : ∀ a ∈ slabs, a ∈ s.cache.live ∧ (s.slab a).order ≤ C.geometry.orderMax) :
    ∃ s', CacheState.putAll C slabs s = some s' ∧ s'.Inv C ∧ s.Puts slabs s' ∧ s.SameMemory s' := by
  induction slabs generalizing s with
  | nil => exact ⟨s, rfl, h, ⟨by simp, fun _ _ => rfl⟩, ⟨rfl, rfl, rfl⟩⟩
  | cons a slabs ih =>
      obtain ⟨hnot, hnodup⟩ := List.nodup_cons.1 hnodup
      obtain ⟨ha, hle⟩ := hslabs a List.mem_cons_self
      obtain ⟨s₁, hput, h₁, hp, hm⟩ := h.put ha
      have hm := hm hle
      have hrest : ∀ b ∈ slabs, b ∈ s₁.cache.live ∧ (s₁.slab b).order ≤ C.geometry.orderMax := by
        intro b hb
        obtain ⟨hblive, hble⟩ := hslabs b (List.mem_cons_of_mem a hb)
        have hne : b ≠ a := fun he => hnot (he ▸ hb)
        have hmem : b ∈ s₁.cache.live := by
          rw [hp.live]
          simp [hblive, hne]
        exact ⟨hmem, by rw [hp.slab b hmem]; exact hble⟩
      obtain ⟨s', hloop, h', hp', hm'⟩ := ih h₁ hnodup hrest
      refine ⟨s', ?_, h', ⟨?_, fun x hx => ?_⟩, ?_⟩
      · have hguard : (s.cache.cache.slab a).order ≤ C.geometry.orderMax := hle
        simp [CacheState.putAll, CacheState.putWithOrder, guard, hguard, hput, hloop]
      · rw [hp'.live, hp.live]
        ext x
        simp [and_assoc]
      · have hx₁ : x ∈ s₁.cache.live := by
          rw [hp'.live] at hx
          exact (Finset.mem_sdiff.1 hx).1
        rw [hp'.slab x hx, hp.slab x hx₁]
      · exact ⟨hm'.quota.trans hm.quota, hm'.heap.trans hm.heap, hm'.mapped.trans hm.mapped⟩

end SmallAllocators
