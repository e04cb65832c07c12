/-
SmallAllocators.Shared.Caches — the slab caches on shared memory.

What a cache holds are its arena slabs and its large slabs. `slab_get` and
`slab_get_large` add to this what the memory gave, or nothing; `slab_put`
gives back a large slab, an arena slab, or nothing; `slab_cache_destroy`
gives back everything, each slab to where it came from.
-/
import SmallAllocators.Shared.Backing

namespace SmallAllocators

open Finset Blocks

variable {ι : Type} {g : Geometry} {st st' : SlabState} {a m n size : Nat} {answer r : Option Nat}

/-! ## What a cache holds -/

/-- The addresses and sizes of the large slabs. -/
def SlabState.blocks (g : Geometry) (st : SlabState) : Multiset (Nat × Nat) :=
  (st.large g).val.map fun a => (a, (st.cache.slab a).size)

/-- The memory of a cache on the arena `i`. -/
def SlabState.holding [DecidableEq ι] (i : ι) (g : Geometry) (st : SlabState) : Holding ι :=
  (Pi.single i st.cache.mapped, st.blocks g)

@[simp] theorem SlabState.holding_add_self [DecidableEq ι] (i : ι) (H : Holding ι) :
    (st.holding i g + H).1 i = st.cache.mapped + H.1 i := by
  simp [SlabState.holding]

@[simp] theorem SlabState.holding_add_snd [DecidableEq ι] (i : ι) (H : Holding ι) :
    (st.holding i g + H).2 = st.blocks g + H.2 := rfl

theorem SlabState.holding_bill [DecidableEq ι] (i : ι) (g : Geometry) (st : SlabState) :
    (st.holding i g).bill = ∑ a ∈ st.large g, ceilUnits (st.cache.slab a).size * quotaUnitSize := by
  rw [Holding.bill, SlabState.holding, SlabState.blocks, Multiset.map_map]
  rfl

theorem SlabState.mem_blocks {x : Nat × Nat} :
    x ∈ st.blocks g ↔ x.1 ∈ st.large g ∧ (st.cache.slab x.1).size = x.2 := by
  rw [SlabState.blocks, Multiset.mem_map]
  constructor
  · rintro ⟨a, ha, rfl⟩
    exact ⟨ha, rfl⟩
  · rintro ⟨ha, hsize⟩
    exact ⟨x.1, ha, Prod.ext rfl hsize⟩

/-- The large slabs when a client has one slab more. -/
theorem SlabState.blocks_insert (hlive : st'.live = insert a st.live) (ha : a ∉ st.live)
    (hsame : ∀ x ∈ st.live, st'.cache.slab x = st.cache.slab x) :
    st'.blocks g = (if (st'.cache.slab a).order = g.orderMax + 1 then
        {(a, (st'.cache.slab a).size)} else 0) + st.blocks g := by
  have hrest : ({x ∈ st.live | (st'.cache.slab x).order = g.orderMax + 1} : Finset Nat) =
      st.large g :=
    filter_congr fun x hx => by rw [hsame x hx]
  have hsizes : (st.large g).val.map (fun x => (x, (st'.cache.slab x).size)) = st.blocks g :=
    Multiset.map_congr rfl fun x hx => by rw [hsame x (mem_of_mem_filter x hx)]
  rw [SlabState.blocks, SlabState.large, hlive, filter_insert, hrest]
  split
  · have hnot : a ∉ st.large g := fun hmem => ha (mem_of_mem_filter a hmem)
    rw [insert_val_of_notMem hnot, Multiset.map_cons, hsizes, Multiset.singleton_add]
  · rw [hsizes, zero_add]

/-! ## The slab that a call returns -/

section Slabs

variable {c c' : SlabCache} {G G' : Ghost}

/-- `slab_get` in its two parts: it gets the slab, and checks its size. -/
theorem slabGet_returned (h : slabGet g c size answer = some (r, c')) :
    (if g.slabOrder ((size + slabSizeof) % sizeMax) = g.orderMax + 1 then
        some (slabGetLarge g c size answer)
      else slabGetWithOrder g c (g.slabOrder ((size + slabSizeof) % sizeMax)) answer) =
          some (r, c') := by
  rw [slabGet_eq] at h
  obtain ⟨⟨r₁, c₁⟩, hgot, h⟩ := Option.bind_eq_some_iff.1 h
  rw [hgot]
  cases r₁ with
  | none => exact h
  | some a =>
      obtain ⟨u, -, h⟩ := Option.bind_eq_some_iff.1 h
      exact h

theorem Obtained.blocks (ho : Obtained g st.cache G a c' G') (hlive : G.live = st.live) :
    (st.obtain (some a) c').blocks g =
      (if (c'.slab a).order = g.orderMax + 1 then {(a, (c'.slab a).size)} else 0) +
      st.blocks g := by
  refine SlabState.blocks_insert ?_ (hlive ▸ ho.fresh) fun x hx => ho.slab x (hlive ▸ hx)
  rw [SlabState.obtain, Option.toFinset_some, union_comm, insert_eq]

theorem SlabState.blocks_obtain_none (st : SlabState) :
    (st.obtain none st.cache).blocks g = st.blocks g := by
  simp [SlabState.obtain, SlabState.blocks, SlabState.large]

end Slabs

/-! ## What the memory promises -/

section Answers

variable [DecidableEq ι] [Fintype ι] {c : ι → ArenaConfig} {i : ι} {b b' : Backing ι}
    {H : Holding ι}

/-- A new slab of the arena is apart from the memory of the cache. -/
theorem Backing.Inv.mapAnswer (h : b.Inv c (.slab i m + (st.holding i g + H)))
    (hsize : g.slabSize = (c i).slabSize) :
    st.MapAnswer g m := by
  have hout : (Holding.slab i m + (st.holding i g + H)).1 i = m ::ₘ (st.cache.mapped + H.1 i) := by
    rw [Holding.slab_add_self, SlabState.holding_add_self]
  have harena := h.arena i
  rw [hout] at harena
  have hm := (harena.slab (Multiset.mem_cons_self m _)).2.1
  rw [← hsize, g.slabSize_eq_top] at hm
  constructor
  case aligned => rwa [g.slabSize_eq_top]
  case mapped =>
    intro r hr x hx hxr
    have hr' : r ∈ m ::ₘ (st.cache.mapped + H.1 i) :=
      Multiset.mem_cons_of_mem (Multiset.mem_add.2 (.inl hr))
    have hdvd := (harena.slab hr').2.1
    rw [← hsize, g.slabSize_eq_top] at hdvd
    -- two aligned slabs with a common byte are one
    have hdiv := ((inBlock_iff_div hm).1 hx).symm.trans ((inBlock_iff_div hdvd).1 hxr)
    have hsame : m = r := by rw [← Nat.div_mul_cancel hm, hdiv, Nat.div_mul_cancel hdvd]
    have hnodup := (Multiset.nodup_add.1 harena.nodup).2.1
    exact (Multiset.nodup_cons.1 hnodup).1 (hsame ▸ Multiset.mem_add.2 (.inl hr))
  case large =>
    intro a ha x hax hx
    have hblock : (a, (st.cache.slab a).size) ∈ (Holding.slab i m + (st.holding i g + H)).2 := by
      rw [Holding.slab_add_snd]
      exact Multiset.mem_add.2 (.inl (SlabState.mem_blocks.2 ⟨ha, rfl⟩))
    have hapart :=
      h.slab_apart hblock (m := m) (i := i) (by rw [hout]; exact Multiset.mem_cons_self _ _)
    have hpos := (h.sizes _ (h.mem_heap.2 hblock)).1
    simp only [SlabCache.InLarge, InBlock, ← g.slabSize_eq_top, hsize] at hax hx hapart hpos
    omega

/-- A new block is apart from the memory of the cache. -/
theorem Backing.Inv.mallocAnswer (h : b.Inv c (st.holding i g + H))
    (h' : b'.Inv c (.block a n + (st.holding i g + H))) (hsize : g.slabSize = (c i).slabSize)
    (hpos : 1 ≤ n) (hfresh : b.FreshBlock c n a) : st.MallocAnswer g n a := by
  constructor
  case mapped =>
    intro x hax hxa m hm hx
    have hblock : (a, n) ∈ (Holding.block a n + (st.holding i g + H)).2 := by
      rw [Holding.block_add_snd]
      exact Multiset.mem_cons_self _ _
    have hslab : m ∈ (Holding.block a n + (st.holding i g + H)).1 i := by
      rw [Holding.block_add_fst, SlabState.holding_add_self]
      exact Multiset.mem_add.2 (.inl hm)
    have hapart := h'.slab_apart hblock hslab
    simp only [InBlock, ← g.slabSize_eq_top, hsize] at hx hapart
    omega
  case large =>
    intro x hax hxa d hd hx
    have hblock : (d, (st.cache.slab d).size) ∈ b.heap :=
      h.mem_heap.2 (Multiset.mem_add.2 (.inl (SlabState.mem_blocks.2 ⟨hd, rfl⟩)))
    have hapart := hfresh.heap _ hblock
    have hpos' := (h.sizes _ hblock).1
    simp only [SlabCache.InLarge] at hx hapart hpos'
    omega

end Answers

/-! ## `slab_get_large` and `slab_get` -/

section Get

variable [DecidableEq ι] [Fintype ι] {c : ι → ArenaConfig} {i : ι} {b b' : Backing ι}
    {H : Holding ι}
  {cache' : SlabCache} {answer' : Option Nat}

/-- A call of the cache that returned `r`. -/
structure Backing.Gives (c : ι → ArenaConfig) (i : ι) (g : Geometry) (H : Holding ι)
    (b : Backing ι) (r : Option Nat) (st' : SlabState) (b' : Backing ι) : Prop where
  good : st'.Good g
  inv : b'.Inv c (st'.holding i g + H)
  null : r = none → b' = b

theorem Backing.Gives.obtain_none (h : b.Inv c (st.holding i g + H)) (hst : st.Good g) :
    Backing.Gives c i g H b none (st.obtain none st.cache) b where
  good := hst.obtain_none
  inv := by
    rw [SlabState.holding, SlabState.blocks_obtain_none]
    exact h
  null := fun _ => rfl

/-- A slab from the memory that the cache had. -/
theorem Obtained.gives_same {G G' : Ghost} (ho : Obtained g st.cache G a cache' G')
    (hlive : G.live = st.live) (h : b.Inv c (st.holding i g + H))
    (horder : (cache'.slab a).order ≤ g.orderMax) (hmapped : cache'.mapped = st.cache.mapped) :
    Backing.Gives c i g H b (some a) (st.obtain (some a) cache') b where
  good := ho.good hlive
  inv := by
    rw [SlabState.holding, ho.blocks hlive, if_neg (by omega), zero_add]
    show b.Inv c ((Pi.single i cache'.mapped, st.blocks g) + H)
    rw [hmapped]
    exact h
  null := fun hnull => absurd hnull (Option.some_ne_none a)

/-- A slab from a new slab of the arena. -/
theorem Obtained.gives_slab {G G' : Ghost} (ho : Obtained g st.cache G a cache' G')
    (hlive : G.live = st.live) (h : b'.Inv c (.slab i m + (st.holding i g + H)))
    (horder : (cache'.slab a).order ≤ g.orderMax)
    (hmapped : cache'.mapped = {m} + st.cache.mapped) :
    Backing.Gives c i g H b (some a) (st.obtain (some a) cache') b' where
  good := ho.good hlive
  inv := by
    rw [SlabState.holding, ho.blocks hlive, if_neg (by omega)]
    have hsum : (Pi.single i cache'.mapped, 0 + st.blocks g) =
        Holding.slab i m + st.holding i g := by
      rw [Holding.slab, SlabState.holding, Prod.mk_add_mk, hmapped, Pi.single_add]
    show b'.Inv c ((Pi.single i cache'.mapped, 0 + st.blocks g) + H)
    rw [hsum, add_assoc]
    exact h
  null := fun hnull => absurd hnull (Option.some_ne_none a)

/-- A large slab from a new block. -/
theorem Obtained.gives_block {G G' : Ghost} (ho : Obtained g st.cache G a cache' G')
    (hlive : G.live = st.live) (h : b'.Inv c (.block a n + (st.holding i g + H)))
    (horder : (cache'.slab a).order = g.orderMax + 1) (hn : (cache'.slab a).size = n)
    (hmapped : cache'.mapped = st.cache.mapped) :
    Backing.Gives c i g H b (some a) (st.obtain (some a) cache') b' where
  good := ho.good hlive
  inv := by
    rw [SlabState.holding, ho.blocks hlive, if_pos horder, hn]
    have hsum : (Pi.single i cache'.mapped, {(a, n)} + st.blocks g) =
        Holding.block a n + st.holding i g := by
      rw [Holding.block, SlabState.holding, Prod.mk_add_mk, zero_add, hmapped]
    show b'.Inv c ((Pi.single i cache'.mapped, {(a, n)} + st.blocks g) + H)
    rw [hsum, add_assoc]
    exact h
  null := fun hnull => absurd hnull (Option.some_ne_none a)

/-- `slab_get_large`. -/
theorem Backing.Inv.getLarge (h : b.Inv c (st.holding i g + H)) (hst : st.Good g)
    (hsize : g.slabSize = (c i).slabSize) (hn : size + slabSizeof < quotaMax)
    (hanswer : ∀ a, answer = some a → b.FreshBlock c (size + slabSizeof) a)
    (hmalloc : b.malloc (size + slabSizeof) answer = some (answer', b'))
    (hget : SmallAllocators.slabGetLarge g st.cache size answer' = (r, cache')) :
    Backing.Gives c i g H b r (st.obtain r cache') b' := by
  have hpos : 1 ≤ size + slabSizeof := Nat.le_add_left_of_le (by decide)
  rcases Backing.malloc_cases h hpos hn hanswer hmalloc with ⟨rfl, rfl⟩ | ⟨a, rfl, hfresh, h'⟩
  · cases hget
    exact .obtain_none h hst
  · obtain ⟨G, hinv, hlive⟩ := hst
    have hmod : (size + slabSizeof) % sizeMax = size + slabSizeof :=
      Nat.mod_eq_of_lt (Nat.lt_trans hn (by decide))
    have hmalloc := (h.mallocAnswer h' hsize hpos hfresh).fresh hinv hlive
    rw [← hmod] at hmalloc
    obtain ⟨cache₁, G', heq, ho, -, horder, hbytes⟩ := slabGetLarge_spec hinv hmalloc
    rw [heq] at hget
    cases hget
    exact ho.gives_block hlive h' horder (hbytes.trans hmod) (slabGetLarge_calls heq).mapped

/-- `slab_get_with_order`, with the answer of the arena if the free lists are empty. -/
theorem Backing.Inv.getWithOrder {order : Nat} (h : b.Inv c (st.holding i g + H))
    (hst : st.Good g) (hsize : g.slabSize = (c i).slabSize) (horder : order ≤ g.orderMax)
    (hanswer : ∀ m, answer = some m → b.FreshSlab c i m)
    (hmap : (if slabFindMaps g st.cache order then b.map c i answer else some (none, b)) =
      some (answer', b'))
    (hget : slabGetWithOrder g st.cache order answer' = some (r, cache')) :
    Backing.Gives c i g H b r (st.obtain r cache') b' := by
  have hgood := hst
  obtain ⟨G, hinv, hlive⟩ := hst
  obtain ⟨hunmaps, hcalls⟩ := slabGetWithOrder_calls hget
  split at hmap
  · next hempty =>
    rw [if_pos hempty] at hcalls
    rcases Backing.map_cases h hanswer hmap with ⟨rfl, rfl⟩ | ⟨m, rfl, h'⟩
    · -- no memory, and no slab
      obtain rfl := hcalls.2.2 rfl
      rcases slabGetWithOrder_spec hinv horder (fun m (hm : none = some m) =>
          absurd hm.symm (Option.some_ne_none m)) with
        ⟨heq, -⟩ | ⟨a, c₁, G', heq, -⟩
      · rw [heq] at hget
        cases hget
        exact .obtain_none h hgood
      · rw [heq] at hget
        cases hget
    · have hfresh : ∀ m', some m = some m' → FreshRegion g st.cache G m' := by
        rintro m' ⟨⟩
        exact (h'.mapAnswer hsize).fresh hinv hlive
      rcases slabGetWithOrder_spec hinv horder hfresh with ⟨-, hnone, -⟩
        | ⟨a, c₁, G', heq, ho, -, hao⟩
      · cases hnone
      · rw [heq] at hget
        cases hget
        have hmapped := hinv.mapped_of_maps ho.inv hunmaps hcalls.1
        exact ho.gives_slab hlive h' (hao.trans_le horder) hmapped
  · next hhit =>
    -- a free list has a slab
    rw [if_neg hhit] at hcalls
    cases hmap
    rcases slabGetWithOrder_spec hinv horder (fun m (hm : none = some m) =>
        absurd hm.symm (Option.some_ne_none m)) with
      ⟨heq, -⟩ | ⟨a, c₁, G', heq, ho, -, hao⟩
    · rw [heq] at hget
      cases hget
      exact absurd rfl hcalls.2
    · rw [heq] at hget
      cases hget
      exact ho.gives_same hlive h (hao.trans_le horder)
        (SlabCache.SameCalls.mapped ⟨hcalls.1, hunmaps⟩)

/-- `slab_get`. -/
theorem Backing.Inv.get (h : b.Inv c (st.holding i g + H)) (hst : st.Good g)
    (hsize : g.slabSize = (c i).slabSize) (hn : size + slabSizeof < quotaMax)
    (hanswer : b.Answers c i (g.slabOrder (size + slabSizeof) = g.orderMax + 1)
      (size + slabSizeof) answer)
    (hget : b.slabGet c i g st.cache size answer = some (r, cache', b')) :
    Backing.Gives c i g H b r (st.obtain r cache') b' := by
  obtain ⟨⟨answer', b₁⟩, hmemory, hrest⟩ := Option.bind_eq_some_iff.1 hget
  obtain ⟨⟨r₁, cache₁⟩, hslab, hrest⟩ := Option.bind_eq_some_iff.1 hrest
  cases hrest
  have hmod : (size + slabSizeof) % sizeMax = size + slabSizeof :=
    Nat.mod_eq_of_lt (Nat.lt_trans hn (by decide))
  have hslab := slabGet_returned hslab
  rw [hmod] at hslab
  simp only [Backing.slabGetAnswer, hmod] at hmemory
  by_cases hlarge : g.slabOrder (size + slabSizeof) = g.orderMax + 1
  · rw [if_pos hlarge] at hslab hmemory
    exact h.getLarge hst hsize hn (fun a ha => (hanswer a ha).1 hlarge) hmemory
      (Option.some.inj hslab)
  · rw [if_neg hlarge] at hslab hmemory
    have hle := g.slabOrder_le (size + slabSizeof)
    exact h.getWithOrder hst hsize (by omega) (fun m hm => (hanswer m hm).2 hlarge) hmemory hslab

end Get

/-! ## `slab_put` -/

section Put

variable [DecidableEq ι] [Fintype ι] {c : ι → ArenaConfig} {i : ι} {b b' : Backing ι}
    {H : Holding ι}
  {cache cache' : SlabCache} {G G' : Ghost}

/-- The large slabs when a client puts its slab `a`. -/
theorem Released.blocks (hr : Released g st.cache G a cache' G') (hlive : G.live = st.live)
    (ha : a ∈ st.live) :
    st.blocks g = (if (st.cache.slab a).order = g.orderMax + 1 then {(a, (st.cache.slab a).size)}
        else 0) +
      SlabState.blocks g { cache := cache', live := st.live.erase a } := by
  refine SlabState.blocks_insert (insert_erase ha).symm (notMem_erase a st.live) fun x hx =>
    (hr.slab x ?_).symm
  rw [hr.live, hlive]
  exact hx

theorem Released.good (hr : Released g st.cache G a cache' G') (hlive : G.live = st.live) :
    SlabState.Good g { cache := cache', live := st.live.erase a } :=
  ⟨G', hr.inv, by rw [hr.live, hlive]⟩

theorem Backing.slabUnmapped_same (h : cache'.unmaps = cache.unmaps) :
    slabUnmapped cache cache' = [] := by
  rw [slabUnmapped, h, Nat.sub_self, List.take_zero]

theorem Backing.slabUnmapped_cons (h : cache'.unmaps = m :: cache.unmaps) :
    slabUnmapped cache cache' = [m] := by
  rw [slabUnmapped, h, List.length_cons, Nat.add_sub_cancel_left]
  rfl

/-- What a client puts goes back to where it came from. -/
theorem Backing.Inv.put (h : b.Inv c (st.holding i g + H)) (hst : st.Good g) (ha : a ∈ st.live) :
    ∃ cache' b', b.slabPut i g st.cache a = some (cache', b') ∧
      SlabState.Good g { cache := cache', live := st.live.erase a } ∧
      b'.Inv c (SlabState.holding i g { cache := cache', live := st.live.erase a } + H) := by
  obtain ⟨G, hinv, hlive⟩ := hst
  have haG : a ∈ G.live := hlive ▸ ha
  by_cases hle : (st.cache.slab a).order ≤ g.orderMax
  · obtain ⟨cache', G', hput, hr⟩ := slabPutWithOrder_spec hinv haG hle
    have hblocks := hr.blocks hlive ha
    rw [if_neg (by omega), zero_add] at hblocks
    rw [SlabState.holding, hblocks] at h
    obtain ⟨hmaps, hsame | ⟨m, hcons⟩⟩ := slabPutWithOrder_calls hput
    · -- the slab stays in the cache
      have hmapped : cache'.mapped = st.cache.mapped := SlabCache.SameCalls.mapped ⟨hmaps, hsame⟩
      refine ⟨cache', b, ?_, hr.good hlive, ?_⟩
      · simp [Backing.slabPut, if_pos hle, hput, Backing.slabUnmapped_same hsame, Backing.unmapAll]
      · rw [← hmapped] at h
        exact h
    · -- an arena slab is free again, and there was another one
      have hmapped := hinv.mapped_of_unmaps hr.inv hmaps hcons
      have hsum : (Pi.single i st.cache.mapped,
          SlabState.blocks g { cache := cache', live := st.live.erase a }) =
          Holding.slab i m + SlabState.holding i g
          { cache := cache', live := st.live.erase a } := by
        rw [Holding.slab, SlabState.holding, Prod.mk_add_mk, zero_add, hmapped,
          ← Multiset.singleton_add, Pi.single_add]
      rw [hsum, add_assoc] at h
      obtain ⟨b', hunmap, h'⟩ := h.unmap
      refine ⟨cache', b', ?_, hr.good hlive, h'⟩
      simp [Backing.slabPut, if_pos hle, hput, Backing.slabUnmapped_cons hcons,
        Backing.unmapAll, hunmap]
  · have hlarge : a ∈ G.large :=
      ((hinv.live a).1 haG).resolve_left fun ht => hle (hinv.order_le ht.1)
    obtain ⟨cache', G', hput, hr⟩ := slabPutLarge_spec hinv hlarge
    have hblocks := hr.blocks hlive ha
    rw [if_pos (hinv.alloc.largeOrder a hlarge)] at hblocks
    have hsum : st.holding i g = Holding.block a (st.cache.slab a).size +
        SlabState.holding i g { cache := cache', live := st.live.erase a } := by
      rw [Holding.block, SlabState.holding, hblocks, SlabState.holding, Prod.mk_add_mk, zero_add,
        (slabPutLarge_calls hput).mapped]
    rw [hsum, add_assoc] at h
    obtain ⟨b', hfree, h'⟩ := h.free
    refine ⟨cache', b', ?_, hr.good hlive, h'⟩
    simp [Backing.slabPut, if_neg hle, hput, hfree]

/-! ## What a client writes -/

theorem SlabState.Good.write (hst : st.Good g) (ha : a ∈ st.live) (mem : SlabCache) :
    SlabState.Good g { st with cache := clientWrite st.cache a mem } := by
  obtain ⟨G, hinv, hlive⟩ := hst
  exact ⟨G, hinv.clientWrite (hlive ▸ ha) mem, hlive⟩

/-- No header of another slab is in the bytes of a client. -/
theorem SlabState.Good.write_slab (hst : st.Good g) (ha : a ∈ st.live) (mem : SlabCache) {x : Nat}
    (hx : x ∈ st.live) :
    (clientWrite st.cache a mem).slab x = st.cache.slab x := by
  obtain ⟨G, hinv, hlive⟩ := hst
  rw [← hlive] at ha hx
  refine (clientWrite_overwritten st.cache a mem x fun hin => ?_).1
  have hnot : x ∉ G.tiles ∧ x ∉ G.large := by
    rcases (hinv.live a).1 ha with ⟨hat, -⟩ | hal
    · exact hinv.not_inside hat hin.1 hin.2
    · exact hinv.not_inside_large hal hin.1 hin.2
  rcases (hinv.live x).1 hx with ⟨hxt, -⟩ | hxl
  · exact hnot.1 hxt
  · exact hnot.2 hxl

omit [Fintype ι] in
theorem SlabState.Good.write_holding (hst : st.Good g) (ha : a ∈ st.live) (mem : SlabCache) :
    SlabState.holding i g { st with cache := clientWrite st.cache a mem } = st.holding i g := by
  have hlarge : SlabState.large g { st with cache := clientWrite st.cache a mem } = st.large g :=
    filter_congr fun x hx => by
      show ((clientWrite st.cache a mem).slab x).order = _ ↔ _
      rw [hst.write_slab ha mem hx]
  have hblocks :
      SlabState.blocks g { st with cache := clientWrite st.cache a mem } = st.blocks g := by
    rw [SlabState.blocks, hlarge]
    refine Multiset.map_congr rfl fun x hx => ?_
    show (x, ((clientWrite st.cache a mem).slab x).size) = _
    rw [hst.write_slab ha mem (mem_of_mem_filter x hx)]
  rw [SlabState.holding, hblocks]
  rfl

end Put

/-! ## `slab_cache_destroy` -/

section Destroy

variable [DecidableEq ι] {c : ι → ArenaConfig} {i : ι} {b b' : Backing ι} {H : Holding ι}
    {cache : SlabCache}
  {G : Ghost}

/-- The memory of a slab on the list of the cache. -/
def SlabCache.piece (i : ι) (g : Geometry) (cache : SlabCache) (a : Nat) : Holding ι :=
  if (cache.slab a).order = g.orderMax + 1 then .block a (cache.slab a).size else .slab i a

theorem sum_slab (i : ι) (T : Finset Nat) : ∑ a ∈ T, Holding.slab i a = (Pi.single i T.val, 0) := by
  induction T using Finset.induction_on with
  | empty =>
      rw [sum_empty, empty_val, Pi.single_zero]
      rfl
  | insert a T ha ih =>
      rw [sum_insert ha, ih, insert_val_of_notMem ha, ← Multiset.singleton_add, Pi.single_add]
      rfl

omit [DecidableEq ι] in
theorem sum_block (size : Nat → Nat) (T : Finset Nat) :
    (∑ a ∈ T, Holding.block a (size a) : Holding ι) = (0, T.val.map fun a => (a, size a)) := by
  induction T using Finset.induction_on with
  | empty => rfl
  | insert a T ha ih =>
      rw [sum_insert ha, ih, insert_val_of_notMem ha, Multiset.map_cons]
      rfl

/-- What the cache holds is on its list. -/
theorem SlabCache.Inv.holding_eq (h : st.cache.Inv g G ∅ ∅) (hlive : G.live = st.live) :
    st.holding i g = (G.allocated.map (st.cache.piece i g)).sum := by
  have hregions : ∑ a ∈ G.regions, st.cache.piece i g a = ∑ a ∈ G.regions, Holding.slab i a :=
    sum_congr rfl fun a ha => if_neg (h.region_order ha)
  have hlarge :
      ∑ a ∈ G.large, st.cache.piece i g a = ∑ a ∈ G.large, Holding.block a (st.cache.slab a).size :=
    sum_congr rfl fun a ha => if_pos (h.alloc.largeOrder a ha)
  have hset : st.large g = G.large := by
    have hset := h.large_eq
    rw [hlive] at hset
    exact hset
  rw [h.sum_allocated_eq, hregions, hlarge, sum_slab, sum_block, SlabState.holding,
    SlabState.blocks, hset, h.mapped, Prod.mk_add_mk, add_zero, zero_add]

variable [Fintype ι]

/-- The loop gives back each slab to where it came from. -/
theorem Backing.Inv.destroyLoop {xs : List Nat} (h : b.Inv c ((xs.map (cache.piece i g)).sum + H)) :
    ∃ b', b.slabCacheDestroyLoop i g cache xs = some b' ∧ b'.Inv c H := by
  induction xs generalizing b with
  | nil =>
      rw [List.map_nil, List.sum_nil, zero_add] at h
      exact ⟨b, rfl, h⟩
  | cons a xs ih =>
      rw [List.map_cons, List.sum_cons, add_assoc] at h
      by_cases horder : (cache.slab a).order = g.orderMax + 1
      · rw [SlabCache.piece, if_pos horder] at h
        obtain ⟨b₁, hfree, h₁⟩ := h.free
        obtain ⟨b', hloop, h'⟩ := ih h₁
        exact ⟨b', by simp [Backing.slabCacheDestroyLoop, horder, hfree, hloop], h'⟩
      · rw [SlabCache.piece, if_neg horder] at h
        obtain ⟨b₁, hunmap, h₁⟩ := h.unmap
        obtain ⟨b', hloop, h'⟩ := ih h₁
        exact ⟨b', by simp [Backing.slabCacheDestroyLoop, horder, hunmap, hloop], h'⟩

/-- The cache gives back all that it holds: a walk of the list that ends does so, and one with
enough fuel ends. -/
theorem Backing.Inv.cacheDestroy (h : b.Inv c (st.holding i g + H)) (hst : st.Good g) :
    ∃ b', b'.Inv c H ∧ (∀ fuel b'', b.slabCacheDestroy i g st.cache fuel = some b'' → b'' = b') ∧
      ∃ n, ∀ fuel, n < fuel → b.slabCacheDestroy i g st.cache fuel = some b' := by
  obtain ⟨G, hinv, hlive⟩ := hst
  rw [hinv.holding_eq hlive] at h
  obtain ⟨b', hloop, h'⟩ := h.destroyLoop
  refine ⟨b', h', fun fuel b'' hdestroy => ?_, G.allocated.length, fun fuel hfuel => ?_⟩
  · obtain ⟨nodes, hwalk, hrest⟩ := Option.bind_eq_some_iff.1 hdestroy
    obtain rfl := rlistForeach_ring hinv.alloc.ring hwalk
    rw [mapM_slabOfNode, Option.bind_eq_bind, Option.bind_some, hloop] at hrest
    exact (Option.some.inj hrest).symm
  · have hwalk := rlistForeach_eq fuel hinv.alloc.ring (by simpa using hfuel)
    rw [Backing.slabCacheDestroy, hwalk, Option.bind_eq_bind, Option.bind_some, mapM_slabOfNode,
      Option.bind_eq_bind, Option.bind_some, hloop]

end Destroy

end SmallAllocators
