/-
SmallAllocators.SlabCache.Transit — the small moves of the buddy system.

Every operation of the cache is a chain of moves on slabs in transit: a
free slab is taken from its list or put on it, its size is taken out of
the totals or billed again, it is split, merged with its buddy, or marked
used or free. Each theorem here says that one such move keeps the
invariant, and with which slabs in transit.
-/
import SmallAllocators.SlabCache.Invariant

namespace SmallAllocators

open Blocks

variable {g : Geometry} {c : SlabCache} {G : Ghost} {held unbilled : Finset Nat} {a b k : Nat}

/-- The ghost with another sequence on `orders[k]`. -/
def Ghost.setFree (G : Ghost) (k : Nat) (xs : List Nat) : Ghost :=
  { G with free := fun j => if j = k then xs else G.free j }

/-! ## Free lists -/

theorem SlabNode.slab_injective : Function.Injective SlabNode.slab := fun _ _ h => by
  simpa using h

theorem SlabCache.FreeLists.nodup (h : c.FreeLists g G held) (hk : k ≤ g.orderMax) :
    (G.free k).Nodup :=
  List.Nodup.of_map _ (h.ring k hk).nodup_tail

/-- A slab is on one free list only, as its order is one number. -/
theorem SlabCache.FreeLists.not_mem_other (h : c.FreeLists g G held) (hk : k ≤ g.orderMax)
    (ha : a ∈ G.free k) {j : Nat} (hj : j ≤ g.orderMax) (hjk : j ≠ k) : a ∉ G.free j := by
  intro haj
  exact hjk (((h.mem j hj a).mp haj).2.2.1.symm.trans ((h.mem k hk a).mp ha).2.2.1)

/-- Taking a slab from its free list. -/
theorem SlabCache.FreeLists.del (h : c.FreeLists g G held) (hk : k ≤ g.orderMax)
    (ha : a ∈ G.free k) :
    { c with nextInList := rlistDel c.nextInList (.slab a) }.FreeLists g
      (G.setFree k ((G.free k).erase a)) (insert a held) where
  ring := fun j hj => by
    by_cases hjk : j = k
    · subst hjk
      simp only [Ghost.setFree, if_true]
      rw [List.map_erase SlabNode.slab_injective]
      exact rlistDel_erase (h.ring j hj) (List.mem_map_of_mem ha)
    · simp only [Ghost.setFree, if_neg hjk]
      refine (h.ring j hj).congr fun y hy => rlistDel_same (h.ring k hk) (List.mem_map_of_mem ha) ?_
      intro hyk
      rw [List.mem_cons, List.mem_map] at hy hyk
      rcases hy with rfl | ⟨x, hx, rfl⟩
      · simp at hyk; exact hjk hyk
      · simp only [SlabNode.slab.injEq, exists_eq_right, reduceCtorEq, false_or] at hyk
        exact h.not_mem_other hk hyk hj hjk hx
  mem := fun j hj x => by
    by_cases hjk : j = k
    · subst hjk
      simp only [Ghost.setFree, if_true, (h.nodup hj).mem_erase_iff, h.mem j hj x,
        Finset.mem_insert, not_or]
      tauto
    · simp only [Ghost.setFree, if_neg hjk, h.mem j hj x, Finset.mem_insert, not_or]
      constructor
      · rintro ⟨h1, h2, h3, h4⟩
        refine ⟨h1, ⟨?_, h2⟩, h3, h4⟩
        rintro rfl
        exact hjk (h3.symm.trans ((h.mem k hk x).mp ha).2.2.1)
      · rintro ⟨h1, h2, h3, h4⟩
        exact ⟨h1, h2.2, h3, h4⟩

/-- Putting a slab in transit on the free list of its order. -/
theorem SlabCache.FreeLists.add (h : c.FreeLists g G held) (hk : k ≤ g.orderMax)
    (hat : a ∈ G.tiles) (hah : a ∈ held) (hao : (c.slab a).order = k) (hau : (c.slab a).inUse = 0) :
    { c with nextInList := rlistAdd c.nextInList (.orders k) (.slab a) }.FreeLists g
      (G.setFree k (a :: G.free k)) (held.erase a) where
  ring := fun j hj => by
    have hnot : ∀ i ≤ g.orderMax, SlabNode.slab a ∉ SlabNode.orders i :: (G.free i).map .slab := by
      intro i hi hmem
      simp only [List.mem_cons, reduceCtorEq, List.mem_map, SlabNode.slab.injEq, exists_eq_right,
        false_or] at hmem
      exact ((h.mem i hi a).mp hmem).2.1 hah
    by_cases hjk : j = k
    · subst hjk
      simp only [Ghost.setFree, if_true, List.map_cons]
      exact rlistAdd_ring (h.ring j hj) (hnot j hj)
    · simp only [Ghost.setFree, if_neg hjk]
      refine (h.ring j hj).congr fun y hy => rlistAdd_same (h.ring k hk) ?_ ?_ (by simp)
      · intro hyk
        rw [List.mem_cons, List.mem_map] at hy hyk
        rcases hy with rfl | ⟨x, hx, rfl⟩
        · simp at hyk; exact hjk hyk
        · simp only [SlabNode.slab.injEq, exists_eq_right, reduceCtorEq, false_or] at hyk
          exact h.not_mem_other hk hyk hj hjk hx
      · rintro rfl
        exact hnot j hj hy
  mem := fun j hj x => by
    by_cases hjk : j = k
    · subst hjk
      simp only [Ghost.setFree, if_true, List.mem_cons, h.mem j hj x, Finset.mem_erase, not_and_or,
        not_not]
      constructor
      · rintro (rfl | ⟨h1, h2, h3, h4⟩)
        · exact ⟨hat, Or.inl rfl, hao, hau⟩
        · exact ⟨h1, Or.inr h2, h3, h4⟩
      · rintro ⟨h1, h2 | h2, h3, h4⟩
        · exact Or.inl h2
        · exact Or.inr ⟨h1, h2, h3, h4⟩
    · simp only [Ghost.setFree, if_neg hjk, h.mem j hj x, Finset.mem_erase, not_and_or, not_not]
      constructor
      · rintro ⟨h1, h2, h3, h4⟩
        exact ⟨h1, Or.inr h2, h3, h4⟩
      · rintro ⟨h1, h2 | h2, h3, h4⟩
        · exact absurd (h3.symm.trans (h2 ▸ hao)) hjk
        · exact ⟨h1, h2, h3, h4⟩

/-- A free slab leaves its list and is in transit. -/
theorem SlabCache.Inv.takeFree (h : c.Inv g G held unbilled) (hk : k ≤ g.orderMax)
    (ha : a ∈ G.free k) :
    { c with nextInList := rlistDel c.nextInList (.slab a) }.Inv g
      (G.setFree k ((G.free k).erase a)) (insert a held) unbilled where
  tiles := ⟨h.tiles.tiling, h.tiles.magic, h.tiles.size, h.tiles.inUse⟩
  lists := h.lists.del hk ha
  alloc := ⟨h.alloc.ring, h.alloc.mem, h.alloc.largeMagic, h.alloc.largeOrder, h.alloc.outside,
    h.alloc.disjoint, h.alloc.maps, h.alloc.kept⟩
  stats := ⟨h.stats.total, h.stats.used, h.stats.allTotal, h.stats.allUsed⟩
  coalesced := by
    refine ⟨?_, ?_⟩
    · intro x hx y hy hxh hyh
      rw [Finset.mem_insert, not_or] at hxh hyh
      exact h.coalesced.buddies x hx y hy hxh.2 hyh.2
    · have hone := h.coalesced.maxOne
      by_cases hgk : g.orderMax = k
      · simp only [Ghost.setFree, if_pos hgk]
        rw [hgk] at hone
        exact (List.length_erase_le).trans hone
      · simp only [Ghost.setFree, if_neg hgk]
        exact hone
  live := h.live
  heldTiles := fun x hx => by
    rcases Finset.mem_insert.mp hx with rfl | hx
    · obtain ⟨h1, -, -, h4⟩ := (h.lists.mem k hk x).mp ha
      exact ⟨h1, h4⟩
    · exact h.heldTiles x hx
  unbilledHeld := h.unbilledHeld.trans (Finset.subset_insert a held)

/-- A slab in transit goes on its free list, if that makes no pair of free buddies and no second
free arena slab. -/
theorem SlabCache.Inv.addFree (h : c.Inv g G held unbilled) (hah : a ∈ held) (hau : a ∉ unbilled)
    (hao : (c.slab a).order = k) (hk : k ≤ g.orderMax)
    (hbud : ∀ x ∈ G.tiles, x ∉ held → (c.slab x).inUse = 0 → k < g.orderMax →
      (c.slab x).order = k → x ≠ buddy (c.exp g a) a)
    (hmax : k = g.orderMax → G.free k = []) :
    { c with nextInList := rlistAdd c.nextInList (.orders k) (.slab a) }.Inv g
      (G.setFree k (a :: G.free k)) (held.erase a) unbilled where
  tiles := ⟨h.tiles.tiling, h.tiles.magic, h.tiles.size, h.tiles.inUse⟩
  lists := h.lists.add hk (h.heldTiles a hah).1 hah hao (h.heldTiles a hah).2
  alloc := ⟨h.alloc.ring, h.alloc.mem, h.alloc.largeMagic, h.alloc.largeOrder, h.alloc.outside,
    h.alloc.disjoint, h.alloc.maps, h.alloc.kept⟩
  stats := ⟨h.stats.total, h.stats.used, h.stats.allTotal, h.stats.allUsed⟩
  coalesced := by
    refine ⟨?_, ?_⟩
    · intro x hx y hy hxh hyh hxu hyu hxo hyx
      rw [Finset.mem_erase, not_and_or, not_not] at hxh hyh
      rcases hxh with rfl | hxh
      · rcases hyh with rfl | hyh
        · exact fun he => buddy_ne _ _ he.symm
        · exact hbud y hy hyh hyu (hao ▸ hxo) (hyx.trans hao)
      · rcases hyh with rfl | hyh
        · -- the pair the other way round: the buddy relation is symmetric
          intro he
          have hyx' : (c.slab y).order = (c.slab x).order := hyx
          have hexp : c.exp g y = c.exp g x := by
            rw [SlabCache.exp, SlabCache.exp, hyx']
          have hxy : x = buddy (c.exp g y) y := by
            rw [hexp, show y = buddy (c.exp g x) x from he, buddy_buddy]
          exact hbud x hx hxh hxu (hao ▸ hyx' ▸ hxo) (hyx'.symm.trans hao) hxy
        · exact h.coalesced.buddies x hx y hy hxh hyh hxu hyu hxo hyx
    · by_cases hgk : g.orderMax = k
      · simp [Ghost.setFree, if_pos hgk, hmax hgk.symm]
      · simp only [Ghost.setFree, if_neg hgk]
        exact h.coalesced.maxOne
  live := h.live
  heldTiles := fun x hx => h.heldTiles x (Finset.mem_of_mem_erase hx)
  unbilledHeld := fun x hx => Finset.mem_erase.mpr ⟨fun he => hau (he ▸ hx), h.unbilledHeld hx⟩

/-! ## Totals -/

@[simp] theorem SlabCache.addTotal_slab (c : SlabCache) (k s : Nat) :
    (c.addTotal k s).slab = c.slab := rfl
@[simp] theorem SlabCache.subTotal_slab (c : SlabCache) (k s : Nat) :
    (c.subTotal k s).slab = c.slab := rfl

theorem SlabCache.addTotal_total (c : SlabCache) (k s j : Nat) :
    ((c.addTotal k s).orders j).total = (c.orders j).total + if j = k then s else 0 := by
  by_cases h : j = k <;> simp [SlabCache.addTotal, SlabCache.setOrder, h]

theorem SlabCache.subTotal_total (c : SlabCache) (k s j : Nat) :
    ((c.subTotal k s).orders j).total = (c.orders j).total - if j = k then s else 0 := by
  by_cases h : j = k <;> simp [SlabCache.subTotal, SlabCache.setOrder, h]

theorem SlabCache.addTotal_used (c : SlabCache) (k s j : Nat) :
    ((c.addTotal k s).orders j).used = (c.orders j).used := by
  by_cases h : j = k <;> simp [SlabCache.addTotal, SlabCache.setOrder, h]

theorem SlabCache.subTotal_used (c : SlabCache) (k s j : Nat) :
    ((c.subTotal k s).orders j).used = (c.orders j).used := by
  by_cases h : j = k <;> simp [SlabCache.subTotal, SlabCache.setOrder, h]

/-- A slab in transit is billed to its order. -/
theorem SlabCache.Inv.bill (h : c.Inv g G held unbilled) (ha : a ∈ unbilled) :
    (c.addTotal (c.slab a).order (c.slab a).size).Inv g G held (unbilled.erase a) where
  tiles := h.tiles.congr fun _ _ => rfl
  lists := h.lists.congr (fun _ _ => rfl) (fun _ _ => ⟨rfl, rfl⟩) (fun _ _ _ _ => ⟨rfl, rfl⟩)
  alloc := h.alloc.congr (fun _ _ => rfl) ⟨rfl, rfl⟩ (fun _ _ => ⟨rfl, rfl⟩) rfl rfl
  stats := by
    have hat : a ∈ G.tiles := (h.heldTiles a (h.unbilledHeld ha)).1
    refine ⟨?_, ?_, h.stats.allTotal, h.stats.allUsed⟩
    · intro k hk
      rw [addTotal_total, h.stats.total k hk]
      have hset : G.tiles \ unbilled.erase a = insert a (G.tiles \ unbilled) := by
        ext x
        simp only [Finset.mem_sdiff, Finset.mem_erase, Finset.mem_insert]
        by_cases hxa : x = a
        · simp [hxa, hat]
        · simp [hxa]
      rw [hset, Finset.sum_insert (by simp [ha]), add_comm]
      congr 1
      simp [SlabCache.bill, eq_comm]
    · intro k hk
      rw [addTotal_used]
      exact h.stats.used k hk
  coalesced := h.coalesced.congr fun _ _ => rfl
  live := h.live
  heldTiles := h.heldTiles
  unbilledHeld := (Finset.erase_subset a unbilled).trans h.unbilledHeld

/-- A slab in transit is taken out of the total of its order. -/
theorem SlabCache.Inv.unbill (h : c.Inv g G held unbilled) (hah : a ∈ held) (ha : a ∉ unbilled) :
    (c.subTotal (c.slab a).order (c.slab a).size).Inv g G held (insert a unbilled) where
  tiles := h.tiles.congr fun _ _ => rfl
  lists := h.lists.congr (fun _ _ => rfl) (fun _ _ => ⟨rfl, rfl⟩) (fun _ _ _ _ => ⟨rfl, rfl⟩)
  alloc := h.alloc.congr (fun _ _ => rfl) ⟨rfl, rfl⟩ (fun _ _ => ⟨rfl, rfl⟩) rfl rfl
  stats := by
    have hat : a ∈ G.tiles := (h.heldTiles a hah).1
    refine ⟨?_, ?_, h.stats.allTotal, h.stats.allUsed⟩
    · intro k hk
      rw [subTotal_total, h.stats.total k hk]
      have hmem : a ∈ G.tiles \ unbilled := Finset.mem_sdiff.mpr ⟨hat, ha⟩
      have hset : G.tiles \ insert a unbilled = (G.tiles \ unbilled).erase a := by
        ext x
        simp only [Finset.mem_sdiff, Finset.mem_erase, Finset.mem_insert]
        tauto
      have hbill : (if k = (c.slab a).order then (c.slab a).size else 0) = c.bill k a := by
        simp [SlabCache.bill, eq_comm]
      rw [hset, hbill, ← Finset.add_sum_erase _ (c.bill k) hmem, Nat.add_sub_cancel_left]
      exact Finset.sum_congr rfl fun _ _ => rfl
    · intro k hk
      rw [subTotal_used]
      exact h.stats.used k hk
  coalesced := h.coalesced.congr fun _ _ => rfl
  live := h.live
  heldTiles := h.heldTiles
  unbilledHeld := Finset.insert_subset hah h.unbilledHeld

/-- `slab_list_add` to `orders[k]`: the slab is billed and goes on the list. -/
theorem SlabCache.Inv.ordersAdd (h : c.Inv g G held unbilled) (hah : a ∈ held) (ha : a ∈ unbilled)
    (hao : (c.slab a).order = k) (hk : k ≤ g.orderMax)
    (hbud : ∀ x ∈ G.tiles, x ∉ held → (c.slab x).inUse = 0 → k < g.orderMax →
      (c.slab x).order = k → x ≠ buddy (c.exp g a) a)
    (hmax : k = g.orderMax → G.free k = []) :
    (c.ordersAdd k a).Inv g (G.setFree k (a :: G.free k)) (held.erase a) (unbilled.erase a) := by
  have := (h.bill ha).addFree hah (Finset.notMem_erase a unbilled) hao hk hbud hmax
  rwa [hao] at this

/-- `slab_list_del` from `orders[k]`: the slab leaves the list and the totals. -/
theorem SlabCache.Inv.ordersDel (h : c.Inv g G held unbilled) (hk : k ≤ g.orderMax)
    (ha : a ∈ G.free k) :
    (c.ordersDel k a).Inv g (G.setFree k ((G.free k).erase a)) (insert a held)
      (insert a unbilled) := by
  obtain ⟨-, hah, hao, -⟩ := (h.lists.mem k hk a).mp ha
  have := (h.takeFree hk ha).unbill (Finset.mem_insert_self a held) fun hu =>
    hah (h.unbilledHeld hu)
  simp only [hao] at this
  exact this

/-! ## Headers -/

theorem SlabCache.setSlab_slab (c : SlabCache) (a : Nat) (s : Slab) (x : Nat) :
    (c.setSlab a s).slab x = if x = a then s else c.slab x := rfl

theorem SlabCache.setSlab_self (c : SlabCache) (a : Nat) (s : Slab) :
    (c.setSlab a s).slab a = s := by
  simp [SlabCache.setSlab]

theorem SlabCache.setSlab_ne (c : SlabCache) {a x : Nat} (s : Slab) (hx : x ≠ a) :
    (c.setSlab a s).slab x = c.slab x := by
  simp [SlabCache.setSlab, hx]

/-- The parts about lists of allocated slabs and about large slabs read nothing else. -/
theorem SlabCache.Allocated.ghost {G' : Ghost} (h : c.Allocated g G) (hr : G'.regions = G.regions)
    (hl : G'.large = G.large) (ha : G'.allocated = G.allocated) : c.Allocated g G' where
  ring := ha ▸ h.ring
  mem := by rw [hr, hl, ha]; exact h.mem
  largeMagic := hl ▸ h.largeMagic
  largeOrder := hl ▸ h.largeOrder
  outside := by rw [hr, hl]; exact h.outside
  disjoint := hl ▸ h.disjoint
  maps := hr ▸ h.maps
  kept := hr ▸ h.kept

theorem SlabCache.Inv.order_le (h : c.Inv g G held unbilled) (ha : a ∈ G.tiles) :
    (c.slab a).order ≤ g.orderMax := by
  have := h.tiles.tiling.order_le a ha
  simp only [SlabCache.exp, Geometry.top] at this
  omega

/-- No slab starts inside another one. -/
theorem SlabCache.Inv.not_inside (h : c.Inv g G held unbilled) (ha : a ∈ G.tiles) {x : Nat}
    (hlt : a < x) (hx : x < a + (c.slab a).size) : x ∉ G.tiles ∧ x ∉ G.large := by
  have hin : InBlock (c.exp g a) a x := ⟨hlt.le, by rw [← h.tiles.size a ha]; exact hx⟩
  constructor
  · intro hxt
    have := h.tiles.tiling.unique a ha x hxt x hin (inBlock_self _ _)
    omega
  · intro hxl
    obtain ⟨m, hm, hall⟩ := h.tiles.tiling.block_inside ha
    exact h.alloc.outside x hxl x ⟨Nat.le_refl _, by omega⟩ m hm (hall x hin)

/-- The slabs in transit count for nothing in the sums over used slabs. -/
theorem sum_sdiff_held {f : Nat → Nat} (T : Finset Nat) (hz : ∀ x ∈ held, f x = 0) :
    ∑ x ∈ T, f x = ∑ x ∈ T \ held, f x := by
  refine (Finset.sum_subset Finset.sdiff_subset fun x hx hn => hz x ?_).symm
  by_contra hxh
  exact hn (Finset.mem_sdiff.mpr ⟨hx, hxh⟩)

/-- **The slabs in transit may be cut up differently.** Only their headers change, they stay out
of the totals, and together with the others they tile the same arena slabs again. -/
theorem SlabCache.Inv.retile (h : c.Inv g G held held) {c' : SlabCache} {T' held' : Finset Nat}
    (htil : Tiling T' (c'.exp g) g.top G.regions)
    (hhdr : ∀ x ∈ held', x ∈ T' ∧ (c'.slab x).magic = slabMagic ∧
      (c'.slab x).size = 2 ^ c'.exp g x ∧ (c'.slab x).inUse = 0)
    (hset : T' \ held' = G.tiles \ held)
    (hsame : ∀ x ∈ G.tiles \ held, c'.slab x = c.slab x)
    (hlarge : ∀ x ∈ G.large, c'.slab x = c.slab x)
    (hrest : c' = { c with slab := c'.slab }) :
    c'.Inv g { G with tiles := T' } held' held' := by
  have hmem : ∀ x, x ∈ T' → x ∉ held' → x ∈ G.tiles \ held := by
    intro x hx hxh
    rw [← hset]
    exact Finset.mem_sdiff.mpr ⟨hx, hxh⟩
  have hback : ∀ x, x ∈ G.tiles → x ∉ held → x ∈ T' ∧ x ∉ held' := by
    intro x hx hxh
    have : x ∈ T' \ held' := by rw [hset]; exact Finset.mem_sdiff.mpr ⟨hx, hxh⟩
    exact Finset.mem_sdiff.mp this
  have hz : ∀ x ∈ held, c.usedSize x = 0 := fun x hx => by
    simp [SlabCache.usedSize, (h.heldTiles x hx).2]
  have hz' : ∀ x ∈ held', c'.usedSize x = 0 := fun x hx => by
    simp [SlabCache.usedSize, (hhdr x hx).2.2.2]
  have hor : c'.orders = c.orders := by rw [hrest]
  have hal : c'.allocated = c.allocated := by rw [hrest]
  constructor
  case tiles =>
    refine ⟨htil, ?_, ?_, ?_⟩
    · intro x hx
      by_cases hxh : x ∈ held'
      · exact (hhdr x hxh).2.1
      · have hx' := hmem x hx hxh
        rw [hsame x hx']
        exact h.tiles.magic x (Finset.mem_sdiff.mp hx').1
    · intro x hx
      by_cases hxh : x ∈ held'
      · exact (hhdr x hxh).2.2.1
      · have hx' := hmem x hx hxh
        rw [exp_congr (hsame x hx'), hsame x hx']
        exact h.tiles.size x (Finset.mem_sdiff.mp hx').1
    · intro x hx
      by_cases hxh : x ∈ held'
      · exact Or.inl (hhdr x hxh).2.2.2
      · have hx' := hmem x hx hxh
        rw [hsame x hx']
        exact h.tiles.inUse x (Finset.mem_sdiff.mp hx').1
  case lists =>
    refine ⟨by rw [hrest]; exact h.lists.ring, ?_⟩
    intro k hk x
    rw [h.lists.mem k hk x]
    constructor
    · rintro ⟨h1, h2, h3, h4⟩
      obtain ⟨h5, h6⟩ := hback x h1 h2
      rw [hsame x (Finset.mem_sdiff.mpr ⟨h1, h2⟩)]
      exact ⟨h5, h6, h3, h4⟩
    · rintro ⟨h1, h2, h3, h4⟩
      have hx' := hmem x h1 h2
      rw [hsame x hx'] at h3 h4
      obtain ⟨h5, h6⟩ := Finset.mem_sdiff.mp hx'
      exact ⟨h5, h6, h3, h4⟩
  case alloc =>
    have hcache : c'.nextInCache = c.nextInCache := by rw [hrest]
    exact (h.alloc.congr hlarge (by rw [hcache]; exact ⟨rfl, rfl⟩)
      (fun _ _ => by rw [hcache]; exact ⟨rfl, rfl⟩) (by rw [hrest]) (by rw [hrest])).ghost
      rfl rfl rfl
  case stats =>
    refine ⟨?_, ?_, ?_, ?_⟩
    · intro k hk
      rw [hor, h.stats.total k hk, hset]
      exact Finset.sum_congr rfl fun x hx => (bill_congr (hsame x hx)).symm
    · intro k hk
      have hzk : ∀ x ∈ held, c.billUsed k x = 0 := fun x hx => by
        simp [SlabCache.billUsed, hz x hx]
      have hzk' : ∀ x ∈ held', c'.billUsed k x = 0 := fun x hx => by
        simp [SlabCache.billUsed, hz' x hx]
      rw [hor, h.stats.used k hk, sum_sdiff_held G.tiles hzk, sum_sdiff_held T' hzk', hset]
      exact Finset.sum_congr rfl fun x hx => (billUsed_congr (hsame x hx)).symm
    · rw [hal, h.stats.allTotal]
      congr 1
      exact Finset.sum_congr rfl fun x hx => by rw [hlarge x hx]
    · rw [hal, h.stats.allUsed, sum_sdiff_held G.tiles hz, sum_sdiff_held T' hz', hset]
      congr 1
      · exact Finset.sum_congr rfl fun x hx => (usedSize_congr (hsame x hx)).symm
      · exact Finset.sum_congr rfl fun x hx => by rw [hlarge x hx]
  case coalesced =>
    refine ⟨?_, h.coalesced.maxOne⟩
    intro x hx y hy hxh hyh
    have hx' := hmem x hx hxh
    have hy' := hmem y hy hyh
    rw [hsame x hx', hsame y hy', exp_congr (hsame x hx')]
    exact h.coalesced.buddies x (Finset.mem_sdiff.mp hx').1 y (Finset.mem_sdiff.mp hy').1
      (Finset.mem_sdiff.mp hx').2 (Finset.mem_sdiff.mp hy').2
  case live =>
    intro x
    rw [h.live x]
    refine or_congr_left ?_
    constructor
    · rintro ⟨h1, h2⟩
      have hxh : x ∉ held := fun hxh => h2 (h.heldTiles x hxh).2
      exact ⟨(hback x h1 hxh).1, by rw [hsame x (Finset.mem_sdiff.mpr ⟨h1, hxh⟩)]; exact h2⟩
    · rintro ⟨h1, h2⟩
      have hxh : x ∉ held' := fun hxh => h2 (hhdr x hxh).2.2.2
      have hx' := hmem x h1 hxh
      exact ⟨(Finset.mem_sdiff.mp hx').1, by rw [← hsame x hx']; exact h2⟩
  case heldTiles =>
    intro x hx
    exact ⟨(hhdr x hx).1, (hhdr x hx).2.2.2⟩
  case unbilledHeld => exact Finset.Subset.refl held'

/-- The header part of `slab_split`: a slab in transit is cut in two, both in transit. -/
theorem SlabCache.Inv.cut (h : c.Inv g G {a} {a}) {i : Nat} (hi : (c.slab a).order = i + 1)
    (hb : b = a + 2 ^ (i + g.order0SizeLb)) :
    (slabCreate (slabCreate c a i (g.slabOrderSize i)) b i (g.slabOrderSize i)).Inv g
      { G with tiles := insert b G.tiles } {a, b} {a, b} := by
  have hat := (h.heldTiles a (Finset.mem_singleton_self a)).1
  have hexp : c.exp g a = i + g.order0SizeLb + 1 := by
    rw [SlabCache.exp, hi]; omega
  have hpos := Nat.two_pow_pos (i + g.order0SizeLb)
  have hba : b ≠ a := by omega
  obtain ⟨hbt, hbl⟩ : b ∉ G.tiles ∧ b ∉ G.large := by
    refine h.not_inside hat (by omega) ?_
    rw [h.tiles.size a hat, hexp, Nat.pow_succ]
    omega
  have hal : a ∉ G.large := fun hl => h.large_not_tile hl hat
  set c' := slabCreate (slabCreate c a i (g.slabOrderSize i)) b i (g.slabOrderSize i) with hc'
  have hsb : c'.slab b =
      { magic := slabMagic, order := i, inUse := 0, size := g.slabOrderSize i } :=
    setSlab_self _ _ _
  have hsa : c'.slab a =
      { magic := slabMagic, order := i, inUse := 0, size := g.slabOrderSize i } := by
    rw [hc', slabCreate, setSlab_ne _ _ hba.symm, slabCreate, setSlab_self]
  have hsx : ∀ x, x ≠ a → x ≠ b → c'.slab x = c.slab x := by
    intro x hxa hxb
    rw [hc', slabCreate, setSlab_ne _ _ hxb, slabCreate, setSlab_ne _ _ hxa]
  have hst : ∀ x ∈ G.tiles, x ≠ a → c'.slab x = c.slab x := fun x hx hxa =>
    hsx x hxa fun he => hbt (he ▸ hx)
  refine h.retile ?_ ?_ ?_ ?_ ?_ rfl
  · rw [hb]
    refine h.tiles.tiling.split hat hexp ?_ ?_ fun x hx hxa => exp_congr (hst x hx hxa)
    · rw [SlabCache.exp, hsa]
    · rw [← hb, SlabCache.exp, hsb]
  · intro x hx
    rw [Finset.mem_insert, Finset.mem_singleton] at hx
    rcases hx with rfl | rfl
    · rw [SlabCache.exp, hsa]
      exact ⟨Finset.mem_insert_of_mem hat, rfl, g.slabOrderSize_eq i, rfl⟩
    · rw [SlabCache.exp, hsb]
      exact ⟨Finset.mem_insert_self _ _, rfl, g.slabOrderSize_eq i, rfl⟩
  · ext x
    simp only [Finset.mem_sdiff, Finset.mem_insert, Finset.mem_singleton, not_or]
    constructor
    · rintro ⟨h1, h2, h3⟩
      exact ⟨h1.resolve_left h3, h2⟩
    · rintro ⟨h1, h2⟩
      exact ⟨Or.inr h1, h2, fun he => hbt (he ▸ h1)⟩
  · intro x hx
    rw [Finset.mem_sdiff, Finset.mem_singleton] at hx
    exact hst x hx.1 hx.2
  · intro x hx
    exact hsx x (fun he => hal (he ▸ hx)) (fun he => hbl (he ▸ hx))

/-- The header part of `slab_merge`: two buddies in transit become one slab in transit. -/
theorem SlabCache.Inv.join (h : c.Inv g G {a, b} {a, b}) (hb : b = buddy (c.exp g a) a)
    (hlt : (c.slab a).order < g.orderMax) (hob : (c.slab b).order = (c.slab a).order)
    {c' : SlabCache}
    (hc' : c' = c.setSlab (min a b) { c.slab (min a b) with
      order := (c.slab a).order + 1, size := g.slabOrderSize ((c.slab a).order + 1) }) :
    c'.Inv g { G with tiles := G.tiles.erase (max a b) } {min a b} {min a b} := by
  have hat := (h.heldTiles a (by simp)).1
  have hbt := (h.heldTiles b (by simp)).1
  have hba : b ≠ a := by rw [hb]; exact buddy_ne _ _
  set p := min a b with hp
  have hpt : p ∈ G.tiles ∧ (c.slab p).inUse = 0 :=
    h.heldTiles p (by rcases min_choice a b with h' | h' <;> rw [hp, h'] <;> simp)
  have hsp : c'.slab p = { c.slab p with
      order := (c.slab a).order + 1, size := g.slabOrderSize ((c.slab a).order + 1) } := by
    rw [hc', setSlab_self]
  have hsx : ∀ x, x ≠ p → c'.slab x = c.slab x := by
    intro x hx
    rw [hc', setSlab_ne _ _ hx]
  have hexpp : c'.exp g p = c.exp g a + 1 := by
    rw [SlabCache.exp, hsp, SlabCache.exp]
    simp only
    omega
  refine h.retile ?_ ?_ ?_ ?_ ?_ (by rw [hc']; rfl)
  · have hmb : buddy (c.exp g a) a ∈ G.tiles := hb ▸ hbt
    have hlt' : c.exp g a < g.top := by
      simp only [SlabCache.exp, Geometry.top]; omega
    have hexb : c.exp g (buddy (c.exp g a) a) = c.exp g a := by
      rw [← hb, SlabCache.exp, hob, SlabCache.exp]
    have hexm : c'.exp g (min a (buddy (c.exp g a) a)) = c.exp g a + 1 := by
      rw [← hb]; exact hexpp
    have := h.tiles.tiling.merge hat rfl hlt' hmb hexb hexm
      (fun x _ hxa hxb => exp_congr (hsx x (by rw [← hb] at hxb; omega)))
    rwa [← hb] at this
  · intro x hx
    rw [Finset.mem_singleton] at hx
    subst hx
    rw [hexpp, hsp]
    refine ⟨Finset.mem_erase.mpr ⟨by omega, hpt.1⟩, h.tiles.magic p hpt.1, ?_, hpt.2⟩
    simp only [Geometry.slabOrderSize_eq, SlabCache.exp]
    congr 1
    omega
  · ext x
    simp only [Finset.mem_sdiff, Finset.mem_erase, Finset.mem_singleton, Finset.mem_insert, not_or]
    constructor
    · rintro ⟨⟨h1, h2⟩, h3⟩
      exact ⟨h2, by omega, by omega⟩
    · rintro ⟨h1, h2, h3⟩
      exact ⟨⟨by omega, h1⟩, by omega⟩
  · intro x hx
    simp only [Finset.mem_sdiff, Finset.mem_singleton, Finset.mem_insert, not_or] at hx
    exact hsx x (by omega)
  · intro x hx
    exact hsx x fun he => h.large_not_tile hx (he ▸ hpt.1)

/-! ## Handing out and taking back -/

/-- `c'` is `c` with the slab `a`, free in `c`, marked as used and counted as such. -/
structure SlabCache.MarkedUsed (c c' : SlabCache) (a : Nat) : Prop where
  slab : ∀ x, c'.slab x = if x = a then { c.slab a with inUse := (c.slab a).order + 1 }
    else c.slab x
  free : (c.slab a).inUse = 0
  inCache : c'.nextInCache = c.nextInCache
  inList : c'.nextInList = c.nextInList
  allocated : c'.allocated = { c.allocated with used := c.allocated.used + (c.slab a).size }
  total : ∀ k, (c'.orders k).total = (c.orders k).total
  used : ∀ k, (c'.orders k).used = (c.orders k).used + c.bill k a
  maps : c'.maps = c.maps
  unmaps : c'.unmaps = c.unmaps

namespace SlabCache.MarkedUsed

variable {c' : SlabCache} (hm : c.MarkedUsed c' a)

include hm

theorem slab_ne {x : Nat} (hx : x ≠ a) : c'.slab x = c.slab x := by
  rw [hm.slab, if_neg hx]

theorem order (x : Nat) : (c'.slab x).order = (c.slab x).order := by
  rw [hm.slab]; split <;> simp_all

theorem size (x : Nat) : (c'.slab x).size = (c.slab x).size := by
  rw [hm.slab]; split <;> simp_all

theorem magic (x : Nat) : (c'.slab x).magic = (c.slab x).magic := by
  rw [hm.slab]; split <;> simp_all

theorem inUse : (c'.slab a).inUse = (c.slab a).order + 1 := by
  rw [hm.slab, if_pos rfl]

theorem exp (x : Nat) : c'.exp g x = c.exp g x := by
  rw [SlabCache.exp, hm.order, SlabCache.exp]

theorem usedSize (x : Nat) :
    c'.usedSize x = c.usedSize x + if x = a then (c.slab a).size else 0 := by
  by_cases hx : x = a
  · subst hx
    simp [SlabCache.usedSize, hm.inUse, hm.free, hm.size]
  · simp [SlabCache.usedSize, hm.slab_ne hx, hx]

theorem billUsed (k x : Nat) :
    c'.billUsed k x = c.billUsed k x + if x = a then c.bill k a else 0 := by
  rw [SlabCache.billUsed, hm.order, hm.usedSize, SlabCache.billUsed, SlabCache.bill]
  by_cases hx : x = a
  · subst hx
    by_cases hk : (c.slab x).order = k <;> simp [hk]
  · simp [hx]

theorem tiles_iff : c.Tiles g G ↔
    c'.Tiles g { G with live := insert a G.live } := by
  have hin : ∀ x, (c.slab x).inUse = 0 ∨ (c.slab x).inUse = (c.slab x).order + 1 ↔
      (c'.slab x).inUse = 0 ∨ (c'.slab x).inUse = (c'.slab x).order + 1 := by
    intro x
    by_cases hx : x = a
    · rw [hx, hm.order, hm.inUse, hm.free]; simp
    · rw [hm.slab_ne hx]
  constructor
  · intro h
    exact ⟨h.tiling.congr fun x _ => hm.exp x, fun x hx => (hm.magic x).trans (h.magic x hx),
      fun x hx => by rw [hm.size, hm.exp]; exact h.size x hx, fun x hx => (hin x).mp (h.inUse x hx)⟩
  · intro h
    exact ⟨h.tiling.congr fun x _ => (hm.exp x).symm,
      fun x hx => (hm.magic x).symm.trans (h.magic x hx),
      fun x hx => by rw [← hm.size, ← hm.exp]; exact h.size x hx,
      fun x hx => (hin x).mpr (h.inUse x hx)⟩

theorem freeLists_iff : c.FreeLists g G (insert a held) ↔
    c'.FreeLists g { G with live := insert a G.live } held := by
  have hx : ∀ k x, (x ∈ G.tiles ∧ x ∉ insert a held ∧ (c.slab x).order = k ∧ (c.slab x).inUse = 0) ↔
      (x ∈ G.tiles ∧ x ∉ held ∧ (c'.slab x).order = k ∧ (c'.slab x).inUse = 0) := by
    intro k x
    by_cases hx : x = a
    · subst hx; simp [hm.inUse]
    · simp [hm.slab_ne hx, hx]
  constructor
  · intro h
    exact ⟨by rw [hm.inList]; exact h.ring, fun k hk x => (h.mem k hk x).trans (hx k x)⟩
  · intro h
    exact ⟨by rw [← hm.inList]; exact h.ring, fun k hk x => (h.mem k hk x).trans (hx k x).symm⟩

theorem allocated_iff (hal : a ∉ G.large) : c.Allocated g G ↔
    c'.Allocated g { G with live := insert a G.live } := by
  have hsl : ∀ x ∈ G.large, c'.slab x = c.slab x := fun x hx =>
    hm.slab_ne fun he => hal (he ▸ hx)
  constructor
  · intro h
    exact (h.congr hsl (by rw [hm.inCache]; exact ⟨rfl, rfl⟩)
      (fun _ _ => by rw [hm.inCache]; exact ⟨rfl, rfl⟩) hm.maps hm.unmaps).ghost rfl rfl rfl
  · intro h
    exact (h.congr (fun x hx => (hsl x hx).symm) (by rw [hm.inCache]; exact ⟨rfl, rfl⟩)
      (fun _ _ => by rw [hm.inCache]; exact ⟨rfl, rfl⟩) hm.maps.symm hm.unmaps.symm).ghost
      rfl rfl rfl

theorem stats_iff (hat : a ∈ G.tiles) : c.Stats g G unbilled ↔
    c'.Stats g { G with live := insert a G.live } unbilled := by
  have h1 : ∀ k, ∑ x ∈ G.tiles \ unbilled, c'.bill k x = ∑ x ∈ G.tiles \ unbilled, c.bill k x :=
    fun k => Finset.sum_congr rfl fun x _ => by
      rw [SlabCache.bill, SlabCache.bill, hm.order, hm.size]
  have h2 : ∀ k, ∑ x ∈ G.tiles, c'.billUsed k x = ∑ x ∈ G.tiles, c.billUsed k x + c.bill k a := by
    intro k
    rw [Finset.sum_congr rfl fun x _ => hm.billUsed k x, Finset.sum_add_distrib,
      Finset.sum_ite_eq' G.tiles a, if_pos hat]
  have h3 : ∑ x ∈ G.tiles, c'.usedSize x = ∑ x ∈ G.tiles, c.usedSize x + (c.slab a).size := by
    rw [Finset.sum_congr rfl fun x _ => hm.usedSize x, Finset.sum_add_distrib,
      Finset.sum_ite_eq' G.tiles a, if_pos hat]
  have h4 : ∑ x ∈ G.large, (c'.slab x).size = ∑ x ∈ G.large, (c.slab x).size :=
    Finset.sum_congr rfl fun x _ => hm.size x
  constructor
  · intro h
    refine ⟨fun k hk => ?_, fun k hk => ?_, ?_, ?_⟩
    · rw [hm.total, h1]; exact h.total k hk
    · rw [hm.used, h2, h.used k hk]
    · rw [hm.allocated, h4]; exact h.allTotal
    · rw [hm.allocated, h3, h4]
      simp only [h.allUsed]
      omega
  · intro h
    refine ⟨fun k hk => ?_, fun k hk => ?_, ?_, ?_⟩
    · rw [← hm.total, ← h1]; exact h.total k hk
    · have := h.used k hk
      rw [hm.used, h2] at this
      omega
    · have := h.allTotal
      rw [hm.allocated, h4] at this
      exact this
    · have := h.allUsed
      rw [hm.allocated, h3, h4] at this
      simp only at this
      omega

theorem coalesced_iff : c.Coalesced g G (insert a held) ↔
    c'.Coalesced g { G with live := insert a G.live } held := by
  constructor
  · intro h
    refine ⟨fun x hx y hy hxh hyh hxu hyu => ?_, h.maxOne⟩
    have hxa : x ≠ a := by rintro rfl; rw [hm.inUse] at hxu; omega
    have hya : y ≠ a := by rintro rfl; rw [hm.inUse] at hyu; omega
    rw [hm.slab_ne hxa] at hxu ⊢
    rw [hm.slab_ne hya] at hyu ⊢
    rw [hm.exp]
    exact h.buddies x hx y hy (by simp [hxa, hxh]) (by simp [hya, hyh]) hxu hyu
  · intro h
    refine ⟨fun x hx y hy hxh hyh => ?_, h.maxOne⟩
    rw [Finset.mem_insert, not_or] at hxh hyh
    have := h.buddies x hx y hy hxh.2 hyh.2
    rwa [hm.slab_ne hxh.1, hm.slab_ne hyh.1, hm.exp] at this

theorem live_iff (hat : a ∈ G.tiles) (hal : a ∉ G.large) (hlv : a ∉ G.live) :
    (∀ x, x ∈ G.live ↔ (x ∈ G.tiles ∧ (c.slab x).inUse ≠ 0) ∨ x ∈ G.large) ↔
      ∀ x, x ∈ insert a G.live ↔ (x ∈ G.tiles ∧ (c'.slab x).inUse ≠ 0) ∨ x ∈ G.large := by
  refine forall_congr' fun x => ?_
  by_cases hx : x = a
  · subst hx; simp [hm.inUse, hm.free, hat, hlv, hal]
  · simp [hm.slab_ne hx, hx]

/-- A slab in transit and a slab in use are the same to the invariant, up to the counters. -/
theorem inv_iff (hat : a ∈ G.tiles) (hal : a ∉ G.large) (hah : a ∉ held) (hau : a ∉ unbilled)
    (hlv : a ∉ G.live) :
    c.Inv g G (insert a held) unbilled ↔
      c'.Inv g { G with live := insert a G.live } held unbilled := by
  constructor
  · intro h
    refine ⟨hm.tiles_iff.mp h.tiles, hm.freeLists_iff.mp h.lists, (hm.allocated_iff hal).mp h.alloc,
      (hm.stats_iff hat).mp h.stats, hm.coalesced_iff.mp h.coalesced,
      (hm.live_iff hat hal hlv).mp h.live, fun x hx => ?_, fun x hx => ?_⟩
    · have hxa : x ≠ a := fun he => hah (he ▸ hx)
      rw [hm.slab_ne hxa]
      exact h.heldTiles x (Finset.mem_insert_of_mem hx)
    · exact (Finset.mem_insert.mp (h.unbilledHeld hx)).resolve_left fun he => hau (he ▸ hx)
  · intro h
    refine ⟨hm.tiles_iff.mpr h.tiles, hm.freeLists_iff.mpr h.lists,
      (hm.allocated_iff hal).mpr h.alloc,
      (hm.stats_iff hat).mpr h.stats, hm.coalesced_iff.mpr h.coalesced,
      (hm.live_iff hat hal hlv).mpr h.live, fun x hx => ?_, fun x hx => ?_⟩
    · by_cases hxa : x = a
      · rw [hxa]; exact ⟨hat, hm.free⟩
      · have := h.heldTiles x ((Finset.mem_insert.mp hx).resolve_left hxa)
        rwa [hm.slab_ne hxa] at this
    · exact Finset.mem_insert_of_mem (h.unbilledHeld hx)

end SlabCache.MarkedUsed

/-- A slab in transit is handed out. -/
theorem SlabCache.Inv.setUsed (h : c.Inv g G {a} ∅) :
    (slabSetUsed c a).Inv g { G with live := insert a G.live } ∅ ∅ := by
  obtain ⟨hat, ha0⟩ := h.heldTiles a (Finset.mem_singleton_self a)
  have hal : a ∉ G.large := fun hl => h.large_not_tile hl hat
  have hlv : a ∉ G.live := by simp [h.live a, ha0, hal]
  have hm : c.MarkedUsed (slabSetUsed c a) a := by
    refine ⟨fun x => ?_, ha0, rfl, rfl, rfl, fun k => ?_, fun k => ?_, rfl, rfl⟩
    · simp only [slabSetUsed, setSlab_slab, Nat.add_comm 1]
      rfl
    · simp only [slabSetUsed, SlabCache.setSlab, SlabCache.setOrder]
      split <;> simp_all
    · simp only [slabSetUsed, SlabCache.setSlab, SlabCache.setOrder, SlabCache.bill]
      by_cases hk : k = (c.slab a).order
      · simp [hk]
      · simp [hk, Ne.symm hk]
  exact (hm.inv_iff hat hal (by simp) (by simp) hlv).mp h

/-- A slab that a client had is in transit. -/
theorem SlabCache.Inv.setFree (h : c.Inv g G ∅ ∅) (hat : a ∈ G.tiles)
    (hau : (c.slab a).inUse ≠ 0) :
    ∃ c', slabSetFree c a = some c' ∧ c'.slab a = { c.slab a with inUse := 0 } ∧
      c'.Inv g { G with live := G.live.erase a } {a} ∅ := by
  have hiu : (c.slab a).inUse = (c.slab a).order + 1 := (h.tiles.inUse a hat).resolve_left hau
  have hal : a ∉ G.large := fun hl => h.large_not_tile hl hat
  have hlv : a ∈ G.live := (h.live a).mpr (Or.inl ⟨hat, hau⟩)
  refine ⟨_, by simp only [slabSetFree, hiu, guard, if_true]; rfl, setSlab_self _ _ _, ?_⟩
  set c' : SlabCache := SlabCache.setSlab _ _ _ with hc'
  have hsa : c'.slab a = { c.slab a with inUse := 0 } := setSlab_self _ _ _
  -- the counters of used slabs were at least the size of this one
  have hbig : (c.slab a).size ≤ c.allocated.used := by
    rw [h.stats.allUsed]
    have := Finset.single_le_sum (f := c.usedSize) (fun _ _ => Nat.zero_le _) hat
    simp only [SlabCache.usedSize, hau, if_false] at this
    exact this.trans (Nat.le_add_right _ _)
  have hbigk : (c.slab a).size ≤ (c.orders (c.slab a).order).used := by
    rw [h.stats.used _ (h.order_le hat)]
    have := Finset.single_le_sum (f := c.billUsed (c.slab a).order) (fun _ _ => Nat.zero_le _) hat
    simp only [SlabCache.billUsed, SlabCache.usedSize, hau, if_true, if_false] at this
    exact this
  have hm : c'.MarkedUsed c a := by
    refine ⟨fun x => ?_, by rw [hsa], rfl, rfl, ?_, fun k => ?_, fun k => ?_, rfl, rfl⟩
    · by_cases hx : x = a
      · rw [if_pos hx, hsa, hx, ← hiu]
      · rw [if_neg hx, hc', setSlab_ne _ _ hx]
        rfl
    · rw [hsa]
      simp only [hc', SlabCache.setSlab, SlabCache.setOrder]
      rw [Nat.sub_add_cancel hbig]
    · simp only [hc', SlabCache.setSlab, SlabCache.setOrder]
      split <;> simp_all
    · simp only [SlabCache.bill, hsa]
      simp only [hc', SlabCache.setSlab, SlabCache.setOrder]
      by_cases hk : k = (c.slab a).order
      · subst hk; simp [Nat.sub_add_cancel hbigk]
      · simp [hk, Ne.symm hk]
  have hiff : c'.Inv g { G with live := G.live.erase a } (insert a ∅) ∅ ↔
      c.Inv g { G with live := insert a (G.live.erase a) } ∅ ∅ :=
    hm.inv_iff hat hal (by simp) (by simp) (by simp)
  rw [Finset.insert_erase hlv] at hiff
  exact hiff.mpr h

/-! ## Memory that is not a header -/

/-- `c'` is `c` with other contents in the cells at the addresses `S`. -/
structure SlabCache.Overwritten (c c' : SlabCache) (S : Nat → Prop) : Prop where
  slab : ∀ x, ¬ S x → c'.slab x = c.slab x
  inCache : ∀ n, (∀ x, n = .slab x → ¬ S x) → c.nextInCache.SameAt c'.nextInCache n
  inList : ∀ n, (∀ x, n = .slab x → ¬ S x) → c.nextInList.SameAt c'.nextInList n
  allocated : c'.allocated = c.allocated
  orders : c'.orders = c.orders
  maps : c'.maps = c.maps
  unmaps : c'.unmaps = c.unmaps

/-- Writing where no slab starts does not concern the cache. -/
theorem SlabCache.Inv.overwrite (h : c.Inv g G held unbilled) {c' : SlabCache} {S : Nat → Prop}
    (ho : c.Overwritten c' S) (hS : ∀ x, S x → x ∉ G.tiles ∧ x ∉ G.large) :
    c'.Inv g G held unbilled := by
  have hregion : ∀ x ∈ G.allocated, ¬ S x := by
    intro x hx hSx
    rcases (h.alloc.mem x).mp hx with hr | hl
    · exact (hS x hSx).1 (h.region_tile hr)
    · exact (hS x hSx).2 hl
  refine h.frame (fun x hx => ho.slab x fun hSx => (hS x hSx).1 hx)
    (fun x hx => ho.slab x fun hSx => (hS x hSx).2 hx)
    (fun k _ => ho.inList _ (by simp)) (fun x hx _ _ => ho.inList _ ?_) (ho.inCache _ (by simp))
    (fun x hx => ho.inCache _ ?_) ho.maps ho.unmaps ho.allocated ho.orders
  · intro y hy hSy
    rw [SlabNode.slab.injEq] at hy
    exact (hS y hSy).1 (hy ▸ hx)
  · intro y hy hSy
    rw [SlabNode.slab.injEq] at hy
    exact hregion y (hy ▸ hx) hSy

theorem slabPoison_overwritten (c : SlabCache) (a : Nat) :
    c.Overwritten (slabPoison c a) fun x => a + slabSizeof ≤ x ∧ x < a + (c.slab a).size := by
  refine ⟨fun x hx => ?_, fun n hn => ?_, fun n hn => ?_, rfl, rfl, rfl, rfl⟩
  · simp only [slabPoison]
    rw [if_neg (by simpa using hx)]
  · cases n with
    | slab x =>
        have := hn x rfl
        constructor <;> simp only [slabPoison] <;> rw [if_neg (by simpa using this)]
    | _ => exact ⟨rfl, rfl⟩
  · cases n with
    | slab x =>
        have := hn x rfl
        constructor <;> simp only [slabPoison] <;> rw [if_neg (by simpa using this)]
    | _ => exact ⟨rfl, rfl⟩

/-- Poisoning a slab leaves its own header alone. -/
theorem slabPoison_slab_self (c : SlabCache) (a : Nat) : (slabPoison c a).slab a = c.slab a :=
  (slabPoison_overwritten c a).slab a (by simp [slabSizeof])

theorem SlabCache.Inv.poison (h : c.Inv g G held unbilled) (ha : a ∈ G.tiles) :
    (slabPoison c a).Inv g G held unbilled := by
  refine h.overwrite (slabPoison_overwritten c a) ?_
  rintro x ⟨h1, h2⟩
  exact h.not_inside ha (by simp only [slabSizeof] at h1; omega) h2

/-! ## Whole arena slabs and large slabs -/

def Ghost.addRegion (G : Ghost) (m : Nat) : Ghost :=
  { G with
    tiles := insert m G.tiles
    regions := insert m G.regions
    allocated := m :: G.allocated }

/-- An arena slab comes in, as one slab in transit. -/
theorem SlabCache.Inv.addRegion (h : c.Inv g G ∅ ∅) {m : Nat} (hd : 2 ^ g.top ∣ m)
    (hm : m ∉ G.regions)
    (hout : ∀ a ∈ G.large, ∀ x, c.InLarge a x → ¬ InBlock g.top m x)
    (hs : c.slab m = { magic := slabMagic, order := g.orderMax, inUse := 0, size := g.slabSize }) :
    ({ c with maps := m :: c.maps }.allocatedAdd m).Inv g (G.addRegion m) {m} {m} := by
  have hml : m ∉ G.large := fun hl =>
    hout m hl m ⟨Nat.le_refl _, by omega⟩ (inBlock_self _ _)
  have hma : m ∉ G.allocated := by rw [h.alloc.mem]; simp [hm, hml]
  have hmt : m ∉ G.tiles := by
    intro hmt
    obtain ⟨r, hr, hin⟩ := h.tiles.tiling.inside m hmt
    exact hm (InBlock.eq_of_dvd (h.tiles.tiling.region_dvd r hr) hd (le_refl _) hin ▸ hr)
  have hexp : c.exp g m = g.top := by rw [SlabCache.exp, hs, Geometry.top]
  have hm0 : (c.slab m).inUse = 0 := by rw [hs]
  have hz : c.usedSize m = 0 := by simp [SlabCache.usedSize, hm0]
  set c' := { c with maps := m :: c.maps }.allocatedAdd m with hc'
  constructor
  case tiles =>
    refine ⟨h.tiles.tiling.addRegion hd hm hexp fun _ _ => rfl, ?_, ?_, ?_⟩
    · intro x hx
      rcases Finset.mem_insert.mp hx with rfl | hx
      · show (c.slab x).magic = _
        rw [hs]
      · exact h.tiles.magic x hx
    · intro x hx
      rcases Finset.mem_insert.mp hx with rfl | hx
      · show (c.slab x).size = 2 ^ c.exp g x
        rw [hexp, hs, g.slabSize_eq_top]
      · exact h.tiles.size x hx
    · intro x hx
      rcases Finset.mem_insert.mp hx with rfl | hx
      · exact Or.inl hm0
      · exact h.tiles.inUse x hx
  case lists =>
    refine ⟨h.lists.ring, fun k hk x => ?_⟩
    simp only [Ghost.addRegion, h.lists.mem k hk x]
    by_cases hxm : x = m
    · subst hxm; simp [hmt]
    · simp [hxm]; exact fun _ => Iff.rfl
  case alloc =>
    refine ⟨?_, ?_, h.alloc.largeMagic, h.alloc.largeOrder, ?_, h.alloc.disjoint, ?_, ?_⟩
    · simp only [Ghost.addRegion, List.map_cons]
      refine rlistAdd_ring h.alloc.ring ?_
      simp [hma]
    · intro x
      simp only [Ghost.addRegion, List.mem_cons, h.alloc.mem x, Finset.mem_insert]
      tauto
    · intro a ha x hx r hr
      rcases Finset.mem_insert.mp hr with rfl | hr
      · exact hout a ha x hx
      · exact h.alloc.outside a ha x hx r hr
    · show ((m :: c.maps : List Nat) : Multiset Nat) = c.unmaps + (insert m G.regions).val
      rw [← Multiset.cons_coe, h.alloc.maps, Finset.insert_val_of_notMem hm, Multiset.add_cons]
    · exact fun _ => Finset.insert_nonempty _ _
  case stats =>
    refine ⟨fun k hk => ?_, fun k hk => ?_, ?_, ?_⟩
    · have hset : insert m G.tiles \ {m} = G.tiles \ ∅ := by
        ext x
        simp only [Finset.mem_sdiff, Finset.mem_insert, Finset.mem_singleton, Finset.notMem_empty,
          not_false_eq_true, and_true]
        constructor
        · rintro ⟨h1, h2⟩
          exact h1.resolve_left h2
        · intro h1
          exact ⟨Or.inr h1, fun he => hmt (he ▸ h1)⟩
      simp only [Ghost.addRegion, hset]
      exact h.stats.total k hk
    · simp only [Ghost.addRegion, Finset.sum_insert hmt]
      have : c'.billUsed k m = 0 := by
        simp only [SlabCache.billUsed]
        rw [show c'.usedSize m = c.usedSize m from rfl, hz, ite_self]
      rw [this, Nat.zero_add]
      exact h.stats.used k hk
    · show c.allocated.total + (c.slab m).size =
        (insert m G.regions).card * g.slabSize + ∑ a ∈ G.large, (c.slab a).size
      rw [h.stats.allTotal, hs, Finset.card_insert_of_notMem hm]
      simp only [Nat.add_mul, Nat.one_mul]
      omega
    · simp only [Ghost.addRegion, Finset.sum_insert hmt]
      rw [show c'.usedSize m = c.usedSize m from rfl, hz, Nat.zero_add]
      exact h.stats.allUsed
  case coalesced =>
    refine ⟨?_, h.coalesced.maxOne⟩
    intro x hx y hy hxh hyh
    rw [Finset.mem_singleton] at hxh hyh
    exact h.coalesced.buddies x ((Finset.mem_insert.mp hx).resolve_left hxh) y
      ((Finset.mem_insert.mp hy).resolve_left hyh) (by simp) (by simp)
  case live =>
    intro x
    simp only [Ghost.addRegion, h.live x]
    refine or_congr_left ?_
    by_cases hxm : x = m
    · subst hxm
      simp only [hmt, false_and, Finset.mem_insert_self, true_and, false_iff, not_not]
      exact hm0
    · simp only [Finset.mem_insert, hxm, false_or]
      rfl
  case heldTiles =>
    intro x hx
    rw [Finset.mem_singleton] at hx
    subst hx
    exact ⟨Finset.mem_insert_self _ _, hm0⟩
  case unbilledHeld => exact Finset.Subset.refl _

def Ghost.dropRegion (G : Ghost) (m : Nat) : Ghost :=
  { G with
    tiles := G.tiles.erase m
    regions := G.regions.erase m
    allocated := G.allocated.erase m }

/-- A slab in transit that is a whole arena slab goes back to the arena, if it is not the last. -/
theorem SlabCache.Inv.dropRegion (h : c.Inv g G {a} {a}) (hao : (c.slab a).order = g.orderMax)
    (hkeep : ∃ m ∈ G.regions, m ≠ a) :
    (slabUnmap (c.allocatedDel a) a).Inv g (G.dropRegion a) ∅ ∅ := by
  obtain ⟨hat, ha0⟩ := h.heldTiles a (Finset.mem_singleton_self a)
  have hexp : c.exp g a = g.top := by rw [SlabCache.exp, hao, Geometry.top]
  have hsize : (c.slab a).size = g.slabSize := by
    rw [h.tiles.size a hat, hexp, g.slabSize_eq_top]
  have har : a ∈ G.regions := h.tiles.tiling.mem_of_order_eq hat hexp
  have hal : a ∉ G.large := fun hl => h.large_not_tile hl hat
  have haa : a ∈ G.allocated := (h.alloc.mem a).mpr (Or.inl har)
  have hz : c.usedSize a = 0 := by simp [SlabCache.usedSize, ha0]
  set c' := slabUnmap (c.allocatedDel a) a with hc'
  constructor
  case tiles =>
    exact ⟨h.tiles.tiling.dropRegion hat hexp,
      fun x hx => h.tiles.magic x (Finset.mem_of_mem_erase hx),
      fun x hx => h.tiles.size x (Finset.mem_of_mem_erase hx),
      fun x hx => h.tiles.inUse x (Finset.mem_of_mem_erase hx)⟩
  case lists =>
    refine ⟨h.lists.ring, fun k hk x => ?_⟩
    simp only [Ghost.dropRegion, h.lists.mem k hk x, Finset.mem_erase, Finset.mem_singleton,
      Finset.notMem_empty, not_false_eq_true, true_and]
    constructor
    · rintro ⟨h1, h2, h3⟩
      exact ⟨⟨h2, h1⟩, h3⟩
    · rintro ⟨⟨h2, h1⟩, h3⟩
      exact ⟨h1, h2, h3⟩
  case alloc =>
    have hnd : G.allocated.Nodup := List.Nodup.of_map _ h.alloc.ring.nodup_tail
    refine ⟨?_, ?_, h.alloc.largeMagic, h.alloc.largeOrder, ?_, h.alloc.disjoint, ?_, ?_⟩
    · simp only [Ghost.dropRegion, List.map_erase SlabNode.slab_injective]
      exact rlistDel_erase h.alloc.ring (List.mem_map_of_mem haa)
    · intro x
      simp only [Ghost.dropRegion, hnd.mem_erase_iff, h.alloc.mem x, Finset.mem_erase]
      constructor
      · rintro ⟨h1, h2⟩
        exact h2.imp_left fun h3 => ⟨h1, h3⟩
      · intro h1
        exact h1.elim (fun h2 => ⟨h2.1, Or.inl h2.2⟩)
          fun h2 => ⟨fun he => hal (he ▸ h2), Or.inr h2⟩
    · exact fun x hx y hy r hr => h.alloc.outside x hx y hy r (Finset.mem_of_mem_erase hr)
    · show (c.maps : Multiset Nat) =
        ((a :: c.unmaps : List Nat) : Multiset Nat) + (G.regions.erase a).val
      rw [h.alloc.maps, ← Multiset.cons_coe, Multiset.cons_add, ← Multiset.add_cons,
        Finset.erase_val, Multiset.cons_erase har]
    · intro _
      obtain ⟨m, hm, hma⟩ := hkeep
      exact ⟨m, Finset.mem_erase.mpr ⟨hma, hm⟩⟩
  case stats =>
    refine ⟨fun k hk => ?_, fun k hk => ?_, ?_, ?_⟩
    · have hset : G.tiles.erase a \ ∅ = G.tiles \ {a} := by
        rw [Finset.sdiff_empty, Finset.erase_eq]
      simp only [Ghost.dropRegion, hset]
      exact h.stats.total k hk
    · have hzk : c.billUsed k a = 0 := by simp [SlabCache.billUsed, hz]
      show (c.orders k).used = ∑ x ∈ G.tiles.erase a, c.billUsed k x
      rw [Finset.sum_erase _ hzk]
      exact h.stats.used k hk
    · show c.allocated.total - (c.slab a).size =
        (G.regions.erase a).card * g.slabSize + ∑ x ∈ G.large, (c.slab x).size
      have hcard : G.regions.card = (G.regions.erase a).card + 1 :=
        (Finset.card_erase_add_one har).symm
      rw [h.stats.allTotal, hsize, hcard, Nat.add_mul, Nat.one_mul]
      omega
    · show c.allocated.used = ∑ x ∈ G.tiles.erase a, c.usedSize x + ∑ x ∈ G.large, (c.slab x).size
      rw [Finset.sum_erase _ hz]
      exact h.stats.allUsed
  case coalesced =>
    refine ⟨?_, h.coalesced.maxOne⟩
    intro x hx y hy _ _
    obtain ⟨hxa, hx⟩ := Finset.mem_erase.mp hx
    obtain ⟨hya, hy⟩ := Finset.mem_erase.mp hy
    exact h.coalesced.buddies x hx y hy (by simpa using hxa) (by simpa using hya)
  case live =>
    intro x
    simp only [Ghost.dropRegion, h.live x]
    refine or_congr_left ?_
    rw [Finset.mem_erase]
    constructor
    · rintro ⟨h1, h2⟩
      exact ⟨⟨fun he => h2 (he ▸ ha0), h1⟩, h2⟩
    · rintro ⟨⟨_, h1⟩, h2⟩
      exact ⟨h1, h2⟩
  case heldTiles => simp
  case unbilledHeld => exact Finset.Subset.refl _

def Ghost.addLarge (G : Ghost) (a : Nat) : Ghost :=
  { G with
    large := insert a G.large
    allocated := a :: G.allocated
    live := insert a G.live }

theorem setSlab_overwritten (c : SlabCache) (a : Nat) (s : Slab) :
    c.Overwritten (c.setSlab a s) fun x => x = a :=
  ⟨fun _ hx => SlabCache.setSlab_ne c s hx, fun _ _ => ⟨rfl, rfl⟩, fun _ _ => ⟨rfl, rfl⟩,
    rfl, rfl, rfl, rfl⟩

/-- A slab from `malloc` comes in and is handed out at once. -/
theorem SlabCache.Inv.addLarge (h : c.Inv g G ∅ ∅) {size : Nat}
    (hs : c.slab a = { magic := slabMagic, order := g.orderMax + 1, inUse := 0, size := size })
    (hout : ∀ x, c.InLarge a x →
      (∀ m ∈ G.regions, ¬ InBlock g.top m x) ∧ ∀ b ∈ G.large, ¬ c.InLarge b x)
    {c' : SlabCache} (hc' : c' = { c.allocatedAdd a with
      allocated := { (c.allocatedAdd a).allocated with used := c.allocated.used + size } }) :
    c'.Inv g (G.addLarge a) ∅ ∅ := by
  have hself : c.InLarge a a := ⟨Nat.le_refl _, by omega⟩
  have hal : a ∉ G.large := fun hl => (hout a hself).2 a hl hself
  have har : a ∉ G.regions := fun hr => (hout a hself).1 a hr (inBlock_self _ _)
  have haa : a ∉ G.allocated := by rw [h.alloc.mem]; simp [har, hal]
  have hsize : (c.slab a).size = size := by rw [hs]
  subst hc'
  constructor
  case tiles => exact ⟨h.tiles.tiling, h.tiles.magic, h.tiles.size, h.tiles.inUse⟩
  case lists => exact ⟨h.lists.ring, h.lists.mem⟩
  case alloc =>
    refine ⟨?_, ?_, ?_, ?_, ?_, ?_, h.alloc.maps, h.alloc.kept⟩
    · simp only [Ghost.addLarge, List.map_cons]
      refine rlistAdd_ring h.alloc.ring ?_
      simp [haa]
    · intro x
      simp only [Ghost.addLarge, List.mem_cons, h.alloc.mem x, Finset.mem_insert]
      tauto
    · intro x hx
      rcases Finset.mem_insert.mp hx with rfl | hx
      · show (c.slab x).magic = _
        rw [hs]
      · exact h.alloc.largeMagic x hx
    · intro x hx
      rcases Finset.mem_insert.mp hx with rfl | hx
      · show (c.slab x).order = _
        rw [hs]
      · exact h.alloc.largeOrder x hx
    · intro x hx y hy
      rcases Finset.mem_insert.mp hx with rfl | hx
      · exact (hout y hy).1
      · exact h.alloc.outside x hx y hy
    · intro x hx y hy z hxz hyz
      rcases Finset.mem_insert.mp hx with hxa | hxl <;> rcases Finset.mem_insert.mp hy with
        hya | hyl
      · exact hxa.trans hya.symm
      · exact absurd hyz ((hout z (hxa ▸ hxz)).2 y hyl)
      · exact absurd hxz ((hout z (hya ▸ hyz)).2 x hxl)
      · exact h.alloc.disjoint x hxl y hyl z hxz hyz
  case stats =>
    refine ⟨h.stats.total, h.stats.used, ?_, ?_⟩
    · show c.allocated.total + (c.slab a).size =
        G.regions.card * g.slabSize + ∑ x ∈ insert a G.large, (c.slab x).size
      rw [Finset.sum_insert hal, h.stats.allTotal]
      omega
    · show c.allocated.used + size =
        ∑ x ∈ G.tiles, c.usedSize x + ∑ x ∈ insert a G.large, (c.slab x).size
      rw [Finset.sum_insert hal, h.stats.allUsed, hsize]
      omega
  case coalesced => exact ⟨h.coalesced.buddies, h.coalesced.maxOne⟩
  case live =>
    intro x
    simp only [Ghost.addLarge, Finset.mem_insert, h.live x]
    exact or_left_comm
  case heldTiles => simp
  case unbilledHeld => exact Finset.Subset.refl _

def Ghost.dropLarge (G : Ghost) (a : Nat) : Ghost :=
  { G with
    large := G.large.erase a
    allocated := G.allocated.erase a
    live := G.live.erase a }

/-- A slab from `malloc` leaves the cache. -/
theorem SlabCache.Inv.dropLarge (h : c.Inv g G ∅ ∅) (ha : a ∈ G.large) {c' : SlabCache}
    (hc' : c' = { c.allocatedDel a with
      allocated := { (c.allocatedDel a).allocated with
        used := c.allocated.used - (c.slab a).size } }) :
    c'.Inv g (G.dropLarge a) ∅ ∅ := by
  have hat : a ∉ G.tiles := h.large_not_tile ha
  have har : a ∉ G.regions := fun hr => hat (h.region_tile hr)
  have haa : a ∈ G.allocated := (h.alloc.mem a).mpr (Or.inr ha)
  have hsum : ∑ x ∈ G.large, (c.slab x).size =
      (c.slab a).size + ∑ x ∈ G.large.erase a, (c.slab x).size :=
    (Finset.add_sum_erase _ _ ha).symm
  subst hc'
  constructor
  case tiles => exact ⟨h.tiles.tiling, h.tiles.magic, h.tiles.size, h.tiles.inUse⟩
  case lists => exact ⟨h.lists.ring, h.lists.mem⟩
  case alloc =>
    have hnd : G.allocated.Nodup := List.Nodup.of_map _ h.alloc.ring.nodup_tail
    refine ⟨?_, ?_, fun x hx => h.alloc.largeMagic x (Finset.mem_of_mem_erase hx),
      fun x hx => h.alloc.largeOrder x (Finset.mem_of_mem_erase hx),
      fun x hx => h.alloc.outside x (Finset.mem_of_mem_erase hx),
      fun x hx y hy => h.alloc.disjoint x (Finset.mem_of_mem_erase hx) y
        (Finset.mem_of_mem_erase hy), h.alloc.maps, h.alloc.kept⟩
    · simp only [Ghost.dropLarge, List.map_erase SlabNode.slab_injective]
      exact rlistDel_erase h.alloc.ring (List.mem_map_of_mem haa)
    · intro x
      simp only [Ghost.dropLarge, hnd.mem_erase_iff, h.alloc.mem x, Finset.mem_erase]
      constructor
      · rintro ⟨h1, h2⟩
        exact h2.imp_right fun h3 => ⟨h1, h3⟩
      · intro h1
        exact h1.elim (fun h2 => ⟨fun he => har (he ▸ h2), Or.inl h2⟩)
          fun h2 => ⟨h2.1, Or.inr h2.2⟩
  case stats =>
    refine ⟨h.stats.total, h.stats.used, ?_, ?_⟩
    · show c.allocated.total - (c.slab a).size =
        G.regions.card * g.slabSize + ∑ x ∈ G.large.erase a, (c.slab x).size
      rw [h.stats.allTotal, hsum]
      omega
    · show c.allocated.used - (c.slab a).size =
        ∑ x ∈ G.tiles, c.usedSize x + ∑ x ∈ G.large.erase a, (c.slab x).size
      rw [h.stats.allUsed, hsum]
      omega
  case coalesced => exact ⟨h.coalesced.buddies, h.coalesced.maxOne⟩
  case live =>
    intro x
    simp only [Ghost.dropLarge, Finset.mem_erase, h.live x]
    constructor
    · rintro ⟨h1, h2⟩
      exact h2.imp_right fun h3 => ⟨h1, h3⟩
    · intro h1
      exact h1.elim (fun h2 => ⟨fun he => hat (he ▸ h2.1), Or.inl h2⟩)
        fun h2 => ⟨h2.1, Or.inr h2.2⟩
  case heldTiles => simp
  case unbilledHeld => exact Finset.Subset.refl _

end SmallAllocators
