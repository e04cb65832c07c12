/-
SmallAllocators.SlabCache.Get — `slab_get_with_order`, `slab_get_large` and
`slab_get` keep the invariant, and no `assert` of theirs fails.

The search for a list, the split loop and the last lines of the function
each have one theorem. The split loop is an induction on the difference
between the order the slab in transit has and the order asked for.
-/
import SmallAllocators.SlabCache.Transit

namespace SmallAllocators

open Blocks

variable {g : Geometry} {c c' c'' : SlabCache} {G G' G'' : Ghost} {held unbilled : Finset Nat}
  {a b k order : Nat}

/-- The slabs of the clients stay what they are. -/
structure SlabCache.KeepsLive (c : SlabCache) (G : Ghost) (c' : SlabCache) (G' : Ghost) : Prop where
  live : G'.live = G.live
  slab : ∀ x ∈ G.live, c'.slab x = c.slab x

theorem SlabCache.KeepsLive.refl (c : SlabCache) (G : Ghost) : c.KeepsLive G c G :=
  ⟨rfl, fun _ _ => rfl⟩

theorem SlabCache.KeepsLive.trans (h : c.KeepsLive G c' G') (h' : c'.KeepsLive G' c'' G'') :
    c.KeepsLive G c'' G'' where
  live := h'.live.trans h.live
  slab := fun x hx => (h'.slab x (h.live ▸ hx)).trans (h.slab x hx)

/-- Whatever is neither a slab of the buddy system in use nor a large slab is not live. -/
theorem SlabCache.Inv.not_live (h : c.Inv g G held unbilled)
    (ht : a ∈ G.tiles → (c.slab a).inUse = 0) (hl : a ∉ G.large) : a ∉ G.live := by
  rw [h.live a]
  rintro (⟨hat, hau⟩ | hal)
  · exact hau (ht hat)
  · exact hl hal

theorem SlabCache.Inv.held_not_live (h : c.Inv g G held unbilled) (ha : a ∈ held) :
    a ∉ G.live :=
  h.not_live (fun _ => (h.heldTiles a ha).2) fun hl => h.large_not_tile hl (h.heldTiles a ha).1

/-! ## `slab_assert` -/

/-- The header of a slab passes `slab_assert`. -/
theorem SlabCache.Inv.slabAssert_tile (h : c.Inv g G held unbilled) (ha : a ∈ G.tiles) :
    slabAssert g c a = some () := by
  have hle := h.order_le ha
  have hsize : (c.slab a).size = g.slabOrderSize (c.slab a).order := by
    rw [h.tiles.size a ha, g.slabOrderSize_eq, SlabCache.exp]
  have hdvd : a % g.slabOrderSize (c.slab a).order = 0 := by
    rw [g.slabOrderSize_eq]
    exact Nat.mod_eq_zero_of_dvd (h.tiles.tiling.dvd a ha)
  have hle' : (c.slab a).order ≤ g.orderMax + 1 := by omega
  simp [slabAssert, h.tiles.magic a ha, hle, hle', hsize, hdvd]

theorem SlabCache.Inv.slabAssert_large (h : c.Inv g G held unbilled) (ha : a ∈ G.large) :
    slabAssert g c a = some () := by
  simp [slabAssert, h.alloc.largeMagic a ha, h.alloc.largeOrder a ha]

/-! ## The split loop -/

/-- `slab_split` of the slab in transit: its upper half goes on a free list. -/
theorem slabSplit_spec (h : c.Inv g G {a} {a}) {i : Nat} (hi : (c.slab a).order = i + 1) :
    ∃ c' G', slabSplit g c a = some (a, c') ∧ c'.Inv g G' {a} {a} ∧ (c'.slab a).order = i ∧
      c.KeepsLive G c' G' := by
  have ha := h.heldTiles a (Finset.mem_singleton_self a)
  have hle : i + 1 ≤ g.orderMax := hi ▸ h.order_le ha.1
  have hdvd : 2 ^ (i + g.order0SizeLb + 1) ∣ a := by
    have := h.tiles.tiling.dvd a ha.1
    rwa [SlabCache.exp, hi, show i + 1 + g.order0SizeLb = i + g.order0SizeLb + 1 by omega] at this
  set b := a + 2 ^ (i + g.order0SizeLb) with hb
  have hbud : a ^^^ g.slabOrderSize i = b := by
    rw [g.slabOrderSize_eq]
    exact buddy_of_dvd hdvd
  have hba : b ≠ a := by
    have := Nat.two_pow_pos (i + g.order0SizeLb)
    omega
  obtain ⟨-, hbl⟩ : b ∉ G.tiles ∧ b ∉ G.large := by
    have hpos := Nat.two_pow_pos (i + g.order0SizeLb)
    refine h.not_inside ha.1 (by omega) ?_
    rw [h.tiles.size a ha.1, SlabCache.exp, hi,
      show i + 1 + g.order0SizeLb = i + g.order0SizeLb + 1 by omega, Nat.pow_succ]
    omega
  have hcut := h.cut hi hb
  set c1 := slabCreate (slabCreate c a i (g.slabOrderSize i)) b i (g.slabOrderSize i) with hc1
  have hs1b : (c1.slab b).order = i := by rw [hc1, slabCreate, SlabCache.setSlab_self]
  have hs1a : (c1.slab a).order = i := by
    rw [hc1, slabCreate, SlabCache.setSlab_ne _ _ hba.symm, slabCreate, SlabCache.setSlab_self]
  have hexpb : c1.exp g b = i + g.order0SizeLb := by rw [SlabCache.exp, hs1b]
  -- the buddy of the new slab is the one in transit
  have hbb : buddy (c1.exp g b) b = a := by
    rw [hexpb, hb, ← buddy_of_dvd hdvd, buddy_buddy]
  have hfin := hcut.ordersAdd (a := b) (by simp) (by simp) rfl (by omega)
    (fun x _ hx _ _ _ he => hx (by
      have : x = a := he.trans hbb
      simp [this]))
    (by omega)
  have hset : ({a, b} : Finset Nat).erase b = {a} := by
    ext x
    simp only [Finset.mem_erase, Finset.mem_insert, Finset.mem_singleton]
    constructor
    · rintro ⟨h1, h2⟩
      exact h2.resolve_right h1
    · rintro rfl
      exact ⟨hba.symm, Or.inl rfl⟩
  rw [hset] at hfin
  refine ⟨_, _, ?_, hfin, hs1a, rfl, ?_⟩
  · have horder : ((slabCreate c a i (g.slabOrderSize i)).slab a).order = i := by
      rw [slabCreate, SlabCache.setSlab_self]
    have hbuddy : slabBuddy g (slabCreate c a i (g.slabOrderSize i)) a = some (some b) := by
      simp only [slabBuddy, horder, guard]
      rw [if_pos (by omega), if_neg (by omega), hbud]
      rfl
    have hle' : i ≤ g.orderMax := by omega
    simp only [slabSplit, hi, Nat.add_sub_cancel, hbuddy, guard, Nat.succ_pos, gt_iff_lt, if_true,
      if_pos hle']
    rfl
  · intro x hx
    have hxa : x ≠ a := fun he => h.held_not_live (Finset.mem_singleton_self a) (he ▸ hx)
    have hxb : x ≠ b := by
      rintro rfl
      refine hcut.held_not_live (a := b) (by simp) ?_
      exact hx
    show c1.slab x = _
    rw [hc1, slabCreate, SlabCache.setSlab_ne _ _ hxb, slabCreate, SlabCache.setSlab_ne _ _ hxa]

/-- The split loop ends with a slab in transit of the order asked for. -/
theorem slabSplitLoop_spec (fuel : Nat) (h : c.Inv g G {a} {a}) {d : Nat}
    (hd : (c.slab a).order = order + d + 1) (hf : d < fuel) :
    ∃ c' G', slabSplitLoop g order fuel c a = some (a, c') ∧ c'.Inv g G' {a} {a} ∧
      (c'.slab a).order = order ∧ c.KeepsLive G c' G' := by
  -- `d` is the number of rounds still to come after this one
  induction fuel generalizing c G d with
  | zero => omega
  | succ fuel ih =>
      obtain ⟨c1, G1, hsplit, hinv, ho, hkeep⟩ := slabSplit_spec h hd
      cases d with
      | zero =>
          refine ⟨c1, G1, ?_, hinv, ho, hkeep⟩
          simp [slabSplitLoop, hsplit, ho]
      | succ d =>
          obtain ⟨c2, G2, hloop, hinv2, ho2, hkeep2⟩ := ih hinv (d := d) (by omega) (by omega)
          refine ⟨c2, G2, ?_, hinv2, ho2, hkeep.trans hkeep2⟩
          simp [slabSplitLoop, hsplit, ho, hloop]

/-! ## The search for a list -/

/-- What the arena promises about the slab it maps. -/
structure FreshRegion (g : Geometry) (c : SlabCache) (G : Ghost) (m : Nat) : Prop where
  aligned : 2 ^ g.top ∣ m
  fresh : m ∉ G.regions
  outside : ∀ a ∈ G.large, ∀ x, c.InLarge a x → ¬ InBlock g.top m x

/-- No slab starts in a new arena slab. -/
theorem FreshRegion.not_inside {m : Nat} (hm : FreshRegion g c G m) (h : c.Inv g G held unbilled)
    {x : Nat} (hx : InBlock g.top m x) : x ∉ G.tiles ∧ x ∉ G.large := by
  constructor
  · intro hxt
    obtain ⟨r, hr, hin⟩ := h.tiles.tiling.inside x hxt
    have hdiv : x / 2 ^ g.top = m / 2 ^ g.top := (inBlock_iff_div hm.aligned).mp hx
    have hdiv' : x / 2 ^ g.top = r / 2 ^ g.top :=
      (inBlock_iff_div (h.tiles.tiling.region_dvd r hr)).mp hin
    have hrm : r = m := by
      rw [← Nat.div_mul_cancel (h.tiles.tiling.region_dvd r hr), ← hdiv', hdiv,
        Nat.div_mul_cancel hm.aligned]
    exact hm.fresh (hrm ▸ hr)
  · exact fun hxl => hm.outside x hxl x ⟨Nat.le_refl _, by omega⟩ hx

/-- A new arena slab is formatted and put on the list of the largest order. -/
theorem slabMapped_spec (h : c.Inv g G ∅ ∅) (hempty : G.free g.orderMax = []) {m : Nat}
    (hm : FreshRegion g c G m) {c1 : SlabCache}
    (hc1 : c1 = slabPoison (slabCreate c m g.orderMax g.slabSize) m) :
    ∃ G', (({ c1 with maps := m :: c1.maps }.allocatedAdd m).ordersAdd g.orderMax m).Inv g G' ∅ ∅ ∧
      G'.free g.orderMax = [m] ∧ G'.live = G.live ∧ ∀ x ∈ G.live, c1.slab x = c.slab x := by
  have hmself := hm.not_inside h (inBlock_self _ m)
  have hcreate : (slabCreate c m g.orderMax g.slabSize).slab m =
      { magic := slabMagic, order := g.orderMax, inUse := 0, size := g.slabSize } :=
    SlabCache.setSlab_self _ _ _
  have hin : ∀ x, m + slabSizeof ≤ x ∧
      x < m + ((slabCreate c m g.orderMax g.slabSize).slab m).size →
      x ∉ G.tiles ∧ x ∉ G.large := by
    rintro x ⟨h1, h2⟩
    rw [hcreate, g.slabSize_eq_top] at h2
    exact hm.not_inside h ⟨by omega, h2⟩
  -- formatting the new slab is writing where no slab starts
  have h0 : (slabCreate c m g.orderMax g.slabSize).Inv g G ∅ ∅ :=
    h.overwrite (setSlab_overwritten _ _ _) fun x hx => hx ▸ hmself
  have h1 : c1.Inv g G ∅ ∅ := hc1 ▸ h0.overwrite (slabPoison_overwritten _ m) hin
  have hs : c1.slab m =
      { magic := slabMagic, order := g.orderMax, inUse := 0, size := g.slabSize } := by
    rw [hc1, slabPoison_slab_self, hcreate]
  have hkeep : ∀ x, x ∈ G.tiles ∨ x ∈ G.large → c1.slab x = c.slab x := by
    intro x hx
    have hxm : x ≠ m := fun he => hx.elim (he ▸ hmself.1) (he ▸ hmself.2)
    rw [hc1, (slabPoison_overwritten _ m).slab x fun hS => hx.elim (hin x hS).1 (hin x hS).2,
      slabCreate, SlabCache.setSlab_ne _ _ hxm]
  have hout : ∀ a ∈ G.large, ∀ x, c1.InLarge a x → ¬ InBlock g.top m x := fun a ha x hx =>
    hm.outside a ha x ((SlabCache.inLarge_congr (hkeep a (Or.inr ha))).mp hx)
  have h2 := h1.addRegion hm.aligned hm.fresh hout hs
  have ho : ((({ c1 with maps := m :: c1.maps } : SlabCache).allocatedAdd m).slab m).order =
      g.orderMax := by
    show (c1.slab m).order = _
    rw [hs]
  have h3 := h2.ordersAdd (a := m) (by simp) (by simp) ho (Nat.le_refl _)
    (fun x _ _ _ hlt => absurd hlt (Nat.lt_irrefl _)) (fun _ => hempty)
  refine ⟨(G.addRegion m).setFree g.orderMax (m :: G.free g.orderMax), ?_, ?_, rfl,
    fun x hx => hkeep x ?_⟩
  · rwa [Finset.erase_singleton] at h3
  · simp [Ghost.setFree, hempty]
  · exact ((h.live x).mp hx).imp_left And.left

/-- The search finds a list that is not empty, or the arena is out of memory and every list from
`orders[k]` on is empty. -/
theorem slabFindList_spec {n : Nat} {answer : Option Nat} (h : c.Inv g G ∅ ∅)
    (hk : k + n = g.orderMax) (hans : ∀ m, answer = some m → FreshRegion g c G m) :
    (slabFindList g answer n k c = (none, c) ∧ answer = none ∧
      ∀ j, k ≤ j → j ≤ g.orderMax → G.free j = []) ∨
    ∃ j c' G', slabFindList g answer n k c = (some j, c') ∧ k ≤ j ∧ j ≤ g.orderMax ∧
      c'.Inv g G' ∅ ∅ ∧ G'.free j ≠ [] ∧ c.KeepsLive G c' G' := by
  have hempty : rlistEmpty c.nextInList (.orders k) = true ↔ G.free k = [] :=
    (rlistEmpty_iff (h.lists.ring k (by omega))).trans List.map_eq_nil_iff
  induction n generalizing k with
  | zero =>
      obtain rfl : k = g.orderMax := hk
      by_cases he : G.free g.orderMax = []
      · cases hans' : answer with
        | none =>
            left
            refine ⟨by simp [slabFindList, hempty.mpr he, slabMap], rfl, fun j h1 h2 => ?_⟩
            rwa [show j = g.orderMax by omega]
        | some m =>
            right
            obtain ⟨G', hinv, hfree, hlive, hsame⟩ :=
              slabMapped_spec h he (hans m hans') rfl
            refine ⟨g.orderMax, _, G', ?_, Nat.le_refl _, by omega, hinv, ?_, hlive, hsame⟩
            · simp only [slabFindList, hempty.mpr he, slabMap, if_true]
              rfl
            · rw [hfree]; simp
      · right
        refine ⟨_, c, G, ?_, Nat.le_refl _, Nat.le_refl _, h, he, .refl c G⟩
        simp [slabFindList, mt hempty.mp he]
  | succ n ih =>
      by_cases he : G.free k = []
      · have hempty' : rlistEmpty c.nextInList (.orders (k + 1)) = true ↔ G.free (k + 1) = [] :=
          (rlistEmpty_iff (h.lists.ring (k + 1) (by omega))).trans List.map_eq_nil_iff
        have hstep : slabFindList g answer (n + 1) k c = slabFindList g answer n (k + 1) c := by
          simp [slabFindList, hempty.mpr he]
        rw [hstep]
        rcases ih (k := k + 1) (by omega) hempty' with ⟨h1, h2, h3⟩ | ⟨j, c', G', h1, h2, h3⟩
        · refine Or.inl ⟨h1, h2, fun j hj hjm => ?_⟩
          by_cases hjk : j = k
          · rw [hjk]; exact he
          · exact h3 j (by omega) hjm
        · exact Or.inr ⟨j, c', G', h1, by omega, h3⟩
      · right
        refine ⟨k, c, G, ?_, Nat.le_refl _, by omega, h, he, .refl c G⟩
        simp [slabFindList, mt hempty.mp he]

/-! ## `slab_get_with_order` -/

/-- The slab in transit is split down to the order asked for, if it is larger. -/
theorem slabFitOrder_spec (h : c.Inv g G {a} ∅) (hao : (c.slab a).order = k) (hok : order ≤ k)
    (hkm : k ≤ g.orderMax) :
    ∃ c' G', slabFitOrder g order k c a = some (a, c') ∧ c'.Inv g G' {a} ∅ ∧
      (c'.slab a).order = order ∧ c.KeepsLive G c' G' := by
  by_cases heq : k = order
  · have hao' : (c.slab a).order = order := hao.trans heq
    exact ⟨c, G, by simp [slabFitOrder, hao'], h, hao', .refl c G⟩
  · have hunb := h.unbill (a := a) (by simp) (by simp)
    rw [hao] at hunb
    have hd : ((c.subTotal k (c.slab a).size).slab a).order = order + (k - order - 1) + 1 := by
      rw [SlabCache.subTotal_slab, hao]
      omega
    obtain ⟨c1, G1, hloop, h1, ho1, hkeep1⟩ :=
      slabSplitLoop_spec (g.orderMax + 1) hunb hd (by omega)
    refine ⟨c1.addTotal (c1.slab a).order (c1.slab a).size, G1, ?_, ?_, ho1, hkeep1.live,
      hkeep1.slab⟩
    · have hne : (c.slab a).order ≠ order := by omega
      simp [slabFitOrder, hne, hloop]
    · have := h1.bill (a := a) (by simp)
      rwa [Finset.erase_singleton] at this

/-- What a successful `slab_get` leaves behind: a slab that no client had is handed out, and the
other slabs of the clients are untouched. -/
structure Obtained (g : Geometry) (c : SlabCache) (G : Ghost) (a : Nat) (c' : SlabCache)
    (G' : Ghost) :
    Prop where
  inv : c'.Inv g G' ∅ ∅
  fresh : a ∉ G.live
  live : G'.live = insert a G.live
  slab : ∀ x ∈ G.live, c'.slab x = c.slab x

/-- `slab_get_with_order` returns a slab of the order asked for, or it returns `NULL`, changes
nothing, and the arena was out of memory with no slab left to split. -/
theorem slabGetWithOrder_spec {answer : Option Nat} (h : c.Inv g G ∅ ∅) (ho : order ≤ g.orderMax)
    (hans : ∀ m, answer = some m → FreshRegion g c G m) :
    (slabGetWithOrder g c order answer = some (none, c) ∧ answer = none ∧
      ∀ j, order ≤ j → j ≤ g.orderMax → G.free j = []) ∨
    ∃ a c' G', slabGetWithOrder g c order answer = some (some a, c') ∧ Obtained g c G a c' G' ∧
      a ∈ G'.tiles ∧ (c'.slab a).order = order := by
  rcases slabFindList_spec (n := g.orderMax - order) (k := order) h (by omega) hans with
    ⟨hfind, hnone, hempty⟩ | ⟨k, c1, G1, hfind, hok, hkm, h1, hne, hkeep1⟩
  · exact Or.inl ⟨by simp [slabGetWithOrder, ho, hfind], hnone, hempty⟩
  right
  obtain ⟨a, xs, hfree⟩ := List.exists_cons_of_ne_nil hne
  have ha : a ∈ G1.free k := by simp [hfree]
  obtain ⟨hat, -, hao, -⟩ := (h1.lists.mem k hkm a).mp ha
  have hshift :
      rlistShift c1.nextInList (.orders k) = (.slab a, rlistDel c1.nextInList (.slab a)) := by
    have hring := h1.lists.ring k hkm
    rw [hfree, List.map_cons] at hring
    exact rlistShift_eq hring
  have h2 := h1.takeFree hkm ha
  set c2 : SlabCache := { c1 with nextInList := rlistDel c1.nextInList (.slab a) } with hc2
  set G2 := G1.setFree k ((G1.free k).erase a) with hG2
  have hkeep2 : c.KeepsLive G c2 G2 := hkeep1.trans ⟨rfl, fun _ _ => rfl⟩
  obtain ⟨c3, G3, hfit, h3, ho3, hkeep3⟩ := slabFitOrder_spec h2 hao hok hkm
  have h4 := h3.setUsed
  have hkeep : c.KeepsLive G c3 G3 := hkeep2.trans hkeep3
  have hat3 := (h3.heldTiles a (Finset.mem_singleton_self a)).1
  have hnl : a ∉ G.live := by
    have := h3.held_not_live (Finset.mem_singleton_self a)
    rwa [hkeep.live] at this
  have hsa : ((slabSetUsed c3 a).slab a).order = order := by
    rw [slabSetUsed, SlabCache.setSlab_self]
    exact ho3
  refine ⟨a, slabSetUsed c3 a, _, ?_, ⟨h4, hnl, by rw [hkeep.live], ?_⟩, hat3, hsa⟩
  · have hassert := h4.slabAssert_tile hat3
    simp [slabGetWithOrder, ho, hfind, hshift, slabOfNode, ← hc2, hfit, hassert]
  · intro x hx
    have hxa : x ≠ a := fun he => hnl (he ▸ hx)
    rw [slabSetUsed, SlabCache.setSlab_ne _ _ hxa]
    exact hkeep.slab x hx

/-! ## `slab_get_large` and `slab_get` -/

/-- What `malloc` promises about a block of `size` bytes. -/
structure FreshLarge (g : Geometry) (c : SlabCache) (G : Ghost) (size a : Nat) : Prop where
  regions : ∀ x, a ≤ x → x < a + max size 1 → ∀ m ∈ G.regions, ¬ InBlock g.top m x
  large : ∀ x, a ≤ x → x < a + max size 1 → ∀ b ∈ G.large, ¬ c.InLarge b x

theorem slabGetLarge_spec {size : Nat} (h : c.Inv g G ∅ ∅)
    (ha : FreshLarge g c G ((size + slabSizeof) % sizeMax) a) :
    ∃ c' G', slabGetLarge g c size (some a) = (some a, c') ∧ Obtained g c G a c' G' ∧
      a ∈ G'.large ∧ (c'.slab a).order = g.orderMax + 1 ∧
      (c'.slab a).size = (size + slabSizeof) % sizeMax := by
  set sz := (size + slabSizeof) % sizeMax with hsz
  have hlt : a < a + max sz 1 := by omega
  have hal : a ∉ G.large := fun hl => ha.large a (Nat.le_refl _) hlt a hl ⟨Nat.le_refl _, by omega⟩
  have hat : a ∉ G.tiles := by
    intro hat
    obtain ⟨m, hm, hin⟩ := h.tiles.tiling.inside a hat
    exact ha.regions a (Nat.le_refl _) hlt m hm hin
  set c1 := slabCreate c a (g.orderMax + 1) sz with hc1
  have hs : c1.slab a = { magic := slabMagic, order := g.orderMax + 1, inUse := 0, size := sz } :=
    SlabCache.setSlab_self _ _ _
  have hne : ∀ x, x ≠ a → c1.slab x = c.slab x := fun x hx => SlabCache.setSlab_ne _ _ hx
  have h1 : c1.Inv g G ∅ ∅ :=
    h.overwrite (setSlab_overwritten _ _ _) fun x hx => hx ▸ ⟨hat, hal⟩
  have h2 := h1.addLarge hs (fun x hx => by
    rw [SlabCache.InLarge, hs] at hx
    refine ⟨ha.regions x hx.1 hx.2, fun b hb hbx => ha.large x hx.1 hx.2 b hb ?_⟩
    exact (SlabCache.inLarge_congr (hne b fun he => hal (he ▸ hb))).mp hbx) rfl
  have hnl : a ∉ G.live := h.not_live (fun h' => absurd h' hat) hal
  refine ⟨_, _, rfl, ⟨h2, hnl, rfl, fun x hx => hne x fun he => hnl (he ▸ hx)⟩,
    Finset.mem_insert_self _ _, ?_, ?_⟩
  · show (c1.slab a).order = _
    rw [hs]
  · show (c1.slab a).size = _
    rw [hs]

/-- `slab_order` is an order of the cache, or one more for sizes that no arena slab holds. -/
theorem Geometry.slabOrder_le (g : Geometry) (size : Nat) : g.slabOrder size ≤ g.orderMax + 1 := by
  rw [Geometry.slabOrder]
  split
  · omega
  · split
    · omega
    · rename_i h0 h1
      have hmod : size % 2 ^ 32 = size := Nat.mod_eq_of_lt (by have := g.slabSize_lt; omega)
      have hpos := Nat.two_pow_pos g.order0SizeLb
      have hlog : Nat.log2 (size - 1) < g.orderMax + g.order0SizeLb := by
        refine (Nat.log2_lt (by rw [g.order0Size_eq] at h0; omega)).mpr ?_
        rw [← g.slabSize_eq]
        omega
      rw [hmod]
      omega

/-- The order that `slab_order` picks is large enough. -/
theorem Geometry.le_slabOrderSize (g : Geometry) {size : Nat}
    (hle : g.slabOrder size ≤ g.orderMax) :
    size ≤ g.slabOrderSize (g.slabOrder size) := by
  have h0 := g.order0Size_eq
  rw [slabOrderSize, Nat.one_shiftLeft]
  rw [slabOrder] at hle ⊢
  split at hle <;> rename_i hsmall
  · rw [if_pos hsmall, Nat.zero_add, ← h0]
    exact hsmall
  · split at hle <;> rename_i hlarge
    · omega
    · have hmod : size % 2 ^ 32 = size := Nat.mod_eq_of_lt (by have := g.slabSize_lt; omega)
      have hpos := Nat.two_pow_pos g.order0SizeLb
      have hlog : g.order0SizeLb ≤ Nat.log2 (size - 1) :=
        (Nat.le_log2 (by omega)).mpr (by omega)
      have hlt : size - 1 < 2 ^ (Nat.log2 (size - 1) + 1) := Nat.lt_log2_self
      rw [if_neg hsmall, if_neg hlarge, hmod, show Nat.log2 (size - 1) + 1 - g.order0SizeLb +
          g.order0SizeLb = Nat.log2 (size - 1) + 1 by
        omega]
      omega

/-- `slab_real_size` is enough for the data and the header. -/
theorem Geometry.le_slabRealSize (g : Geometry) (size : Nat) :
    (size + slabSizeof) % sizeMax ≤ g.slabRealSize size := by
  have hle := g.slabOrder_le ((size + slabSizeof) % sizeMax)
  unfold slabRealSize
  simp only
  split
  · exact Nat.le_refl _
  · exact g.le_slabOrderSize (by omega)

theorem Geometry.order0Size_le_slabRealSize (g : Geometry) (size : Nat) :
    g.order0Size ≤ g.slabRealSize size := by
  have h0 := g.order0Size_eq
  unfold slabRealSize
  simp only
  split <;> rename_i hmax
  · rw [slabOrder] at hmax
    split at hmax <;> omega
  · rw [slabOrderSize, Nat.one_shiftLeft, h0]
    exact Nat.pow_le_pow_right (by omega) (by omega)

theorem Geometry.slabOrderSize_le {g : Geometry} {j k : Nat} (h : j ≤ k) :
    g.slabOrderSize j ≤ g.slabOrderSize k := by
  rw [slabOrderSize, slabOrderSize, Nat.one_shiftLeft, Nat.one_shiftLeft]
  exact Nat.pow_le_pow_right (by omega) (by omega)

theorem Geometry.slabOrderSize_max (g : Geometry) : g.slabOrderSize g.orderMax = g.slabSize := by
  rw [slabOrderSize, Nat.one_shiftLeft, g.slabSize_eq]

/-- `slab_order` picks the least order that is large enough. -/
theorem Geometry.slabOrder_le_iff (g : Geometry) (size : Nat) {k : Nat} (hk : k ≤ g.orderMax) :
    g.slabOrder size ≤ k ↔ size ≤ g.slabOrderSize k := by
  constructor
  · intro h
    exact (g.le_slabOrderSize (h.trans hk)).trans (slabOrderSize_le h)
  · intro h
    have hmax : size ≤ g.slabSize := g.slabOrderSize_max ▸ h.trans (slabOrderSize_le hk)
    rw [slabOrder]
    split
    · omega
    · rename_i h0
      rw [if_neg (by omega)]
      have hmod : size % 2 ^ 32 = size := Nat.mod_eq_of_lt (by have := g.slabSize_lt; omega)
      have hpos := Nat.two_pow_pos g.order0SizeLb
      have h0' := g.order0Size_eq
      rw [slabOrderSize, Nat.one_shiftLeft] at h
      have hlog : Nat.log2 (size - 1) < k + g.order0SizeLb :=
        (Nat.log2_lt (by omega)).mpr (by omega)
      rw [hmod]
      omega

/-- `slab_real_size` in terms of what the size adds up to with the header. -/
theorem Geometry.slabRealSize_eq (g : Geometry) {size : Nat} (h : size + slabSizeof < sizeMax) :
    g.slabRealSize size =
      if size + slabSizeof ≤ g.slabSize then g.slabOrderSize (g.slabOrder (size + slabSizeof))
      else size + slabSizeof := by
  have hiff := g.slabOrder_le_iff (size + slabSizeof) (Nat.le_refl g.orderMax)
  have hle := g.slabOrder_le (size + slabSizeof)
  rw [g.slabOrderSize_max] at hiff
  rw [slabRealSize, Nat.mod_eq_of_lt h]
  by_cases hfits : size + slabSizeof ≤ g.slabSize
  · rw [if_pos hfits, if_neg (by have := hiff.mpr hfits; omega)]
  · have : ¬ g.slabOrder (size + slabSizeof) ≤ g.orderMax := fun h => hfits (hiff.mp h)
    rw [if_neg hfits, if_pos (by omega)]

/-- A larger request gets a slab that is not smaller. -/
theorem Geometry.slabRealSize_mono (g : Geometry) {a b : Nat} (hab : a ≤ b)
    (hb : b + slabSizeof < sizeMax) :
    g.slabRealSize a ≤ g.slabRealSize b := by
  rw [g.slabRealSize_eq (by omega), g.slabRealSize_eq hb]
  have hord := fun size => (g.slabOrder_le_iff size (Nat.le_refl g.orderMax)).mpr
  rw [g.slabOrderSize_max] at hord
  by_cases hfa : a + slabSizeof ≤ g.slabSize
  · have hoa := hord _ hfa
    rw [if_pos hfa]
    by_cases hfb : b + slabSizeof ≤ g.slabSize
    · rw [if_pos hfb]
      have hob := hord _ hfb
      refine slabOrderSize_le ((g.slabOrder_le_iff _ hob).mpr ?_)
      have := g.le_slabOrderSize hob
      omega
    · rw [if_neg hfb]
      have := slabOrderSize_le (g := g) hoa
      rw [g.slabOrderSize_max] at this
      omega
  · rw [if_neg hfa, if_neg (by omega)]
    omega

/-- A slab of the size that `slab_get` gives has the capacity that it would be asked for again. -/
theorem Geometry.slabRealSize_capacity (g : Geometry) {size : Nat} (h : size + slabSizeof < sizeMax)
    (h' : g.slabRealSize size < sizeMax) :
    g.slabRealSize (g.slabRealSize size - slabSizeof) = g.slabRealSize size := by
  have hle := g.le_slabRealSize size
  rw [Nat.mod_eq_of_lt h] at hle
  have hadd : g.slabRealSize size - slabSizeof + slabSizeof = g.slabRealSize size := by omega
  rw [@slabRealSize_eq g (g.slabRealSize size - slabSizeof) (by omega), hadd]
  have heq := g.slabRealSize_eq h
  by_cases hfits : size + slabSizeof ≤ g.slabSize
  · have hord := (g.slabOrder_le_iff (size + slabSizeof) (Nat.le_refl g.orderMax)).mpr
      (by rw [g.slabOrderSize_max]; exact hfits)
    rw [if_pos hfits] at heq
    have hmax := slabOrderSize_le (g := g) hord
    rw [g.slabOrderSize_max] at hmax
    rw [heq, if_pos hmax]
    have h1 := (g.slabOrder_le_iff _ hord).mpr
      (Nat.le_refl (g.slabOrderSize (g.slabOrder (size + slabSizeof))))
    refine Nat.le_antisymm (slabOrderSize_le h1) (g.le_slabOrderSize (h1.trans hord))
  · rw [if_neg hfits] at heq
    rw [heq, if_neg hfits]

/-- `slab_get` in its two parts: it gets the slab, and checks its size. -/
theorem slabGet_eq (g : Geometry) (c : SlabCache) (size : Nat) (answer : Option Nat) :
    slabGet g c size answer =
      (if g.slabOrder ((size + slabSizeof) % sizeMax) = g.orderMax + 1 then
          some (slabGetLarge g c size answer)
        else slabGetWithOrder g c (g.slabOrder ((size + slabSizeof) % sizeMax)) answer).bind
          fun r =>
        match r.1 with
        | none => some (none, r.2)
        | some a =>
          (guard ((r.2.slab a).size = g.slabRealSize size) : Option Unit).bind
            fun _ => some (some a, r.2) := by
  unfold slabGet
  dsimp only
  split <;> rfl

/-- The slab that `slab_get` returns has the size of `slab_real_size`. -/
theorem slabGet_size {size : Nat} {answer : Option Nat} {c' : SlabCache}
    (h : slabGet g c size answer = some (some a, c')) : (c'.slab a).size = g.slabRealSize size := by
  rw [slabGet_eq] at h
  obtain ⟨⟨r, c₁⟩, -, h⟩ := Option.bind_eq_some_iff.1 h
  cases r with
  | none => cases h
  | some a₁ =>
      obtain ⟨u, hguard, h⟩ := Option.bind_eq_some_iff.1 h
      cases h
      by_contra hne
      simp [guard, hne] at hguard

theorem slabGet_spec {size : Nat} {answer : Option Nat} (h : c.Inv g G ∅ ∅)
    (hans : ∀ m, answer = some m →
      if g.slabOrder ((size + slabSizeof) % sizeMax) = g.orderMax + 1 then
        FreshLarge g c G ((size + slabSizeof) % sizeMax) m
      else FreshRegion g c G m) :
    slabGet g c size answer = some (none, c) ∨
    ∃ a c' G', slabGet g c size answer = some (some a, c') ∧ Obtained g c G a c' G' := by
  set sz := (size + slabSizeof) % sizeMax with hsz
  by_cases hlarge : g.slabOrder sz = g.orderMax + 1
  · cases answer with
    | none =>
        left
        simp [slabGet, ← hsz, hlarge, slabGetLarge]
    | some a =>
        right
        have ha := hans a rfl
        rw [if_pos hlarge] at ha
        obtain ⟨c', G', heq, hob, -, -, hsize⟩ := slabGetLarge_spec h ha
        refine ⟨a, c', G', ?_, hob⟩
        have hreal : (c'.slab a).size = g.slabRealSize size := by
          simp only [Geometry.slabRealSize, ← hsz, if_pos hlarge, hsize]
        simp [slabGet, ← hsz, hlarge, heq, hreal]
  · have hle : g.slabOrder sz ≤ g.orderMax := by
      have := g.slabOrder_le sz
      omega
    have hfresh : ∀ m, answer = some m → FreshRegion g c G m := by
      intro m hm
      have := hans m hm
      rwa [if_neg hlarge] at this
    rcases slabGetWithOrder_spec h hle hfresh with ⟨heq, -, -⟩ | ⟨a, c', G', heq, hob, hat, ho⟩
    · left
      simp [slabGet, ← hsz, hlarge, heq]
    · right
      refine ⟨a, c', G', ?_, hob⟩
      have hreal : (c'.slab a).size = g.slabRealSize size := by
        simp only [Geometry.slabRealSize, ← hsz, if_neg hlarge]
        rw [hob.inv.tiles.size a hat, SlabCache.exp, ho, g.slabOrderSize_eq]
      simp [slabGet, ← hsz, hlarge, heq, hreal]

end SmallAllocators
