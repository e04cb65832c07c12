/-
SmallAllocators.SlabCache.Put — `slab_put_with_order`, `slab_put_large` and
`slab_put` keep the invariant, and no `assert` of theirs fails.

The merge loop reads a header at a computed address. `buddy_header` says
what it finds there: the start of a slab, never client data, and one of at
most the order of the slab in transit.
-/
import SmallAllocators.SlabCache.Get

namespace SmallAllocators

open Blocks

variable {g : Geometry} {c c' c'' : SlabCache} {G G' G'' : Ghost} {held unbilled : Finset Nat}
  {a b k order : Nat}

/-! ## The header of the buddy -/

theorem slabBuddy_eq (hle : (c.slab a).order ≤ g.orderMax) :
    slabBuddy g c a = some (if (c.slab a).order = g.orderMax then none
      else some (buddy (c.exp g a) a)) := by
  by_cases h : (c.slab a).order = g.orderMax
  · simp [slabBuddy, h]
  · simp [slabBuddy, h, hle, g.slabOrderSize_eq, buddy, SlabCache.exp]

/-- The address that `slab_buddy` computes is the start of a slab of at most the same order. -/
theorem SlabCache.Inv.buddy_header (h : c.Inv g G held unbilled) (ha : a ∈ G.tiles)
    (hb : slabBuddy g c a = some (some b)) :
    b ∈ G.tiles ∧ (c.slab b).order ≤ (c.slab a).order ∧ b = buddy (c.exp g a) a ∧
      (c.slab a).order < g.orderMax := by
  have hle := h.order_le ha
  rw [slabBuddy_eq hle] at hb
  by_cases ho : (c.slab a).order = g.orderMax
  · simp [ho] at hb
  · rw [if_neg ho, Option.some.injEq, Option.some.injEq] at hb
    have hlt : c.exp g a < g.top := by
      simp only [SlabCache.exp, Geometry.top]; omega
    obtain ⟨h1, h2⟩ := h.tiles.tiling.buddy_mem ha hlt
    rw [hb] at h1 h2
    simp only [SlabCache.exp] at h2
    exact ⟨h1, by omega, hb.symm, by omega⟩

/-- The test of the merge loop finds out whether the buddy is a whole free slab. -/
theorem SlabCache.Inv.canMerge_iff (h : c.Inv g G {a} unbilled)
    (hb : slabBuddy g c a = some (some b)) :
    canMerge c a (some b) = true ↔ b ∈ G.free (c.slab a).order := by
  obtain ⟨hbt, -, hbud, hlt⟩ := h.buddy_header (h.heldTiles a (by simp)).1 hb
  have hba : b ≠ a := hbud ▸ buddy_ne _ _
  rw [h.lists.mem _ hlt.le]
  simp [canMerge, slabIsFree, hbt, hba]

/-! ## The merge loop -/

theorem slabMerge_eq (hb : slabBuddy g c a = some (some b))
    (hob : (c.slab b).order = (c.slab a).order) (hlt : (c.slab a).order < g.orderMax) :
    slabMerge g c a b = some (min a b, (c.ordersDel (c.slab b).order b).setSlab (min a b)
      { c.slab (min a b) with
        order := (c.slab a).order + 1, size := g.slabOrderSize ((c.slab a).order + 1) }) := by
  have hmin : (if a > b then b else a) = min a b := by
    split <;> omega
  have hom : (c.slab (min a b)).order = (c.slab a).order := by
    rcases min_choice a b with h | h <;> simp [h, hob]
  have hle : ((c.ordersDel (c.slab b).order b).slab (min a b)).order + 1 ≤ g.orderMax := by
    show (c.slab (min a b)).order + 1 ≤ _
    omega
  simp only [slabMerge, hb, Option.bind_eq_bind, Option.bind_some, guard, if_true, hmin,
    SlabCache.setSlab_self, if_pos hle]
  simp only [Option.pure_def, Option.bind_some, Option.some.injEq, Prod.mk.injEq, true_and]
  simp only [SlabCache.setSlab, SlabCache.mk.injEq, and_true]
  funext x
  by_cases hx : x = min a b
  · simp only [hx, if_true]
    simp only [SlabCache.ordersDel, SlabCache.subTotal_slab, hom]
  · simp [hx]

/-- `slab_merge` makes one slab in transit of two buddies. -/
theorem slabMerge_spec (h : c.Inv g G {a} {a}) (hb : slabBuddy g c a = some (some b))
    (hm : canMerge c a (some b) = true) :
    ∃ c' G', slabMerge g c a b = some (min a b, c') ∧ c'.Inv g G' {min a b} {min a b} ∧
      (c'.slab (min a b)).order = (c.slab a).order + 1 ∧ c.KeepsLive G c' G' := by
  obtain ⟨hat, -⟩ := h.heldTiles a (by simp)
  obtain ⟨hbt, -, hbud, hlt⟩ := h.buddy_header hat hb
  have hfree := (h.canMerge_iff hb).mp hm
  obtain ⟨-, -, hob, hbu⟩ := (h.lists.mem _ hlt.le b).mp hfree
  have h1 := h.ordersDel hlt.le hfree
  rw [Finset.pair_comm] at h1
  have h2 := h1.join (a := a) (b := b) hbud hlt hob rfl
  have hmerge := slabMerge_eq hb hob hlt
  rw [hob] at hmerge
  refine ⟨_, _, hmerge, h2, ?_, rfl, ?_⟩
  · rw [SlabCache.setSlab_self]
  · intro x hx
    have hxa : x ≠ a := fun he => h.held_not_live (by simp) (he ▸ hx)
    have hxb : x ≠ b := by
      rintro rfl
      exact h1.held_not_live (a := x) (by simp) hx
    rw [SlabCache.setSlab_ne _ _ (by omega)]
    rfl

/-- The slab `a` has no buddy to merge with. -/
def NotMergeable (g : Geometry) (c : SlabCache) (a : Nat) : Prop :=
  ∀ b, slabBuddy g c a = some (some b) → canMerge c a (some b) = false

/-- The merge loop ends with a slab in transit that has no buddy to merge with. -/
theorem slabMergeLoop_spec (fuel : Nat) (h : c.Inv g G {a} {a})
    (hb : slabBuddy g c a = some (some b)) (hm : canMerge c a (some b) = true)
    (hf : g.orderMax ≤ (c.slab a).order + fuel) :
    ∃ a' c' G', slabMergeLoop g fuel c a b = some (a', c') ∧ c'.Inv g G' {a'} {a'} ∧
      NotMergeable g c' a' ∧ c.KeepsLive G c' G' := by
  -- every round adds one to the order, which stays below `order_max` as long as there is a buddy
  induction fuel generalizing c G a b with
  | zero =>
      obtain ⟨-, -, -, hlt⟩ := h.buddy_header (h.heldTiles a (by simp)).1 hb
      omega
  | succ fuel ih =>
      obtain ⟨c1, G1, hmerge, h1, ho1, hkeep1⟩ := slabMerge_spec h hb hm
      have hle1 := h1.order_le (h1.heldTiles (min a b) (by simp)).1
      cases hb1 : slabBuddy g c1 (min a b) with
      | none => simp [slabBuddy_eq hle1] at hb1
      | some r =>
          cases r with
          | none =>
              refine ⟨min a b, c1, G1, ?_, h1, ?_, hkeep1⟩
              · simp [slabMergeLoop, hmerge, hb1]
              · intro b' hb'
                simp [hb1] at hb'
          | some b1 =>
              by_cases hm1 : canMerge c1 (min a b) (some b1) = true
              · obtain ⟨a2, c2, G2, hloop, h2, hn2, hkeep2⟩ := ih h1 hb1 hm1 (by omega)
                refine ⟨a2, c2, G2, ?_, h2, hn2, hkeep1.trans hkeep2⟩
                simp [slabMergeLoop, hmerge, hb1, hm1, hloop]
              · refine ⟨min a b, c1, G1, ?_, h1, ?_, hkeep1⟩
                · simp [slabMergeLoop, hmerge, hb1, hm1]
                · intro b' hb'
                  rw [hb1, Option.some.injEq, Option.some.injEq] at hb'
                  rw [← hb']
                  simpa using hm1

theorem slabMergeBuddies_spec (h : c.Inv g G {a} ∅) :
    ∃ a' c' G', slabMergeBuddies g c a = some (a', c') ∧ c'.Inv g G' {a'} ∅ ∧
      NotMergeable g c' a' ∧ c.KeepsLive G c' G' := by
  have hle := h.order_le (h.heldTiles a (by simp)).1
  cases hb : slabBuddy g c a with
  | none => simp [slabBuddy_eq hle] at hb
  | some r =>
      cases r with
      | none =>
          refine ⟨a, c, G, by simp [slabMergeBuddies, hb], h, ?_, .refl c G⟩
          intro b' hb'
          simp [hb] at hb'
      | some b =>
          by_cases hm : canMerge c a (some b) = true
          · have h1 := h.unbill (a := a) (by simp) (by simp)
            obtain ⟨a2, c2, G2, hloop, h2, hn2, hkeep2⟩ :=
              slabMergeLoop_spec (g.orderMax + 1) h1 hb hm (by omega)
            have h3 := h2.bill (a := a2) (by simp)
            rw [Finset.erase_singleton] at h3
            refine ⟨a2, _, G2, ?_, h3, hn2, hkeep2.live, hkeep2.slab⟩
            simp [slabMergeBuddies, hb, hm, hloop]
          · refine ⟨a, c, G, by simp [slabMergeBuddies, hb, hm], h, ?_, .refl c G⟩
            intro b' hb'
            rw [hb, Option.some.injEq, Option.some.injEq] at hb'
            rw [← hb']
            simpa using hm

/-! ## `slab_put_with_order` -/

/-- What `slab_put` leaves behind: the slab is no client's any more, and the others are
untouched. -/
structure Released (g : Geometry) (c : SlabCache) (G : Ghost) (a : Nat) (c' : SlabCache)
    (G' : Ghost) :
    Prop where
  inv : c'.Inv g G' ∅ ∅
  live : G'.live = G.live.erase a
  slab : ∀ x ∈ G'.live, c'.slab x = c.slab x

/-- A slab in transit that has no buddy to merge with is put on its free list or given back to
the arena. -/
theorem slabPutBack_spec (h : c.Inv g G {a} ∅) (hn : NotMergeable g c a) :
    ∃ c' G', slabPutBack g c a = some c' ∧ c'.Inv g G' ∅ ∅ ∧ c.KeepsLive G c' G' := by
  obtain ⟨hat, ha0⟩ := h.heldTiles a (by simp)
  have hle := h.order_le hat
  have hempty : rlistEmpty c.nextInList (.orders (c.slab a).order) = true ↔
      G.free (c.slab a).order = [] :=
    (rlistEmpty_iff (h.lists.ring _ hle)).trans List.map_eq_nil_iff
  by_cases hdrop : (c.slab a).order = g.orderMax ∧ G.free (c.slab a).order ≠ []
  · obtain ⟨hmax, hne⟩ := hdrop
    have hsize : (c.slab a).size = g.slabSize := by
      rw [h.tiles.size a hat, g.slabSize_eq_top, SlabCache.exp, hmax, Geometry.top]
    -- the slab on the list is another arena slab, which stays
    obtain ⟨m, xs, hfree⟩ := List.exists_cons_of_ne_nil hne
    obtain ⟨hmt, hmh, hmo, -⟩ := (h.lists.mem _ hle m).mp (by simp [hfree])
    have hkeep : ∃ m ∈ G.regions, m ≠ a := by
      refine ⟨m, h.tiles.tiling.mem_of_order_eq hmt ?_, by simpa using hmh⟩
      rw [SlabCache.exp, hmo, hmax, Geometry.top]
    have h1 := (h.unbill (a := a) (by simp) (by simp)).dropRegion hmax hkeep
    refine ⟨_, _, ?_, h1, rfl, fun _ _ => rfl⟩
    rw [slabPutBack, if_pos ⟨hmax, by simp [mt hempty.mp hne]⟩]
    simp only [guard, if_pos hsize]
    rfl
  · have h1 := h.addFree (a := a) (by simp) (by simp) rfl hle
      (fun x hx hxh hxu hlt hxo hxb => ?_)
      (fun hmax => by
        by_contra hne
        exact hdrop ⟨hmax, hne⟩)
    · rw [Finset.erase_singleton] at h1
      refine ⟨_, _, ?_, h1, rfl, fun _ _ => rfl⟩
      rw [slabPutBack, if_neg (by simpa [hempty] using hdrop)]
    · have hb : slabBuddy g c a = some (some x) := by
        rw [slabBuddy_eq hle, if_neg (by omega), hxb]
      have := hn x hb
      rw [Bool.eq_false_iff, ne_eq, h.canMerge_iff hb, h.lists.mem _ hle] at this
      exact this ⟨hx, hxh, hxo, hxu⟩

theorem NotMergeable.poison (h : c.Inv g G {a} ∅) (hn : NotMergeable g c a) :
    NotMergeable g (slabPoison c a) a := by
  have hat := (h.heldTiles a (by simp)).1
  have hsame : ∀ x ∈ G.tiles, (slabPoison c a).slab x = c.slab x := by
    intro x hx
    refine (slabPoison_overwritten c a).slab x fun hS => ?_
    exact (h.not_inside hat (by simp only [slabSizeof] at hS; omega) hS.2).1 hx
  intro b hb
  have hb' : slabBuddy g c a = some (some b) := by
    rwa [slabBuddy, hsame a hat] at hb
  have := hn b hb'
  rwa [canMerge, slabIsFree, hsame a hat, hsame b (h.buddy_header hat hb').1]

/-- `slab_put_with_order` of a slab that a client has. -/
theorem slabPutWithOrder_spec (h : c.Inv g G ∅ ∅) (ha : a ∈ G.live)
    (hle : (c.slab a).order ≤ g.orderMax) :
    ∃ c' G', slabPutWithOrder g c a = some c' ∧ Released g c G a c' G' := by
  obtain ⟨hat, hau⟩ : a ∈ G.tiles ∧ (c.slab a).inUse ≠ 0 := by
    refine ((h.live a).mp ha).resolve_right fun hl => ?_
    have := h.alloc.largeOrder a hl
    omega
  obtain ⟨c1, hfree, hs1, h1⟩ := h.setFree hat hau
  obtain ⟨a2, c2, G2, hmerge, h2, hn2, hkeep2⟩ := slabMergeBuddies_spec h1
  have h3 := h2.poison (h2.heldTiles a2 (by simp)).1
  obtain ⟨c4, G4, hback, h4, hkeep4⟩ := slabPutBack_spec h3 (hn2.poison h2)
  refine ⟨c4, G4, ?_, h4, ?_, ?_⟩
  · simp [slabPutWithOrder, h.slabAssert_tile hat, hle, hfree, hmerge, hback]
  · rw [hkeep4.live, hkeep2.live]
  · have hlive : G4.live = G.live.erase a := by rw [hkeep4.live, hkeep2.live]
    intro x hx
    rw [hlive] at hx
    obtain ⟨hxa, hxl⟩ := Finset.mem_erase.mp hx
    have hx2 : x ∈ G2.live := by rw [hkeep2.live]; exact hx
    rw [hkeep4.slab x hx2]
    rw [(slabPoison_overwritten c2 a2).slab x fun hS => ?_, hkeep2.slab x hx]
    · simp only [slabSetFree, guard] at hfree
      split at hfree
      · simp only [Option.pure_def, Option.bind_eq_bind, Option.bind_some,
          Option.some.injEq] at hfree
        rw [← hfree, SlabCache.setSlab_ne _ _ hxa]
        rfl
      · simp at hfree
    · have := h2.not_inside (h2.heldTiles a2 (by simp)).1
        (by simp only [slabSizeof] at hS; omega) hS.2
      exact ((h2.live x).mp hx2).elim (fun h' => this.1 h'.1) this.2

/-! ## `slab_put_large` and `slab_put` -/

/-- No other slab starts in the bytes of a large slab. -/
theorem SlabCache.Inv.not_inside_large (h : c.Inv g G held unbilled) (ha : a ∈ G.large) {x : Nat}
    (hlt : a < x) (hx : x < a + (c.slab a).size) : x ∉ G.tiles ∧ x ∉ G.large := by
  have hin : c.InLarge a x := ⟨hlt.le, by omega⟩
  constructor
  · intro hxt
    obtain ⟨m, hm, hmx⟩ := h.tiles.tiling.inside x hxt
    exact h.alloc.outside a ha x hin m hm hmx
  · intro hxl
    have := h.alloc.disjoint a ha x hxl x hin ⟨Nat.le_refl _, by omega⟩
    omega

theorem slabPutLarge_spec (h : c.Inv g G ∅ ∅) (ha : a ∈ G.large) :
    ∃ c' G', slabPutLarge g c a = some c' ∧ Released g c G a c' G' := by
  have h1 := h.dropLarge ha rfl
  set c1 : SlabCache := { c.allocatedDel a with
    allocated := { (c.allocatedDel a).allocated with
      used := c.allocated.used - (c.slab a).size } } with hc1
  have hin : ∀ x, a + slabSizeof ≤ x ∧ x < a + (c1.slab a).size → x ∉ G.tiles ∧ x ∉ G.large := by
    rintro x ⟨hx1, hx2⟩
    exact h.not_inside_large ha (by simp only [slabSizeof] at hx1; omega) hx2
  have h2 := h1.overwrite (slabPoison_overwritten c1 a) fun x hx =>
    ⟨(hin x hx).1, fun hl => (hin x hx).2 (Finset.mem_of_mem_erase hl)⟩
  refine ⟨slabPoison c1 a, _, ?_, h2, rfl, ?_⟩
  · simp [slabPutLarge, h.slabAssert_large ha, h.alloc.largeOrder a ha]
    rfl
  · intro x hx
    have hxl : x ∈ G.live := Finset.mem_of_mem_erase hx
    rw [(slabPoison_overwritten c1 a).slab x fun hS => ?_]
    · rfl
    · exact ((h.live x).mp hxl).elim (fun h' => (hin x hS).1 h'.1) (hin x hS).2

/-- `slab_put` of a slab that a client has. -/
theorem slabPut_spec (h : c.Inv g G ∅ ∅) (ha : a ∈ G.live) :
    ∃ c' G', slabPut g c a = some c' ∧ Released g c G a c' G' := by
  by_cases hle : (c.slab a).order ≤ g.orderMax
  · simpa only [slabPut, if_pos hle] using slabPutWithOrder_spec h ha hle
  · have hl : a ∈ G.large :=
      ((h.live a).mp ha).resolve_left fun ht => hle (h.order_le ht.1)
    simpa only [slabPut, if_neg hle] using slabPutLarge_spec h hl

/-! ## The headers that `slab_put_with_order` inspects -/

/-- `MergeTest g c a inLoop c' a'` says that `slab_put_with_order`, called in the state `c` for
the slab `a`, gets to test the buddy of `a'` in the state `c'`: in the `if` before the merge loop,
or at the end of a round of the loop. -/
inductive MergeTest (g : Geometry) (c : SlabCache) (a : Nat) : Bool → SlabCache → Nat → Prop
  | enter {c1 : SlabCache} : slabSetFree c a = some c1 → MergeTest g c a false c1 a
  | first {c1 c2 : SlabCache} {a1 a2 b : Nat} : MergeTest g c a false c1 a1 →
      slabBuddy g c1 a1 = some (some b) → canMerge c1 a1 (some b) = true →
      slabMerge g (c1.subTotal (c1.slab a1).order (c1.slab a1).size) a1 b = some (a2, c2) →
      MergeTest g c a true c2 a2
  | again {c1 c2 : SlabCache} {a1 a2 b : Nat} : MergeTest g c a true c1 a1 →
      slabBuddy g c1 a1 = some (some b) → canMerge c1 a1 (some b) = true →
      slabMerge g c1 a1 b = some (a2, c2) → MergeTest g c a true c2 a2

/-- At every such test the invariant holds with the tested slab in transit. -/
theorem MergeTest.inv {inLoop : Bool} (ht : MergeTest g c a inLoop c' b) (h : c.Inv g G ∅ ∅)
    (hat : a ∈ G.tiles) (hau : (c.slab a).inUse ≠ 0) :
    ∃ G', c'.Inv g G' {b} (if inLoop then {b} else ∅) ∧ G'.live = G.live.erase a := by
  induction ht with
  | enter hfree =>
      obtain ⟨c1, hfree', -, h1⟩ := h.setFree hat hau
      rw [hfree, Option.some.injEq] at hfree'
      exact ⟨_, hfree' ▸ h1, rfl⟩
  | first _ hb hm hmerge ih =>
      obtain ⟨G1, h1, hlive⟩ := ih
      have h2 := SlabCache.Inv.unbill h1 (Finset.mem_singleton_self _) (by simp)
      obtain ⟨c3, G3, hmerge', h3, -, hkeep⟩ := slabMerge_spec h2 hb hm
      rw [hmerge, Option.some.injEq, Prod.mk.injEq] at hmerge'
      obtain ⟨rfl, rfl⟩ := hmerge'
      exact ⟨G3, h3, hkeep.live.trans hlive⟩
  | again _ hb hm hmerge ih =>
      obtain ⟨G1, h1, hlive⟩ := ih
      obtain ⟨c3, G3, hmerge', h3, -, hkeep⟩ := slabMerge_spec h1 hb hm
      rw [hmerge, Option.some.injEq, Prod.mk.injEq] at hmerge'
      obtain ⟨rfl, rfl⟩ := hmerge'
      exact ⟨G3, h3, hkeep.live.trans hlive⟩

end SmallAllocators
