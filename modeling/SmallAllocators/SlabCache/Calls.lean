/-
SmallAllocators.SlabCache.Calls — which slabs a call of the slab cache gets
from the arena, and which it gives back.

`slab_get_with_order` calls `slab_map` at most once, and exactly when all
free lists from the order on are empty; `slab_put_with_order` calls
`slab_unmap` at most once. With the invariant before and after, the record
of these calls says how the arena slabs of the cache change.
-/
import SmallAllocators.SlabCache.Runs
import SmallAllocators.SlabCache.Billing

namespace SmallAllocators

variable {g : Geometry} {c c' c'' : SlabCache} {G G' : Ghost} {a b k order n fuel : Nat}
    {answer r : Option Nat}

/-- No slab was mapped or unmapped in between. -/
def SlabCache.SameCalls (c c' : SlabCache) : Prop := c'.maps = c.maps ∧ c'.unmaps = c.unmaps

theorem SlabCache.SameCalls.refl (c : SlabCache) : c.SameCalls c := ⟨rfl, rfl⟩

theorem SlabCache.SameCalls.trans (h : c.SameCalls c') (h' : c'.SameCalls c'') : c.SameCalls c'' :=
  ⟨h'.1.trans h.1, h'.2.trans h.2⟩

/-! ## `slab_get_with_order` -/

theorem slabSplit_calls (h : slabSplit g c a = some (b, c')) : c.SameCalls c' := by
  unfold slabSplit at h
  simp only [Option.bind_eq_bind, Option.bind_eq_some_iff] at h
  obtain ⟨-, -, -, -, buddy, -, h⟩ := h
  cases buddy with
  | none => cases h
  | some buddy =>
      cases h
      exact ⟨rfl, rfl⟩

theorem slabSplitLoop_calls (h : slabSplitLoop g order fuel c a = some (b, c')) :
    c.SameCalls c' := by
  induction fuel generalizing c a with
  | zero => cases h
  | succ fuel ih =>
      obtain ⟨⟨a₁, c₁⟩, hsplit, h⟩ := Option.bind_eq_some_iff.1 h
      have hfirst := slabSplit_calls hsplit
      dsimp only at h
      split at h
      · exact hfirst.trans (ih h)
      · cases h
        exact hfirst

theorem slabFitOrder_calls (h : slabFitOrder g order k c a = some (b, c')) : c.SameCalls c' := by
  unfold slabFitOrder at h
  split at h
  · obtain ⟨⟨a₁, c₁⟩, hloop, h⟩ := Option.bind_eq_some_iff.1 h
    have hsplit := slabSplitLoop_calls hloop
    cases h
    exact ⟨hsplit.1, hsplit.2⟩
  · cases h
    exact .refl c

/-- The search maps a slab if it comes to the end. -/
theorem slabFindList_calls (hk : k + n = g.orderMax) (h : slabFindList g answer n k c = (r, c')) :
    c'.unmaps = c.unmaps ∧
    if slabFindMaps g c k then c'.maps = answer.toList ++ c.maps ∧ (r = none ↔ answer = none)
    else c'.maps = c.maps ∧ r ≠ none := by
  induction n generalizing k with
  | zero =>
      obtain rfl : k = g.orderMax := by omega
      have hmaps : slabFindMaps g c g.orderMax = rlistEmpty c.nextInList (.orders g.orderMax) := by
        simp [slabFindMaps]
      rw [hmaps]
      unfold slabFindList at h
      split at h
      · next hempty =>
          rw [if_pos hempty]
          cases answer with
          | none =>
              cases h
              exact ⟨rfl, rfl, by simp⟩
          | some m =>
              cases h
              exact ⟨rfl, rfl, by simp⟩
      · next hempty =>
          rw [if_neg hempty]
          cases h
          exact ⟨rfl, rfl, by simp⟩
  | succ n ih =>
      have hlen : g.orderMax + 1 - k = g.orderMax + 1 - (k + 1) + 1 := by omega
      have hmaps : slabFindMaps g c k =
          (rlistEmpty c.nextInList (.orders k) && slabFindMaps g c (k + 1)) := by
        rw [slabFindMaps, hlen, List.range'_succ, List.all_cons]
        rfl
      unfold slabFindList at h
      split at h
      · next hempty =>
          rw [hmaps, hempty, Bool.true_and]
          exact ih (by omega) h
      · next hempty =>
          rw [hmaps, Bool.eq_false_iff.2 hempty, Bool.false_and, if_neg Bool.false_ne_true]
          cases h
          exact ⟨rfl, rfl, by simp⟩

/-- `slab_get_with_order` maps a slab if the free lists are empty, and returns `NULL` if that
fails. -/
theorem slabGetWithOrder_calls (h : slabGetWithOrder g c order answer = some (r, c')) :
    c'.unmaps = c.unmaps ∧
    if slabFindMaps g c order then c'.maps = answer.toList ++ c.maps ∧ (r = none ↔ answer = none)
    else c'.maps = c.maps ∧ r ≠ none := by
  unfold slabGetWithOrder at h
  obtain ⟨u, hguard, h⟩ := Option.bind_eq_some_iff.1 h
  have horder : order ≤ g.orderMax := by
    by_contra hnot
    simp [guard, hnot] at hguard
  cases hfind : slabFindList g answer (g.orderMax - order) order c with
  | mk found c₁ =>
      have hcalls := slabFindList_calls (by omega) hfind
      rw [hfind] at h
      cases found with
      | none =>
          cases h
          exact hcalls
      | some k =>
          obtain ⟨a, -, h⟩ := Option.bind_eq_some_iff.1 h
          obtain ⟨⟨a₁, c₂⟩, hfit, h⟩ := Option.bind_eq_some_iff.1 h
          obtain ⟨u, -, h⟩ := Option.bind_eq_some_iff.1 h
          have hfit := slabFitOrder_calls hfit
          have hmaps₂ : c₂.maps = c₁.maps := hfit.1
          have hunmaps₂ : c₂.unmaps = c₁.unmaps := hfit.2
          cases h
          refine ⟨hunmaps₂.trans hcalls.1, ?_⟩
          show if slabFindMaps g c order then c₂.maps = _ ∧ _ else c₂.maps = _ ∧ _
          rw [hmaps₂]
          simpa using hcalls.2

theorem slabGetLarge_calls (h : slabGetLarge g c n answer = (r, c')) : c.SameCalls c' := by
  cases answer with
  | none =>
      cases h
      exact .refl c
  | some a =>
      cases h
      exact ⟨rfl, rfl⟩

/-! ## `slab_put` -/

theorem slabSetFree_calls (h : slabSetFree c a = some c') : c.SameCalls c' := by
  obtain ⟨u, -, h⟩ := Option.bind_eq_some_iff.1 h
  cases h
  exact ⟨rfl, rfl⟩

theorem slabMerge_calls (h : slabMerge g c a b = some (k, c')) : c.SameCalls c' := by
  unfold slabMerge at h
  simp only [Option.bind_eq_bind, Option.bind_eq_some_iff] at h
  obtain ⟨-, -, -, -, -, -, h⟩ := h
  cases h
  exact ⟨rfl, rfl⟩

theorem slabMergeLoop_calls (h : slabMergeLoop g fuel c a b = some (k, c')) : c.SameCalls c' := by
  induction fuel generalizing c a b with
  | zero => cases h
  | succ fuel ih =>
      obtain ⟨⟨a₁, c₁⟩, hmerge, h⟩ := Option.bind_eq_some_iff.1 h
      have hfirst := slabMerge_calls hmerge
      obtain ⟨buddy, -, h⟩ := Option.bind_eq_some_iff.1 h
      cases buddy with
      | none =>
          cases h
          exact hfirst
      | some buddy =>
          dsimp only at h
          split at h
          · exact hfirst.trans (ih h)
          · cases h
            exact hfirst

theorem slabMergeBuddies_calls (h : slabMergeBuddies g c a = some (k, c')) : c.SameCalls c' := by
  obtain ⟨buddy, -, h⟩ := Option.bind_eq_some_iff.1 h
  cases buddy with
  | none =>
      cases h
      exact .refl c
  | some buddy =>
      dsimp only at h
      split at h
      · obtain ⟨⟨a₁, c₁⟩, hloop, h⟩ := Option.bind_eq_some_iff.1 h
        have hmerge := slabMergeLoop_calls hloop
        cases h
        exact ⟨hmerge.1, hmerge.2⟩
      · cases h
        exact .refl c

/-- `slab_put_with_order` unmaps one slab at most. -/
theorem slabPutWithOrder_calls (h : slabPutWithOrder g c a = some c') :
    c'.maps = c.maps ∧ (c'.unmaps = c.unmaps ∨ ∃ m, c'.unmaps = m :: c.unmaps) := by
  unfold slabPutWithOrder at h
  simp only [Option.bind_eq_bind, Option.bind_eq_some_iff] at h
  obtain ⟨-, -, -, -, c₁, hfree, ⟨a₁, c₂⟩, hmerge, h⟩ := h
  have hsame := (slabSetFree_calls hfree).trans (slabMergeBuddies_calls hmerge)
  unfold slabPutBack at h
  split at h
  · obtain ⟨u, -, h⟩ := Option.bind_eq_some_iff.1 h
    cases h
    exact ⟨hsame.1, .inr ⟨a₁, congrArg (a₁ :: ·) hsame.2⟩⟩
  · cases h
    exact ⟨hsame.1, .inl hsame.2⟩

theorem slabPutLarge_calls (h : slabPutLarge g c a = some c') : c.SameCalls c' := by
  unfold slabPutLarge at h
  simp only [Option.bind_eq_bind, Option.bind_eq_some_iff] at h
  obtain ⟨-, -, -, -, h⟩ := h
  cases h
  exact ⟨rfl, rfl⟩

/-! ## The arena slabs of the cache -/

/-- A slab that was mapped. -/
theorem SlabCache.Inv.mapped_of_maps (h : c.Inv g G ∅ ∅) (h' : c'.Inv g G' ∅ ∅)
    (hunmaps : c'.unmaps = c.unmaps) (hmaps : c'.maps = answer.toList ++ c.maps) :
    c'.mapped = (answer.toList : Multiset Nat) + c.mapped := by
  rw [h.mapped, h'.mapped]
  have halloc := h'.alloc.maps
  rw [hmaps, hunmaps, ← Multiset.coe_add, h.alloc.maps, add_left_comm] at halloc
  exact (add_left_cancel halloc).symm

/-- A slab that was unmapped. -/
theorem SlabCache.Inv.mapped_of_unmaps (h : c.Inv g G ∅ ∅) (h' : c'.Inv g G' ∅ ∅)
    (hmaps : c'.maps = c.maps) (hunmaps : c'.unmaps = a :: c.unmaps) :
    c.mapped = a ::ₘ c'.mapped := by
  rw [h.mapped, h'.mapped]
  have halloc := h'.alloc.maps
  rw [hmaps, hunmaps, h.alloc.maps, ← Multiset.cons_coe, Multiset.cons_add,
    ← Multiset.add_cons] at halloc
  exact add_left_cancel halloc

theorem SlabCache.SameCalls.mapped (h : c.SameCalls c') : c'.mapped = c.mapped := by
  rw [SlabCache.mapped, SlabCache.mapped, h.1, h.2]

end SmallAllocators
