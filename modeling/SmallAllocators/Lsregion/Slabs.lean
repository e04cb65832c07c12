/-
SmallAllocators.Lsregion.Slabs — the slabs of a region, and what the calls do
to them.

The invariants of the log structured allocator, that of its log and that of
its garbage collection, say where the chunks are in the slabs. What they say
of the slabs themselves is the same, and is here: the slabs are in the order
of their ids, and their memory is apart. Three things happen to the list: a
new slab at its end, a chunk in its last slab, and the first slab goes.
-/
import SmallAllocators.Lsregion.Reserve

namespace SmallAllocators

variable {arenaSize limit size k addr n total : Nat} {region : Lsregion}
    {cached answer : Option Nat}
  {calls : LsCalls} {r : Reservation} {t u : Lslab} {us ts : List Lslab} {id : Int}

/--
The slabs are in the order of their ids and not smaller than those of the
arena, and no two of them share memory, which all lies below `limit`.
-/
structure Lsregion.Inv (arenaSize limit : Nat) (region : Lsregion) : Prop where
  ids : region.slabs.Pairwise fun t u => t.slabId < u.slabId
  idBound : ∀ t ∈ region.slabs, t.slabId ≤ region.slabId
  bounds : ∀ t ∈ region.slabs, t.slabUsed ≤ t.slabSize ∧ arenaSize ≤ t.slabSize
  last : ∀ t ∈ region.blocks, t.last < limit
  cached : ∀ t, region.cached = some t → t.slabSize = arenaSize
  apart : region.blocks.Pairwise Lslab.Apart

/-- The addresses and sizes of the slabs of the region. -/
def Lsregion.held (region : Lsregion) : List (Nat × Nat) :=
  region.blocks.map fun t => (t.addr, t.slabSize)

namespace Lsregion.Inv

theorem empty (h : region.slabs = []) (hc : region.cached = none) : region.Inv arenaSize limit := by
  constructor <;> simp [Lsregion.blocks, h, hc]

theorem slab_last (h : region.Inv arenaSize limit) (ht : t ∈ region.slabs) : t.last < limit :=
  h.last t (List.mem_append_left _ ht)

theorem cached_last (h : region.Inv arenaSize limit) (ht : region.cached = some t) :
    t.last < limit :=
  h.last t (by simp [Lsregion.blocks, ht])

theorem layout (h : region.Inv arenaSize limit) (hlimit : limit ≤ sizeMax) :
    region.Layout arenaSize where
  cached _ ht := ⟨h.cached _ ht, Nat.lt_of_lt_of_le (h.cached_last ht) hlimit⟩
  apart := h.apart

/-- The slabs before the last one. -/
theorem before_last (h : region.Inv arenaSize limit) (hslabs : region.slabs = us ++ [t])
    (hu : u ∈ us) :
    u.slabId < t.slabId ∧ u.Apart t := by
  have hids := h.ids
  have hap := h.apart
  rw [Lsregion.blocks, hslabs] at hap
  rw [hslabs] at hids
  have hslabsApart := (List.pairwise_append.mp hap).1
  exact ⟨(List.pairwise_append.mp hids).2.2 u hu t (by simp),
    (List.pairwise_append.mp hslabsApart).2.2 u hu t (by simp)⟩

end Lsregion.Inv

/-! ## A new slab -/

section NewSlab

variable {cached : Option Lslab}

/-- A slab that is not new was cached before, if it is cached. -/
theorem NewSlab.cached_eq (hnew : NewSlab arenaSize region addr n total cached calls)
    (hu : cached = some u) :
    region.cached = some u := by
  cases hnew with
  | malloc => exact hu
  | cached => simp at hu
  | map => simp at hu

theorem NewSlab.sublist (hnew : NewSlab arenaSize region addr n total cached calls) :
    (region.slabs ++ cached.toList).Sublist region.blocks := by
  refine (List.Sublist.refl _).append ?_
  cases hc : cached with
  | none => exact List.nil_sublist _
  | some u => rw [hnew.cached_eq hc]

/-- A new, empty slab at the end of the list. -/
theorem Lsregion.Inv.withSlab (h : region.Inv arenaSize limit)
    (hnew : NewSlab arenaSize region addr n total cached calls)
    (hgets : region.Gets arenaSize size k answer addr n cached) (hlow : addr + n < limit) :
    (region.withSlab addr n total cached calls).Inv arenaSize limit := by
  set t := lslabCreate addr n (region.slabId + 1) with ht
  have hslabs : (region.withSlab addr n total cached calls).slabs = region.slabs ++ [t] := rfl
  have hold := h.apart.sublist hnew.sublist
  have hout : ∀ u ∈ region.slabs ++ cached.toList, u.Apart t := fun u hu => Or.symm (hgets.out u hu)
  constructor
  case ids =>
    rw [hslabs]
    refine List.pairwise_append.mpr ⟨h.ids, List.pairwise_singleton _ _, fun u hu v hv => ?_⟩
    obtain rfl := List.mem_singleton.mp hv
    exact Int.lt_add_one_of_le (h.idBound u hu)
  case idBound =>
    intro u hu
    show u.slabId ≤ region.slabId + 1
    rcases List.mem_append.mp hu with hu | hu
    · exact Int.le_trans (h.idBound u hu) (Int.le_of_lt (Int.lt_succ _))
    · obtain rfl := List.mem_singleton.mp hu
      exact Int.le_refl _
  case bounds =>
    intro u hu
    rcases List.mem_append.mp hu with hu | hu
    · exact h.bounds u hu
    · obtain rfl := List.mem_singleton.mp hu
      have hroom := hgets.room
      have hpos := Nat.two_pow_pos k
      exact ⟨show lslabSizeof ≤ n by omega, hgets.arena⟩
  case last =>
    intro u hu
    have hu' : u ∈ (region.slabs ++ [t]) ++ cached.toList := hu
    simp only [List.mem_append, List.mem_singleton] at hu'
    rcases hu' with (hu' | rfl) | hu'
    · exact h.slab_last hu'
    · exact hlow
    · exact h.last u (hnew.sublist.subset (List.mem_append_right _ hu'))
  case cached => exact fun u hu => h.cached u (hnew.cached_eq hu)
  case apart =>
    show ((region.slabs ++ [t]) ++ cached.toList).Pairwise Lslab.Apart
    obtain ⟨h1, h2, h3⟩ := List.pairwise_append.mp hold
    refine List.pairwise_append.mpr ⟨List.pairwise_append.mpr
      ⟨h1, List.pairwise_singleton _ _, fun u hu v hv => ?_⟩, h2, fun u hu v hv => ?_⟩
    · obtain rfl := List.mem_singleton.mp hv
      exact hout u (List.mem_append_left _ hu)
    · rcases List.mem_append.mp hu with hu | hu
      · exact h3 u hu v hv
      · obtain rfl := List.mem_singleton.mp hu
        exact (hout v (List.mem_append_right _ hv)).symm

end NewSlab

/-! ## A chunk in the last slab -/

/-- `lslab_use` of the slab. -/
def Lslab.grown (t : Lslab) (n : Nat) (id : Int) : Lslab :=
  { t with slabUsed := t.slabUsed + n, maxId := id }

/-- The region whose slabs were `us` and `t`, with `n` bytes more in the slab `t`. -/
def Lsregion.withUse (region : Lsregion) (us : List Lslab) (t : Lslab) (n : Nat) (id : Int) :
    Lsregion :=
  { region with slabs := us ++ [t.grown n id], used := region.used + n }

theorem Lsregion.held_withUse (hslabs : region.slabs = us ++ [t]) :
    (region.withUse us t n id).held = region.held := by
  simp [Lsregion.held, Lsregion.blocks, Lsregion.withUse, Lslab.grown, hslabs]

/-- The end of a slab follows from its address and size. -/
theorem Lsregion.mem_held (ht : t ∈ region.blocks) : (t.addr, t.slabSize) ∈ region.held :=
  List.mem_map_of_mem ht

section Use

variable (hr : region.Reserved size k r t)

include hr

/-- The chunk of a reservation ends in the slab. -/
theorem Lsregion.Reserved.used_le : t.slabUsed + (r.pos - r.unaligned + size) ≤ t.slabSize := by
  have hle : t.pos ≤ r.pos := by
    rw [hr.pos]
    exact le_alignUp _ _
  have hfits := hr.fits
  rw [hr.unaligned]
  simp only [Lslab.pos, Lslab.last] at *
  omega

/-- `lslab_use` on the last slab, for a chunk that a reservation found room for. -/
theorem Lsregion.Inv.useLast (h : region.Inv arenaSize limit) (hid : t.maxId ≤ id) :
    ∃ us, region.slabs = us ++ [t] ∧
      region.useLast (r.pos - r.unaligned + size) id =
        some (region.withUse us t (r.pos - r.unaligned + size) id) ∧
      (region.withUse us t (r.pos - r.unaligned + size) id).Inv arenaSize limit := by
  obtain ⟨us, hslabs⟩ := List.getLast?_eq_some_iff.mp hr.last
  have htm : t ∈ region.slabs := by simp [hslabs]
  obtain ⟨hbound, harena⟩ := h.bounds t htm
  have hle := hr.used_le
  set m := r.pos - r.unaligned + size
  have hheld : (region.withUse us t m id).held = region.held := Lsregion.held_withUse hslabs
  refine ⟨us, hslabs, ?_, ?_⟩
  · have huse : t.use m id = some (t.grown m id) := by
      simp [Lslab.use, Lslab.unused, Lslab.grown, hbound, Nat.le_sub_of_add_le' hle, hid]
    simp [Lsregion.useLast, Lsregion.withUse, huse, hslabs]
  have hold : ∀ u ∈ us, u ∈ region.slabs := fun u hu => by simp [hslabs, hu]
  constructor
  case ids =>
    have hids := h.ids
    rw [hslabs] at hids
    obtain ⟨h1, -, -⟩ := List.pairwise_append.mp hids
    refine List.pairwise_append.mpr ⟨h1, List.pairwise_singleton _ _, fun u hu v hv => ?_⟩
    obtain rfl := List.mem_singleton.mp hv
    exact (h.before_last hslabs hu).1
  case idBound =>
    intro u hu
    rcases List.mem_append.mp hu with hu | hu
    · exact h.idBound u (hold u hu)
    · obtain rfl := List.mem_singleton.mp hu
      exact h.idBound t htm
  case bounds =>
    intro u hu
    rcases List.mem_append.mp hu with hu | hu
    · exact h.bounds u (hold u hu)
    · obtain rfl := List.mem_singleton.mp hu
      exact ⟨hle, harena⟩
  case last =>
    intro u hu
    have hmem := Lsregion.mem_held hu
    rw [hheld] at hmem
    obtain ⟨v, hv, he⟩ := List.mem_map.mp hmem
    rw [Prod.mk.injEq] at he
    have hlast := h.last v hv
    rwa [Lslab.last, he.1, he.2] at hlast
  case cached => exact h.cached
  case apart =>
    have hap : region.held.Pairwise fun x y => x.1 + x.2 ≤ y.1 ∨ y.1 + y.2 ≤ x.1 :=
      List.pairwise_map.mpr h.apart
    rw [← hheld, Lsregion.held, List.pairwise_map] at hap
    exact hap

end Use

/-! ## The first slab goes -/

theorem lsregionDrop_slabId (arenaSize : Nat) (region : Lsregion) (t : Lslab) :
    (lsregionDrop arenaSize region t).slabId = region.slabId := by
  unfold lsregionDrop
  by_cases hlarge : t.slabSize > arenaSize
  · simp [hlarge]
  · by_cases hc : region.cached = none <;> simp [hlarge, hc]

theorem lsregionDrop_used (arenaSize : Nat) (region : Lsregion) (t : Lslab) :
    (lsregionDrop arenaSize region t).used = region.used - (t.slabUsed - lslabSizeof) := by
  unfold lsregionDrop
  by_cases hlarge : t.slabSize > arenaSize
  · simp [hlarge]
  · by_cases hc : region.cached = none <;> simp [hlarge, hc]

/-- The cached slab after the loop freed one. -/
theorem lsregionDrop_cached (arenaSize : Nat) (region : Lsregion) (t : Lslab) :
    (lsregionDrop arenaSize region t).cached =
      if arenaSize < t.slabSize then region.cached
      else if region.cached ≠ none then region.cached
      else some (lslabCreate t.addr t.slabSize lslabNotUsedId) := by
  unfold lsregionDrop
  by_cases hlarge : arenaSize < t.slabSize
  · simp [hlarge]
  · cases region.cached <;> simp [hlarge]

/-- The slab that is freed may be cached. -/
theorem lsregionDrop_cases (arenaSize : Nat) (region : Lsregion) (t : Lslab) :
    (lsregionDrop arenaSize region t).cached = region.cached ∨
      region.cached = none ∧ t.slabSize ≤ arenaSize ∧
      (lsregionDrop arenaSize region t).cached =
      some (lslabCreate t.addr t.slabSize lslabNotUsedId) := by
  rw [lsregionDrop_cached]
  by_cases hlarge : arenaSize < t.slabSize
  · simp [hlarge]
  · by_cases hc : region.cached = none <;> simp [hlarge, hc, Nat.le_of_not_lt hlarge]

/-- `lsregion_gc` frees the oldest slab. -/
theorem Lsregion.Inv.dropFirst
    (h : ({ region with slabs := t :: ts } : Lsregion).Inv arenaSize limit) :
    ({ lsregionDrop arenaSize region t with slabs := ts } : Lsregion).Inv arenaSize limit := by
  have hsub : ∀ u ∈ ts, u ∈ t :: ts := fun u hu => List.mem_cons_of_mem _ hu
  have hap : (t :: (ts ++ region.cached.toList)).Pairwise Lslab.Apart := h.apart
  have hlast : ∀ u ∈ t :: (ts ++ region.cached.toList), u.last < limit := h.last
  obtain ⟨hap1, hap2⟩ := List.pairwise_cons.mp hap
  have hblocks : ({ lsregionDrop arenaSize region t with slabs := ts } : Lsregion).blocks =
      ts ++ (lsregionDrop arenaSize region t).cached.toList := rfl
  constructor
  case ids => exact (List.pairwise_cons.mp h.ids).2
  case idBound =>
    intro u hu
    rw [lsregionDrop_slabId]
    exact h.idBound u (hsub u hu)
  case bounds => exact fun u hu => h.bounds u (hsub u hu)
  case last =>
    intro u hu
    rw [hblocks] at hu
    rcases lsregionDrop_cases arenaSize region t with he | ⟨hc, -, he⟩
    · rw [he] at hu
      exact hlast u (List.mem_cons_of_mem _ hu)
    · rw [he] at hu
      rcases List.mem_append.mp hu with hu | hu
      · exact hlast u (by simp [hu])
      · obtain rfl := List.mem_singleton.mp hu
        exact hlast t List.mem_cons_self
  case cached =>
    intro u hu
    rcases lsregionDrop_cases arenaSize region t with he | ⟨-, hle, he⟩
    · exact h.cached u (he ▸ hu)
    · obtain rfl := Option.some.inj (he.symm.trans hu)
      exact Nat.le_antisymm hle (h.bounds t List.mem_cons_self).2
  case apart =>
    rw [hblocks]
    rcases lsregionDrop_cases arenaSize region t with he | ⟨hc, -, he⟩
    · rw [he]
      exact hap2
    · rw [hc] at hap1 hap2
      simp only [Option.toList_none, List.append_nil] at hap1 hap2
      rw [he]
      refine List.pairwise_append.mpr ⟨hap2, List.pairwise_singleton _ _, fun u hu v hv => ?_⟩
      obtain rfl := List.mem_singleton.mp hv
      exact (hap1 u hu).symm

end SmallAllocators
