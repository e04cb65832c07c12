/-
SmallAllocators.Lsregion.Gc — garbage collection of the log structured
allocator.

`Owns` says which slabs the region got from the arena and from `malloc` and
has not given back, in terms of the addresses and sizes of the slabs it
holds, listed or cached. `GcState.Inv` is the invariant of all runs with
arbitrary reservations and arbitrary arguments of `lsregion_gc`: the chunks
are where they were allocated, and the statistics say what the slabs hold.
-/
import Mathlib.Algebra.BigOperators.Group.List.Basic
import Mathlib.Data.List.TakeWhile
import Mathlib.Logic.Function.Basic
import SmallAllocators.Lib.Memory
import SmallAllocators.Lsregion.Slabs

namespace SmallAllocators

open Memory

variable {β : Type} {arenaSize size k addr n total total' : Nat} {calls calls' : LsCalls}

/-! ## What the region holds -/

/-- Of the slabs it got, the region has given back all but `held`, each to where it came from. -/
structure Owns (arenaSize : Nat) (held : List (Nat × Nat)) (total : Nat) (calls : LsCalls) :
    Prop where
  total : total = (held.map Prod.snd).sum
  maps : calls.maps.Perm (calls.unmaps ++ (held.filter fun x => x.2 ≤ arenaSize).map Prod.fst)
  mallocs : calls.mallocs.Perm (calls.frees ++ (held.filter fun x => arenaSize < x.2).map Prod.fst)

variable {held held' : List (Nat × Nat)}

theorem Owns.nil (arenaSize : Nat) : Owns arenaSize [] 0 ⟨[], [], [], []⟩ :=
  ⟨rfl, List.Perm.refl _, List.Perm.refl _⟩

theorem Owns.perm (h : Owns arenaSize held total calls) (hp : held.Perm held') :
    Owns arenaSize held' total calls :=
  ⟨h.total.trans (hp.map _).sum_eq, h.maps.trans (((hp.filter _).map _).append_left _),
    h.mallocs.trans (((hp.filter _).map _).append_left _)⟩

theorem Owns.malloc (h : Owns arenaSize held total calls) (addr : Nat) (hn : arenaSize < n) :
    Owns arenaSize ((addr, n) :: held) (total + n)
      { calls with mallocs := addr :: calls.mallocs } := by
  refine ⟨?_, ?_, ?_⟩
  · rw [h.total, List.map_cons, List.sum_cons, Nat.add_comm]
  · rw [List.filter_cons_of_neg (by simpa using hn)]
    exact h.maps
  · rw [List.filter_cons_of_pos (by simpa using hn), List.map_cons]
    exact (h.mallocs.cons addr).trans List.perm_middle.symm

theorem Owns.map (h : Owns arenaSize held total calls) (addr : Nat) (hn : n ≤ arenaSize) :
    Owns arenaSize ((addr, n) :: held) (total + n) { calls with maps := addr :: calls.maps } := by
  refine ⟨?_, ?_, ?_⟩
  · rw [h.total, List.map_cons, List.sum_cons, Nat.add_comm]
  · rw [List.filter_cons_of_pos (by simpa using hn), List.map_cons]
    exact (h.maps.cons addr).trans List.perm_middle.symm
  · rw [List.filter_cons_of_neg (by simpa using hn)]
    exact h.mallocs

theorem Owns.free (h : Owns arenaSize ((addr, n) :: held) total calls) (hn : arenaSize < n) :
    Owns arenaSize held (total - n) { calls with frees := addr :: calls.frees } := by
  have hmaps := h.maps
  have hmallocs := h.mallocs
  rw [List.filter_cons_of_neg (by simpa using hn)] at hmaps
  rw [List.filter_cons_of_pos (by simpa using hn), List.map_cons] at hmallocs
  refine ⟨?_, hmaps, hmallocs.trans List.perm_middle⟩
  rw [h.total, List.map_cons, List.sum_cons, Nat.add_sub_cancel_left]

theorem Owns.unmap (h : Owns arenaSize ((addr, n) :: held) total calls) (hn : n ≤ arenaSize) :
    Owns arenaSize held (total - n) { calls with unmaps := addr :: calls.unmaps } := by
  have hmaps := h.maps
  have hmallocs := h.mallocs
  rw [List.filter_cons_of_neg (by simpa using hn)] at hmallocs
  rw [List.filter_cons_of_pos (by simpa using hn), List.map_cons] at hmaps
  refine ⟨?_, hmaps.trans List.perm_middle, hmallocs⟩
  rw [h.total, List.map_cons, List.sum_cons, Nat.add_sub_cancel_left]

/-- A new slab. -/
theorem NewSlab.owns {region : Lsregion} {cached : Option Lslab}
    (hnew : NewSlab arenaSize region addr n total cached calls)
    (h : Owns arenaSize region.held region.total region.calls) :
    Owns arenaSize (region.withSlab addr n total cached calls).held total calls := by
  have hheld : (region.withSlab addr n total cached calls).held.Perm
      ((addr, n) :: (region.slabs ++ cached.toList).map fun t => (t.addr, t.slabSize)) := by
    simp only [Lsregion.held, Lsregion.blocks, Lsregion.withSlab, Lsregion.addSlab,
      List.map_append, List.append_assoc]
    exact List.perm_middle
  refine Owns.perm ?_ hheld.symm
  cases hnew with
  | malloc addr n hn => exact h.malloc addr hn
  | cached t ht =>
      refine h.perm ?_
      rw [Lsregion.held, Lsregion.blocks, ht]
      simp only [Option.toList_some, Option.toList_none, List.append_nil, List.map_append,
        List.map_cons, List.map_nil]
      exact List.perm_append_singleton _ _
  | map addr hc =>
      rw [Lsregion.held, Lsregion.blocks, hc] at h
      exact h.map addr (Nat.le_refl _)

/-- A slab that `lsregion_gc` frees. -/
theorem lsregionDrop_owns {region : Lsregion} {t : Lslab} {ts : List Lslab}
    (h : Owns arenaSize
      ({ region with slabs := t :: ts } : Lsregion).held region.total region.calls) :
    Owns arenaSize ({ lsregionDrop arenaSize region t with slabs := ts } : Lsregion).held
      (lsregionDrop arenaSize region t).total (lsregionDrop arenaSize region t).calls := by
  have h' : Owns arenaSize ((t.addr, t.slabSize) :: (ts ++ region.cached.toList).map fun t =>
      (t.addr, t.slabSize))
      region.total region.calls := h
  unfold lsregionDrop
  by_cases hlarge : t.slabSize > arenaSize
  · simp only [if_pos hlarge]
    exact h'.free hlarge
  · have hle : t.slabSize ≤ arenaSize := by omega
    cases hc : region.cached with
    | some u =>
        simp only [if_neg hlarge, ne_eq, reduceCtorEq, not_false_eq_true, if_true]
        rw [hc] at h'
        simp only [Lsregion.held, Lsregion.blocks]
        exact h'.unmap hle
    | none =>
        -- it is cached
        simp only [if_neg hlarge, ne_eq, not_true_eq_false, if_false]
        rw [hc] at h'
        refine h'.perm ?_
        simp only [Lsregion.held, Lsregion.blocks, Option.toList_none, Option.toList_some,
          List.append_nil, List.map_append, List.map_cons, List.map_nil]
        exact (List.perm_append_singleton _ _).symm

/-! ## The chunks -/

/-- A chunk that an allocation returned, and its data. -/
structure Placed (β : Type) where
  id : Int
  addr : Nat
  /-- The bytes before it that alignment left out. -/
  pad : Nat
  bytes : List β

/-- The bytes that the chunk takes, with the padding. -/
def Placed.padded (c : Placed β) : Nat := c.pad + c.bytes.length

/-- The chunk is in the slab at its address, with its bytes. -/
structure Placed.In (c : Placed β) (mem : Nat → β) (t : Lslab) : Prop where
  first : t.addr + lslabSizeof + c.pad ≤ c.addr
  last : c.addr + c.bytes.length ≤ t.pos
  bytes : read mem c.addr c.bytes.length = c.bytes

/-- The slab holds the chunks. -/
structure SlabHolds (mem : Nat → β) (t : Lslab) (cs : List (Placed β)) : Prop where
  used : t.slabUsed = lslabSizeof + (cs.map Placed.padded).sum
  placed : ∀ c ∈ cs, c.In mem t
  ids : ∀ c ∈ cs, c.id ≤ t.maxId

/-- The region, its memory, and the chunks allocated in each slab, by the id of the slab. -/
structure GcState (β : Type) where
  region : Lsregion
  mem : Nat → β
  chunks : Int → List (Placed β)
  /-- The id of the last chunk, which later ones are not less than. -/
  lastId : Int

structure GcState.Inv (arenaSize : Nat) (s : GcState β) : Prop where
  region : s.region.Inv arenaSize (2 ^ 63)
  holds : ∀ t ∈ s.region.slabs, SlabHolds s.mem t (s.chunks t.slabId)
  maxIds : ∀ t ∈ s.region.slabs, t.maxId ≤ s.lastId
  lastId : 0 ≤ s.lastId ∧ s.lastId ≤ int64Max
  fresh : ∀ i, s.region.slabId < i → s.chunks i = []
  used : s.region.used = (s.region.slabs.map fun t => t.slabUsed - lslabSizeof).sum
  owns : Owns arenaSize s.region.held s.region.total s.region.calls

variable {s : GcState β} {answer : Option Nat}

theorem GcState.Inv.layout (h : s.Inv arenaSize) : s.region.Layout arenaSize :=
  h.region.layout (by decide)

/-- A new, empty slab at the end of the list. -/
theorem GcState.Inv.addSlab (h : s.Inv arenaSize) {cached : Option Lslab}
    (hnew : NewSlab arenaSize s.region addr n total cached calls)
    (hgets : s.region.Gets arenaSize size k answer addr n cached) (hlow : addr + n < 2 ^ 63) :
    GcState.Inv arenaSize { s with region := s.region.withSlab addr n total cached calls } := by
  set t := lslabCreate addr n (s.region.slabId + 1) with ht
  constructor
  case region => exact h.region.withSlab hnew hgets hlow
  case holds =>
    intro u hu
    rcases List.mem_append.mp hu with hu | hu
    · exact h.holds u hu
    · rw [List.mem_singleton] at hu
      subst hu
      have hnil : s.chunks t.slabId = [] := h.fresh _ (Int.lt_succ _)
      show SlabHolds s.mem t (s.chunks t.slabId)
      rw [hnil]
      exact ⟨rfl, by simp, by simp⟩
  case maxIds =>
    intro u hu
    rcases List.mem_append.mp hu with hu | hu
    · exact h.maxIds u hu
    · rw [List.mem_singleton] at hu
      have := h.lastId.1
      rw [hu]
      show lslabNotUsedId ≤ s.lastId
      unfold lslabNotUsedId
      omega
  case lastId => exact h.lastId
  case fresh =>
    intro i hi
    have hi' : s.region.slabId + 1 < i := hi
    exact h.fresh i (by omega)
  case used =>
    show s.region.used = ((s.region.slabs ++ [t]).map fun t => t.slabUsed - lslabSizeof).sum
    rw [List.map_append, List.sum_append, h.used]
    simp [ht, lslabCreate]
  case owns => exact hnew.owns h.owns

/-! ## Allocating -/

/-- The id of the last slab. -/
def Lsregion.lastSlabId (region : Lsregion) : Int := (region.slabs.getLast?.map Lslab.slabId).getD 0

/-- The state after an allocation at the reservation `r`, with the data of the client in the
chunk. -/
def GcState.place (s : GcState β) (region : Lsregion) (r : Reservation) (size : Nat) (id : Int)
    (data : Nat → β) :
    GcState β where
  region := region
  mem := fill s.mem r.pos size data
  chunks := Function.update s.chunks region.lastSlabId (s.chunks region.lastSlabId ++
    [{ id := id, addr := r.pos, pad := r.pos - r.unaligned, bytes := (List.range size).map data }])
  lastId := id

theorem SlabHolds.fill {mem : Nat → β} {t : Lslab} {cs : List (Placed β)} (h : SlabHolds mem t cs)
    {a : Nat} (data : Nat → β) (hout : ∀ x, t.addr ≤ x → x < t.pos → ¬ (a ≤ x ∧ x < a + n)) :
    SlabHolds (fill mem a n data) t cs :=
  { h with
    placed := fun c hc =>
      { h.placed c hc with
        bytes := by
          have hc := h.placed c hc
          have h1 := hc.first
          have h2 := hc.last
          rw [read_fill_of_disjoint fun x h3 h4 => hout x (by omega) (by omega)]
          exact hc.bytes } }

/-- A chunk at the reservation `r`. -/
def placedAt (r : Reservation) (size : Nat) (id : Int) (data : Nat → β) : Placed β where
  id := id
  addr := r.pos
  pad := r.pos - r.unaligned
  bytes := (List.range size).map data

@[simp]
theorem placedAt_padded {r : Reservation} {id : Int} {data : Nat → β} :
    (placedAt r size id data).padded = r.pos - r.unaligned + size := by
  simp [Placed.padded, placedAt]

theorem SlabHolds.sizeof_le {mem : Nat → β} {t : Lslab} {cs : List (Placed β)}
    (h : SlabHolds mem t cs) : lslabSizeof ≤ t.slabUsed := by
  rw [h.used]
  exact Nat.le_add_right _ _

/-- A slab with one chunk more. -/
theorem SlabHolds.newChunk {mem : Nat → β} {t : Lslab} {cs : List (Placed β)} {region : Lsregion}
    {r : Reservation} {id : Int} (h : SlabHolds mem t cs) (hr : region.Reserved size k r t)
    (hid : t.maxId ≤ id) (data : Nat → β) :
    SlabHolds (Memory.fill mem r.pos size data) (t.grown (r.pos - r.unaligned + size) id)
      (cs ++ [placedAt r size id data]) := by
  have hle : t.pos ≤ r.pos := by
    rw [hr.pos]
    exact le_alignUp _ _
  have hunaligned : r.unaligned = t.pos := hr.unaligned
  have hsizeof := h.sizeof_le
  have hold := h.fill (n := size) (a := r.pos) data fun x h1 h2 hx => by omega
  constructor
  case used =>
    show t.slabUsed + (r.pos - r.unaligned + size) = _
    simp [h.used, Nat.add_assoc]
  case placed =>
    intro d hd
    rcases List.mem_append.mp hd with hd | hd
    · have hd' := hold.placed d hd
      refine ⟨hd'.first, hd'.last.trans ?_, hd'.bytes⟩
      show t.addr + t.slabUsed ≤ t.addr + (t.slabUsed + (r.pos - r.unaligned + size))
      omega
    obtain rfl := List.mem_singleton.mp hd
    refine ⟨?_, ?_, ?_⟩
    · show t.addr + lslabSizeof + (r.pos - r.unaligned) ≤ r.pos
      rw [hunaligned]
      simp only [Lslab.pos] at *
      omega
    · show r.pos + ((List.range size).map data).length ≤
        t.addr + (t.slabUsed + (r.pos - r.unaligned + size))
      rw [List.length_map, List.length_range, hunaligned]
      simp only [Lslab.pos] at *
      omega
    · show read (Memory.fill mem r.pos size data) r.pos ((List.range size).map data).length = _
      rw [List.length_map, List.length_range, read_fill]
      rfl
  case ids =>
    intro d hd
    rcases List.mem_append.mp hd with hd | hd
    · exact Int.le_trans (h.ids d hd) hid
    · obtain rfl := List.mem_singleton.mp hd
      exact Int.le_refl _

/-- `lslab_use` on the last slab, for a chunk that a reservation found room for. -/
theorem GcState.Inv.useLast (h : s.Inv arenaSize) {r : Reservation} {t : Lslab} {id : Int}
    (hr : s.region.Reserved size k r t) (hid : s.lastId ≤ id) (hmax : id ≤ int64Max)
    (data : Nat → β) :
    ∃ region, s.region.useLast (r.pos - r.unaligned + size) id = some region ∧
      (s.place region r size id data).Inv arenaSize := by
  have htm : t ∈ s.region.slabs := List.mem_of_getLast? hr.last
  have ht := h.holds t htm
  have hmaxId : t.maxId ≤ id := Int.le_trans (h.maxIds t htm) hid
  obtain ⟨us, hslabs, huse, hregion⟩ := h.region.useLast hr hmaxId
  have hheld : (s.region.withUse us t (r.pos - r.unaligned + size) id).held = s.region.held :=
    Lsregion.held_withUse hslabs
  have hlast := ht.newChunk hr hmaxId data
  set n := r.pos - r.unaligned + size with hn
  have hsub : ∀ u ∈ us, u ∈ s.region.slabs := fun u hu => by simp [hslabs, hu]
  have hlastId : (s.region.withUse us t n id).lastSlabId = t.slabId := by
    simp [Lsregion.lastSlabId, Lsregion.withUse, Lslab.grown]
  have hchunks : (s.place (s.region.withUse us t n id) r size id data).chunks =
      Function.update s.chunks t.slabId (s.chunks t.slabId ++ [placedAt r size id data]) := by
    simp only [GcState.place, hlastId]
    rfl
  refine ⟨s.region.withUse us t n id, huse, ?_⟩
  constructor
  case region => exact hregion
  case holds =>
    intro u hu
    rw [hchunks]
    rcases List.mem_append.mp hu with hu | hu
    · -- the other slabs are elsewhere
      obtain ⟨hlt, hap⟩ := h.region.before_last hslabs hu
      rw [Function.update_of_ne (Int.ne_of_lt hlt)]
      refine (h.holds u (hsub u hu)).fill data fun x h1 h2 hx => ?_
      have hub := (h.region.bounds u (hsub u hu)).1
      have hfits := hr.fits
      have hle : t.pos ≤ r.pos := by
        rw [hr.pos]
        exact le_alignUp _ _
      simp only [Lslab.Apart, Lslab.last, Lslab.pos] at *
      omega
    · obtain rfl := List.mem_singleton.mp hu
      show SlabHolds _ _ (Function.update s.chunks t.slabId _ t.slabId)
      rw [Function.update_self]
      exact hlast
  case maxIds =>
    intro u hu
    rcases List.mem_append.mp hu with hu | hu
    · exact Int.le_trans (h.maxIds u (hsub u hu)) hid
    · obtain rfl := List.mem_singleton.mp hu
      exact Int.le_refl _
  case lastId => exact ⟨Int.le_trans h.lastId.1 hid, hmax⟩
  case fresh =>
    intro i hi
    have hi' : s.region.slabId < i := hi
    have hb := h.region.idBound t htm
    rw [hchunks, Function.update_of_ne (by omega)]
    exact h.fresh i hi'
  case used =>
    show s.region.used + n = ((us ++ [t.grown n id]).map fun t => t.slabUsed - lslabSizeof).sum
    have hused := h.used
    have hsizeof := ht.sizeof_le
    rw [hslabs] at hused
    rw [hused]
    simp only [List.map_append, List.sum_append, List.map_singleton, List.sum_singleton,
      Lslab.grown]
    omega
  case owns =>
    show Owns arenaSize (s.region.withUse us t n id).held s.region.total s.region.calls
    rw [hheld]
    exact h.owns

/-! ## Collecting -/

/-- `lsregion_gc` frees the oldest slab. -/
theorem GcState.Inv.dropFirst {region : Lsregion} {t : Lslab} {ts : List Lslab}
    (h : GcState.Inv arenaSize { s with region := { region with slabs := t :: ts } }) :
    GcState.Inv arenaSize
      { s with region := { lsregionDrop arenaSize region t with slabs := ts } } := by
  have hsub : ∀ u ∈ ts, u ∈ t :: ts := fun u hu => List.mem_cons_of_mem _ hu
  constructor
  case region => exact h.region.dropFirst
  case holds => exact fun u hu => h.holds u (hsub u hu)
  case maxIds => exact fun u hu => h.maxIds u (hsub u hu)
  case lastId => exact h.lastId
  case fresh =>
    intro i hi
    have hi' : (lsregionDrop arenaSize region t).slabId < i := hi
    rw [lsregionDrop_slabId] at hi'
    exact h.fresh i hi'
  case used =>
    have hold : region.used = ((t :: ts).map fun t => t.slabUsed - lslabSizeof).sum := h.used
    show (lsregionDrop arenaSize region t).used = _
    rw [lsregionDrop_used, hold, List.map_cons, List.sum_cons, Nat.add_sub_cancel_left]
  case owns => exact lsregionDrop_owns h.owns

/-- The loop of `lsregion_gc`: it frees the longest leading run of slabs with `max_id <= min_id`. -/
theorem lsregionGcLoop_exact {minId : Int} (ts : List Lslab) (region : Lsregion)
    (h : GcState.Inv arenaSize { s with region := { region with slabs := ts } }) :
    GcState.Inv arenaSize { s with region := lsregionGcLoop arenaSize minId ts region } ∧
      (lsregionGcLoop arenaSize minId ts region).slabs = ts.dropWhile fun t => t.maxId ≤ minId := by
  induction ts generalizing region with
  | nil => exact ⟨h, rfl⟩
  | cons t ts ih =>
      unfold lsregionGcLoop
      split
      · rename_i hgt
        refine ⟨h, ?_⟩
        rw [List.dropWhile_cons_of_neg (by simpa using hgt)]
      · rename_i hgt
        obtain ⟨hinv, hslabs⟩ := ih _ h.dropFirst
        refine ⟨hinv, ?_⟩
        rw [hslabs, List.dropWhile_cons_of_pos (by simpa using hgt)]

/-- `lsregion_gc`. -/
theorem lsregionGc_exact (h : s.Inv arenaSize) (minId : Int) :
    GcState.Inv arenaSize { s with region := lsregionGc arenaSize s.region minId } ∧
      (lsregionGc arenaSize s.region minId).slabs = s.region.slabs.dropWhile fun t =>
      t.maxId ≤ minId :=
  lsregionGcLoop_exact _ _ h

/-- `lsregion_destroy` gives back all slabs, each to where it came from. -/
theorem lsregionDestroy_exact (h : s.Inv arenaSize) :
    (lsregionDestroy arenaSize s.region).calls.unmaps.Perm
      (lsregionDestroy arenaSize s.region).calls.maps ∧
      (lsregionDestroy arenaSize s.region).calls.frees.Perm
        (lsregionDestroy arenaSize s.region).calls.mallocs := by
  -- all slabs are collected
  obtain ⟨region, heq, hinv, hnil⟩ : ∃ region, region = (if s.region.slabs ≠ [] then
      lsregionGc arenaSize s.region int64Max else s.region) ∧
      GcState.Inv arenaSize { s with region := region } ∧ region.slabs = [] := by
    by_cases hne : s.region.slabs ≠ []
    · obtain ⟨hinv, hslabs⟩ := lsregionGc_exact h int64Max
      refine ⟨_, (if_pos hne).symm, hinv, ?_⟩
      rw [hslabs, List.dropWhile_eq_nil_iff]
      intro t ht
      have hmax := h.maxIds t ht
      have hlast := h.lastId.2
      simp only [decide_eq_true_eq]
      omega
    · exact ⟨_, (if_neg hne).symm, h, not_not.mp hne⟩
  have howns : Owns arenaSize (region.cached.toList.map fun t =>
        (t.addr, t.slabSize)) region.total region.calls := by
    have := hinv.owns
    rwa [show ({ s with region := region } : GcState β).region.held =
      (region.slabs ++ region.cached.toList).map fun t => (t.addr, t.slabSize) from rfl,
      hnil] at this
  unfold lsregionDestroy
  rw [← heq]
  dsimp only
  cases hc : region.cached with
  | none =>
      rw [hc] at howns
      have h1 := howns.maps
      have h2 := howns.mallocs
      simp only [Option.toList_none, List.map_nil, List.filter_nil, List.append_nil] at h1 h2
      exact ⟨h1.symm, h2.symm⟩
  | some t =>
      rw [hc] at howns
      have hu := Owns.unmap howns (Nat.le_of_eq (hinv.region.cached t hc))
      have h1 := hu.maps
      have h2 := hu.mallocs
      simp only [List.map_nil, List.filter_nil, List.append_nil] at h1 h2
      exact ⟨h1.symm, h2.symm⟩

end SmallAllocators
