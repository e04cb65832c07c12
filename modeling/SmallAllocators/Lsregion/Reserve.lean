/-
SmallAllocators.Lsregion.Reserve — where a reservation of the log structured
allocator finds room.

`lsregionAlignedReserve_cases` says all that the function can do when no
address or size computation wraps around: it finds room in the last slab, it
returns `NULL` and changes nothing, or it puts a new slab at the end of the
list, from `malloc`, the cache of the region or the arena (`NewSlab`).
-/
import Mathlib.Order.Basic
import Mathlib.Data.List.Basic
import SmallAllocators.Lsregion.Model

namespace SmallAllocators

/-- Two slabs occupy different memory. -/
def Lslab.Apart (s t : Lslab) : Prop := s.last ≤ t.addr ∨ t.last ≤ s.addr

theorem Lslab.Apart.symm {s t : Lslab} (h : s.Apart t) : t.Apart s := Or.symm h

/-- The slabs of the region, the cached one included. -/
def Lsregion.blocks (region : Lsregion) : List Lslab := region.slabs ++ region.cached.toList

/-- The reservation fits in the slab. -/
def Lslab.Fits (t : Lslab) (size alignment : Nat) : Prop :=
  ∃ p, smallAlign t.pos alignment = some p ∧ p + size ≤ t.last

variable {arenaSize size alignment k : Nat} {answer : Option Nat}

/-! ## When nothing wraps around -/

/-- No computation of an address or a size wraps around: neither the end of the chunk in the last
slab, nor the size of a new slab. -/
structure Lsregion.NoWrap (region : Lsregion) (size alignment : Nat) : Prop where
  align : ∀ t, region.slabs.getLast? = some t → t.pos + alignment < sizeMax
  last : ∀ t p, region.slabs.getLast? = some t → smallAlign t.pos alignment = some p →
    p + size < sizeMax
  slab : size + alignment + lslabSizeof ≤ sizeMax

instance Lsregion.NoWrap.decidable (region : Lsregion) (size alignment : Nat) :
    Decidable (region.NoWrap size alignment) :=
  decidable_of_iff
    ((∀ t ∈ region.slabs.getLast?, t.pos + alignment < sizeMax ∧
      ∀ p ∈ smallAlign t.pos alignment, p + size < sizeMax) ∧
      size + alignment + lslabSizeof ≤ sizeMax)
    ⟨fun h => ⟨fun t ht => (h.1 t ht).1, fun t p ht hp => (h.1 t ht).2 p hp, h.2⟩,
      fun h => ⟨fun t ht => ⟨h.align t ht, fun p hp => h.last t p ht hp⟩, h.slab⟩⟩

/-- What the arena or `malloc` may return: memory of the size asked for, not in use already. -/
def Lsregion.Answer (arenaSize : Nat) (region : Lsregion) (size alignment : Nat)
    (answer : Option Nat) : Prop :=
  ∀ addr, answer = some addr →
    addr + max arenaSize (newSlabSize size alignment) < sizeMax ∧
    ∀ t ∈ region.blocks,
      addr + max arenaSize (newSlabSize size alignment) ≤ t.addr ∨ t.last ≤ addr

instance Lsregion.Answer.decidable (region : Lsregion) (answer : Option Nat) :
    Decidable (region.Answer arenaSize size alignment answer) :=
  inferInstanceAs (Decidable (∀ addr ∈ answer, _ ∧ ∀ t ∈ region.blocks, _ ∨ _))

theorem newSlabSize_eq (hpos : 1 ≤ alignment) (hwrap : size + alignment + lslabSizeof ≤ sizeMax) :
    newSlabSize size alignment = size + alignment - 1 + lslabSizeof := by
  unfold newSlabSize
  rw [show size + alignment + (sizeMax - 1) = size + alignment - 1 + sizeMax by
    simp only [sizeMax, lslabSizeof] at *; omega, Nat.add_mod_right,
    Nat.mod_eq_of_lt (show size + alignment - 1 < sizeMax by
      simp only [sizeMax, lslabSizeof] at *; omega),
    Nat.mod_eq_of_lt (by simp only [sizeMax, lslabSizeof] at *; omega)]

/-- The attempt on a slab, when nothing wraps around. -/
theorem Lslab.tryReserve_spec {t : Lslab} (halign : t.pos + 2 ^ k < sizeMax)
    (hlast : alignUp k t.pos + size < sizeMax) :
    t.tryReserve size (2 ^ k) = some (if alignUp k t.pos + size ≤ t.last then
      some { pos := alignUp k t.pos, unaligned := t.pos } else none) := by
  simp only [Lslab.tryReserve, smallAlign_eq halign]
  by_cases h : alignUp k t.pos + size ≤ t.last <;> simp [h, Nat.mod_eq_of_lt hlast]

/-! ## The cases -/

/-- What a reservation found: room for the chunk in the last slab of the region. -/
structure Lsregion.Reserved (region : Lsregion) (size k : Nat) (r : Reservation) (t : Lslab) :
    Prop where
  last : region.slabs.getLast? = some t
  unaligned : r.unaligned = t.pos
  pos : r.pos = alignUp k t.pos
  fits : r.pos + size ≤ t.last
  align : t.pos + 2 ^ k < sizeMax

/-- A new slab of at least the size that the chunk needs holds it. -/
theorem newSlab_fits (addr : Nat) (id : Int) {n : Nat} (hn : size + 2 ^ k - 1 + lslabSizeof ≤ n) :
    alignUp k (lslabCreate addr n id).pos + size ≤ (lslabCreate addr n id).last := by
  have hup := alignUp_le k (lslabCreate addr n id).pos
  have hpos := Nat.two_pow_pos k
  simp only [lslabCreate, Lslab.pos, Lslab.last] at *
  omega

section Cases

variable {region region' : Lsregion} {r : Reservation} {t : Lslab} {p : Nat}

theorem lsregionAlignedReserve_of_fits (htry : region.tryLast size alignment = some (some r)) :
    lsregionAlignedReserve arenaSize region size alignment answer = some (some r, region) := by
  unfold lsregionAlignedReserve
  rw [htry]
  rfl

theorem lsregionAlignedReserve_of_null (htry : region.tryLast size alignment = some none)
    (hnew : lsregionNewSlab arenaSize region size alignment answer = none) :
    lsregionAlignedReserve arenaSize region size alignment answer = some (none, region) := by
  unfold lsregionAlignedReserve
  rw [htry, hnew]
  rfl

theorem lsregionAlignedReserve_of_new (htry : region.tryLast size alignment = some none)
    (hnew : lsregionNewSlab arenaSize region size alignment answer = some (t, region'))
    (hp : smallAlign t.pos alignment = some p) (hlt : p + size < sizeMax)
    (hfit : p + size ≤ t.last) :
    lsregionAlignedReserve arenaSize region size alignment answer =
      some (some { pos := p, unaligned := t.pos }, region') := by
  unfold lsregionAlignedReserve
  rw [htry, hnew]
  simp only [Option.bind_eq_bind, Option.bind_some, hp, guard]
  rw [Nat.mod_eq_of_lt hlt, if_pos hfit]
  rfl

end Cases

/-- The new slab of a reservation: its address and size, and what the region has instead of its
statistics, cached slab and calls. -/
inductive NewSlab (arenaSize : Nat) (region : Lsregion) :
    Nat → Nat → Nat → Option Lslab → LsCalls → Prop where
  | malloc (addr n : Nat) (hn : arenaSize < n) :
      NewSlab arenaSize region addr n (region.total + n) region.cached
      { region.calls with mallocs := addr :: region.calls.mallocs }
  | cached (t : Lslab) (ht : region.cached = some t) :
      NewSlab arenaSize region t.addr t.slabSize region.total none region.calls
  | map (addr : Nat) (hc : region.cached = none) :
      NewSlab arenaSize region addr arenaSize (region.total + arenaSize) none
        { region.calls with maps := addr :: region.calls.maps }

/-- The region with a new slab. -/
def Lsregion.withSlab (region : Lsregion) (addr n total : Nat) (cached : Option Lslab)
    (calls : LsCalls) : Lsregion :=
  { region.addSlab addr n with
    cached := cached
    total := total
    calls := calls }

/-- The cached slab is one of the arena, and no two slabs overlap. -/
structure Lsregion.Layout (arenaSize : Nat) (region : Lsregion) : Prop where
  cached : ∀ t, region.cached = some t → t.slabSize = arenaSize ∧ t.last < sizeMax
  apart : region.blocks.Pairwise Lslab.Apart

/-- The address behind the header of a new slab can be aligned. -/
structure Lsregion.CanAlign (arenaSize : Nat) (region : Lsregion) (size k : Nat)
    (answer : Option Nat) : Prop where
  new : ∀ addr, answer = some addr → addr + lslabSizeof + 2 ^ k < sizeMax
  cached : ∀ t, region.cached = some t → newSlabSize size (2 ^ k) ≤ arenaSize →
    t.addr + lslabSizeof + 2 ^ k < sizeMax

/-- A chunk that has a byte is behind the aligned address. -/
theorem Lsregion.Layout.canAlign {region : Lsregion} (h : region.Layout arenaSize)
    (hsize : 1 ≤ size) (hwrap : region.NoWrap size (2 ^ k))
    (hans : region.Answer arenaSize size (2 ^ k) answer) :
    region.CanAlign arenaSize size k answer := by
  have hslab := newSlabSize_eq (Nat.two_pow_pos k) hwrap.slab
  constructor
  · intro addr haddr
    have hend := (hans addr haddr).1
    have hle : newSlabSize size (2 ^ k) ≤ max arenaSize (newSlabSize size (2 ^ k)) :=
      le_max_right _ _
    omega
  · intro t ht hle
    obtain ⟨hn, hend⟩ := h.cached t ht
    simp only [Lslab.last] at hend
    omega

/-- What a new slab is: memory for the chunk that the region does not have already. -/
structure Lsregion.Gets (arenaSize : Nat) (region : Lsregion) (size k : Nat) (answer : Option Nat)
    (addr n : Nat) (cached : Option Lslab) : Prop where
  arena : arenaSize ≤ n
  room : size + 2 ^ k - 1 + lslabSizeof ≤ n
  last : addr + n < sizeMax
  align : addr + lslabSizeof + 2 ^ k < sizeMax
  out : ∀ t ∈ region.slabs ++ cached.toList, addr + n ≤ t.addr ∨ t.last ≤ addr
  origin : (∃ t, region.cached = some t ∧ t.addr = addr ∧ t.slabSize = n) ∨
    answer = some addr ∧ n ≤ max arenaSize (newSlabSize size (2 ^ k))

/-- The last slab, if there is one, has no room for the chunk. -/
def Lsregion.Full (region : Lsregion) (size k : Nat) : Prop :=
  ∀ t, region.slabs.getLast? = some t → ¬ alignUp k t.pos + size ≤ t.last

/-- The attempt on the last slab, when nothing wraps around. -/
theorem Lsregion.tryLast_cases {region : Lsregion} (hwrap : region.NoWrap size (2 ^ k)) :
    (∃ r t, region.tryLast size (2 ^ k) = some (some r) ∧ region.Reserved size k r t) ∨
      region.tryLast size (2 ^ k) = some none ∧ region.Full size k := by
  cases hlast : region.slabs.getLast? with
  | none =>
      right
      exact ⟨by simp [Lsregion.tryLast, hlast], fun t ht => by simp [hlast] at ht⟩
  | some t =>
      have halign := hwrap.align t hlast
      have heq := smallAlign_eq halign
      have hspec := Lslab.tryReserve_spec halign (hwrap.last t _ hlast heq)
      by_cases hfit : alignUp k t.pos + size ≤ t.last
      · left
        refine ⟨{ pos := alignUp k t.pos, unaligned := t.pos }, t, ?_,
          ⟨hlast, rfl, rfl, hfit, halign⟩⟩
        simp [Lsregion.tryLast, hlast, hspec, hfit]
      · right
        refine ⟨by simp [Lsregion.tryLast, hlast, hspec, hfit], fun u hu => ?_⟩
        rw [hlast, Option.some.injEq] at hu
        exact hu ▸ hfit

/-- Where the new slab comes from, if there is one. -/
theorem lsregionNewSlab_cases {region : Lsregion} (h : region.Layout arenaSize)
    (hwrap : region.NoWrap size (2 ^ k)) (hans : region.Answer arenaSize size (2 ^ k) answer)
    (halign : region.CanAlign arenaSize size k answer) :
    lsregionNewSlab arenaSize region size (2 ^ k) answer = none ∨
    ∃ addr n total cached calls, NewSlab arenaSize region addr n total cached calls ∧
      region.Gets arenaSize size k answer addr n cached ∧
      lsregionNewSlab arenaSize region size (2 ^ k) answer =
        some (lslabCreate addr n (region.slabId + 1),
          region.withSlab addr n total cached calls) := by
  have hslab := newSlabSize_eq (Nat.two_pow_pos k) hwrap.slab
  by_cases hlarge : newSlabSize size (2 ^ k) > arenaSize
  · cases answer with
    | none =>
        left
        simp [lsregionNewSlab, hlarge]
    | some addr =>
        right
        obtain ⟨hend, hout⟩ := hans addr rfl
        rw [max_eq_right hlarge.le] at hend hout
        refine ⟨addr, newSlabSize size (2 ^ k), _, _, _, .malloc addr _ hlarge,
          ⟨hlarge.le, hslab.ge, hend, halign.new addr rfl, hout,
          Or.inr ⟨rfl, le_max_right _ _⟩⟩, ?_⟩
        simp [lsregionNewSlab, hlarge, Lsregion.addSlab, Lsregion.withSlab]
  · have hle : size + 2 ^ k - 1 + lslabSizeof ≤ arenaSize := by omega
    cases hc : region.cached with
    | some t =>
        right
        obtain ⟨htsize, htend⟩ := h.cached t hc
        refine ⟨t.addr, t.slabSize, _, _, _, .cached t hc, ⟨by omega, by omega, htend,
          halign.cached t hc (by omega), fun u hu => ?_, Or.inl ⟨t, hc, rfl, rfl⟩⟩, ?_⟩
        · have hap := h.apart
          rw [Lsregion.blocks, hc] at hap
          exact ((List.pairwise_append.mp hap).2.2 u (by simpa using hu) t (by simp)).symm
        · simp [lsregionNewSlab, hlarge, hc, Lsregion.addSlab, Lsregion.withSlab]
    | none =>
        cases answer with
        | none =>
            left
            simp [lsregionNewSlab, hlarge, hc]
        | some addr =>
            right
            obtain ⟨hend, hout⟩ := hans addr rfl
            rw [max_eq_left (by omega)] at hend hout
            rw [Lsregion.blocks, hc] at hout
            refine ⟨addr, arenaSize, _, _, _, .map addr hc,
              ⟨Nat.le_refl _, hle, hend, halign.new addr rfl, hout,
              Or.inr ⟨rfl, le_max_left _ _⟩⟩, ?_⟩
            simp [lsregionNewSlab, hlarge, hc, Lsregion.addSlab, Lsregion.withSlab]

/-- **All that `lsregion_aligned_reserve` can do** when nothing wraps around. -/
theorem lsregionAlignedReserve_cases {region : Lsregion} (h : region.Layout arenaSize)
    (hwrap : region.NoWrap size (2 ^ k)) (hans : region.Answer arenaSize size (2 ^ k) answer)
    (halign : region.CanAlign arenaSize size k answer) :
    (lsregionAlignedReserve arenaSize region size (2 ^ k) answer = some (none, region) ∧
        region.Full size k) ∨
    (∃ r t, lsregionAlignedReserve arenaSize region size (2 ^ k) answer = some (some r, region) ∧
      region.Reserved size k r t) ∨
    ∃ addr n total cached calls r, NewSlab arenaSize region addr n total cached calls ∧
      region.Gets arenaSize size k answer addr n cached ∧ region.Full size k ∧
      lsregionAlignedReserve arenaSize region size (2 ^ k) answer =
        some (some r, region.withSlab addr n total cached calls) ∧
      (region.withSlab addr n total cached calls).Reserved size k r
        (lslabCreate addr n (region.slabId + 1)) := by
  rcases Lsregion.tryLast_cases hwrap with ⟨r, t, htry, hr⟩ | ⟨htry, hfull⟩
  · exact Or.inr (Or.inl ⟨r, t, lsregionAlignedReserve_of_fits htry, hr⟩)
  · rcases lsregionNewSlab_cases h hwrap hans halign with hnone
      | ⟨addr, n, total, cached, calls, hnew, hgets, heq⟩
    · exact Or.inl ⟨lsregionAlignedReserve_of_null htry hnone, hfull⟩
    · have hfit := newSlab_fits addr (region.slabId + 1) hgets.room
      have hup : (lslabCreate addr n (region.slabId + 1)).pos + 2 ^ k < sizeMax := hgets.align
      refine Or.inr (Or.inr ⟨addr, n, total, cached, calls, _, hnew, hgets, hfull,
        lsregionAlignedReserve_of_new htry heq (smallAlign_eq hup)
          (lt_of_le_of_lt hfit hgets.last) hfit, ?_⟩)
      exact ⟨by simp [Lsregion.withSlab, Lsregion.addSlab], rfl, rfl, hfit, hup⟩

/-- `lsregion_reserve` is `lsregion_aligned_reserve` with alignment 1. -/
theorem lsregionReserve_of_aligned {r : Option Reservation} {region region' : Lsregion}
    (heq : lsregionAlignedReserve arenaSize region size 1 answer = some (r, region'))
    (hr : ∀ r', r = some r' → r'.pos = r'.unaligned) :
    lsregionReserve arenaSize region size answer = some (r, region') := by
  unfold lsregionReserve
  rw [heq]
  cases r with
  | none => rfl
  | some r' =>
      simp only [Option.bind_eq_bind, Option.bind_some, guard]
      rw [if_pos (hr r' rfl)]
      rfl

theorem Lsregion.Reserved.pos_eq {region : Lsregion} {r : Reservation} {t : Lslab}
    (hr : region.Reserved size 0 r t) : r.pos = r.unaligned := by
  rw [hr.pos, hr.unaligned, alignUp_zero]

end SmallAllocators
