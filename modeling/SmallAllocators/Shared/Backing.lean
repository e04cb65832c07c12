/-
SmallAllocators.Shared.Backing — the memory behind the allocators: what is
held, and what it is billed for.

A `Holding` is memory that somebody has: slabs of the arenas, and blocks of
`malloc`. Holdings add up. `Backing.Inv` says that exactly one holding is in
use, and that the quota is billed for the arenas and for its blocks. The
specs of the four functions are stated beside an arbitrary rest of the
memory: what one allocator gets and gives back is all that changes.
-/
import Mathlib.Algebra.Group.Pi.Lemmas
import Mathlib.Algebra.BigOperators.Group.Multiset.Basic
import SmallAllocators.Shared.Model
import SmallAllocators.SlabArena.Sequential

namespace SmallAllocators

open Finset

/-! ## Holdings -/

/-- Slabs of each arena, and blocks of `malloc` with their sizes. -/
abbrev Holding (ι : Type) : Type := (ι → Multiset Nat) × Multiset (Nat × Nat)

namespace Holding

variable {ι : Type} [DecidableEq ι]

/-- A slab of the arena `i`. -/
def slab (i : ι) (m : Nat) : Holding ι := (Pi.single i {m}, 0)

omit [DecidableEq ι] in
/-- A block of `malloc`. -/
def block (a n : Nat) : Holding ι := (0, {(a, n)})

omit [DecidableEq ι] in
/-- What the blocks are billed for. -/
def bill (H : Holding ι) : Nat := (H.2.map fun x => ceilUnits x.2 * quotaUnitSize).sum

variable {i j : ι} {a m n : Nat} {H H' : Holding ι}

omit [DecidableEq ι] in
@[simp] theorem bill_add (H H' : Holding ι) : (H + H').bill = H.bill + H'.bill := by
  rw [bill, Prod.snd_add, Multiset.map_add, Multiset.sum_add, bill, bill]

omit [DecidableEq ι] in
@[simp] theorem bill_zero : (0 : Holding ι).bill = 0 := rfl

omit [DecidableEq ι] in
theorem bill_sum {κ : Type} (T : Finset κ) (f : κ → Holding ι) :
    (∑ k ∈ T, f k).bill = ∑ k ∈ T, (f k).bill := by
  classical
  induction T using Finset.induction_on with
  | empty => rfl
  | insert k T hk ih => rw [sum_insert hk, sum_insert hk, bill_add, ih]

@[simp] theorem bill_slab (i : ι) (m : Nat) : (slab i m).bill = 0 := rfl

omit [DecidableEq ι] in
@[simp] theorem bill_block (a n : Nat) :
    (block a n : Holding ι).bill = ceilUnits n * quotaUnitSize := by
  simp [bill, block]

@[simp] theorem slab_add_self (i : ι) (m : Nat) (H : Holding ι) :
    (slab i m + H).1 i = m ::ₘ H.1 i := by
  simp [slab]

theorem slab_add_of_ne (h : j ≠ i) (m : Nat) (H : Holding ι) : (slab i m + H).1 j = H.1 j := by
  simp [slab, Pi.single_eq_of_ne h]

@[simp] theorem slab_add_snd (i : ι) (m : Nat) (H : Holding ι) : (slab i m + H).2 = H.2 :=
  zero_add _

omit [DecidableEq ι] in
@[simp] theorem block_add_fst (a n : Nat) (H : Holding ι) : (block a n + H).1 = H.1 := zero_add _

omit [DecidableEq ι] in
@[simp] theorem block_add_snd (a n : Nat) (H : Holding ι) :
    (block a n + H).2 = (a, n) ::ₘ H.2 := rfl

end Holding

/-! ## The invariant -/

variable {ι : Type} [DecidableEq ι] [Fintype ι] {c : ι → ArenaConfig} {i : ι} {b b' : Backing ι}
    {H : Holding ι}
  {a m n : Nat} {answer r : Option Nat}

omit [DecidableEq ι] in
/-- The memory with the holding `H` in use. -/
structure Backing.Inv (c : ι → ArenaConfig) (b : Backing ι) (H : Holding ι) : Prop where
  arena : ∀ i, (b.arena i).Inv (c i) (H.1 i)
  heap : (b.heap : Multiset (Nat × Nat)) = H.2
  sizes : ∀ x ∈ b.heap, 1 ≤ x.2 ∧ x.2 < quotaMax
  apart : b.heap.Pairwise fun x y => x.1 + x.2 ≤ y.1 ∨ y.1 + y.2 ≤ x.1
  prealloc : ∀ x ∈ b.heap, ∀ i, x.1 + x.2 ≤ (c i).arena ∨ (c i).arena + (c i).prealloc ≤ x.1
  mapped : ∀ x ∈ b.heap, ∀ i, ∀ m ∈ (b.arena i).mapped, x.1 + x.2 ≤ m ∨ m + (c i).slabSize ≤ x.1
  /-- The quota is billed for the arenas and for the blocks. -/
  quota : quotaUsed b.quota = ∑ i, (b.arena i).used + H.bill

omit [DecidableEq ι] in
theorem Backing.Inv.mem_heap (h : b.Inv c H) {x : Nat × Nat} : x ∈ b.heap ↔ x ∈ H.2 := by
  rw [← h.heap, Multiset.mem_coe]

omit [DecidableEq ι] in
/-- A block and a slab in use do not overlap. -/
theorem Backing.Inv.slab_apart (h : b.Inv c H) {x : Nat × Nat} (hx : x ∈ H.2) (hm : m ∈ H.1 i) :
    x.1 + x.2 ≤ m ∨ m + (c i).slabSize ≤ x.1 := by
  have hx := h.mem_heap.2 hx
  rcases (h.arena i).mem_out hm with hcarved | hmapped
  · obtain ⟨j, rfl, hle⟩ := (h.arena i).slabs.mem_carved hcarved
    have hout := h.prealloc x hx i
    omega
  · exact h.mapped x hx i m hmapped

omit [DecidableEq ι] in
/-- A block is not a slab. -/
theorem Backing.Inv.separate (h : b.Inv c H) {x : Nat × Nat}
    (hx : x ∈ b.heap) (i : ι) : x.1 ∉ (b.arena i).carved ∧ x.1 ∉ (b.arena i).mapped := by
  have hpos := (h.sizes x hx).1
  have hmin := (c i).slabSize_min
  constructor
  · intro hcarved
    obtain ⟨j, hj, hle⟩ := (h.arena i).slabs.mem_carved hcarved
    have hout := h.prealloc x hx i
    omega
  · intro hmapped
    have hout := h.mapped x hx i x.1 hmapped
    omega

omit [DecidableEq ι] in
theorem Backing.Inv.arena_billed (h : b.Inv c H) (i : ι) :
    (b.arena i).used ≤ quotaUsed b.quota := by
  have hle := single_le_sum (f := fun i => (b.arena i).used) (fun _ _ => Nat.zero_le _) (mem_univ i)
  have hquota := h.quota
  exact hle.trans (by omega)

/-! ## `slab_map` and `slab_unmap` -/

/-- A change of one arena: its slabs in use, and its counter. -/
theorem Backing.Inv.update (h : b.Inv c H) {H' : Holding ι} {arena : SlabArena} {quota : Nat}
    (harena : arena.Inv (c i) (H'.1 i)) (hothers : ∀ j, j ≠ i → H'.1 j = H.1 j) (hheap : H'.2 = H.2)
    (hmapped : ∀ x ∈ b.heap, ∀ m ∈ arena.mapped, x.1 + x.2 ≤ m ∨ m + (c i).slabSize ≤ x.1)
    (hquota : quotaUsed quota + (b.arena i).used = quotaUsed b.quota + arena.used) :
    Backing.Inv c { b with quota := quota, arena := Function.update b.arena i arena } H' where
  arena := by
    intro j
    by_cases hj : j = i
    · subst hj
      simpa using harena
    · simpa [Function.update_of_ne hj, hothers j hj] using h.arena j
  heap := h.heap.trans hheap.symm
  sizes := h.sizes
  apart := h.apart
  prealloc := h.prealloc
  mapped := by
    intro x hx j
    by_cases hj : j = i
    · subst hj
      simpa using hmapped x hx
    · simpa [Function.update_of_ne hj] using h.mapped x hx j
  quota := by
    have hsum := sum_of_others (fun j => (b.arena j).used)
      (fun j => (Function.update b.arena i arena j).used) (t := i)
      fun j hj => by rw [Function.update_of_ne hj]
    have hbill : H'.bill = H.bill := by rw [Holding.bill, hheap, Holding.bill]
    have hold := h.quota
    rw [Function.update_self] at hsum
    rw [hbill]
    show quotaUsed quota = ∑ j, (Function.update b.arena i arena j).used + H.bill
    omega

omit [DecidableEq ι] [Fintype ι] in
theorem Backing.FreshSlab.region (h : b.FreshSlab c i m) : (b.arena i).FreshRegion (c i) m :=
  ⟨h.ne_zero, h.aligned, h.bound, h.prealloc, h.mapped⟩

/-- `slab_map` changes nothing, or one more slab of the arena is in use. -/
theorem Backing.map_cases (h : b.Inv c H) (hanswer : ∀ m, answer = some m → b.FreshSlab c i m)
    (hmap : b.map c i answer = some (r, b')) :
    r = none ∧ b' = b ∨ ∃ m, r = some m ∧ b'.Inv c (.slab i m + H) := by
  obtain ⟨⟨ptr, arena, quota⟩, hslab, hrest⟩ := Option.bind_eq_some_iff.1 hmap
  cases hrest
  rcases SlabArena.slabMap_cases (h.arena i) (h.arena_billed i)
    (fun m hm => (hanswer m hm).region) hslab with
    ⟨rfl, rfl, rfl⟩ | ⟨m, rfl, hmapped⟩
  · exact .inl ⟨rfl, by rw [Function.update_eq_self]⟩
  · refine .inr ⟨m, rfl, h.update ?_ (fun j hj => Holding.slab_add_of_ne hj m H)
      (Holding.slab_add_snd i m H) ?_ hmapped.billed⟩
    · rw [Holding.slab_add_self]
      exact hmapped.inv
    · intro x hx m' hm'
      rcases hmapped.mapped with hsame | ⟨rfl, hcons⟩
      · exact h.mapped x hx i m' (hsame ▸ hm')
      · rw [hcons] at hm'
        rcases List.mem_cons.1 hm' with rfl | hm'
        · exact ((hanswer m' rfl).heap x hx).symm
        · exact h.mapped x hx i m' hm'

/-- A slab in use goes back to its arena. -/
theorem Backing.Inv.unmap (h : b.Inv c (.slab i m + H)) :
    ∃ b', b.unmap i m = some b' ∧ b'.Inv c H := by
  have harena := h.arena i
  rw [Holding.slab_add_self] at harena
  have hmem := harena.mem_out (Multiset.mem_cons_self m _)
  have hnotin : m ∉ (b.arena i).cache := by
    intro hcache
    exact Multiset.disjoint_left.1 (Multiset.nodup_add.1 harena.nodup).2.2
      (Multiset.mem_coe.2 hcache) (Multiset.mem_cons_self m _)
  have hne := (harena.slab (Multiset.mem_cons_self m _)).1
  refine ⟨_, by simp only [Backing.unmap, guard, if_pos (And.intro hmem hnotin)]; rfl, ?_⟩
  refine h.update harena.slabUnmap (fun j hj => (Holding.slab_add_of_ne hj m H).symm)
    (Holding.slab_add_snd i m H).symm ?_ ?_
  · intro x hx m' hm'
    rw [SlabArena.slabUnmap, if_neg hne] at hm'
    exact h.mapped x hx i m' hm'
  · rw [SlabArena.slabUnmap, if_neg hne]

/-! ## `malloc` and `free` -/

omit [DecidableEq ι] in
/-- `malloc` changes nothing, or one more block is in use. -/
theorem Backing.malloc_cases (h : b.Inv c H) (hpos : 1 ≤ n) (hn : n < quotaMax)
    (hanswer : ∀ a, answer = some a → b.FreshBlock c n a)
    (hmalloc : b.malloc n answer = some (r, b')) :
    r = none ∧ b' = b ∨ ∃ a, r = some a ∧ b.FreshBlock c n a ∧ b'.Inv c (.block a n + H) := by
  obtain ⟨⟨ptr, quota⟩, hbilled, hrest⟩ := Option.bind_eq_some_iff.1 hmalloc
  rcases billedMalloc_cases hpos hn hbilled with ⟨rfl, rfl⟩ | ⟨a, rfl, ha, hquota⟩
  · cases hrest
    exact .inl ⟨rfl, rfl⟩
  · cases hrest
    have hfresh := hanswer a ha
    refine .inr ⟨a, rfl, hfresh, ?_⟩
    constructor
    case arena =>
      rw [Holding.block_add_fst]
      exact h.arena
    case heap =>
      rw [Holding.block_add_snd, ← h.heap]
      rfl
    case sizes => exact List.forall_mem_cons.2 ⟨⟨hpos, hn⟩, h.sizes⟩
    case apart => exact List.pairwise_cons.2 ⟨fun x hx => hfresh.heap x hx, h.apart⟩
    case prealloc => exact List.forall_mem_cons.2 ⟨hfresh.prealloc, h.prealloc⟩
    case mapped => exact List.forall_mem_cons.2 ⟨hfresh.mapped, h.mapped⟩
    case quota =>
      rw [Holding.bill_add, Holding.bill_block]
      show quotaUsed quota = ∑ i, (b.arena i).used + _
      rw [hquota, h.quota]
      omega

omit [DecidableEq ι] in
/-- A block in use goes back to `malloc`. -/
theorem Backing.Inv.free (h : b.Inv c (.block a n + H)) :
    ∃ b', b.free a n = some b' ∧ b'.Inv c H := by
  have hmem : (a, n) ∈ b.heap := by
    rw [h.mem_heap, Holding.block_add_snd]
    exact Multiset.mem_cons_self _ _
  have hquota := h.quota
  rw [Holding.bill_add, Holding.bill_block] at hquota
  obtain ⟨hpos, hn⟩ : 1 ≤ n ∧ n < quotaMax := h.sizes _ hmem
  obtain ⟨quota, hrelease, hused⟩ := quotaRelease_of_billed hpos hn
    (show ceilUnits n * quotaUnitSize ≤ quotaUsed b.quota by omega)
  refine ⟨_, by simp only [Backing.free, hrelease, Option.bind_eq_bind, Option.bind_some, guard,
    if_pos hmem]; rfl, ?_⟩
  have hsub : ∀ x ∈ b.heap.erase (a, n), x ∈ b.heap := fun x hx => List.mem_of_mem_erase hx
  constructor
  case arena =>
    have harena := h.arena
    rw [Holding.block_add_fst] at harena
    exact harena
  case heap =>
    show (b.heap.erase (a, n) : Multiset (Nat × Nat)) = H.2
    have hheap := h.heap
    rw [Holding.block_add_snd, Multiset.coe_eq_coe.2 (List.perm_cons_erase hmem),
      ← Multiset.cons_coe] at hheap
    exact (Multiset.cons_inj_right _).1 hheap
  case sizes => exact fun x hx => h.sizes x (hsub x hx)
  case apart => exact h.apart.sublist List.erase_sublist
  case prealloc => exact fun x hx => h.prealloc x (hsub x hx)
  case mapped => exact fun x hx => h.mapped x (hsub x hx)
  case quota =>
    show quotaUsed quota = ∑ i, (b.arena i).used + H.bill
    omega

end SmallAllocators
