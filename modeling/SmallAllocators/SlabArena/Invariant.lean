/-
SmallAllocators.SlabArena.Invariant — who has which slab, and what the
counters count.

Two parts. `ArenaState.Placed` says where the slabs are: every slab that
came out of the preallocated memory or out of `mmap` is in the lifo or held
by one thread, once. `ArenaState.Counted` says what `used` and the quota
count: all these slabs, and one more for each thread that has raised the
counter and has no slab yet.
-/
import Mathlib.Algebra.BigOperators.Group.Multiset.Basic
import Mathlib.Algebra.BigOperators.Group.Finset.Basic
import Mathlib.Algebra.Order.BigOperators.Group.Finset
import Mathlib.Data.Fintype.Basic
import SmallAllocators.LfLifo.Invariant
import SmallAllocators.Lib.Sums
import SmallAllocators.Quota.Runs
import SmallAllocators.SlabArena.Model

namespace SmallAllocators

open Finset

/-! ## The configuration -/

section Config

variable {c : ArenaConfig} {a : Nat}

theorem ArenaConfig.slabSize_min (c : ArenaConfig) : 2 ^ 16 ≤ c.slabSize := by
  rw [c.slabSize_eq]
  exact Nat.pow_le_pow_right (by decide) c.shift_min

theorem ArenaConfig.slabSize_max (c : ArenaConfig) : c.slabSize ≤ 2 ^ 31 := by
  rw [c.slabSize_eq]
  exact Nat.pow_le_pow_right (by decide) c.shift_max

/-- A slab is a whole number of units. -/
theorem ArenaConfig.units (c : ArenaConfig) :
    ceilUnits c.slabSize * quotaUnitSize = c.slabSize := by
  have hdvd : 2 ^ 10 ∣ c.slabSize := by
    rw [c.slabSize_eq]
    exact Nat.pow_dvd_pow 2 (Nat.le_trans (by decide) c.shift_min)
  obtain ⟨k, hk⟩ := hdvd
  simp only [ceilUnits, quotaUnitSize] at *
  omega

theorem ArenaConfig.quotaUnits_eq (c : ArenaConfig) :
    quotaUnits c.slabSize = ceilUnits c.slabSize := by
  have hmax := c.slabSize_max
  have : 2 ^ 31 ≤ quotaMax := by decide
  exact SmallAllocators.quotaUnits_eq (by omega)

/-- A slab passes the assertion of `lf_lifo_push`. -/
theorem ArenaConfig.lfLifo_slab (c : ArenaConfig) (haligned : c.slabSize ∣ a)
    (hbound : a < sizeMax) :
    lfLifo a = a := by
  have hdvd : 2 ^ 16 ∣ a := by
    refine Dvd.dvd.trans ?_ haligned
    rw [c.slabSize_eq]
    exact Nat.pow_dvd_pow 2 c.shift_min
  rw [lfLifo_eq hbound, Nat.div_mul_cancel hdvd]

/-- The first `n` slabs of the preallocated memory, the last one first. -/
def ArenaConfig.slots (c : ArenaConfig) : Nat → List Nat
  | 0 => []
  | n + 1 => (c.arena + n * c.slabSize) :: c.slots n

theorem ArenaConfig.mem_slots {n : Nat} :
    a ∈ c.slots n ↔ ∃ i < n, a = c.arena + i * c.slabSize := by
  induction n with
  | zero => simp [ArenaConfig.slots]
  | succ n ih =>
      rw [ArenaConfig.slots, List.mem_cons, ih]
      constructor
      · rintro (rfl | ⟨i, hi, rfl⟩)
        · exact ⟨n, Nat.lt_succ_self n, rfl⟩
        · exact ⟨i, Nat.lt_succ_of_lt hi, rfl⟩
      · rintro ⟨i, hi, rfl⟩
        rcases Nat.lt_succ_iff_lt_or_eq.1 hi with hlt | rfl
        · exact .inr ⟨i, hlt, rfl⟩
        · exact .inl rfl

theorem ArenaConfig.slots_nodup (c : ArenaConfig) (n : Nat) : (c.slots n).Nodup := by
  induction n with
  | zero => exact List.nodup_nil
  | succ n ih =>
      refine List.nodup_cons.2 ⟨fun hmem => ?_, ih⟩
      obtain ⟨i, hi, heq⟩ := ArenaConfig.mem_slots.1 hmem
      have hpos : 0 < c.slabSize := Nat.lt_of_lt_of_le (by decide) c.slabSize_min
      have := Nat.eq_of_mul_eq_mul_right hpos (Nat.add_left_cancel heq)
      omega

/-- The slabs of an arena: those that were carved out of the preallocated memory, one after the
other, and those that `mmap` returned. -/
structure ArenaConfig.Slabs (c : ArenaConfig) (carved mapped : List Nat) : Prop where
  slots : carved = c.slots carved.length
  within : carved.length * c.slabSize ≤ c.prealloc
  regions : ∀ a ∈ mapped, a ≠ 0 ∧ c.slabSize ∣ a ∧ a + c.slabSize ≤ sizeMax ∧
    (a + c.slabSize ≤ c.arena ∨ c.arena + c.prealloc ≤ a)
  regions_nodup : mapped.Nodup

variable {carved mapped : List Nat}

theorem ArenaConfig.Slabs.nil (c : ArenaConfig) : c.Slabs [] [] :=
  ⟨rfl, by simp, by simp, List.nodup_nil⟩

/-- The next slot is carved. -/
theorem ArenaConfig.Slabs.carve (h : c.Slabs carved mapped)
    (hroom : (carved.length + 1) * c.slabSize ≤ c.prealloc) :
    c.Slabs ((c.arena + carved.length * c.slabSize) :: carved) mapped where
  slots := by rw [List.length_cons, ArenaConfig.slots, ← h.slots]
  within := hroom
  regions := h.regions
  regions_nodup := h.regions_nodup

/-- A region that `mmap` returned. -/
theorem ArenaConfig.Slabs.region (h : c.Slabs carved mapped) (hne : a ≠ 0)
    (haligned : c.slabSize ∣ a) (hbound : a + c.slabSize ≤ sizeMax)
    (hout : a + c.slabSize ≤ c.arena ∨ c.arena + c.prealloc ≤ a)
    (hmapped : ∀ m ∈ mapped, a + c.slabSize ≤ m ∨ m + c.slabSize ≤ a) :
    c.Slabs carved (a :: mapped) where
  slots := h.slots
  within := h.within
  regions := by
    intro m hm
    rcases List.mem_cons.1 hm with rfl | hm
    · exact ⟨hne, haligned, hbound, hout⟩
    · exact h.regions m hm
  regions_nodup := by
    have hmin := c.slabSize_min
    refine List.nodup_cons.2 ⟨fun hmem => ?_, h.regions_nodup⟩
    have := hmapped a hmem
    omega

/-- A slab of the preallocated memory lies inside of it. -/
theorem ArenaConfig.Slabs.mem_carved (h : c.Slabs carved mapped) (ha : a ∈ carved) :
    ∃ i, a = c.arena + i * c.slabSize ∧ a + c.slabSize ≤ c.arena + c.prealloc := by
  rw [h.slots] at ha
  obtain ⟨i, hi, rfl⟩ := ArenaConfig.mem_slots.1 ha
  have hle : (i + 1) * c.slabSize ≤ carved.length * c.slabSize := Nat.mul_le_mul_right _ hi
  have hwithin := h.within
  rw [Nat.succ_mul] at hle
  exact ⟨i, rfl, by omega⟩

/-- Every slab is aligned, and not null. -/
theorem ArenaConfig.Slabs.slab (h : c.Slabs carved mapped) (ha : a ∈ carved ++ mapped) :
    a ≠ 0 ∧ c.slabSize ∣ a ∧ a + c.slabSize ≤ sizeMax := by
  rcases List.mem_append.1 ha with hcarved | hmapped
  · obtain ⟨i, rfl, hle⟩ := h.mem_carved hcarved
    have hbound := c.arena_bound
    have hmin := c.slabSize_min
    refine ⟨fun hzero => ?_, Nat.dvd_add c.arena_aligned (Nat.dvd_mul_left _ _), by omega⟩
    have := c.arena_null.1 (by omega)
    omega
  · obtain ⟨hne, hdvd, hbound, -⟩ := h.regions a hmapped
    exact ⟨hne, hdvd, hbound⟩

/-- No slab came out twice. -/
theorem ArenaConfig.Slabs.nodup (h : c.Slabs carved mapped) : (carved ++ mapped).Nodup := by
  refine List.nodup_append.2 ⟨h.slots ▸ c.slots_nodup _, h.regions_nodup, ?_⟩
  rintro a hcarved b hmapped rfl
  obtain ⟨i, hi, hle⟩ := h.mem_carved hcarved
  obtain ⟨-, -, -, hout⟩ := h.regions a hmapped
  have hmin := c.slabSize_min
  omega

end Config

/-! ## The two parts -/

/-- The slab that a call brings to the lifo. -/
def ArenaPc.elem : ArenaPc → Option Nat
  | .lifo pc => pc.elem
  | _ => none

@[simp] theorem ArenaPc.elem_idle : ArenaPc.idle.elem = none := rfl

/-- 1 for a thread that is counted in `used` and has no slab for it. -/
def ArenaPc.over : ArenaPc → Nat
  | .mmap | .subFetch => 1
  | _ => 0

/-- 1 for a thread that is billed for a slab that it does not have. -/
def ArenaPc.billed : ArenaPc → Nat
  | .fetchAdd | .mmap | .subFetch | .quotaLoad (.release _) | .quotaExchange (.release _) _ _ => 1
  | _ => 0

/-- The two calls of the quota that `slab_map` makes. -/
def QuotaOp.OfSlab (c : ArenaConfig) (op : QuotaOp) : Prop :=
  op = .use c.slabSize ∨ op = .release c.slabSize

/-- What a call in flight knows. -/
def ArenaPc.Sound (c : ArenaConfig) (s : Lifo) (stack : List Nat) : ArenaPc → Prop
  | .lifo pc => pc.Sound s stack
  | .quotaLoad op => op.OfSlab c
  | .quotaExchange op value newValue => op.OfSlab c ∧ op.attempt value = some (.exchange newValue)
  | _ => True

variable {τ : Type}

/-- The slabs that a thread has: those it owns, and the one that it is about to push. -/
def ArenaState.held (s : ArenaState τ) (t : τ) : List Nat := (s.pc t).elem.toList ++ s.owned t

section Parts

variable [Fintype τ]

/-- Every slab is in the lifo or held by a thread. -/
structure ArenaState.Placed (c : ArenaConfig) (s : ArenaState τ) (stack : List Nat) : Prop where
  lifo : s.lifo.Inv stack
  calls : ∀ t, (s.pc t).Sound c s.lifo stack
  slabs : (stack : Multiset Nat) + ∑ t, (s.held t : Multiset Nat) =
    (s.carved : Multiset Nat) + (s.mapped : Multiset Nat)

/-- What the counters count, and which slabs there are. -/
structure ArenaState.Counted (c : ArenaConfig) (s : ArenaState τ) : Prop where
  slabs : c.Slabs s.carved s.mapped
  /-- `mmap` is called when the preallocated memory is used up. -/
  full : 0 < s.mapped.length + ∑ t, (s.pc t).over → s.carved.length * c.slabSize = c.prealloc
  used : s.used = (s.carved.length + s.mapped.length + ∑ t, (s.pc t).over) * c.slabSize
  quota : usedInUnits s.quota =
    s.others + (s.carved.length + s.mapped.length + ∑ t, (s.pc t).billed) * ceilUnits c.slabSize

end Parts

/-! ## Consequences -/

section Consequences

variable [Fintype τ] {c : ArenaConfig} {s : ArenaState τ} {stack : List Nat} {t u : τ} {a : Nat}

theorem ArenaState.Placed.mem_of_held (h : s.Placed c stack) (ha : a ∈ s.held t) :
    a ∈ s.carved ++ s.mapped := by
  have hsum : a ∈ ∑ t, (s.held t : Multiset Nat) :=
    Multiset.mem_sum.2 ⟨t, mem_univ t, Multiset.mem_coe.2 ha⟩
  have hall := Multiset.mem_add.2 (.inr hsum : a ∈ (stack : Multiset Nat) ∨ _)
  rw [h.slabs, Multiset.coe_add] at hall
  exact Multiset.mem_coe.1 hall

/-- The slabs of the lifo and of the threads, all together, are distinct. -/
theorem ArenaState.Placed.nodup (h : s.Placed c stack) (hc : s.Counted c) :
    ((stack : Multiset Nat) + ∑ t, (s.held t : Multiset Nat)).Nodup := by
  rw [h.slabs, Multiset.coe_add]
  exact hc.slabs.nodup

/-- A held slab is not in the lifo. -/
theorem ArenaState.Placed.not_mem_stack (h : s.Placed c stack) (hc : s.Counted c)
    (ha : a ∈ s.held t) : a ∉ stack := by
  have hsum : a ∈ ∑ t, (s.held t : Multiset Nat) :=
    Multiset.mem_sum.2 ⟨t, mem_univ t, Multiset.mem_coe.2 ha⟩
  intro hstack
  exact (Multiset.disjoint_left.1 (Multiset.nodup_add.1 (h.nodup hc)).2.2)
    (Multiset.mem_coe.2 hstack) hsum

variable [DecidableEq τ]

/-- The slabs of a thread, and those of two threads, are distinct. -/
theorem ArenaState.Placed.held_nodup (h : s.Placed c stack) (hc : s.Counted c) :
    (s.held t).Nodup ∧ ∀ u, u ≠ t → a ∈ s.held t → a ∉ s.held u := by
  have hall := (Multiset.nodup_add.1 (h.nodup hc)).2.1
  rw [← add_sum_erase univ _ (mem_univ t)] at hall
  obtain ⟨ht, -, hdisj⟩ := Multiset.nodup_add.1 hall
  refine ⟨ht, fun u hu hat hau => ?_⟩
  refine Multiset.disjoint_left.1 hdisj (Multiset.mem_coe.2 hat) ?_
  exact Multiset.mem_sum.2 ⟨u, mem_erase.2 ⟨hu, mem_univ u⟩, Multiset.mem_coe.2 hau⟩

end Consequences

end SmallAllocators
