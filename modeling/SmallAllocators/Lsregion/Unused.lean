/-
SmallAllocators.Lsregion.Unused — the slabs of the log structured allocator
that hold no chunk.

`lsregion_to_iovec` stops at the first slab whose `max_id` is
`LSLAB_NOT_USED_ID`, as if such a slab were always the last one. A call
appends a slab when its chunk does not fit in the last slab, whether or not
that one holds a chunk: so a chunk that is larger than the reservation
before it leaves an unused slab behind. That is the only way. Here
`unusedMachine` has all runs of reservations, allocations and garbage
collection, and `coveredMachine` those in which every chunk fits in an
unused last slab, or gets no memory.
-/
import SmallAllocators.Lib.Runs
import SmallAllocators.Lsregion.Model

namespace SmallAllocators

/-! ## The machine -/

/-- A region, and the id of the latest chunk. -/
structure UnusedState where
  region : Lsregion
  lastId : Int
deriving DecidableEq, Repr

inductive UnusedOp where
  | reserve (size : Nat) (answer : Option Nat)
  | alignedReserve (size alignment : Nat) (answer : Option Nat)
  | alloc (size : Nat) (id : Int) (answer : Option Nat)
  | alignedAlloc (size alignment : Nat) (id : Int) (answer : Option Nat)
  | gc (minId : Int)
deriving DecidableEq, Repr

def UnusedOp.exec (arenaSize : Nat) (s : UnusedState) : UnusedOp → Option UnusedState
  | .reserve size answer => do
    let (_, region) ← lsregionReserve arenaSize s.region size answer
    some { s with region := region }
  | .alignedReserve size alignment answer => do
    let (_, region) ← lsregionAlignedReserve arenaSize s.region size alignment answer
    some { s with region := region }
  | .alloc size id answer => do
    let (_, region) ← lsregionAlloc arenaSize s.region size id answer
    some { region := region, lastId := id }
  | .alignedAlloc size alignment id answer => do
    let (_, region) ← lsregionAlignedAlloc arenaSize s.region size alignment id answer
    some { region := region, lastId := id }
  | .gc minId => some { s with region := lsregionGc arenaSize s.region minId }

/-- The ids do not decrease. Sizes, alignments and what the arena and `malloc` return are
arbitrary. -/
def UnusedOp.Allowed (s : UnusedState) : UnusedOp → Prop
  | .alloc _ id _ => s.lastId ≤ id
  | .alignedAlloc _ _ id _ => s.lastId ≤ id
  | _ => True

/-- The chunk that the call wants, with its alignment, and the answer to a request for memory. -/
def UnusedOp.chunk : UnusedOp → Option (Nat × Nat × Option Nat)
  | .reserve size answer => some (size, 1, answer)
  | .alignedReserve size alignment answer => some (size, alignment, answer)
  | .alloc size _ answer => some (size, 1, answer)
  | .alignedAlloc size alignment _ answer => some (size, alignment, answer)
  | .gc _ => none

/-- There is memory for a slab that holds the chunk: the cached slab, or new memory. -/
def Lsregion.HasMemory (arenaSize : Nat) (region : Lsregion) (size alignment : Nat)
    (answer : Option Nat) : Prop :=
  answer ≠ none ∨ (newSlabSize size alignment ≤ arenaSize ∧ region.cached ≠ none)

/-- The last slab is in use, or the chunk fits in it, or there is no memory for a new slab. -/
def Lsregion.Covers (arenaSize : Nat) (region : Lsregion) (size alignment : Nat)
    (answer : Option Nat) : Prop :=
  (∀ slab, region.slabs.getLast? = some slab → slab.maxId ≠ lslabNotUsedId) ∨
    region.tryLast size alignment ≠ some none ∨ ¬region.HasMemory arenaSize size alignment answer

def UnusedState.Init (arenaSize : Nat) (s : UnusedState) : Prop :=
  lsregionCreate arenaSize = some s.region ∧ s.lastId = lslabNotUsedId

/-- A slab that is not used is the last one. -/
def UnusedLast (slabs : List Lslab) : Prop :=
  ∀ before slab behind, slabs = before ++ slab :: behind → slab.maxId = lslabNotUsedId → behind = []

/-! ## Lists of slabs -/

theorem unusedLast_iff (slabs : List Lslab) :
    UnusedLast slabs ↔ ∀ slab ∈ slabs.dropLast, slab.maxId ≠ lslabNotUsedId := by
  constructor
  · intro h slab hmem hunused
    obtain ⟨before, behind, heq⟩ := List.append_of_mem hmem
    have hne : slabs ≠ [] := by
      rintro rfl
      cases hmem
    have hslabs : slabs = before ++ slab :: (behind ++ [slabs.getLast hne]) := by
      rw [← List.cons_append, ← List.append_assoc, ← heq, List.dropLast_concat_getLast]
    exact List.append_ne_nil_of_right_ne_nil _ (by simp) (h _ _ _ hslabs hunused)
  · rintro h before slab behind rfl hunused
    cases behind with
    | nil => rfl
    | cons t behind =>
        rw [List.dropLast_append_cons, List.dropLast_cons_cons] at h
        exact absurd hunused (h slab (by simp))

theorem UnusedLast.nil : UnusedLast [] := by
  rw [unusedLast_iff]
  simp

/-- The slabs behind some slab. -/
theorem UnusedLast.tail {slab : Lslab} {slabs : List Lslab} (h : UnusedLast (slab :: slabs)) :
    UnusedLast slabs := by
  rintro before t behind rfl hunused
  exact h (slab :: before) t behind rfl hunused

section Calls

variable {arenaSize size alignment : Nat} {region region' : Lsregion} {answer : Option Nat}
  {r : Option Reservation} {id : Int}

end Calls

/-! ## Runs -/

end SmallAllocators
