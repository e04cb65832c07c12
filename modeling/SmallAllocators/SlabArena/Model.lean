/-
SmallAllocators.SlabArena.Model — the slab arena of `small/slab_arena.c`,
under concurrent calls.

Any number of threads call `slab_map` and `slab_unmap`. Between them they
share the lifo of free slabs, the counter `used` and the quota word, and
each atomic access to one of the three is a step (`ArenaStep.step`). What
`mmap` returns is an argument of the step. A thread that owns a slab may
overwrite its first word, where the lifo keeps its link, and others may
use the quota; their calls take effect at one point each, as `Quota.Runs`
shows.

The fields below `owned` are ghosts: the history of the slabs that came out
of the preallocated memory and out of `mmap`, and what others use of the
quota. `none` is a failed assertion.
-/
import SmallAllocators.LfLifo.Model
import SmallAllocators.Lib.Runs
import SmallAllocators.Quota.Model

namespace SmallAllocators

/-- The fields of `struct slab_arena` that do not change, as `slab_arena_create` sets them. -/
structure ArenaConfig where
  arena : Nat
  prealloc : Nat
  slabSize : Nat
  shift : Nat
  slabSize_eq : slabSize = 2 ^ shift
  shift_min : 16 ≤ shift
  shift_max : shift ≤ 31
  arena_aligned : slabSize ∣ arena
  prealloc_aligned : slabSize ∣ prealloc
  arena_bound : arena + prealloc ≤ sizeMax
  arena_null : arena = 0 ↔ prealloc = 0

/-- Where a thread is: in no call, in a call of the lifo, in the loop of a call of the quota before
its load or its compare-exchange, or before another step of `slab_map`. -/
inductive ArenaPc where
  | idle
  | lifo (pc : LifoPc)
  | quotaLoad (op : QuotaOp)
  | quotaExchange (op : QuotaOp) (value newValue : Nat)
  | fetchAdd
  | mmap
  | subFetch
deriving DecidableEq, Repr

/-- What the threads `τ` share, and where each of them is. -/
structure ArenaState (τ : Type) where
  /-- `arena->cache`, and the first words of the slabs. -/
  lifo : Lifo
  used : Nat
  /-- The quota word. -/
  quota : Nat
  pc : τ → ArenaPc
  /-- The slabs that a thread got from `slab_map` and has not passed to `slab_unmap`. -/
  owned : τ → List Nat
  /-- The slabs that were taken from the preallocated memory, latest first. -/
  carved : List Nat
  /-- The slabs that `mmap` returned, latest first. -/
  mapped : List Nat
  /-- The units of the quota that others use. -/
  others : Nat

variable {τ : Type} [DecidableEq τ]

def ArenaState.setPc (s : ArenaState τ) (t : τ) (pc : ArenaPc) : ArenaState τ :=
  { s with pc := Function.update s.pc t pc }

/-- `slab_map` returns a slab. -/
def ArenaState.give (s : ArenaState τ) (t : τ) (ptr : Nat) : ArenaState τ :=
  { s with
    pc := Function.update s.pc t .idle, owned := Function.update s.owned t (ptr :: s.owned t) }

/-- What a call does after a step in the lifo. -/
def ArenaState.afterLifo (c : ArenaConfig) (s : ArenaState τ) (t : τ) : LifoOutcome → ArenaState τ
  | .goes pc => s.setPc t (.lifo pc)
  | .pushed => s.setPc t .idle
  | .popped (some ptr) => s.give t ptr
  | .popped none => s.setPc t (.quotaLoad (.use c.slabSize))

/-- The position of `slab_map` after its call of the quota succeeds. -/
def QuotaOp.slabMapPc : QuotaOp → ArenaPc
  | .use _ => .fetchAdd
  | _ => .idle

/-- The next atomic step of thread `t`; `answer` is what `mmap` returns. -/
def ArenaState.stepOf (c : ArenaConfig) (s : ArenaState τ) (t : τ) (spurious : Bool)
    (answer : Option Nat) :
    ArenaPc → Option (ArenaState τ)
  | .idle => none
  | .lifo pc => do
    let (lifo, outcome) ← pc.step s.lifo spurious
    some ({ s with lifo := lifo }.afterLifo c t outcome)
  | .quotaLoad op => do
    let enters ← op.start
    if enters then
      match ← op.attempt s.quota with
      | .fail => some (s.setPc t .idle)
      | .exchange newValue => some (s.setPc t (.quotaExchange op s.quota newValue))
    else some (s.setPc t .idle)
  | .quotaExchange op value newValue =>
    if s.quota = value ∧ ¬ spurious then some ({ s with quota := newValue }.setPc t op.slabMapPc)
    else some (s.setPc t (.quotaLoad op))
  | .fetchAdd =>
    let used := (s.used + c.slabSize) % sizeMax
    if used ≤ c.prealloc then
      let ptr := c.arena + used - c.slabSize
      some ({ s with used := used, carved := ptr :: s.carved }.give t ptr)
    else some ({ s with used := used }.setPc t .mmap)
  | .mmap =>
    match answer with
    | some ptr => some ({ s with mapped := ptr :: s.mapped }.give t ptr)
    | none => some (s.setPc t .subFetch)
  | .subFetch =>
    some ({ s with used := (s.used + sizeMax - c.slabSize) % sizeMax }.setPc t
        (.quotaLoad (.release c.slabSize)))

/-- The steps of the machine. -/
inductive ArenaStep (τ : Type) where
  | slabMap (t : τ)
  | slabUnmap (t : τ) (ptr : Nat)
  | step (t : τ) (spurious : Bool) (answer : Option Nat)
  | write (ptr value : Nat)
  | other (op : QuotaOp)

/-- What others use of the quota after a call of theirs. -/
def QuotaOp.others (others : Nat) : QuotaOp → Nat
  | .set _ => others
  | .use size => others + quotaUnits size
  | .release size => others - quotaUnits size

def ArenaStep.exec (c : ArenaConfig) (s : ArenaState τ) : ArenaStep τ → Option (ArenaState τ)
  | .slabMap t => some (s.setPc t (.lifo .popLoad))
  | .slabUnmap t ptr =>
    if ptr = 0 then some s
    else some ({ s with owned := Function.update s.owned t ((s.owned t).erase ptr) }.setPc t
        (.lifo (.pushLoad ptr)))
  | .step t spurious answer => s.stepOf c t spurious answer (s.pc t)
  | .write ptr value =>
      some { s with lifo := { s.lifo with next := Function.update s.lifo.next ptr value } }
  | .other op => do
    let (result, quota) ← op.run s.quota
    some { s with quota := quota, others := if result.isSome then op.others s.others else s.others }

/-- A region that `mmap` may return: aligned, as `mmap_checked` makes it, and apart from all memory
that the arena has. -/
structure ArenaState.Fresh (c : ArenaConfig) (s : ArenaState τ) (ptr : Nat) : Prop where
  ne_zero : ptr ≠ 0
  aligned : c.slabSize ∣ ptr
  bound : ptr + c.slabSize ≤ sizeMax
  arena : ptr + c.slabSize ≤ c.arena ∨ c.arena + c.prealloc ≤ ptr
  mapped : ∀ m ∈ s.mapped, ptr + c.slabSize ≤ m ∨ m + c.slabSize ≤ ptr

/-- The age of a pop. -/
def ArenaPc.Timely (s : Lifo) : ArenaPc → Prop
  | .lifo pc => pc.Timely s
  | _ => True

/-- The schedule is arbitrary, but for the age of a pop. A thread unmaps a slab that it owns, an
owner writes to its slab, and others release what they use. -/
def ArenaStep.Allowed (c : ArenaConfig) (s : ArenaState τ) : ArenaStep τ → Prop
  | .slabMap t => s.pc t = .idle
  | .slabUnmap t ptr => s.pc t = .idle ∧ (ptr = 0 ∨ ptr ∈ s.owned t)
  | .step t _ answer =>
      (s.pc t).Timely s.lifo ∧ ∀ ptr, s.pc t = .mmap → answer = some ptr → s.Fresh c ptr
  | .write ptr _ => ∃ t, ptr ∈ s.owned t
  | .other op => ∀ size, op = .release size → quotaUnits size ≤ s.others

omit [DecidableEq τ] in
/-- An arena after `slab_arena_create`. -/
structure ArenaState.Init (s : ArenaState τ) : Prop where
  cache : ∃ lifo, s.lifo = lfLifoInit lifo
  used : s.used = 0
  quota : usedInUnits s.quota = s.others
  pc : ∀ t, s.pc t = .idle
  owned : ∀ t, s.owned t = []
  carved : s.carved = []
  mapped : s.mapped = []

/-- All interleavings of the calls of the threads `τ`. -/
def arenaMachine (c : ArenaConfig) (τ : Type) [DecidableEq τ] :
    Machine (ArenaState τ) (ArenaStep τ) where
  init := ArenaState.Init
  allowed := ArenaStep.Allowed c
  exec := ArenaStep.exec c

/-! ## Destruction -/

/-- The loop of `slab_arena_destroy` over the free slabs: their total size, and the regions that it
unmaps. -/
def slabArenaDrain (c : ArenaConfig) : Nat → Lifo → Nat → Option (Nat × List (Nat × Nat))
  | 0, _, _ => none
  | fuel + 1, s, total =>
    match lfLifoPop s with
    | (none, _) => some (total, [])
    | (some ptr, s) => do
      let (total, unmaps) ← slabArenaDrain c fuel s ((total + c.slabSize) % sizeMax)
      if c.arena = 0 ∨ ptr < c.arena ∨ c.arena + c.prealloc ≤ ptr then
        some (total, (ptr, c.slabSize) :: unmaps)
      else some (total, unmaps)

/-- `slab_arena_destroy`, with the regions that it unmaps. -/
def slabArenaDestroy (c : ArenaConfig) (fuel : Nat) (s : Lifo) (used : Nat) :
    Option (List (Nat × Nat)) := do
  let (total, unmaps) ← slabArenaDrain c fuel s 0
  guard (total = used)
  some (if c.arena ≠ 0 then unmaps ++ [(c.arena, c.prealloc)] else unmaps)

end SmallAllocators
