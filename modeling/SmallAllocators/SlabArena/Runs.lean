/-
SmallAllocators.SlabArena.Runs — every interleaving of `slab_map` and
`slab_unmap` hands a slab to one owner at a time.

The calls, the owners' writes and the other users of the quota complete the
steps of the machine. The invariant then holds in every state of every
interleaving, and where no call is in flight it says what the counters are.
-/
import Mathlib.Tactic.FinCases
import SmallAllocators.SlabArena.Steps

namespace SmallAllocators

open Finset

variable {τ : Type} [DecidableEq τ] [Fintype τ] {c : ArenaConfig} {s s' : ArenaState τ}
    {stack : List Nat} {t : τ}
  {ptr value : Nat}

/-! ## The other steps -/

/-- A call of `slab_unmap` begins. -/
theorem ArenaState.Inv.slabUnmap (h : s.Inv c stack) (hidle : s.pc t = .idle)
    (hptr : ptr ∈ s.owned t) :
    ({ s with owned := Function.update s.owned t ((s.owned t).erase ptr) }.setPc t
        (.lifo (.pushLoad ptr))).Inv c stack := by
  have hheld : ptr ∈ s.held t := List.mem_append_right _ hptr
  obtain ⟨hne, haligned, hbound⟩ := h.counted.slabs.slab (h.placed.mem_of_held hheld)
  have hmin := c.slabSize_min
  have hlifo : lfLifo ptr = ptr := c.lfLifo_slab haligned (by omega)
  -- the slab goes from the list of its owner to the call
  have hperm : ∀ u, (({ s with owned := Function.update s.owned t ((s.owned t).erase ptr) }.setPc t
      (.lifo (.pushLoad ptr))).held u : Multiset Nat) = s.held u := by
    intro u
    by_cases hu : u = t
    · subst hu
      have hcons := List.perm_cons_erase hptr
      simpa [ArenaState.held, ArenaState.setPc, hidle, ArenaPc.elem, LifoPc.elem] using hcons.symm
    · simp [ArenaState.held, ArenaState.setPc, Function.update_of_ne hu]
  refine ⟨⟨h.placed.lifo, fun u => ?_, ?_⟩, ?_⟩
  · by_cases hu : u = t
    · subst hu
      simp only [ArenaState.setPc, Function.update_self]
      exact ⟨hlifo, hne⟩
    · simpa [ArenaState.setPc, Function.update_of_ne hu] using h.placed.calls u
  · simp only [hperm]
    exact h.placed.slabs
  · exact (h.counted.setPc t (.lifo (.pushLoad ptr)) (by rw [hidle]; rfl)
        (by rw [hidle]; rfl)).congr rfl rfl rfl rfl rfl rfl rfl

/-- An owner overwrites its slab. -/
theorem ArenaState.Inv.write (h : s.Inv c stack) (hptr : ptr ∈ s.owned t) :
    ArenaState.Inv c
      { s with lifo := { s.lifo with next := Function.update s.lifo.next ptr value } } stack := by
  have hheld : ptr ∈ s.held t := List.mem_append_right _ hptr
  obtain ⟨hinv, hmoves⟩ := h.placed.lifo.write (h.placed.not_mem_stack h.counted hheld) value
  refine ⟨⟨hinv, fun u => ?_, h.placed.slabs⟩, h.counted.congr rfl rfl rfl rfl rfl rfl rfl⟩
  have hsound := h.placed.calls u
  show (s.pc u).Sound c _ stack
  cases hpcu : s.pc u with
  | lifo pc =>
      rw [hpcu] at hsound
      refine LifoPc.Sound.of_moves hsound h.placed.lifo hinv hmoves fun a ha =>
        Function.update_of_ne ?_ _ _
      -- a slab that is being pushed is not owned any more
      rintro rfl
      have hpushed : a ∈ s.held u := by simp [ArenaState.held, hpcu, ArenaPc.elem, ha]
      obtain ⟨hnodup, hothers⟩ := h.placed.held_nodup h.counted (t := t) (a := a)
      by_cases hu : u = t
      · subst hu
        rw [ArenaState.held, hpcu, ArenaPc.elem, ha] at hnodup
        exact (List.nodup_cons.1 hnodup).1 hptr
      · exact hothers u hu hheld hpushed
  | idle => trivial
  | quotaLoad op =>
      rw [hpcu] at hsound
      exact hsound
  | quotaExchange op value newValue =>
      rw [hpcu] at hsound
      exact hsound
  | fetchAdd => trivial
  | mmap => trivial
  | subFetch => trivial

omit [DecidableEq τ] in
/-- Another user of the quota completes a call. -/
theorem ArenaState.Inv.other (h : s.Inv c stack) {op : QuotaOp} {result : Option Nat}
    {quota : Nat} (hop : ∀ size, op = .release size → quotaUnits size ≤ s.others)
    (hrun : op.run s.quota = some (result, quota)) :
    ArenaState.Inv c { s with
      quota := quota, others := if result.isSome then op.others s.others else s.others } stack := by
  refine ⟨⟨h.placed.lifo, h.placed.calls, h.placed.slabs⟩, ?_⟩
  have hc := h.counted
  have hquota := hc.quota
  refine ⟨hc.slabs, hc.full, hc.used, ?_⟩
  show usedInUnits quota = (if result.isSome then op.others s.others else s.others) +
    (s.carved.length + s.mapped.length + ∑ u, (s.pc u).billed) * ceilUnits c.slabSize
  rcases QuotaOp.effect_of_run hrun with ⟨rfl, rfl⟩ | ⟨rfl, heffect⟩
  · exact hquota
  · cases op with
    | set newTotal =>
        rw [heffect.2.1]
        exact hquota
    | use size =>
        rw [heffect.2.1, hquota]
        exact Nat.add_right_comm _ _ _
    | release size =>
        have hle := hop size rfl
        have hused := heffect.2
        simp only [Option.isSome_some, if_true, QuotaOp.others]
        omega

/-! ## Any step -/

omit [DecidableEq τ] in
/-- A slab that is being pushed is not in the lifo yet. -/
theorem ArenaState.Inv.elem_not_mem (h : s.Inv c stack) {lpc : LifoPc} (hpc : s.pc t = .lifo lpc) :
    ∀ a, lpc.elem = some a → a ∉ stack := by
  intro a ha
  refine h.placed.not_mem_stack h.counted (t := t) ?_
  simp [ArenaState.held, hpc, ArenaPc.elem, ha]

/-- The next step of a call. -/
theorem ArenaState.Inv.stepOf (h : s.Inv c stack) {spurious : Bool} {answer : Option Nat}
    (htimely : (s.pc t).Timely s.lifo)
    (hfresh : ∀ ptr, s.pc t = .mmap → answer = some ptr → s.Fresh c ptr)
    (hex : s.stepOf c t spurious answer (s.pc t) = some s') : ∃ stack', s'.Inv c stack' := by
  cases hpc : s.pc t with
  | idle =>
      rw [hpc] at hex
      cases hex
  | lifo lpc =>
      have hsound := h.placed.calls t
      rw [hpc] at hsound htimely hex
      obtain ⟨lifo, outcome, stack', hstep, hsteps⟩ :=
        LifoPc.step_spec h.placed.lifo hsound (h.elem_not_mem hpc) htimely spurious
      rw [ArenaState.stepOf, hstep] at hex
      cases hex
      exact ⟨stack', h.lifoStep hpc hsteps⟩
  | quotaLoad op => exact ⟨stack, h.quotaLoad hpc hex⟩
  | quotaExchange op value newValue => exact ⟨stack, h.quotaExchange hpc hex⟩
  | fetchAdd => exact ⟨stack, h.fetchAdd hpc hex⟩
  | mmap => exact ⟨stack, h.mmap hpc (fun ptr => hfresh ptr hpc) hex⟩
  | subFetch => exact ⟨stack, h.subFetch hpc hex⟩

theorem ArenaStep.exec_inv (h : s.Inv c stack) {st : ArenaStep τ} (hst : st.Allowed c s)
    (hex : st.exec c s = some s') :
    ∃ stack', s'.Inv c stack' := by
  cases st with
  | slabMap t =>
      have hidle : s.pc t = .idle := hst
      cases hex
      exact ⟨stack,
        h.setPc t _ trivial (by rw [hidle]; rfl) (by rw [hidle]; rfl) (by rw [hidle]; rfl)⟩
  | slabUnmap t ptr =>
      obtain ⟨hidle, hptr⟩ := hst
      rw [ArenaStep.exec] at hex
      split at hex
      · cases hex
        exact ⟨stack, h⟩
      · next hne =>
        cases hex
        exact ⟨stack, h.slabUnmap hidle (hptr.resolve_left hne)⟩
  | step t spurious answer => exact h.stepOf hst.1 hst.2 hex
  | write ptr value =>
      obtain ⟨t, hptr⟩ := hst
      cases hex
      exact ⟨stack, h.write hptr⟩
  | other op =>
      obtain ⟨⟨result, quota⟩, hrun, hex⟩ := Option.bind_eq_some_iff.1 hex
      cases hex
      exact ⟨stack, h.other hst hrun⟩

omit [DecidableEq τ] in
theorem ArenaState.Init.inv (h : s.Init) : s.Inv c [] := by
  obtain ⟨lifo, hcache⟩ := h.cache
  have hover : ∑ t, (s.pc t).over = 0 := by simp [h.pc, ArenaPc.over]
  have hbilled : ∑ t, (s.pc t).billed = 0 := by simp [h.pc, ArenaPc.billed]
  refine ⟨⟨?_, fun t => ?_, ?_⟩, ?_, ?_, ?_, ?_⟩
  · rw [hcache]
    exact lfLifoInit_inv lifo
  · rw [h.pc t]
    trivial
  · simp [ArenaState.held, h.pc, h.owned, h.carved, h.mapped]
  · rw [h.carved, h.mapped]
    exact .nil c
  · simp [h.mapped, hover]
  · simp [h.used, h.carved, h.mapped, hover]
  · simp [h.quota, h.carved, h.mapped, hbilled]

/-- The run lemma: the invariant holds in every state of every interleaving. -/
theorem arenaMachine_inv (hs : (arenaMachine c τ).Reachable s) : ∃ stack, s.Inv c stack :=
  Machine.Reachable.of_step (arenaMachine c τ) (P := fun s => ∃ stack, s.Inv c stack)
    (fun _ h => ⟨[], h.inv⟩)
    (fun _ _ _ hinv hal hex => hinv.elim fun _ h => ArenaStep.exec_inv h hal hex) hs

/-! ## No failed assertion -/

omit [DecidableEq τ] in
/-- The slabs that threads are billed for are in use in the quota. -/
theorem ArenaState.Counted.release_le (h : s.Counted c) (hbilled : (s.pc t).billed = 1) :
    quotaUnits c.slabSize ≤ usedInUnits s.quota := by
  have hle : 1 ≤ ∑ u, (s.pc u).billed :=
    hbilled ▸ single_le_sum (f := fun u => (s.pc u).billed) (fun _ _ => Nat.zero_le _) (mem_univ t)
  have hmul := Nat.mul_le_mul_right (ceilUnits c.slabSize)
    (hle.trans (Nat.le_add_left _ (s.carved.length + s.mapped.length)))
  rw [c.quotaUnits_eq, h.quota]
  omega

omit [DecidableEq τ] in
/-- The assertions of the loops of the quota hold where the units do not wrap around. -/
theorem ArenaState.Inv.attempt_returns (h : s.Inv c stack) {op : QuotaOp}
    (hpc : s.pc t = .quotaLoad op) (huse : usedInUnits s.quota + ceilUnits c.slabSize < 2 ^ 32) :
    ∃ a, op.attempt s.quota = some a := by
  have hop : op.OfSlab c := by
    have hsound := h.placed.calls t
    rwa [hpc] at hsound
  refine QuotaOp.attempt_returns hop.start (fun size hsize => ?_) fun size hsize => ?_
  · obtain rfl : size = c.slabSize := by
      rcases hop with rfl | rfl
      · cases hsize
        rfl
      · cases hsize
    rwa [c.quotaUnits_eq]
  · obtain rfl : size = c.slabSize := by
      rcases hop with rfl | rfl
      · cases hsize
      · cases hsize
        rfl
    exact h.counted.release_le (t := t) (by rw [hpc, hsize]; rfl)

/-- **No assertion fails**, but the one of `quota_use` where the sum of the units wraps around:
every step that a call in flight may take, it takes. -/
theorem slab_arena_no_failed_assertion (hs : (arenaMachine c τ).Reachable s) {spurious : Bool}
    {answer : Option Nat} (hst : (ArenaStep.step t spurious answer).Allowed c s)
    (hcall : s.pc t ≠ .idle) (huse : usedInUnits s.quota + ceilUnits c.slabSize < 2 ^ 32) :
    ∃ s', (ArenaStep.step t spurious answer).exec c s = some s' := by
  obtain ⟨stack, h⟩ := arenaMachine_inv hs
  obtain ⟨htimely, -⟩ := hst
  show ∃ s', s.stepOf c t spurious answer (s.pc t) = some s'
  cases hpc : s.pc t with
  | idle => exact absurd hpc hcall
  | lifo lpc =>
      have hsound := h.placed.calls t
      rw [hpc] at hsound htimely
      obtain ⟨lifo, outcome, stack', hstep, -⟩ :=
        LifoPc.step_spec h.placed.lifo hsound (h.elem_not_mem hpc) htimely spurious
      exact ⟨_, by rw [ArenaState.stepOf, hstep]; rfl⟩
  | quotaLoad op =>
      have hop : op.OfSlab c := by
        have hsound := h.placed.calls t
        rwa [hpc] at hsound
      obtain ⟨a, ha⟩ := h.attempt_returns hpc huse
      exact ⟨_, by rw [s.stepOf_quotaLoad t spurious answer hop, ha]; rfl⟩
  | quotaExchange op value newValue =>
      rw [ArenaState.stepOf]
      split <;> exact ⟨_, rfl⟩
  | fetchAdd =>
      rw [ArenaState.stepOf]
      dsimp only
      split <;> exact ⟨_, rfl⟩
  | mmap => cases answer <;> exact ⟨_, rfl⟩
  | subFetch => exact ⟨_, rfl⟩

/-! ## Destruction -/

/-- The loop of `slab_arena_destroy` comes to the end of the lifo and counts its slabs. -/
theorem slabArenaDrain_spec (c : ArenaConfig) {lifo : Lifo} (h : lifo.Inv stack) {fuel : Nat}
    (total : Nat) (hfuel : stack.length < fuel)
    (htotal : total + stack.length * c.slabSize < sizeMax) :
    ∃ unmaps, slabArenaDrain c fuel lifo total = some (total + stack.length * c.slabSize,
        unmaps) := by
  induction fuel generalizing lifo stack total with
  | zero => omega
  | succ fuel ih =>
      rcases lfLifoPop_spec h with ⟨rfl, hpop⟩ | ⟨elem, rest, lifo', rfl, hpop, hrest⟩
      · exact ⟨[], by simp [slabArenaDrain, hpop]⟩
      · rw [List.length_cons, Nat.add_one_mul] at htotal
        rw [List.length_cons] at hfuel
        have hmod : (total + c.slabSize) % sizeMax = total + c.slabSize :=
          Nat.mod_eq_of_lt (by omega)
        obtain ⟨unmaps, hdrain⟩ : ∃ unmaps, slabArenaDrain c fuel lifo' (total + c.slabSize) =
            some (total + c.slabSize + rest.length * c.slabSize, unmaps) :=
            ih hrest _ (by omega) (by omega)
        have hsum : total + (elem :: rest).length * c.slabSize =
            total + c.slabSize + rest.length * c.slabSize := by
          rw [List.length_cons, Nat.add_one_mul]
          omega
        rw [hsum]
        simp only [slabArenaDrain, hpop, hmod, hdrain, Option.bind_eq_bind, Option.bind_some]
        split
        · exact ⟨_, rfl⟩
        · exact ⟨_, rfl⟩

/-! ## Where no call is in flight -/

omit [DecidableEq τ] in
/-- Without calls, the counters count the owned and the cached slabs. -/
theorem ArenaState.Inv.quiescent (h : s.Inv c stack) (hidle : ∀ t, s.pc t = .idle) :
    s.used = c.slabSize * (∑ t, (s.owned t).length + stack.length) ∧
    quotaUsed s.quota = s.others * quotaUnitSize + s.used := by
  have hover : ∑ t, (s.pc t).over = 0 := by simp [hidle, ArenaPc.over]
  have hbilled : ∑ t, (s.pc t).billed = 0 := by simp [hidle, ArenaPc.billed]
  have hused := h.counted.used
  have hquota := h.counted.quota
  rw [hover, Nat.add_zero] at hused
  rw [hbilled, Nat.add_zero] at hquota
  have hcount : ∑ t, (s.owned t).length + stack.length = s.carved.length + s.mapped.length := by
    have hcard := congrArg Multiset.card h.placed.slabs
    simp only [ArenaState.held, hidle, ArenaPc.elem_idle, Option.toList_none, List.nil_append,
      Multiset.card_add, Multiset.card_sum, Multiset.coe_card] at hcard
    omega
  refine ⟨by rw [hused, hcount, Nat.mul_comm], ?_⟩
  rw [quotaUsed, hquota, hused, Nat.add_mul, Nat.mul_assoc, c.units]

/-- **One owner at a time**: in every state of every interleaving of calls in which no pop is
overtaken by 2^16 pushes, the slabs of the lifo and of the threads are all different, the
preallocated memory was carved into slots that lie inside of it, each at most once, and where no
call is in flight the counter and the share of the quota count the owned and the cached slabs, so
that `slab_arena_destroy` satisfies its assertion when all slabs are back. -/
theorem slab_arena_one_owner (c : ArenaConfig) (s : ArenaState τ)
    (hs : (arenaMachine c τ).Reachable s) :
    ∃ cache, LifoChain s.lifo.next s.lifo.head cache ∧ cache.Nodup ∧
      (∀ t, (s.held t).Nodup ∧ ∀ a ∈ s.held t, c.slabSize ∣ a ∧ a ∉ cache) ∧
      (∀ t u a, a ∈ s.held t → a ∈ s.held u → t = u) ∧
      s.carved.Nodup ∧
      (∀ a ∈ s.carved, ∃ i, a = c.arena + i * c.slabSize ∧ a + c.slabSize ≤ c.arena + c.prealloc) ∧
      ((∀ t, s.pc t = .idle) →
        s.used = c.slabSize * (∑ t, (s.owned t).length + cache.length) ∧
        quotaUsed s.quota = s.others * quotaUnitSize + s.used ∧
        ((∀ t, s.owned t = []) → ∀ fuel, cache.length < fuel →
          ∃ unmaps, slabArenaDestroy c fuel s.lifo s.used = some unmaps)) := by
  obtain ⟨cache, h⟩ := arenaMachine_inv hs
  have hp := h.placed
  have hc := h.counted
  refine ⟨cache, hp.lifo.chain,
    hp.lifo.nodup, fun t => ⟨(hp.held_nodup hc (a := 0)).1, fun a ha => ?_⟩, ?_, ?_, ?_, ?_⟩
  · exact ⟨(hc.slabs.slab (hp.mem_of_held ha)).2.1, hp.not_mem_stack hc ha⟩
  · intro t u a hat hau
    by_contra hne
    exact (hp.held_nodup hc).2 u (fun heq => hne heq.symm) hat hau
  · exact (List.nodup_append.1 hc.slabs.nodup).1
  · intro a ha
    exact hc.slabs.mem_carved ha
  · intro hidle
    obtain ⟨hused, hquota⟩ := h.quiescent hidle
    refine ⟨hused, hquota, fun hreturned fuel hfuel => ?_⟩
    have hlt := hc.billed_lt
    have hmax : 2 ^ 42 < sizeMax := by decide
    have hbilled : ∑ t, (s.pc t).billed = 0 := by simp [hidle, ArenaPc.billed]
    have hover : ∑ t, (s.pc t).over = 0 := by simp [hidle, ArenaPc.over]
    have hsize : cache.length * c.slabSize = s.used := by
      rw [hused, Nat.mul_comm]
      simp [hreturned]
    have hbound : cache.length * c.slabSize < sizeMax := by
      rw [hsize, hc.used, hover, ← hbilled]
      omega
    obtain ⟨unmaps, hdrain⟩ := slabArenaDrain_spec c hp.lifo 0 hfuel (by omega)
    refine ⟨if c.arena ≠ 0 then unmaps ++ [(c.arena, c.prealloc)] else unmaps, ?_⟩
    rw [slabArenaDestroy, hdrain, Nat.zero_add, hsize]
    simp [guard]

/-! ## Deciding what is allowed -/

omit [DecidableEq τ] [Fintype τ] in
instance ArenaState.Fresh.decidable (s : ArenaState τ) (ptr : Nat) : Decidable (s.Fresh c ptr) :=
  decidable_of_iff
    ((ptr ≠ 0 ∧ c.slabSize ∣ ptr ∧ ptr + c.slabSize ≤ sizeMax) ∧
      (ptr + c.slabSize ≤ c.arena ∨ c.arena + c.prealloc ≤ ptr) ∧
      ∀ m ∈ s.mapped, ptr + c.slabSize ≤ m ∨ m + c.slabSize ≤ ptr)
    ⟨fun h => ⟨h.1.1, h.1.2.1, h.1.2.2, h.2.1, h.2.2⟩,
      fun h => ⟨⟨h.ne_zero, h.aligned, h.bound⟩, h.arena, h.mapped⟩⟩

instance ArenaPc.Timely.decidable (s : Lifo) : (pc : ArenaPc) → Decidable (pc.Timely s)
  | .lifo pc => inferInstanceAs (Decidable (pc.Timely s))
  | .idle => inferInstanceAs (Decidable True)
  | .quotaLoad _ => inferInstanceAs (Decidable True)
  | .quotaExchange _ _ _ => inferInstanceAs (Decidable True)
  | .fetchAdd => inferInstanceAs (Decidable True)
  | .mmap => inferInstanceAs (Decidable True)
  | .subFetch => inferInstanceAs (Decidable True)

/-- Whether a call or a step of a call is allowed. -/
def ArenaStep.check (c : ArenaConfig) (s : ArenaState τ) : ArenaStep τ → Bool
  | .slabMap t => decide (s.pc t = .idle)
  | .slabUnmap t ptr => decide (s.pc t = .idle ∧ (ptr = 0 ∨ ptr ∈ s.owned t))
  | .step t _ answer =>
      decide ((s.pc t).Timely s.lifo ∧ ∀ ptr ∈ answer, s.pc t = .mmap → s.Fresh c ptr)
  | .write ptr _ => decide (∃ t, ptr ∈ s.owned t)
  | .other _ => false

omit [DecidableEq τ] in
theorem ArenaStep.check_allowed (s : ArenaState τ) (st : ArenaStep τ) (h : st.check c s = true) :
    st.Allowed c s := by
  cases st with
  | slabMap t => exact (decide_eq_true_iff (p := s.pc t = .idle)).1 h
  | slabUnmap t ptr => exact (decide_eq_true_iff (p := _ ∧ _)).1 h
  | step t spurious answer =>
      obtain ⟨htimely, hfresh⟩ := (decide_eq_true_iff (p := _ ∧ _)).1 h
      exact ⟨htimely, fun ptr hpc hptr => hfresh ptr hptr hpc⟩
  | write ptr value => exact (decide_eq_true_iff (p := ∃ t, ptr ∈ s.owned t)).1 h
  | other op => cases h

/-- An arena with one preallocated slab of 64K. -/
def oneSlab : ArenaConfig where
  arena := 65536
  prealloc := 65536
  slabSize := 65536
  shift := 16
  slabSize_eq := by decide
  shift_min := by decide
  shift_max := by decide
  arena_aligned := by decide
  prealloc_aligned := by decide
  arena_bound := by decide
  arena_null := by decide

/-- Two threads, before their first call. -/
def twoThreads : ArenaState Bool where
  lifo := lfLifoInit { head := 0, next := fun _ => 0, pushes := 0 }
  used := 0
  quota := quotaInit 1048576
  pc := fun _ => .idle
  owned := fun _ => []
  carved := []
  mapped := []
  others := 0

/-- Both threads map a slab at once. The compare-exchange of the quota in the thread `true` fails
once, but it is the first to take memory: it gets the preallocated slab, and the thread `false` a
slab from `mmap`. Then the thread `true` gives its slab back. -/
def bothMap : List (ArenaStep Bool) :=
  [.slabMap false, .slabMap true, .step false false none, .step true false none,
    .step false false none, .step true false none, .step false false none,
    .step true false none, .step true false none, .step true false none,
    .step true false none, .step false false none, .step false false (some 2097152),
    .slabUnmap true 65536, .step true false none, .step true false none, .step true false none]

theorem slab_arena_one_owner_two_threads :
    ∃ s, (arenaMachine oneSlab Bool).Reachable s ∧ s.owned false = [2097152] ∧ s.carved = [65536] ∧
      s.used = 131072 ∧ ∃ cache, LifoChain s.lifo.next s.lifo.head cache ∧
        s.used = oneSlab.slabSize * (∑ t, (s.owned t).length + cache.length) := by
  have hrun : ((arenaMachine oneSlab Bool).run
      (fun s st => st.check oneSlab s) bothMap twoThreads).map
      (fun s => (s.owned false, s.carved, s.used, decide (∀ t, s.pc t = .idle))) =
        some ([2097152], [65536], 131072, true) := by
    decide +kernel
  obtain ⟨s, hs, heq⟩ := Option.map_eq_some_iff.1 hrun
  rw [Prod.mk.injEq, Prod.mk.injEq, Prod.mk.injEq, decide_eq_true_iff] at heq
  have hreach := Machine.Reachable.run (arenaMachine oneSlab Bool)
    (fun s st h => ArenaStep.check_allowed s st h) bothMap
    (.init (s := twoThreads) ⟨⟨_, rfl⟩, rfl, by decide, fun _ => rfl, fun _ => rfl, rfl, rfl⟩) hs
  obtain ⟨cache, hchain, -, -, -, -, -, hidle⟩ := slab_arena_one_owner oneSlab s hreach
  exact ⟨s, hreach, heq.1, heq.2.1, heq.2.2.1, cache, hchain, (hidle heq.2.2.2).1⟩

end SmallAllocators
