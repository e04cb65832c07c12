/-
SmallAllocators.SlabArena.Steps — every step of the arena keeps the invariant.

One lemma for each kind of step. The steps in the lifo are those of
`LfLifo.Invariant`; the other steps move a thread from one position to the
next, with the counters. A slot of the preallocated memory is carved by the
thread whose `fetch_add` took the counter to it: no thread is past the end
then, so no `sub` is to come and the counter has counted exactly the slots
before.
-/
import SmallAllocators.SlabArena.Invariant

namespace SmallAllocators

open Finset

/-! ## Calls of the quota -/

section Quota

variable {c : ArenaConfig} {op : QuotaOp}

theorem ArenaConfig.units_pos (c : ArenaConfig) : 0 < ceilUnits c.slabSize := by
  have hmin := c.slabSize_min
  have hunits := c.units
  by_contra hzero
  have : ceilUnits c.slabSize = 0 := by omega
  rw [this] at hunits
  omega

/-- A call for one slab enters its loop. -/
theorem QuotaOp.OfSlab.start (h : op.OfSlab c) : op.start = some true := by
  have hmax := c.slabSize_max
  have hlimit : 2 ^ 31 < quotaMax := by decide
  have hunits : quotaUnits c.slabSize ≠ 0 := by
    rw [c.quotaUnits_eq]
    exact Nat.pos_iff_ne_zero.1 c.units_pos
  rcases h with rfl | rfl
  · simp [QuotaOp.start, guard, hunits, show ¬ c.slabSize > quotaMax by omega]
  · simp [QuotaOp.start, guard, hunits, show c.slabSize < quotaMax by omega]

end Quota

variable {τ : Type} [DecidableEq τ] [Fintype τ] {c : ArenaConfig} {s s' : ArenaState τ}
    {stack stack' : List Nat}
  {t : τ} {pc : ArenaPc} {ptr value : Nat}

/-! ## Moving one thread -/

/-- A sum over the positions when one thread moves. -/
theorem sum_pc (g : ArenaPc → Nat) {pcs : τ → ArenaPc} {t : τ} {p : ArenaPc} (hp : pcs t = p)
    (pc : ArenaPc) :
    ∑ u, g (Function.update pcs t pc u) + g p = ∑ u, g (pcs u) + g pc := by
  have h := sum_of_others (fun u => g (pcs u)) (fun u => g (Function.update pcs t pc u)) (t := t)
    fun u hu => by rw [Function.update_of_ne hu]
  rwa [Function.update_self, hp] at h

/-- The slabs of the threads when one of them gets a slab. -/
theorem sum_held_of_cons (hothers : ∀ u, u ≠ t → s'.held u = s.held u)
    (ht : s'.held t = ptr :: s.held t) :
    ∑ u, (s'.held u : Multiset Nat) = ptr ::ₘ ∑ u, (s.held u : Multiset Nat) := by
  have h := sum_of_others (fun u => (s.held u : Multiset Nat))
    (fun u => (s'.held u : Multiset Nat)) (t := t)
    fun u hu => by rw [hothers u hu]
  rw [ht, ← Multiset.cons_coe, Multiset.add_cons, ← Multiset.cons_add] at h
  exact add_right_cancel h

omit [Fintype τ] in
theorem ArenaState.held_setPc (s : ArenaState τ) (t u : τ) (pc : ArenaPc)
    (helem : pc.elem = (s.pc t).elem) :
    (s.setPc t pc).held u = s.held u := by
  by_cases hu : u = t
  · subst hu
    simp [ArenaState.held, ArenaState.setPc, helem]
  · simp [ArenaState.held, ArenaState.setPc, Function.update_of_ne hu]

/-- A thread moves without a slab changing hands. -/
theorem ArenaState.Placed.setPc (h : s.Placed c stack) (t : τ) (pc : ArenaPc)
    (hsound : pc.Sound c s.lifo stack) (helem : pc.elem = (s.pc t).elem) :
    (s.setPc t pc).Placed c stack where
  lifo := h.lifo
  calls := by
    intro u
    by_cases hu : u = t
    · subst hu
      simpa [ArenaState.setPc] using hsound
    · simpa [ArenaState.setPc, Function.update_of_ne hu] using h.calls u
  slabs := by
    simp only [s.held_setPc t _ pc helem]
    exact h.slabs

omit [DecidableEq τ] in
/-- Where the slabs are does not depend on the counters. -/
theorem ArenaState.Placed.withCounters (h : s.Placed c stack) (used quota : Nat) :
    ({ s with used := used, quota := quota } : ArenaState τ).Placed c stack :=
  ⟨h.lifo, h.calls, h.slabs⟩

/-- A thread gets a slab. -/
theorem ArenaState.Placed.give {s : ArenaState τ} (hlifo : s.lifo.Inv stack)
    (hcalls : ∀ u, u ≠ t → (s.pc u).Sound c s.lifo stack) (helem : (s.pc t).elem = none)
    (hslabs : (ptr ::ₘ (stack : Multiset Nat)) + ∑ u, (s.held u : Multiset Nat) =
      (s.carved : Multiset Nat) + (s.mapped : Multiset Nat)) :
    (s.give t ptr).Placed c stack where
  lifo := hlifo
  calls := by
    intro u
    by_cases hu : u = t
    · subst hu
      simp [ArenaState.give, ArenaPc.Sound]
    · simpa [ArenaState.give, Function.update_of_ne hu] using hcalls u hu
  slabs := by
    have hothers : ∀ u, u ≠ t → (s.give t ptr).held u = s.held u := by
      intro u hu
      simp [ArenaState.held, ArenaState.give, Function.update_of_ne hu]
    have ht : (s.give t ptr).held t = ptr :: s.held t := by
      simp [ArenaState.held, ArenaState.give, helem]
    rw [sum_held_of_cons hothers ht, Multiset.add_cons, ← Multiset.cons_add]
    exact hslabs

omit [DecidableEq τ] in
/-- The counters do not depend on anything else. -/
theorem ArenaState.Counted.congr (h : s.Counted c) (hused : s'.used = s.used)
    (hquota : s'.quota = s.quota) (hothers : s'.others = s.others)
    (hcarved : s'.carved = s.carved) (hmapped : s'.mapped = s.mapped)
    (hover : ∑ u, (s'.pc u).over = ∑ u, (s.pc u).over)
    (hbilled : ∑ u, (s'.pc u).billed = ∑ u, (s.pc u).billed) :
    s'.Counted c := by
  refine ⟨?_, ?_, ?_, ?_⟩
  · rw [hcarved, hmapped]
    exact h.slabs
  · rw [hcarved, hmapped, hover]
    exact h.full
  · rw [hused, hcarved, hmapped, hover]
    exact h.used
  · rw [hquota, hothers, hcarved, hmapped, hbilled]
    exact h.quota

/-- A thread moves and the counters stay. -/
theorem ArenaState.Counted.setPc (h : s.Counted c) (t : τ) (pc : ArenaPc)
    (hover : pc.over = (s.pc t).over) (hbilled : pc.billed = (s.pc t).billed) :
    (s.setPc t pc).Counted c := by
  have h1 := sum_pc ArenaPc.over (rfl : s.pc t = s.pc t) pc
  have h2 := sum_pc ArenaPc.billed (rfl : s.pc t = s.pc t) pc
  exact h.congr rfl rfl rfl rfl rfl (by simp only [ArenaState.setPc]; omega)
    (by simp only [ArenaState.setPc]; omega)

/-- The invariant. -/
structure ArenaState.Inv (c : ArenaConfig) (s : ArenaState τ) (stack : List Nat) : Prop where
  placed : s.Placed c stack
  counted : s.Counted c

theorem ArenaState.Inv.setPc (h : s.Inv c stack) (t : τ) (pc : ArenaPc)
    (hsound : pc.Sound c s.lifo stack) (helem : pc.elem = (s.pc t).elem)
    (hover : pc.over = (s.pc t).over) (hbilled : pc.billed = (s.pc t).billed) :
    (s.setPc t pc).Inv c stack :=
  ⟨h.placed.setPc t pc hsound helem, h.counted.setPc t pc hover hbilled⟩

/-! ## The lifo -/

section LifoSteps

variable {lpc : LifoPc} {lifo : Lifo} {outcome : LifoOutcome}

/-- The others do not notice a step in the lifo. -/
theorem ArenaState.Inv.others_sound (h : s.Inv c stack) (hpc : s.pc t = .lifo lpc)
    (hstep : lpc.StepsTo s.lifo stack lifo outcome stack') (u : τ) (hu : u ≠ t) :
    (s.pc u).Sound c lifo stack' := by
  have hsound := h.placed.calls u
  cases hpcu : s.pc u with
  | lifo upc =>
      rw [hpcu] at hsound
      refine LifoPc.Sound.of_moves hsound h.placed.lifo hstep.inv hstep.moves fun a ha =>
        hstep.frame a ?_
      -- the element of one call is not that of another
      intro helem
      have hheld : a ∈ s.held t := by simp [ArenaState.held, hpc, ArenaPc.elem, helem]
      have hheld' : a ∈ s.held u := by simp [ArenaState.held, hpcu, ArenaPc.elem, ha]
      exact (h.placed.held_nodup h.counted).2 u hu hheld hheld'
  | idle => trivial
  | quotaLoad op =>
      rw [hpcu] at hsound
      exact hsound
  | quotaExchange op value newValue =>
      rw [hpcu] at hsound
      exact hsound
  | fetchAdd => trivial
  | mmap => trivial
  | subFetch => trivial

/-- The counters after a step in the lifo. -/
theorem ArenaState.Counted.afterLifo (h : s.Counted c) (hpc : s.pc t = .lifo lpc) (lifo : Lifo)
    (outcome : LifoOutcome) :
    ({ s with lifo := lifo }.afterLifo c t outcome).Counted c := by
  have hlifo : ArenaState.Counted c { s with lifo := lifo } := h.congr rfl rfl rfl rfl rfl rfl rfl
  have hpc' : ({ s with lifo := lifo } : ArenaState τ).pc t = .lifo lpc := hpc
  rcases outcome with pc | _ | _ | ptr
  · exact hlifo.setPc t _ (by rw [hpc']; rfl) (by rw [hpc']; rfl)
  · exact hlifo.setPc t _ (by rw [hpc']; rfl) (by rw [hpc']; rfl)
  · exact hlifo.setPc t _ (by rw [hpc']; rfl) (by rw [hpc']; rfl)
  · exact (hlifo.setPc t .idle (by rw [hpc']; rfl) (by rw [hpc']; rfl)).congr rfl rfl rfl rfl
      rfl rfl rfl

/-- A step of a push or a pop. -/
theorem ArenaState.Inv.lifoStep (h : s.Inv c stack) (hpc : s.pc t = .lifo lpc)
    (hstep : lpc.StepsTo s.lifo stack lifo outcome stack') :
    ({ s with lifo := lifo }.afterLifo c t outcome).Inv c stack' := by
  refine ⟨?_, h.counted.afterLifo hpc lifo outcome⟩
  have hothers := h.others_sound hpc hstep
  have hslabs := h.placed.slabs
  have heffect := hstep.effect
  -- the thread moves and keeps its element, or has none
  have hmoved : ∀ pc, stack' = stack → pc.Sound c lifo stack' → pc.elem = lpc.elem →
      ({ s with lifo := lifo }.setPc t pc).Placed c stack' := by
    intro pc hstack hsound helem
    refine ⟨hstep.inv, fun u => ?_, ?_⟩
    · by_cases hu : u = t
      · subst hu
        simpa [ArenaState.setPc] using hsound
      · simpa [ArenaState.setPc, Function.update_of_ne hu] using hothers u hu
    · have hheld : ∀ u, ({ s with lifo := lifo }.setPc t pc).held u = s.held u := by
        intro u
        exact ArenaState.held_setPc _ t u pc (by rw [helem, hpc]; rfl)
      simp only [hheld]
      rw [hstack]
      exact hslabs
  rcases outcome with pc | _ | _ | ptr
  · -- the call goes on
    obtain ⟨hsound, helem⟩ := hstep.goes pc rfl
    exact hmoved (.lifo pc) heffect hsound helem
  · -- a push completes: the slab leaves the thread for the stack
    obtain ⟨a, ha, hstack⟩ := heffect
    refine ⟨hstep.inv, fun u => ?_, ?_⟩
    · by_cases hu : u = t
      · subst hu
        simp [ArenaState.afterLifo, ArenaState.setPc, ArenaPc.Sound]
      · simpa [ArenaState.afterLifo, ArenaState.setPc, Function.update_of_ne hu] using hothers u hu
    · have hrest : ∀ u, u ≠ t → s.held u = ({ s with lifo := lifo }.setPc t .idle).held u := by
        intro u hu
        simp [ArenaState.held, ArenaState.setPc, Function.update_of_ne hu]
      have ht : s.held t = a :: ({ s with lifo := lifo }.setPc t .idle).held t := by
        simp [ArenaState.held, ArenaState.setPc, hpc, ArenaPc.elem, ha]
      rw [sum_held_of_cons hrest ht, Multiset.add_cons, ← Multiset.cons_add, Multiset.cons_coe,
        ← hstack] at hslabs
      exact hslabs
  · -- the stack is empty
    obtain ⟨helem, hempty, hempty'⟩ := heffect
    exact hmoved (.quotaLoad (.use c.slabSize)) (hempty'.trans hempty.symm) (.inl rfl) helem.symm
  · -- a pop completes: the slab leaves the stack for the thread
    obtain ⟨helem, hstack⟩ := heffect
    refine ArenaState.Placed.give (s := { s with lifo := lifo }) hstep.inv hothers
      (by rw [hpc]; exact helem) ?_
    rw [Multiset.cons_coe, ← hstack]
    exact hslabs

end LifoSteps

/-! ## The quota -/

section QuotaSteps

variable {op : QuotaOp} {newValue : Nat}

omit [Fintype τ] in
/-- The loop loads the word. -/
theorem ArenaState.stepOf_quotaLoad (s : ArenaState τ) (t : τ) (spurious : Bool)
    (answer : Option Nat) (hop : op.OfSlab c) :
    s.stepOf c t spurious answer (.quotaLoad op) =
      (op.attempt s.quota).map fun
        | .fail => s.setPc t .idle
        | .exchange newValue => s.setPc t (.quotaExchange op s.quota newValue) := by
  simp only [ArenaState.stepOf, hop.start, Option.bind_eq_bind, Option.bind_some, if_true]
  cases op.attempt s.quota with
  | none => rfl
  | some attempt => cases attempt <;> rfl

theorem ArenaState.Inv.quotaLoad (h : s.Inv c stack) (hpc : s.pc t = .quotaLoad op)
    {spurious : Bool} {answer : Option Nat}
    (hex : s.stepOf c t spurious answer (s.pc t) = some s') : s'.Inv c stack := by
  have hop : op.OfSlab c := by
    have hsound := h.placed.calls t
    rwa [hpc] at hsound
  rw [hpc, s.stepOf_quotaLoad t spurious answer hop] at hex
  obtain ⟨attempt, hattempt, hs'⟩ := Option.map_eq_some_iff.1 hex
  subst hs'
  cases attempt with
  | fail =>
      -- a release does not fail
      rcases hop with rfl | rfl
      · exact h.setPc t _ trivial (by rw [hpc]; rfl) (by rw [hpc]; rfl) (by rw [hpc]; rfl)
      · exact (QuotaOp.violates_of_attempt (QuotaOp.OfSlab.start (c := c) (.inr rfl)) hattempt).elim
  | exchange newValue =>
      refine h.setPc t _ ⟨hop, hattempt⟩ (by rw [hpc]; rfl) (by rw [hpc]; rfl) ?_
      rw [hpc]
      cases op <;> rfl

/-- The compare-exchange of the word. -/
theorem ArenaState.Inv.quotaExchange (h : s.Inv c stack)
    (hpc : s.pc t = .quotaExchange op value newValue) {spurious : Bool} {answer : Option Nat}
    (hex : s.stepOf c t spurious answer (s.pc t) = some s') :
    s'.Inv c stack := by
  have hsound := h.placed.calls t
  rw [hpc] at hsound hex
  obtain ⟨hop, hattempt⟩ := hsound
  rw [ArenaState.stepOf] at hex
  split at hex
  · next hok =>
    cases hex
    rw [← hok.1] at hattempt
    have heffect := QuotaOp.effect_of_attempt hattempt
    have hquota := h.counted.quota
    have hover : ∑ u, (Function.update s.pc t op.slabMapPc u).over = ∑ u, (s.pc u).over := by
      have hsum := sum_pc ArenaPc.over hpc op.slabMapPc
      rcases hop with rfl | rfl <;> exact hsum
    have hwords : usedInUnits newValue = s.others +
        (s.carved.length + s.mapped.length +
          ∑ u, (Function.update s.pc t op.slabMapPc u).billed) * ceilUnits c.slabSize := by
      have hsum := sum_pc ArenaPc.billed hpc op.slabMapPc
      rcases hop with rfl | rfl
      · obtain ⟨-, hused, -⟩ := heffect
        have hsum : ∑ u, (Function.update s.pc t (QuotaOp.use c.slabSize).slabMapPc u).billed =
            ∑ u, (s.pc u).billed + 1 := hsum
        rw [hused, hquota, c.quotaUnits_eq, hsum, ← Nat.add_assoc, Nat.add_one_mul, Nat.add_assoc]
      · obtain ⟨-, hused⟩ := heffect
        have hsum : ∑ u, (Function.update s.pc t
            (QuotaOp.release c.slabSize).slabMapPc u).billed + 1 = ∑ u, (s.pc u).billed := hsum
        rw [hquota, c.quotaUnits_eq, ← hsum, ← Nat.add_assoc, Nat.add_one_mul] at hused
        omega
    refine ⟨(h.placed.withCounters s.used newValue).setPc t _ ?_ ?_, ?_⟩
    · rcases hop with rfl | rfl <;> trivial
    · show op.slabMapPc.elem = (s.pc t).elem
      rw [hpc]
      rcases hop with rfl | rfl <;> rfl
    · have hc := h.counted
      refine ⟨hc.slabs, ?_, ?_, hwords⟩
      · show 0 < s.mapped.length + ∑ u, (Function.update s.pc t op.slabMapPc u).over → _
        rw [hover]
        exact hc.full
      · show s.used = (_ + ∑ u, (Function.update s.pc t op.slabMapPc u).over) * c.slabSize
        rw [hover]
        exact hc.used
  · -- another call was faster
    cases hex
    refine h.setPc t _ hop (by rw [hpc]; rfl) (by rw [hpc]; rfl) ?_
    rw [hpc]
    cases op <;> rfl

end QuotaSteps

/-! ## The memory -/

/-- A thread that is counted in `used` is billed, too. -/
theorem ArenaPc.over_le_billed (pc : ArenaPc) : pc.over ≤ pc.billed := by
  cases pc <;> simp [ArenaPc.over, ArenaPc.billed]

omit [DecidableEq τ] in
/-- The quota bounds the counter. -/
theorem ArenaState.Counted.billed_lt (h : s.Counted c) :
    (s.carved.length + s.mapped.length + ∑ u, (s.pc u).billed) * c.slabSize < 2 ^ 42 := by
  have hlt := usedInUnits_lt s.quota
  have hquota := h.quota
  have hle : (s.carved.length + s.mapped.length + ∑ u, (s.pc u).billed) * ceilUnits c.slabSize <
      2 ^ 32 := by omega
  calc (s.carved.length + s.mapped.length + ∑ u, (s.pc u).billed) * c.slabSize
      = (s.carved.length + s.mapped.length + ∑ u, (s.pc u).billed) * ceilUnits c.slabSize *
      quotaUnitSize := by
        rw [Nat.mul_assoc, c.units]
    _ < 2 ^ 32 * quotaUnitSize := Nat.mul_lt_mul_of_pos_right hle (by decide)
    _ = 2 ^ 42 := by decide

omit [DecidableEq τ] in
/-- The counter after one more slab does not wrap around. -/
theorem ArenaState.Counted.fetchAdd (h : s.Counted c) (hpc : s.pc t = .fetchAdd) :
    (s.used + c.slabSize) % sizeMax =
      (s.carved.length + s.mapped.length + ∑ u, (s.pc u).over + 1) * c.slabSize := by
  have hlt := h.billed_lt
  have hmore : ∑ u, (s.pc u).over + 1 ≤ ∑ u, (s.pc u).billed :=
    sum_lt_sum (fun u _ => ArenaPc.over_le_billed _) ⟨t, mem_univ t, by rw [hpc]; decide⟩
  have hle := Nat.mul_le_mul_right c.slabSize
    (Nat.add_le_add_left hmore (s.carved.length + s.mapped.length))
  have hmax : 2 ^ 42 < sizeMax := by decide
  rw [h.used, ← Nat.add_one_mul]
  rw [← Nat.add_assoc] at hle
  exact Nat.mod_eq_of_lt (by omega)

omit [DecidableEq τ] in
/-- While there is room in the preallocated memory, nothing else is counted. -/
theorem ArenaState.Counted.none_over (h : s.Counted c)
    (hroom : (s.carved.length + s.mapped.length + ∑ u, (s.pc u).over + 1) * c.slabSize ≤
      c.prealloc) :
    s.mapped.length + ∑ u, (s.pc u).over = 0 := by
  by_contra hne
  have hfull := h.full (Nat.pos_of_ne_zero hne)
  have hmin := c.slabSize_min
  have hle : (s.carved.length + 1) * c.slabSize ≤
      (s.carved.length + s.mapped.length + ∑ u, (s.pc u).over + 1) * c.slabSize :=
    Nat.mul_le_mul_right _ (by omega)
  rw [Nat.add_one_mul] at hle
  omega

/-- The preallocated memory is a whole number of slabs. -/
theorem ArenaConfig.full_of_lt (c : ArenaConfig) {n : Nat} (hn : n * c.slabSize ≤ c.prealloc)
    (hover : c.prealloc < (n + 1) * c.slabSize) : n * c.slabSize = c.prealloc := by
  obtain ⟨k, hk⟩ := c.prealloc_aligned
  have hpos : 0 < c.slabSize := Nat.lt_of_lt_of_le (by decide) c.slabSize_min
  rw [Nat.mul_comm] at hk
  rw [hk] at hn hover
  have hle : n ≤ k := Nat.le_of_mul_le_mul_right hn hpos
  have hlt : k < n + 1 := Nat.lt_of_mul_lt_mul_right hover
  obtain rfl : n = k := by omega
  exact hk.symm

/-- `fetch_add` on the counter, and what `slab_map` does with the result. -/
theorem ArenaState.Inv.fetchAdd (h : s.Inv c stack) (hpc : s.pc t = .fetchAdd) {spurious : Bool}
    {answer : Option Nat} (hex : s.stepOf c t spurious answer (s.pc t) = some s') :
    s'.Inv c stack := by
  have hc := h.counted
  have hused := hc.fetchAdd hpc
  have hquota := hc.quota
  rw [hpc, ArenaState.stepOf] at hex
  simp only [hused] at hex
  split at hex
  · next hroom =>
    -- the slot after those that are carved
    cases hex
    have hzero := hc.none_over hroom
    have hcount :
        s.carved.length + s.mapped.length + ∑ u, (s.pc u).over + 1 = s.carved.length + 1 := by omega
    rw [hcount] at hroom
    have hslot : c.arena + (s.carved.length + 1) * c.slabSize - c.slabSize =
        c.arena + s.carved.length * c.slabSize := by
      rw [Nat.add_one_mul]
      omega
    rw [hcount, hslot]
    have hplaced := h.placed
    have hbilled : ∑ u, (Function.update s.pc t .idle u).billed + 1 = ∑ u, (s.pc u).billed :=
      sum_pc ArenaPc.billed hpc .idle
    have hover : ∑ u, (Function.update s.pc t .idle u).over = ∑ u, (s.pc u).over :=
      sum_pc ArenaPc.over hpc .idle
    refine ⟨ArenaState.Placed.give (s := { s with used := _, carved := _ }) hplaced.lifo
      (fun u _ => hplaced.calls u) ?_ ?_, ?_⟩
    · show (s.pc t).elem = none
      rw [hpc]
      rfl
    · show (_ ::ₘ (stack : Multiset Nat)) + ∑ u, (s.held u : Multiset Nat) = _
      rw [Multiset.cons_add, hplaced.slabs, ← Multiset.cons_coe, Multiset.cons_add]
    · refine ⟨hc.slabs.carve hroom, ?_, ?_, ?_⟩
      · show 0 < s.mapped.length + ∑ u, (Function.update s.pc t .idle u).over → _
        omega
      · show (s.carved.length + 1) * c.slabSize =
          (s.carved.length + 1 + s.mapped.length + ∑ u, (Function.update s.pc t .idle u).over) *
          c.slabSize
        rw [hover, Nat.add_assoc, hzero, Nat.add_zero]
      · show usedInUnits s.quota =
          s.others + (s.carved.length + 1 + s.mapped.length +
            ∑ u, (Function.update s.pc t .idle u).billed) * ceilUnits c.slabSize
        rw [hquota]
        congr 2
        omega
  · next hfull =>
    cases hex
    have hbilled : ∑ u, (Function.update s.pc t .mmap u).billed = ∑ u, (s.pc u).billed :=
      Nat.add_right_cancel (sum_pc ArenaPc.billed hpc .mmap)
    have hover : ∑ u, (Function.update s.pc t .mmap u).over = ∑ u, (s.pc u).over + 1 :=
      sum_pc ArenaPc.over hpc .mmap
    refine ⟨(h.placed.withCounters _ s.quota).setPc t _ trivial ?_, hc.slabs, ?_, ?_, ?_⟩
    · show ArenaPc.mmap.elem = (s.pc t).elem
      rw [hpc]
      rfl
    · intro _
      rcases Nat.eq_zero_or_pos (s.mapped.length + ∑ u, (s.pc u).over) with hzero | hpos
      · have hcount : s.carved.length + s.mapped.length + ∑ u, (s.pc u).over + 1 =
            s.carved.length + 1 := by omega
        rw [hcount] at hfull
        exact c.full_of_lt hc.slabs.within (Nat.lt_of_not_le hfull)
      · exact hc.full hpos
    · show (s.carved.length + s.mapped.length + ∑ u, (s.pc u).over + 1) * c.slabSize =
        (s.carved.length + s.mapped.length + ∑ u, (Function.update s.pc t .mmap u).over) *
        c.slabSize
      rw [hover, ← Nat.add_assoc]
    · show usedInUnits s.quota = s.others + (_ + ∑ u, (Function.update s.pc t .mmap u).billed) *
        ceilUnits c.slabSize
      rw [hbilled]
      exact hquota

omit [DecidableEq τ] [Fintype τ] in
/-- A region from `mmap` is a slab. -/
theorem ArenaState.Fresh.slabs (hptr : s.Fresh c ptr) (h : c.Slabs s.carved s.mapped) :
    c.Slabs s.carved (ptr :: s.mapped) :=
  h.region hptr.ne_zero hptr.aligned hptr.bound hptr.arena hptr.mapped

/-- `mmap`. -/
theorem ArenaState.Inv.mmap (h : s.Inv c stack) (hpc : s.pc t = .mmap) {spurious : Bool}
    {answer : Option Nat} (hfresh : ∀ ptr, answer = some ptr → s.Fresh c ptr)
    (hex : s.stepOf c t spurious answer (s.pc t) = some s') : s'.Inv c stack := by
  have hc := h.counted
  rw [hpc] at hex
  unfold ArenaState.stepOf at hex
  cases answer with
  | none =>
      cases hex
      exact h.setPc t _ trivial (by rw [hpc]; rfl) (by rw [hpc]; rfl) (by rw [hpc]; rfl)
  | some ptr =>
      cases hex
      have hptr := hfresh ptr rfl
      have hbilled : ∑ u, (Function.update s.pc t .idle u).billed + 1 = ∑ u, (s.pc u).billed :=
        sum_pc ArenaPc.billed hpc .idle
      have hover : ∑ u, (Function.update s.pc t .idle u).over + 1 = ∑ u, (s.pc u).over :=
        sum_pc ArenaPc.over hpc .idle
      have hplaced := h.placed
      refine ⟨ArenaState.Placed.give (s := { s with mapped := _ }) hplaced.lifo
        (fun u _ => hplaced.calls u) ?_ ?_, ?_⟩
      · show (s.pc t).elem = none
        rw [hpc]
        rfl
      · show (ptr ::ₘ (stack : Multiset Nat)) + ∑ u, (s.held u : Multiset Nat) = _
        rw [Multiset.cons_add, hplaced.slabs, ← Multiset.cons_coe, Multiset.add_cons]
      · refine ⟨hptr.slabs hc.slabs, fun _ => hc.full ?_, ?_, ?_⟩
        · omega
        · show s.used = (s.carved.length + (s.mapped.length + 1) +
              ∑ u, (Function.update s.pc t .idle u).over) * c.slabSize
          rw [hc.used]
          congr 1
          omega
        · show usedInUnits s.quota =
            s.others + (s.carved.length + (s.mapped.length + 1) +
              ∑ u, (Function.update s.pc t .idle u).billed) * ceilUnits c.slabSize
          rw [hc.quota]
          congr 2
          omega

omit [DecidableEq τ] in
/-- The counter after one slab less, for a thread that it counts. -/
theorem ArenaState.Counted.subFetch (h : s.Counted c) {n : Nat} (hn : n + 1 = ∑ u, (s.pc u).over) :
    (s.used + sizeMax - c.slabSize) % sizeMax =
      (s.carved.length + s.mapped.length + n) * c.slabSize := by
  have hlt := h.billed_lt
  have hmore : n + 1 ≤ ∑ u, (s.pc u).billed := hn ▸ sum_le_sum fun u _ => ArenaPc.over_le_billed _
  have hle := Nat.mul_le_mul_right c.slabSize
    (Nat.add_le_add_left hmore (s.carved.length + s.mapped.length))
  have hmax : 2 ^ 42 < sizeMax := by decide
  rw [← Nat.add_assoc, Nat.add_one_mul] at hle
  rw [h.used, ← hn, ← Nat.add_assoc, Nat.add_one_mul, Nat.add_right_comm, Nat.add_sub_cancel,
    Nat.add_mod_right]
  exact Nat.mod_eq_of_lt (by omega)

/-- The counter goes back after a failure of `mmap`. -/
theorem ArenaState.Inv.subFetch (h : s.Inv c stack) (hpc : s.pc t = .subFetch) {spurious : Bool}
    {answer : Option Nat} (hex : s.stepOf c t spurious answer (s.pc t) = some s') :
    s'.Inv c stack := by
  have hc := h.counted
  have hbilled : ∑ u, (Function.update s.pc t (.quotaLoad (.release c.slabSize)) u).billed =
      ∑ u, (s.pc u).billed :=
    Nat.add_right_cancel (sum_pc ArenaPc.billed hpc (.quotaLoad (.release c.slabSize)))
  have hover : ∑ u, (Function.update s.pc t (.quotaLoad (.release c.slabSize)) u).over + 1 =
      ∑ u, (s.pc u).over :=
    sum_pc ArenaPc.over hpc (.quotaLoad (.release c.slabSize))
  rw [hpc, ArenaState.stepOf, hc.subFetch hover] at hex
  cases hex
  refine ⟨(h.placed.withCounters _ s.quota).setPc t (.quotaLoad (.release c.slabSize))
    (.inr rfl) ?_, hc.slabs, fun _ => hc.full ?_, rfl, ?_⟩
  · show (ArenaPc.quotaLoad (.release c.slabSize)).elem = (s.pc t).elem
    rw [hpc]
    rfl
  · omega
  · show usedInUnits s.quota =
      s.others + (_ + ∑ u, (Function.update s.pc t (.quotaLoad (.release c.slabSize)) u).billed) *
      ceilUnits c.slabSize
    rw [hbilled]
    exact hc.quota

end SmallAllocators
