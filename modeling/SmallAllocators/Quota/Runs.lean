/-
SmallAllocators.Quota.Runs — concurrent calls on one quota.

Any number of threads call `quota_set`, `quota_use` and `quota_release`. The
atomic steps are the start of a call, the load of the word, and the
compare-exchange, which may also fail for no reason. A call that returns -1
does so right after a load, and the others with their exchange; `log` is the
history of completed calls.

The invariant needs one fact about a call in flight: the value that it wants
to store is computed from the value that it expects. So a successful
exchange does to the word what the call does when it runs alone.
-/
import Mathlib.Algebra.Order.BigOperators.Group.Finset
import Mathlib.Data.Fintype.Basic
import SmallAllocators.Lib.Runs
import SmallAllocators.Lib.Sums
import SmallAllocators.Quota.Model

namespace SmallAllocators

/-! ## One round of a loop -/

section Attempt

variable {value newValue : Nat} {result : Option Nat} {op : QuotaOp}

/-- The request of the call does not fit in the limit. -/
def QuotaOp.Violates (value : Nat) : QuotaOp → Prop
  | .set newTotal => ceilUnits newTotal < usedInUnits value
  | .use size => totalInUnits value < usedInUnits value + ceilUnits size
  | .release _ => False

/-- What a successful call does to the two halves of the word. -/
def QuotaOp.Effect (value newValue : Nat) : QuotaOp → Prop
  | .set newTotal =>
      totalInUnits newValue = quotaUnits newTotal ∧ usedInUnits newValue = usedInUnits value ∧
      usedInUnits value ≤ quotaUnits newTotal
  | .use size =>
      totalInUnits newValue = totalInUnits value ∧
      usedInUnits newValue = usedInUnits value + quotaUnits size ∧
      usedInUnits value + quotaUnits size ≤ totalInUnits value
  | .release size =>
      totalInUnits newValue = totalInUnits value ∧
      usedInUnits newValue + quotaUnits size = usedInUnits value

/-- A round that succeeds; the assertion of `quota_use` excludes that the sum wraps around. -/
theorem QuotaOp.effect_of_attempt (h : op.attempt value = some (.exchange newValue)) :
    op.Effect value newValue := by
  have hlt := usedInUnits_lt value
  cases op with
  | set newTotal =>
      simp only [QuotaOp.attempt, quotaSetAttempt] at h
      split at h
      · simp at h
      · simp only [Option.some.injEq, Attempt.exchange.injEq] at h
        rw [← h]
        exact ⟨totalInUnits_pack hlt, usedInUnits_pack hlt, by omega⟩
  | use size =>
      have hunits := quotaUnits_lt size
      simp only [QuotaOp.attempt, quotaUseAttempt, guard] at h
      split at h
      · rename_i hmore
        have hmod : (usedInUnits value + quotaUnits size) % 2 ^ 32 =
            usedInUnits value + quotaUnits size := by
          omega
        rw [hmod] at h hmore
        simp only [pure, Option.bind_eq_bind, Option.bind_some] at h
        split at h
        · simp at h
        · rename_i hfits
          simp only [Option.some.injEq, Attempt.exchange.injEq] at h
          rw [← h]
          exact ⟨totalInUnits_pack (by omega), usedInUnits_pack (by omega), by omega⟩
      · simp at h
  | release size =>
      simp only [QuotaOp.attempt, quotaReleaseAttempt, guard] at h
      split at h
      · simp only [pure, Option.bind_eq_bind, Option.bind_some, Option.some.injEq,
          Attempt.exchange.injEq] at h
        rw [← h, QuotaOp.Effect, totalInUnits_pack (by omega), usedInUnits_pack (by omega)]
        omega
      · simp at h

/-- What a call does that runs alone. -/
theorem QuotaOp.effect_of_run (h : op.run value = some (result, newValue)) :
    result = none ∧ newValue = value ∨ result = some op.result ∧ op.Effect value newValue := by
  obtain ⟨enters, -, h⟩ := Option.bind_eq_some_iff.1 h
  cases enters with
  | false =>
      cases h
      exact .inl ⟨rfl, rfl⟩
  | true =>
      obtain ⟨attempt, hattempt, h⟩ := Option.bind_eq_some_iff.1 h
      cases attempt with
      | fail =>
          cases h
          exact .inl ⟨rfl, rfl⟩
      | exchange newValue =>
          cases h
          exact .inr ⟨rfl, QuotaOp.effect_of_attempt hattempt⟩

/-- A round that fails, for a call that was let into its loop. -/
theorem QuotaOp.violates_of_attempt (hstart : op.start = some true)
    (h : op.attempt value = some .fail) :
    op.Violates value := by
  cases op with
  | set newTotal =>
      simp only [QuotaOp.attempt, quotaSetAttempt] at h
      split at h
      · have hmax : newTotal ≤ quotaMax := by
          by_contra hnot
          simp [QuotaOp.start, guard, hnot] at hstart
        rw [QuotaOp.Violates, ← quotaUnits_eq hmax]
        assumption
      · simp at h
  | use size =>
      have hlt := usedInUnits_lt value
      have hunits := quotaUnits_lt size
      have hmax : size ≤ quotaMax := by
        by_contra hnot
        simp only [QuotaOp.start, if_pos (Nat.lt_of_not_le hnot), Option.some.injEq,
          Bool.false_eq_true] at hstart
      simp only [QuotaOp.attempt, quotaUseAttempt, guard] at h
      split at h
      · simp only [pure, Option.bind_eq_bind, Option.bind_some] at h
        split at h
        · rw [QuotaOp.Violates, ← quotaUnits_eq hmax]
          omega
        · simp at h
      · simp at h
  | release size =>
      simp only [QuotaOp.attempt, quotaReleaseAttempt, guard] at h
      split at h <;> simp at h

/-- The assertions in the loops hold. -/
theorem QuotaOp.attempt_returns (hstart : op.start = some true)
    (huse : ∀ size, op = .use size → usedInUnits value + quotaUnits size < 2 ^ 32)
    (hrelease : ∀ size, op = .release size → quotaUnits size ≤ usedInUnits value) :
    ∃ a, op.attempt value = some a := by
  cases op with
  | set newTotal =>
      simp only [QuotaOp.attempt, quotaSetAttempt]
      split <;> exact ⟨_, rfl⟩
  | use size =>
      have hne : quotaUnits size ≠ 0 := by
        intro hzero
        simp [QuotaOp.start, guard, hzero] at hstart
      have hsum := huse size rfl
      have hmod : (usedInUnits value + quotaUnits size) % 2 ^ 32 =
          usedInUnits value + quotaUnits size :=
        Nat.mod_eq_of_lt hsum
      simp only [QuotaOp.attempt, quotaUseAttempt, guard, hmod]
      rw [if_pos (by omega)]
      simp only [pure, Option.bind_eq_bind, Option.bind_some]
      split <;> exact ⟨_, rfl⟩
  | release size =>
      have hle := hrelease size rfl
      simp only [QuotaOp.attempt, quotaReleaseAttempt, guard, if_pos hle]
      exact ⟨_, rfl⟩

end Attempt

/-! ## The machine -/

/-- Where a thread is: in no call, at the start of the loop, or before its exchange. -/
inductive QuotaPc where
  | idle
  | loop (op : QuotaOp)
  | exchange (op : QuotaOp) (value newValue : Nat)
deriving DecidableEq, Repr

/-- A completed call; the result is `none` for -1. -/
structure QuotaCall (τ : Type) where
  thread : τ
  op : QuotaOp
  result : Option Nat

/-- The quota word, the threads, and the history. -/
structure QuotaState (τ : Type) where
  value : Nat
  pc : τ → QuotaPc
  /-- The units that a thread used and has not released. -/
  balance : τ → Nat
  /-- The completed calls, latest first. -/
  log : List (QuotaCall τ)

variable {τ : Type}

/-- The balance of a thread after a successful call. -/
def QuotaOp.settle (balance : Nat) : QuotaOp → Nat
  | .set _ => balance
  | .use size => balance + quotaUnits size
  | .release size => balance - quotaUnits size

section Machine

variable [DecidableEq τ]

/-- The call of thread `t` returns -1. -/
def QuotaState.failed (s : QuotaState τ) (t : τ) (op : QuotaOp) : QuotaState τ :=
  { s with
    pc := Function.update s.pc t .idle
    log := { thread := t, op := op, result := none } :: s.log }

/-- The call of thread `t` stores the new value and returns. -/
def QuotaState.succeeded (s : QuotaState τ) (t : τ) (op : QuotaOp) (newValue : Nat) :
    QuotaState τ where
  value := newValue
  pc := Function.update s.pc t .idle
  balance := Function.update s.balance t (op.settle (s.balance t))
  log := { thread := t, op := op, result := some op.result } :: s.log

/-- The atomic steps. -/
inductive QuotaStep (τ : Type) where
  | call (t : τ) (op : QuotaOp)
  | load (t : τ)
  | compareExchange (t : τ) (spurious : Bool)

def QuotaStep.exec (s : QuotaState τ) : QuotaStep τ → Option (QuotaState τ)
  | .call t op => do
    if ← op.start then some { s with pc := Function.update s.pc t (.loop op) }
    else some (s.failed t op)
  | .load t =>
    match s.pc t with
    | .loop op =>
      match op.attempt s.value with
      | none => none
      | some .fail => some (s.failed t op)
      | some (.exchange newValue) =>
        some { s with pc := Function.update s.pc t (.exchange op s.value newValue) }
    | _ => none
  | .compareExchange t spurious =>
    match s.pc t with
    | .exchange op value newValue =>
      if s.value = value ∧ ¬ spurious then some (s.succeeded t op newValue)
      else some { s with pc := Function.update s.pc t (.loop op) }
    | _ => none

/-- What a client promises for a call: the assertions on the arguments, and that it releases only
what it used before. -/
def QuotaOp.Client (balance : Nat) : QuotaOp → Prop
  | .set newTotal => newTotal ≤ quotaMax
  | .use size => 1 ≤ size
  | .release size => 1 ≤ size ∧ size < quotaMax ∧ quotaUnits size ≤ balance

/-- The schedule is arbitrary. When a `quota_use` loads the word, its request does not take the sum
to `2 ^ 32`. -/
def QuotaStep.Allowed (s : QuotaState τ) : QuotaStep τ → Prop
  | .call t op => s.pc t = .idle ∧ op.Client (s.balance t)
  | .load t => ∃ op, s.pc t = .loop op ∧
      ∀ size, op = .use size → usedInUnits s.value + quotaUnits size < 2 ^ 32
  | .compareExchange t _ => ∃ op value newValue, s.pc t = .exchange op value newValue

/-- A quota with the limit `total`, which nobody uses yet. -/
def QuotaState.Init (total : Nat) (s : QuotaState τ) : Prop :=
  s.value = quotaInit total ∧ (∀ t, s.pc t = .idle) ∧ (∀ t, s.balance t = 0) ∧ s.log = []

/-- All interleavings of the calls of the threads `τ`. -/
def quotaMachine (τ : Type) [DecidableEq τ] (total : Nat) :
    Machine (QuotaState τ) (QuotaStep τ) where
  init := QuotaState.Init total
  allowed := QuotaStep.Allowed
  exec := QuotaStep.exec

end Machine

/-! ## The history -/

/-- The bytes of the successful calls of `quota_use`, each rounded up. -/
def usedBytes : List (QuotaCall τ) → Nat
  | [] => 0
  | ⟨_, .use size, some _⟩ :: log => ceilUnits size * quotaUnitSize + usedBytes log
  | _ :: log => usedBytes log

/-- The bytes of the calls of `quota_release`, each rounded up. -/
def releasedBytes : List (QuotaCall τ) → Nat
  | [] => 0
  | ⟨_, .release size, some _⟩ :: log => ceilUnits size * quotaUnitSize + releasedBytes log
  | _ :: log => releasedBytes log

/-- The argument of the last successful `quota_set`, rounded up. -/
def lastTotal (initial : Nat) : List (QuotaCall τ) → Nat
  | [] => initial
  | ⟨_, .set newTotal, some _⟩ :: _ => ceilUnits newTotal * quotaUnitSize
  | _ :: log => lastTotal initial log

theorem usedBytes_failed (t : τ) (op : QuotaOp) (log : List (QuotaCall τ)) :
    usedBytes ({ thread := t, op := op, result := none } :: log) = usedBytes log := by
  cases op <;> rfl

theorem releasedBytes_failed (t : τ) (op : QuotaOp) (log : List (QuotaCall τ)) :
    releasedBytes ({ thread := t, op := op, result := none } :: log) = releasedBytes log := by
  cases op <;> rfl

theorem lastTotal_failed (initial : Nat) (t : τ) (op : QuotaOp) (log : List (QuotaCall τ)) :
    lastTotal initial ({ thread := t, op := op, result := none } :: log) =
      lastTotal initial log := by
  cases op <;> rfl

/-! ## The invariant -/

variable [DecidableEq τ] [Fintype τ] {initial : Nat} {s s' : QuotaState τ}

/-- What holds of a call in flight: it was let into its loop, it may release its amount, and what
it wants to store is computed from what it expects. -/
def QuotaPc.Sound (balance : Nat) : QuotaPc → Prop
  | .idle => True
  | .loop op => op.start = some true ∧ ∀ size, op = .release size → quotaUnits size ≤ balance
  | .exchange op value newValue =>
      op.start = some true ∧ (∀ size, op = .release size → quotaUnits size ≤ balance) ∧
      op.attempt value = some (.exchange newValue)

structure QuotaState.Inv (initial : Nat) (s : QuotaState τ) : Prop where
  le : usedInUnits s.value ≤ totalInUnits s.value
  bound : totalInUnits s.value < 2 ^ 32
  used : quotaUsed s.value + releasedBytes s.log = usedBytes s.log
  total : quotaTotal s.value = lastTotal initial s.log
  balance : usedInUnits s.value = ∑ t, s.balance t
  calls : ∀ t, (s.pc t).Sound (s.balance t)

theorem QuotaState.Inv.setPc (h : s.Inv initial) (t : τ) (pc : QuotaPc)
    (hpc : pc.Sound (s.balance t)) :
    QuotaState.Inv initial { s with pc := Function.update s.pc t pc } :=
  { h with
    calls := by
      intro u
      by_cases hu : u = t
      · subst hu
        simpa using hpc
      · simpa [Function.update_of_ne hu] using h.calls u }

theorem QuotaState.Inv.failed (h : s.Inv initial) (t : τ) (op : QuotaOp) :
    (s.failed t op).Inv initial := by
  have h' := h.setPc t .idle trivial
  refine ⟨h'.le, h'.bound, ?_, ?_, h'.balance, h'.calls⟩
  · show quotaUsed s.value + releasedBytes (_ :: s.log) = usedBytes (_ :: s.log)
    rw [usedBytes_failed, releasedBytes_failed, h.used]
  · show quotaTotal s.value = lastTotal initial (_ :: s.log)
    rw [lastTotal_failed, h.total]

/-- The sizes of the calls that enter their loop do not wrap around. -/
theorem QuotaOp.units_of_start {op : QuotaOp} (h : op.start = some true) :
    quotaUnits op.size = ceilUnits op.size := by
  refine quotaUnits_eq ?_
  by_contra hnot
  cases op with
  | set newTotal => simp [QuotaOp.start, guard, show ¬ newTotal ≤ quotaMax from hnot] at h
  | use size => simp [QuotaOp.start, show quotaMax < size from Nat.lt_of_not_le hnot] at h
  | release size =>
      have hlt : ¬ size < quotaMax := fun hlt => hnot (Nat.le_of_lt hlt)
      simp [QuotaOp.start, guard, hlt] at h

/-- A successful exchange. -/
theorem QuotaState.Inv.succeeded (h : s.Inv initial) {t : τ} {op : QuotaOp} {newValue : Nat}
    (hstart : op.start = some true)
    (hrelease : ∀ size, op = .release size → quotaUnits size ≤ s.balance t)
    (heffect : op.Effect s.value newValue) : (s.succeeded t op newValue).Inv initial := by
  have hsum := sum_update s.balance t (op.settle (s.balance t))
  have hunits := QuotaOp.units_of_start hstart
  have hle := h.le
  have hbound := h.bound
  have hbal := h.balance
  have hused := h.used
  have htotal := h.total
  have hcalls :
      ∀ u, ((s.succeeded t op newValue).pc u).Sound ((s.succeeded t op newValue).balance u) := by
    intro u
    by_cases hu : u = t
    · subst hu
      simp [QuotaState.succeeded, QuotaPc.Sound]
    · simpa [QuotaState.succeeded, Function.update_of_ne hu] using h.calls u
  cases op with
  | set newTotal =>
      obtain ⟨h1, h2, h3⟩ := heffect
      have hlt := quotaUnits_lt newTotal
      simp only [QuotaOp.settle] at hsum
      refine ⟨?_, ?_, ?_, ?_, ?_, hcalls⟩ <;> simp only [QuotaState.succeeded, QuotaOp.settle]
      · omega
      · omega
      · rw [quotaUsed, h2]
        exact hused
      · rw [quotaTotal, h1]
        simp only [QuotaOp.size] at hunits
        rw [hunits]
        rfl
      · omega
  | use size =>
      obtain ⟨h1, h2, h3⟩ := heffect
      simp only [QuotaOp.settle] at hsum
      simp only [QuotaOp.size] at hunits
      refine ⟨?_, ?_, ?_, ?_, ?_, hcalls⟩ <;> simp only [QuotaState.succeeded, QuotaOp.settle]
      · omega
      · omega
      · show quotaUsed newValue + releasedBytes s.log =
          ceilUnits size * quotaUnitSize + usedBytes s.log
        rw [quotaUsed, h2, hunits, Nat.add_mul, ← hused, quotaUsed]
        omega
      · show quotaTotal newValue = lastTotal initial s.log
        rw [quotaTotal, h1]
        exact htotal
      · omega
  | release size =>
      obtain ⟨h1, h2⟩ := heffect
      have hbalance := hrelease size rfl
      simp only [QuotaOp.settle] at hsum
      simp only [QuotaOp.size] at hunits
      refine ⟨?_, ?_, ?_, ?_, ?_, hcalls⟩ <;> simp only [QuotaState.succeeded, QuotaOp.settle]
      · omega
      · omega
      · show quotaUsed newValue + (ceilUnits size * quotaUnitSize + releasedBytes s.log) =
          usedBytes s.log
        rw [← hused, quotaUsed, quotaUsed, ← h2, hunits, Nat.add_mul]
        omega
      · show quotaTotal newValue = lastTotal initial s.log
        rw [quotaTotal, h1]
        exact htotal
      · omega

omit [DecidableEq τ] in
/-- A thread has no more than is in use. -/
theorem QuotaState.Inv.balance_le (h : s.Inv initial) (t : τ) :
    s.balance t ≤ usedInUnits s.value := by
  rw [h.balance]
  exact Finset.single_le_sum (fun _ _ => Nat.zero_le _) (Finset.mem_univ t)

omit [DecidableEq τ] in
theorem QuotaState.Init.inv {total : Nat} (h : s.Init total) :
    s.Inv (quotaTotal (quotaInit total)) := by
  obtain ⟨hvalue, hpc, hbalance, hlog⟩ := h
  have hused : usedInUnits s.value = 0 := by
    rw [usedInUnits_eq, hvalue, quotaInit, Nat.shiftLeft_eq, sizeMax]
    omega
  refine ⟨by omega, ?_, ?_, ?_, ?_, ?_⟩
  · rw [totalInUnits_eq, hvalue, quotaInit, sizeMax]
    omega
  · rw [hlog, quotaUsed, hused]
    rfl
  · rw [hlog, hvalue]
    rfl
  · simp [hused, hbalance]
  · intro t
    rw [hpc t]
    trivial

/-- What a client may call passes the assertions on the arguments. -/
theorem QuotaOp.Client.start {balance : Nat} {op : QuotaOp} (h : op.Client balance) :
    op.start = some true ∨ (∃ size, op = .use size ∧ quotaMax < size) ∧ op.start = some false := by
  cases op with
  | set newTotal =>
      left
      simp [QuotaOp.start, guard, show newTotal ≤ quotaMax from h]
  | use size =>
      by_cases hmax : size > quotaMax
      · right
        exact ⟨⟨size, rfl, hmax⟩, by simp [QuotaOp.start, hmax]⟩
      · left
        have hne : quotaUnits size ≠ 0 := by
          rw [quotaUnits_eq (Nat.le_of_not_lt hmax)]
          exact ceilUnits_ne_zero.mpr h
        simp [QuotaOp.start, guard, hmax, hne]
  | release size =>
      left
      have hne : quotaUnits size ≠ 0 := by
        rw [quotaUnits_eq (Nat.le_of_lt h.2.1)]
        exact ceilUnits_ne_zero.mpr h.1
      simp [QuotaOp.start, guard, h.2.1, hne]

/-- What a step may do: it changes the value only when it completes a successful call, and a call
that returns -1 does so in a state where its request does not fit. -/
structure QuotaState.Linear (s s' : QuotaState τ) : Prop where
  changed : s'.value ≠ s.value → ∃ t op, s'.log = ⟨t, op, some op.result⟩ :: s.log
  failed : ∀ t op, s'.log = ⟨t, op, none⟩ :: s.log → s'.value = s.value ∧ op.Violates s.value

omit [DecidableEq τ] [Fintype τ] in
theorem QuotaState.Linear.of_log_eq (hvalue : s'.value = s.value) (hlog : s'.log = s.log) :
    s.Linear s' := by
  refine ⟨fun hne => absurd hvalue hne, fun t op h => ?_⟩
  have := congrArg List.length h
  simp [hlog] at this

omit [Fintype τ] in
theorem QuotaState.Linear.of_failed {t : τ} {op : QuotaOp} (h : op.Violates s.value) :
    s.Linear (s.failed t op) := by
  refine ⟨fun hne => absurd rfl hne, fun u op' hlog => ⟨rfl, ?_⟩⟩
  simp only [QuotaState.failed, List.cons.injEq, QuotaCall.mk.injEq, and_true] at hlog
  exact hlog.2 ▸ h

/-- Every step that is allowed is taken without a failed assertion, and keeps the invariant. -/
theorem QuotaStep.exec_spec (h : s.Inv initial) (st : QuotaStep τ) (hst : st.Allowed s) :
    ∃ s', st.exec s = some s' ∧ s'.Inv initial ∧ s.Linear s' := by
  cases st with
  | call t op =>
      obtain ⟨hidle, hclient⟩ := hst
      rcases hclient.start with hstart | ⟨⟨size, hop, hmax⟩, hstart⟩
      · refine ⟨_, by simp only [QuotaStep.exec, hstart]; rfl, h.setPc t (.loop op) ⟨hstart, ?_⟩,
          .of_log_eq rfl rfl⟩
        rintro size rfl
        exact hclient.2.2
      · -- the request is larger than any limit
        refine ⟨s.failed t op, by simp [QuotaStep.exec, hstart], h.failed t op, .of_failed ?_⟩
        have hbound := h.bound
        have hbig : 2 ^ 32 ≤ ceilUnits size := by
          simp only [ceilUnits, quotaUnitSize, quotaMax, uint32Max] at *
          omega
        rw [hop]
        show totalInUnits s.value < usedInUnits s.value + ceilUnits size
        omega
  | load t =>
      obtain ⟨op, hpc, huse⟩ := hst
      have hsound := h.calls t
      rw [hpc] at hsound
      obtain ⟨hstart, hrelease⟩ := hsound
      have hle := h.balance_le t
      obtain ⟨a, ha⟩ := QuotaOp.attempt_returns hstart huse
        fun size hop => (hrelease size hop).trans hle
      cases a with
      | fail =>
          exact ⟨s.failed t op, by simp [QuotaStep.exec, hpc, ha], h.failed t op,
            .of_failed (QuotaOp.violates_of_attempt hstart ha)⟩
      | exchange newValue =>
          exact ⟨_, by simp only [QuotaStep.exec, hpc, ha],
            h.setPc t (.exchange op s.value newValue) ⟨hstart, hrelease, ha⟩, .of_log_eq rfl rfl⟩
  | compareExchange t spurious =>
      obtain ⟨op, value, newValue, hpc⟩ := hst
      have hsound := h.calls t
      rw [hpc] at hsound
      obtain ⟨hstart, hrelease, hattempt⟩ := hsound
      by_cases hok : s.value = value ∧ ¬ spurious
      · -- the word is what it was at the load, so the call takes effect now
        rw [← hok.1] at hattempt
        refine ⟨s.succeeded t op newValue, by simp only [QuotaStep.exec, hpc, if_pos hok],
          h.succeeded hstart hrelease (QuotaOp.effect_of_attempt hattempt),
          ⟨fun _ => ⟨t, op, rfl⟩, ?_⟩⟩
        intro u op' hlog
        simp [QuotaState.succeeded] at hlog
      · exact ⟨_, by simp only [QuotaStep.exec, hpc, if_neg hok],
          h.setPc t (.loop op) ⟨hstart, hrelease⟩, .of_log_eq rfl rfl⟩

/-- **Concurrent calls lose no update**: in every state of every interleaving, the amount in use is
within the limit, it is what the completed calls used less what they released, the limit is the one
set last, and every step is taken without a failed assertion and as `QuotaState.Linear` says. -/
theorem quota_accounting_exact (total : Nat) (s : QuotaState τ)
    (hs : (quotaMachine τ total).Reachable s) :
    quotaUsed s.value ≤ quotaTotal s.value ∧
    quotaUsed s.value + releasedBytes s.log = usedBytes s.log ∧
    quotaTotal s.value = lastTotal (quotaTotal (quotaInit total)) s.log ∧
    ∀ st, (quotaMachine τ total).allowed s st →
      ∃ s', (quotaMachine τ total).exec s st = some s' ∧ s.Linear s' := by
  have hstep : ∀ s st, s.Inv (quotaTotal (quotaInit total)) → (quotaMachine τ total).allowed s st →
      ∃ s', (quotaMachine τ total).exec s st = some s' ∧ s'.Inv (quotaTotal (quotaInit total)) := by
    intro s st h hst
    obtain ⟨s', hex, hinv, -⟩ := QuotaStep.exec_spec h st hst
    exact ⟨s', hex, hinv⟩
  obtain ⟨h, -⟩ := (quotaMachine τ total).invariant (fun s => QuotaState.Init.inv) hstep hs
  refine ⟨Nat.mul_le_mul_right _ h.le, h.used, h.total, fun st hst => ?_⟩
  obtain ⟨s', hex, -, hlinear⟩ := QuotaStep.exec_spec h st hst
  exact ⟨s', hex, hlinear⟩

/-- A quota of 4096 bytes that two threads share. -/
def freshQuota : QuotaState (Fin 2) where
  value := quotaInit 4096
  pc := fun _ => .idle
  balance := fun _ => 0
  log := []

/-- One of them uses 1000 bytes. -/
def usedQuota : QuotaState (Fin 2) :=
  QuotaState.succeeded
    { freshQuota with
      pc := Function.update freshQuota.pc 0
        (.exchange (.use 1000) (quotaInit 4096) (quotaPack 4 1)) }
    0 (.use 1000) (quotaPack 4 1)

theorem quota_accounting_exact_after_use :
    (quotaMachine (Fin 2) 4096).Reachable usedQuota ∧
      quotaUsed usedQuota.value + releasedBytes usedQuota.log = 1024 := by
  have h0 : (quotaMachine (Fin 2) 4096).Reachable freshQuota :=
    .init ⟨rfl, fun _ => rfl, fun _ => rfl, rfl⟩
  have h1 : (quotaMachine (Fin 2) 4096).Reachable
      { freshQuota with pc := Function.update freshQuota.pc 0 (.loop (.use 1000)) } :=
    .step (.call 0 (.use 1000)) h0 ⟨rfl, show 1 ≤ 1000 by decide⟩ rfl
  have h2 : (quotaMachine (Fin 2) 4096).Reachable
      { freshQuota with
        pc := Function.update (Function.update freshQuota.pc 0 (.loop (.use 1000))) 0
          (.exchange (.use 1000) (quotaInit 4096) (quotaPack 4 1)) } := by
    refine .step (.load 0) h1 ⟨.use 1000, rfl, fun size hop => ?_⟩ rfl
    rw [QuotaOp.use.injEq] at hop
    subst hop
    decide
  have h3 : (quotaMachine (Fin 2) 4096).Reachable usedQuota := by
    rw [Function.update_idem] at h2
    exact .step (.compareExchange 0 false) h2 ⟨_, _, _, rfl⟩ rfl
  exact ⟨h3, (quota_accounting_exact 4096 usedQuota h3).2.1⟩

end SmallAllocators
