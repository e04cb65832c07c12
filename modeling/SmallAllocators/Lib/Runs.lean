/-
SmallAllocators.Lib.Runs — runs of a machine and invariants over them.

A machine has states, operations that the environment may call in a state
(`allowed`), and an execution function that returns `none` when the call
goes wrong (a failed assertion, an access to memory that is not there).
`Reachable` collects the states that any run of allowed calls can produce,
and `Machine.invariant` is the induction that every safety theorem uses: an
invariant that holds at the start and that each allowed call keeps, without
going wrong, holds in every reachable state, and no allowed call goes wrong
there.
-/
import Mathlib.Tactic.Common

namespace SmallAllocators

/-- A machine with states `σ` and operations `ω`. -/
structure Machine (σ ω : Type) where
  init : σ → Prop
  allowed : σ → ω → Prop
  exec : σ → ω → Option σ

namespace Machine

variable {σ ω : Type} (M : Machine σ ω)

/-- The states that a run of allowed operations reaches. -/
inductive Reachable : σ → Prop where
  | init {s : σ} : M.init s → Reachable s
  | step {s s' : σ} (op : ω) : Reachable s → M.allowed s op → M.exec s op = some s' → Reachable s'

/-- An invariant of the steps that do not go wrong holds in every reachable state. -/
theorem Reachable.of_step {P : σ → Prop} (hinit : ∀ s, M.init s → P s)
    (hstep : ∀ s op s', P s → M.allowed s op → M.exec s op = some s' → P s') {s : σ}
    (hs : M.Reachable s) : P s := by
  induction hs with
  | init h => exact hinit _ h
  | step op _ hal hex ih => exact hstep _ op _ ih hal hex

/-- An invariant of single steps is an invariant of runs, and an allowed operation never goes
wrong in a state that satisfies it. -/
theorem invariant {P : σ → Prop} (hinit : ∀ s, M.init s → P s)
    (hstep : ∀ s op, P s → M.allowed s op → ∃ s', M.exec s op = some s' ∧ P s')
    {s : σ} (hs : M.Reachable s) :
    P s ∧ ∀ op, M.allowed s op → ∃ s', M.exec s op = some s' ∧ P s' := by
  have hP : P s := by
    refine Reachable.of_step M hinit (fun s op s' hP hal hex => ?_) hs
    obtain ⟨s'', hex', hP'⟩ := hstep s op hP hal
    rw [hex, Option.some.injEq] at hex'
    exact hex' ▸ hP'
  exact ⟨hP, fun op hal => hstep s op hP hal⟩

/-- The machine whose operations also meet a condition. -/
def restrict (cond : ω → Prop) : Machine σ ω :=
  { M with allowed := fun s op => M.allowed s op ∧ cond op }

/-- The run of a list of operations, as far as the check accepts them. -/
def run (check : σ → ω → Bool) : List ω → σ → Option σ
  | [], s => some s
  | op :: ops, s => if check s op then (M.exec s op).bind (run check ops) else none

theorem Reachable.run {check : σ → ω → Bool} (hcheck : ∀ s op, check s op = true → M.allowed s op)
    (ops : List ω) {s s' : σ} (hs : M.Reachable s) (hrun : M.run check ops s = some s') :
    M.Reachable s' := by
  induction ops generalizing s with
  | nil =>
      rw [Machine.run, Option.some.injEq] at hrun
      exact hrun ▸ hs
  | cons op ops ih =>
      rw [Machine.run] at hrun
      split at hrun
      · next hok =>
          obtain ⟨s₁, hex, hrest⟩ := Option.bind_eq_some_iff.1 hrun
          exact ih (.step op hs (hcheck s op hok) hex) hrest
      · cases hrun

end Machine

end SmallAllocators
