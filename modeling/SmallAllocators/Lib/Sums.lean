/-
SmallAllocators.Lib.Sums — sums over finitely many parties, one of which
makes a step.

An invariant of many parties often counts something over all of them. A
step changes the term of one party, so the sum changes by the difference of
that term.
-/
import Mathlib.Algebra.BigOperators.Group.Finset.Basic
import Mathlib.Data.Fintype.Basic

namespace SmallAllocators

open Finset

variable {τ M : Type} [DecidableEq τ] [Fintype τ] [AddCommMonoid M]

/-- A sum of which one term changes. -/
theorem sum_of_others (f f' : τ → M) {t : τ} (h : ∀ u, u ≠ t → f' u = f u) :
    ∑ u, f' u + f t = ∑ u, f u + f' t := by
  have hrest : ∑ u ∈ univ.erase t, f' u = ∑ u ∈ univ.erase t, f u :=
    sum_congr rfl fun u hu => h u (ne_of_mem_erase hu)
  rw [← add_sum_erase univ f (mem_univ t), ← add_sum_erase univ f' (mem_univ t), hrest,
    add_right_comm, add_comm (f' t) (f t), add_right_comm]

/-- The sum over a function that is updated at one party. -/
theorem sum_update (f : τ → M) (t : τ) (b : M) :
    ∑ u, Function.update f t b u + f t = ∑ u, f u + b := by
  have h := sum_of_others f (Function.update f t b) fun u hu => Function.update_of_ne hu b f
  rwa [Function.update_self] at h

end SmallAllocators
