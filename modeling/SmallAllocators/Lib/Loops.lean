/-
SmallAllocators.Lib.Loops — loops that may not end.

`Loop.Ends` is the meaning of `while (cond x) x = body x;`: it relates the
value before the loop to the value behind it, and a loop that goes on for
ever relates its value to none. `Loop.run` makes a bounded number of rounds.
A loop that meets a value twice does not end, so the two agree as soon as
the bound is the number of values that the loop can meet
(`Loop.run_eq_some_iff`).
-/
import Mathlib.Data.Finset.Card
import Mathlib.Data.Finset.Range
import Mathlib.Data.Nat.Find
import Mathlib.Logic.Function.Iterate

namespace SmallAllocators.Loop

variable {α : Type} {cond : α → Prop} {body : α → α} {x y z : α} {fuel j : Nat}

/-- `while (cond x) x = body x;` started with `x` ends, with `y`. -/
inductive Ends (cond : α → Prop) (body : α → α) : α → α → Prop where
  | done {x : α} : ¬ cond x → Ends cond body x x
  | next {x y : α} : cond x → Ends cond body (body x) y → Ends cond body x y

theorem Ends.not_cond (h : Ends cond body x y) : ¬ cond y := by
  induction h with
  | done hx => exact hx
  | next _ _ ih => exact ih

/-- What the body keeps holds behind the loop. -/
theorem Ends.invariant {P : α → Prop} (h : Ends cond body x y)
    (hstep : ∀ x, cond x → P x → P (body x)) (hx : P x) :
    P y := by
  induction h with
  | done _ => exact hx
  | next hc _ ih => exact ih (hstep _ hc hx)

/-- The loop stops at the first value for which its condition does not hold. -/
theorem ends_iterate (hj : ¬ cond (body^[j] x)) (hlt : ∀ i < j, cond (body^[i] x)) :
    Ends cond body x (body^[j] x) := by
  induction j generalizing x with
  | zero => exact .done hj
  | succ j ih =>
      exact .next (hlt 0 (Nat.succ_pos j)) (ih hj fun i hi => hlt (i + 1) (Nat.succ_lt_succ hi))

theorem Ends.exists_iterate (h : Ends cond body x y) :
    ∃ j, body^[j] x = y ∧ ∀ i < j, cond (body^[i] x) := by
  induction h with
  | done _ => exact ⟨0, rfl, fun i hi => absurd hi (Nat.not_lt_zero i)⟩
  | next hc _ ih =>
      obtain ⟨j, hy, hlt⟩ := ih
      refine ⟨j + 1, hy, fun i hi => ?_⟩
      cases i with
      | zero => exact hc
      | succ i => exact hlt i (Nat.lt_of_succ_lt_succ hi)

/-- A loop ends if and only if some value that it could meet ends it. -/
theorem exists_ends_iff : (∃ y, Ends cond body x y) ↔ ∃ j, ¬ cond (body^[j] x) := by
  classical
  constructor
  · rintro ⟨y, h⟩
    obtain ⟨j, rfl, -⟩ := h.exists_iterate
    exact ⟨j, h.not_cond⟩
  · intro h
    exact ⟨_, ends_iterate (Nat.find_spec h) fun i hi => not_not.1 (Nat.find_min h hi)⟩

/-- The loop, for less than `fuel` rounds. -/
def run (cond : α → Prop) [DecidablePred cond] (body : α → α) : Nat → α → Option α
  | 0, _ => none
  | fuel + 1, x => if cond x then run cond body fuel (body x) else some x

variable [DecidablePred cond]

theorem ends_of_run (h : run cond body fuel x = some y) : Ends cond body x y := by
  induction fuel generalizing x with
  | zero => cases h
  | succ fuel ih =>
      rw [run] at h
      by_cases hc : cond x
      · rw [if_pos hc] at h
        exact .next hc (ih h)
      · rw [if_neg hc] at h
        cases h
        exact .done hc

theorem run_iterate (hj : ¬ cond (body^[j] x)) (hlt : ∀ i < j, cond (body^[i] x))
    (hfuel : j < fuel) :
    run cond body fuel x = some (body^[j] x) := by
  induction fuel generalizing x j with
  | zero => cases hfuel
  | succ fuel ih =>
      rw [run]
      cases j with
      | zero => exact if_neg hj
      | succ j =>
          have hc : cond x := hlt 0 (Nat.succ_pos j)
          rw [if_pos hc]
          exact ih hj (fun i hi => hlt (i + 1) (Nat.succ_lt_succ hi)) (Nat.lt_of_succ_lt_succ hfuel)

omit [DecidablePred cond] in
/-- A loop that ends does not meet a value twice: it would meet it again and again. -/
theorem iterate_injOn (hj : ¬ cond (body^[j] x)) (hlt : ∀ i < j, cond (body^[i] x)) :
    Set.InjOn (fun i => body^[i] x) (Finset.range (j + 1)) := by
  have hne : ∀ a b, a < b → b ≤ j → body^[a] x ≠ body^[b] x := by
    intro a b hab hb heq
    refine hj ?_
    have hsame : body^[j - b + a] x = body^[j - b + b] x := by
      rw [Function.iterate_add_apply, Function.iterate_add_apply, heq]
    rw [Nat.sub_add_cancel hb] at hsame
    rw [← hsame]
    exact hlt _ (by omega)
  intro a ha b hb heq
  rw [Finset.mem_coe, Finset.mem_range] at ha hb
  rcases Nat.lt_trichotomy a b with hab | hab | hab
  · exact absurd heq (hne a b hab (by omega))
  · exact hab
  · exact absurd heq.symm (hne b a hab (by omega))

/-- With as many rounds as there are values to meet, the bounded loop is the loop. -/
theorem run_eq_some_iff (S : Finset α) (hS : ∀ i, body^[i] x ∈ S) (hfuel : S.card ≤ fuel) :
    run cond body fuel x = some y ↔ Ends cond body x y := by
  constructor
  · exact ends_of_run
  · intro h
    obtain ⟨j, rfl, hlt⟩ := h.exists_iterate
    have hcard := Finset.card_le_card_of_injOn (fun i => body^[i] x) (fun i _ => hS i)
      (iterate_injOn h.not_cond hlt)
    rw [Finset.card_range] at hcard
    exact run_iterate h.not_cond hlt (by omega)

end SmallAllocators.Loop
