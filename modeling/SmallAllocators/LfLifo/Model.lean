/-
SmallAllocators.LfLifo.Model — the lock-free stack of `include/small/lf_lifo.h`.

The head is one word: the address of the first element, whose low 16 bits
are zero, and in these bits a counter of the pushes (the ABA tag). The first
word of an element holds the head that it was pushed onto. A push and a pop
are loops of atomic steps: load the head, store or load the first word of
the element, compare-exchange the head. `LifoPc` says where a call is, and
`LifoPc.step` is its next atomic step; the calls of several threads
interleave these steps. `lfLifoPop` is a pop that runs alone.

Two ghosts count completed pushes: `pushes` in the shared state, and the
value that it had when a pop loaded the head, which the position of the pop
carries. Neither influences a step.
-/
import Mathlib.Logic.Function.Basic
import SmallAllocators.Util

namespace SmallAllocators

/-- `SMALL_LIFO_ALIGNMENT`. -/
def smallLifoAlignment : Nat := 0xffff

/-- `aba_value`. -/
def abaValue (a : Nat) : Nat := a &&& smallLifoAlignment

/-- `lf_lifo`: the mask is `~SMALL_LIFO_ALIGNMENT`. -/
def lfLifo (a : Nat) : Nat := a &&& (sizeMax - 1 - smallLifoAlignment)

/-- What the threads share. -/
structure Lifo where
  /-- `head->next`. -/
  head : Nat
  /-- The first word of an element, by the address of the element. -/
  next : Nat → Nat
  /-- The number of completed pushes. -/
  pushes : Nat

/-- `lf_lifo_init`. -/
def lfLifoInit (s : Lifo) : Lifo := { s with head := 0, pushes := 0 }

/-- The new head of `lf_lifo_push`. -/
def pushHead (elem tail : Nat) : Nat := elem + ((abaValue tail + 1) &&& smallLifoAlignment)

/-- The new head of `lf_lifo_pop`; `elemNext` is what it loads from the element. -/
def popHead (elemNext tail : Nat) : Nat :=
  let next := lfLifo elemNext
  if next ≠ 0 then next + abaValue tail else abaValue tail

/-- Where a call is: before its load of the head, before its access to the element, or before its
compare-exchange. -/
inductive LifoPc where
  | pushLoad (elem : Nat)
  | pushStore (elem tail : Nat)
  | pushExchange (elem tail newhead : Nat)
  | popLoad
  | popNext (tail pushes : Nat)
  | popExchange (tail newhead pushes : Nat)
deriving DecidableEq, Repr

/-- What an atomic step comes to: the call goes on, or it returns. -/
inductive LifoOutcome where
  | goes (pc : LifoPc)
  | pushed
  | popped (elem : Option Nat)
deriving DecidableEq, Repr

/-- The next atomic step of a call. A compare-exchange may fail for no reason. `none` is a failed
assertion. -/
def LifoPc.step (s : Lifo) (spurious : Bool) : LifoPc → Option (Lifo × LifoOutcome)
  | .pushLoad elem => do
    guard (lfLifo elem = elem)
    some (s, .goes (.pushStore elem s.head))
  | .pushStore elem tail =>
    some ({ s with next := Function.update s.next (lfLifo elem) tail },
      .goes (.pushExchange elem tail (pushHead elem tail)))
  | .pushExchange elem tail newhead =>
    if s.head = tail ∧ ¬ spurious then
      some ({ s with head := newhead, pushes := s.pushes + 1 }, .pushed)
    else some (s, .goes (.pushLoad elem))
  | .popLoad =>
    if lfLifo s.head = 0 then some (s, .popped none)
    else some (s, .goes (.popNext s.head s.pushes))
  | .popNext tail pushes =>
    some (s, .goes (.popExchange tail (popHead (s.next (lfLifo tail)) tail) pushes))
  | .popExchange tail newhead _ =>
    if s.head = tail ∧ ¬ spurious then
      some ({ s with head := newhead }, .popped (some (lfLifo tail)))
    else some (s, .goes .popLoad)

/-- `lf_lifo_pop` with no other call beside it. -/
def lfLifoPop (s : Lifo) : Option Nat × Lifo :=
  let tail := s.head
  let elem := lfLifo tail
  if elem = 0 then (none, s)
  else (some elem, { s with head := popHead (s.next elem) tail })

/-- The element that a call brings with it. -/
def LifoPc.elem : LifoPc → Option Nat
  | .pushLoad elem => some elem
  | .pushStore elem _ => some elem
  | .pushExchange elem _ _ => some elem
  | _ => none

/-- Fewer than 2^16 pushes have completed since the call loaded the head, if it is a pop before its
compare-exchange. -/
def LifoPc.Timely (s : Lifo) : LifoPc → Prop
  | .popExchange _ _ pushes => s.pushes - pushes < 2 ^ 16
  | _ => True

instance LifoPc.Timely.decidable (s : Lifo) : (pc : LifoPc) → Decidable (pc.Timely s)
  | .popExchange _ _ pushes => inferInstanceAs (Decidable (s.pushes - pushes < 2 ^ 16))
  | .pushLoad _ => inferInstanceAs (Decidable True)
  | .pushStore _ _ => inferInstanceAs (Decidable True)
  | .pushExchange _ _ _ => inferInstanceAs (Decidable True)
  | .popLoad => inferInstanceAs (Decidable True)
  | .popNext _ _ => inferInstanceAs (Decidable True)

/-! ## The two parts of a word -/

section Words

variable {a tag tail elemNext elem : Nat}

theorem abaValue_eq (a : Nat) : abaValue a = a % 2 ^ 16 := Nat.and_two_pow_sub_one_eq_mod a 16

theorem abaValue_lt (a : Nat) : abaValue a < 2 ^ 16 := by
  rw [abaValue_eq]
  exact Nat.mod_lt _ (by decide)

/-- The mask clears the low 16 bits. -/
theorem lfLifo_eq (ha : a < sizeMax) : lfLifo a = a / 2 ^ 16 * 2 ^ 16 := by
  refine Nat.eq_of_testBit_eq fun i => ?_
  have hmask : sizeMax - 1 - smallLifoAlignment = (2 ^ 48 - 1) <<< 16 := by decide
  rw [lfLifo, hmask, Nat.testBit_and, Nat.testBit_shiftLeft, Nat.testBit_two_pow_sub_one,
    Nat.testBit_mul_two_pow, Nat.testBit_div_two_pow]
  by_cases hi : 16 ≤ i
  · by_cases hhigh : i < 64
    · simp [hi, Nat.sub_add_cancel hi, show i - 16 < 48 by omega]
    · have hfalse : a.testBit i = false :=
        Nat.testBit_lt_two_pow (ha.trans_le (Nat.pow_le_pow_right (by decide) (by omega)))
      simp [hi, Nat.sub_add_cancel hi, hfalse]
  · simp [hi]

theorem lfLifo_lt (a : Nat) : lfLifo a < sizeMax :=
  Nat.lt_of_le_of_lt Nat.and_le_right (by decide)

/-- An address that the assertion of `lf_lifo_push` accepts has low bits 0. -/
theorem mod_of_lfLifo (h : lfLifo elem = elem) : elem % 2 ^ 16 = 0 := by
  have hlt : elem < sizeMax := h ▸ lfLifo_lt elem
  rw [lfLifo_eq hlt] at h
  omega

theorem lfLifo_add_tag (h : lfLifo elem = elem) (htag : tag < 2 ^ 16) :
    lfLifo (elem + tag) = elem := by
  have hlt : elem < sizeMax := h ▸ lfLifo_lt elem
  have hmod := mod_of_lfLifo h
  have hsum : elem + tag < sizeMax := by
    simp only [sizeMax] at *
    omega
  rw [lfLifo_eq hsum]
  omega

theorem abaValue_add_tag (h : lfLifo elem = elem) (htag : tag < 2 ^ 16) :
    abaValue (elem + tag) = tag := by
  have hmod := mod_of_lfLifo h
  rw [abaValue_eq]
  omega

@[simp] theorem lfLifo_lfLifo (a : Nat) : lfLifo (lfLifo a) = lfLifo a := by
  rw [lfLifo, lfLifo, Nat.and_assoc, Nat.and_self]

@[simp] theorem lfLifo_zero : lfLifo 0 = 0 := by decide

theorem pushHead_eq (elem tail : Nat) :
    pushHead elem tail = elem + (abaValue tail + 1) % 2 ^ 16 := by
  rw [pushHead, show smallLifoAlignment = 2 ^ 16 - 1 from rfl, Nat.and_two_pow_sub_one_eq_mod]

theorem lfLifo_pushHead (h : lfLifo elem = elem) : lfLifo (pushHead elem tail) = elem := by
  rw [pushHead_eq]
  exact lfLifo_add_tag h (Nat.mod_lt _ (by decide))

theorem abaValue_pushHead (h : lfLifo elem = elem) :
    abaValue (pushHead elem tail) = (abaValue tail + 1) % 2 ^ 16 := by
  rw [pushHead_eq]
  exact abaValue_add_tag h (Nat.mod_lt _ (by decide))

/-- The two cases of a pop differ in nothing. -/
theorem popHead_eq (elemNext tail : Nat) :
    popHead elemNext tail = lfLifo elemNext + abaValue tail := by
  simp only [popHead]
  split
  · rfl
  · next h => omega

theorem lfLifo_popHead : lfLifo (popHead elemNext tail) = lfLifo elemNext := by
  rw [popHead_eq]
  exact lfLifo_add_tag (lfLifo_lfLifo elemNext) (abaValue_lt tail)

theorem abaValue_popHead : abaValue (popHead elemNext tail) = abaValue tail := by
  rw [popHead_eq]
  exact abaValue_add_tag (lfLifo_lfLifo elemNext) (abaValue_lt tail)

end Words

/-! ## The stack in memory -/

/-- The elements linked from a word are those of the list, in this order. -/
def LifoChain (next : Nat → Nat) : Nat → List Nat → Prop
  | word, [] => lfLifo word = 0
  | word, elem :: rest => lfLifo word = elem ∧ elem ≠ 0 ∧ LifoChain next (next elem) rest

section Chain

variable {next next' : Nat → Nat} {word word' elem : Nat} {stack stack' : List Nat}

/-- Only the address in the word matters. -/
theorem LifoChain.of_word (h : LifoChain next word stack) (hword : lfLifo word' = lfLifo word) :
    LifoChain next word' stack := by
  cases stack with
  | nil => exact hword.trans h
  | cons elem rest => exact ⟨hword.trans h.1, h.2⟩

/-- Only the elements of the stack matter. -/
theorem LifoChain.of_next (h : LifoChain next word stack)
    (hnext : ∀ elem ∈ stack, next' elem = next elem) :
    LifoChain next' word stack := by
  induction stack generalizing word with
  | nil => exact h
  | cons elem rest ih =>
      obtain ⟨hword, hne, hrest⟩ := h
      refine ⟨hword, hne, ?_⟩
      rw [hnext elem List.mem_cons_self]
      exact ih hrest fun x hx => hnext x (List.mem_cons_of_mem elem hx)

/-- A word links to one stack. -/
theorem LifoChain.unique (h : LifoChain next word stack) (h' : LifoChain next word stack') :
    stack = stack' := by
  induction stack generalizing word stack' with
  | nil =>
      cases stack' with
      | nil => rfl
      | cons elem' rest' => exact absurd (h'.1.symm.trans h) h'.2.1
  | cons elem rest ih =>
      cases stack' with
      | nil => exact absurd (h.1.symm.trans h') h.2.1
      | cons elem' rest' =>
          obtain rfl : elem = elem' := h.1.symm.trans h'.1
          rw [ih h.2.2 h'.2.2]

/-- The first element. -/
theorem LifoChain.head_mem (h : LifoChain next word stack) (hne : lfLifo word ≠ 0) :
    ∃ rest, stack = lfLifo word :: rest ∧ LifoChain next (next (lfLifo word)) rest := by
  cases stack with
  | nil => exact absurd h hne
  | cons elem rest =>
      obtain ⟨rfl, -, hrest⟩ := h
      exact ⟨rest, rfl, hrest⟩

end Chain

end SmallAllocators
