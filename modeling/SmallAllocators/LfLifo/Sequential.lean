/-
SmallAllocators.LfLifo.Sequential — the calls of one thread, one after the
other, and when `lf_lifo_is_empty` tells that the stack is empty.

A pop that takes the last element leaves the tag in the head, and
`lf_lifo_is_empty` compares the whole word with `NULL`. So it knows an empty
stack only where the tag is 0: after `lf_lifo_init`, and again after each
2^16 pushes (`lf_lifo_is_empty_exact_iff`).
-/
import SmallAllocators.Lib.Runs
import SmallAllocators.LfLifo.Invariant

namespace SmallAllocators

/-- `lf_lifo_push` with no other call beside it; `none` is the failed assertion. -/
def lfLifoPush (s : Lifo) (elem : Nat) : Option Lifo := do
  guard (lfLifo elem = elem)
  let tail := s.head
  some {
         head := pushHead elem tail
         next := Function.update s.next (lfLifo elem) tail
         pushes := s.pushes + 1 }

/-- `lf_lifo_is_empty`. -/
def lfLifoIsEmpty (s : Lifo) : Bool := s.head = 0

/-- A head with the elements pushed and not popped since `lf_lifo_init`, and the number of pops
since then that returned an element. -/
structure LifoCalls where
  lifo : Lifo
  inside : List Nat
  pops : Nat

inductive LifoCall where
  | init
  | push (elem : Nat)
  | pop
  | write (elem value : Nat)

def LifoCall.exec (s : LifoCalls) : LifoCall → Option LifoCalls
  | .init => some { lifo := lfLifoInit s.lifo, inside := [], pops := 0 }
  | .push elem => do
    let lifo ← lfLifoPush s.lifo elem
    some { s with lifo := lifo, inside := elem :: s.inside }
  | .pop =>
    match lfLifoPop s.lifo with
    | (none, lifo) => some { s with lifo := lifo }
    | (some elem, lifo) => some { lifo := lifo, inside := s.inside.erase elem, pops := s.pops + 1 }
  | .write elem value =>
      some { s with lifo := { s.lifo with next := Function.update s.lifo.next elem value } }

/-- An element is pushed when it is not inside, and nobody writes to it while it is. -/
def LifoCall.Allowed (s : LifoCalls) : LifoCall → Prop
  | .push elem => lfLifo elem = elem ∧ elem ≠ 0 ∧ elem ∉ s.inside
  | .write elem _ => elem ∉ s.inside
  | _ => True

/-- All sequences of calls on one head, from `lf_lifo_init` on. -/
def lifoCallMachine : Machine LifoCalls LifoCall where
  init s := ∃ lifo, s = { lifo := lfLifoInit lifo, inside := [], pops := 0 }
  allowed := LifoCall.Allowed
  exec := LifoCall.exec

/-- The steps of a call with no other call beside it, `fuel` of them at most. -/
def LifoPc.alone : Nat → Lifo → LifoPc → Option (Lifo × LifoOutcome)
  | 0, s, pc => some (s, .goes pc)
  | fuel + 1, s, pc => do
    let (s, outcome) ← pc.step s false
    match outcome with
    | .goes pc => pc.alone fuel s
    | outcome => some (s, outcome)

variable {s s' : Lifo} {stack : List Nat} {elem tag : Nat} {c : LifoCalls}

/-! ## The calls -/

/-- `lf_lifo_push` is its atomic steps. -/
theorem lfLifoPush_alone (s : Lifo) (elem : Nat) :
    (LifoPc.pushLoad elem).alone 3 s = (lfLifoPush s elem).map fun s' => (s', .pushed) := by
  by_cases haligned : lfLifo elem = elem
  · simp [LifoPc.alone, LifoPc.step, lfLifoPush, haligned, guard]
  · simp [LifoPc.alone, LifoPc.step, lfLifoPush, haligned, guard]

/-- `lf_lifo_pop` is its atomic steps. -/
theorem lfLifoPop_alone (s : Lifo) :
    LifoPc.popLoad.alone 3 s = some ((lfLifoPop s).2, .popped (lfLifoPop s).1) := by
  by_cases hempty : lfLifo s.head = 0
  · simp [LifoPc.alone, LifoPc.step, lfLifoPop, hempty]
  · simp [LifoPc.alone, LifoPc.step, lfLifoPop, hempty]

theorem lfLifoPush_spec (h : s.Inv stack) (haligned : lfLifo elem = elem) (hne : elem ≠ 0)
    (hout : elem ∉ stack) :
    ∃ s', lfLifoPush s elem = some s' ∧ s'.Inv (elem :: stack) ∧ s'.pushes = s.pushes + 1 ∧
      s'.head = pushHead elem s.head := by
  refine ⟨_, by simp [lfLifoPush, haligned, guard]; rfl,
    ⟨⟨lfLifo_pushHead haligned, hne, ?_⟩, ?_, ?_⟩, rfl, rfl⟩
  · show LifoChain _ (Function.update s.next elem s.head elem) stack
    rw [Function.update_self]
    exact (h.write hout s.head).1.chain
  · exact List.nodup_cons.2 ⟨hout, h.nodup⟩
  · rw [abaValue_pushHead haligned, h.tag, Nat.mod_add_mod]

/-- What a pop does to the head. -/
theorem lfLifoPop_head (h : lfLifoPop s = (some elem, s')) :
    s'.pushes = s.pushes ∧ ∃ elemNext, s'.head = popHead elemNext s.head := by
  simp only [lfLifoPop] at h
  split at h
  · cases h
  · cases h
    exact ⟨rfl, _, rfl⟩

/-! ## The word of the head -/

theorem add_tag_lt (h : lfLifo elem = elem) (htag : tag < 2 ^ 16) : elem + tag < sizeMax := by
  have hlt : elem < sizeMax := h ▸ lfLifo_lt elem
  have hmod := mod_of_lfLifo h
  simp only [sizeMax] at *
  omega

theorem pushHead_lt (h : lfLifo elem = elem) (tail : Nat) : pushHead elem tail < sizeMax := by
  rw [pushHead_eq]
  exact add_tag_lt h (Nat.mod_lt _ (by decide))

theorem popHead_lt (elemNext tail : Nat) : popHead elemNext tail < sizeMax := by
  rw [popHead_eq]
  exact add_tag_lt (lfLifo_lfLifo elemNext) (abaValue_lt tail)

/-- A word is `NULL` when both its parts are. -/
theorem word_eq_zero {a : Nat} (ha : a < sizeMax) : a = 0 ↔ lfLifo a = 0 ∧ abaValue a = 0 := by
  rw [lfLifo_eq ha, abaValue_eq]
  omega

/-! ## Runs -/

/-- The elements inside are the stack, and all pushes but those are popped. -/
structure LifoCalls.Inv (c : LifoCalls) : Prop where
  lifo : c.lifo.Inv c.inside
  word : c.lifo.head < sizeMax
  count : c.lifo.pushes = c.pops + c.inside.length

theorem LifoCalls.Inv.start (s : Lifo) :
    LifoCalls.Inv { lifo := lfLifoInit s, inside := [], pops := 0 } :=
  ⟨lfLifoInit_inv s, Nat.two_pow_pos 64, rfl⟩

theorem LifoCalls.Inv.pop (h : c.Inv) : ∃ c', LifoCall.pop.exec c = some c' ∧ c'.Inv := by
  rcases lfLifoPop_spec h.lifo with ⟨-, hpop⟩ | ⟨elem, rest, s', hinside, hpop, hinv⟩
  · exact ⟨c, by simp [LifoCall.exec, hpop], h⟩
  · obtain ⟨hpushes, elemNext, hhead⟩ := lfLifoPop_head hpop
    refine ⟨{ lifo := s', inside := rest, pops := c.pops + 1 }, ?_, hinv, ?_, ?_⟩
    · simp [LifoCall.exec, hpop, hinside]
    · rw [hhead]
      exact popHead_lt elemNext _
    · have hcount := h.count
      rw [hinside, List.length_cons] at hcount
      show s'.pushes = c.pops + 1 + rest.length
      omega

theorem LifoCall.exec_inv (h : c.Inv) {call : LifoCall} (hcall : call.Allowed c) :
    ∃ c', call.exec c = some c' ∧ c'.Inv := by
  cases call with
  | init => exact ⟨_, rfl, .start c.lifo⟩
  | push elem =>
      obtain ⟨haligned, hne, hout⟩ := hcall
      obtain ⟨s', hpush, hinv, hpushes, hhead⟩ := lfLifoPush_spec h.lifo haligned hne hout
      refine ⟨{ c with lifo := s', inside := elem :: c.inside }, by simp [LifoCall.exec, hpush],
        hinv, ?_, ?_⟩
      · rw [hhead]
        exact pushHead_lt haligned _
      · rw [hpushes, h.count, List.length_cons, Nat.add_assoc]
  | pop => exact h.pop
  | write elem value => exact ⟨_, rfl, (h.lifo.write hcall value).1, h.word, h.count⟩

theorem lifoCallMachine_inv (hs : lifoCallMachine.Reachable c) : c.Inv :=
  (Machine.invariant lifoCallMachine (P := LifoCalls.Inv) (by rintro _ ⟨s, rfl⟩; exact .start s)
    (fun _ _ h hcall => LifoCall.exec_inv h hcall) hs).1

/-! ## The empty stack -/

theorem LifoCalls.Inv.pop_eq_none (h : c.Inv) : (lfLifoPop c.lifo).1 = none ↔ c.inside = [] := by
  rcases lfLifoPop_spec h.lifo with ⟨hempty, hpop⟩ | ⟨elem, rest, s', hinside, hpop, -⟩
  · simp [hpop, hempty]
  · simp [hpop, hinside]

theorem LifoCalls.Inv.pushes_eq_pops (h : c.Inv) : c.lifo.pushes = c.pops ↔ c.inside = [] := by
  rw [h.count, ← List.length_eq_zero_iff]
  omega

/-- `lf_lifo_is_empty` asks for an empty stack and for a tag that is 0. -/
theorem LifoCalls.Inv.isEmpty_iff (h : c.Inv) :
    lfLifoIsEmpty c.lifo = true ↔ c.inside = [] ∧ c.lifo.pushes % 2 ^ 16 = 0 := by
  rw [lfLifoIsEmpty, decide_eq_true_iff, word_eq_zero h.word, h.lifo.tag]
  refine and_congr_left fun _ => ⟨fun hzero => ?_, fun hempty => ?_⟩
  · exact h.lifo.chain.unique hzero
  · have hchain := h.lifo.chain
    rw [hempty] at hchain
    exact hchain

/-- **When `lf_lifo_is_empty` is exact**: after any sequence of calls, it tells whether a pop would
return `NULL`, and whether as many elements were popped as pushed, unless the stack is empty after
a number of pushes that 2^16 does not divide. -/
theorem lf_lifo_is_empty_exact_iff (hs : lifoCallMachine.Reachable c) :
    ((lfLifoIsEmpty c.lifo = true ↔ (lfLifoPop c.lifo).1 = none) ∧
      ((lfLifoPop c.lifo).1 = none ↔ c.lifo.pushes = c.pops)) ↔
    ¬ (c.lifo.pushes = c.pops ∧ c.lifo.pushes % 2 ^ 16 ≠ 0) := by
  have h := lifoCallMachine_inv hs
  rw [h.isEmpty_iff, h.pop_eq_none, h.pushes_eq_pops]
  tauto

/-- A head after `lf_lifo_init`. -/
def emptyCalls : LifoCalls :=
  { lifo := lfLifoInit { head := 0, next := fun _ => 0, pushes := 0 }, inside := [], pops := 0 }

theorem emptyCalls_reachable : lifoCallMachine.Reachable emptyCalls := .init ⟨_, rfl⟩

/-- An element is inside. -/
theorem lf_lifo_is_empty_exact_pushed : ∃ c, lifoCallMachine.Reachable c ∧ c.inside = [65536] ∧
    ((lfLifoIsEmpty c.lifo = true ↔ (lfLifoPop c.lifo).1 = none) ∧
      ((lfLifoPop c.lifo).1 = none ↔ c.lifo.pushes = c.pops)) := by
  have h1 : lifoCallMachine.Reachable _ :=
    .step (.push 65536) emptyCalls_reachable ⟨by decide, by decide, by decide⟩ rfl
  exact ⟨_, h1, rfl, (lf_lifo_is_empty_exact_iff h1).2 (by decide)⟩

/-- The element is popped, and the tag stays. -/
theorem lf_lifo_is_empty_inexact :
    ∃ c, lifoCallMachine.Reachable c ∧ c.lifo.pushes = 1 ∧ c.pops = 1 ∧
    (lfLifoPop c.lifo).1 = none ∧ lfLifoIsEmpty c.lifo = false := by
  have h1 : lifoCallMachine.Reachable _ :=
    .step (.push 65536) emptyCalls_reachable ⟨by decide, by decide, by decide⟩ rfl
  have h2 : lifoCallMachine.Reachable _ := .step .pop h1 trivial rfl
  exact ⟨_, h2, rfl, rfl, rfl, rfl⟩

end SmallAllocators
