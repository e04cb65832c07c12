/-
SmallAllocators.LfLifo.Invariant — what one atomic step of a push or a pop does.

The elements linked from the head are the stack, and the tag of the head
counts the pushes. A call is exposed to the steps of the others: all that it
needs to know of them is `Lifo.Moves`. They do not write into the elements
of the stack, and the stack only shrinks while no push completes.

The argument against ABA is in `Loaded.of_moves` and `popExchange_spec`. A
pop remembers the head that it loaded. As long as no push has completed
since, this head is still there or its element is gone from the stack for
good, so the head can have this value again only after 2^16 more pushes.
-/
import SmallAllocators.LfLifo.Model

namespace SmallAllocators

/-- `stack` is linked from the head, and the tag of the head counts the pushes. -/
structure Lifo.Inv (s : Lifo) (stack : List Nat) : Prop where
  chain : LifoChain s.next s.head stack
  nodup : stack.Nodup
  tag : abaValue s.head = s.pushes % 2 ^ 16

/-- What a call sees of the steps of others. -/
structure Lifo.Moves (s : Lifo) (stack : List Nat) (s' : Lifo) (stack' : List Nat) : Prop where
  pushes : s.pushes ≤ s'.pushes
  popped : s'.pushes = s.pushes → s'.head = s.head ∧ stack' = stack ∨ ∃ elem, stack = elem :: stack'
  next : ∀ elem ∈ stack, s'.next elem = s.next elem

/-- What a pop knows of the head that it loaded after `pushes` pushes. -/
structure Loaded (s : Lifo) (stack : List Nat) (tail pushes : Nat) : Prop where
  ne_zero : lfLifo tail ≠ 0
  tag : abaValue tail = pushes % 2 ^ 16
  le : pushes ≤ s.pushes
  there_or_gone : s.pushes = pushes → s.head = tail ∨ lfLifo tail ∉ stack

/-- What a call in flight knows. -/
def LifoPc.Sound (s : Lifo) (stack : List Nat) : LifoPc → Prop
  | .pushLoad elem => lfLifo elem = elem ∧ elem ≠ 0
  | .pushStore elem _ => lfLifo elem = elem ∧ elem ≠ 0
  | .pushExchange elem tail newhead =>
      (lfLifo elem = elem ∧ elem ≠ 0) ∧ s.next elem = tail ∧ newhead = pushHead elem tail
  | .popLoad => True
  | .popNext tail pushes => Loaded s stack tail pushes
  | .popExchange tail newhead pushes =>
      Loaded s stack tail pushes ∧
      (s.pushes = pushes → s.head = tail → newhead = popHead (s.next (lfLifo tail)) tail)

/-- What a step does to the stack, by its outcome. -/
def LifoOutcome.Effect (elem : Option Nat) (stack stack' : List Nat) : LifoOutcome → Prop
  | .goes _ => stack' = stack
  | .pushed => ∃ a, elem = some a ∧ stack' = a :: stack
  | .popped none => elem = none ∧ stack = [] ∧ stack' = []
  | .popped (some a) => elem = none ∧ stack = a :: stack'

/-- All that a step does. -/
structure LifoPc.StepsTo (pc : LifoPc) (s : Lifo) (stack : List Nat) (s' : Lifo)
    (outcome : LifoOutcome) (stack' : List Nat) : Prop where
  inv : s'.Inv stack'
  moves : s.Moves stack s' stack'
  effect : outcome.Effect pc.elem stack stack'
  goes : ∀ pc', outcome = .goes pc' → pc'.Sound s' stack' ∧ pc'.elem = pc.elem
  frame : ∀ elem, pc.elem ≠ some elem → s'.next elem = s.next elem

variable {s s' : Lifo} {stack stack' : List Nat} {tail newhead pushes elem : Nat} {pc : LifoPc}

/-- The head of `lf_lifo_init` links nothing. -/
theorem lfLifoInit_inv (s : Lifo) : (lfLifoInit s).Inv [] := by
  refine ⟨lfLifo_zero, List.nodup_nil, ?_⟩
  show abaValue 0 = 0 % 2 ^ 16
  decide

/-! ## Steps of others -/

/-- The head links its stack whatever the elements outside of it hold. -/
theorem Lifo.Inv.of_next (h : s.Inv stack) {next' : Nat → Nat}
    (hnext : ∀ a ∈ stack, next' a = s.next a) :
    Lifo.Inv { s with next := next' } stack :=
  { h with chain := h.chain.of_next hnext }

theorem Lifo.Moves.refl (s : Lifo) (stack : List Nat) : s.Moves stack s stack :=
  ⟨le_refl _, fun _ => .inl ⟨rfl, rfl⟩, fun _ _ => rfl⟩

/-- The element of the head is the top of the stack. -/
theorem Lifo.Inv.top (h : s.Inv (elem :: stack)) : lfLifo s.head = elem := h.chain.1

theorem Loaded.of_moves (h : Loaded s stack tail pushes) (hinv : s.Inv stack)
    (hmoves : s.Moves stack s' stack') :
    Loaded s' stack' tail pushes := by
  refine ⟨h.ne_zero, h.tag, h.le.trans hmoves.pushes, fun hpushes => ?_⟩
  have hsame : s'.pushes = s.pushes := by
    have := hmoves.pushes
    have := h.le
    omega
  rcases hmoves.popped hsame with ⟨hhead, hstack⟩ | ⟨top, hstack⟩
  · rw [hhead, hstack]
    exact h.there_or_gone (by omega)
  · -- a pop removed the top, for good: the elements of the stack are distinct
    right
    subst hstack
    rcases h.there_or_gone (by omega) with hthere | hgone
    · rw [← hthere, hinv.top]
      exact (List.nodup_cons.1 hinv.nodup).1
    · exact fun hmem => hgone (List.mem_cons_of_mem top hmem)

/-- If the pop finds the head that it loaded, and no push has completed since, then nothing has. -/
theorem Loaded.same (h : Loaded s stack tail pushes) (hinv' : s'.Inv stack')
    (hmoves : s.Moves stack s' stack') (hpushes : s'.pushes = pushes) (hhead : s'.head = tail) :
    s.pushes = pushes ∧ s.head = tail ∧ lfLifo tail ∈ stack := by
  have hsame : s'.pushes = s.pushes := by
    have := hmoves.pushes
    have := h.le
    omega
  have hmem' : lfLifo tail ∈ stack' := by
    obtain ⟨rest, hrest, -⟩ := hinv'.chain.head_mem (hhead ▸ h.ne_zero)
    rw [hrest, hhead]
    exact List.mem_cons_self
  have hmem : lfLifo tail ∈ stack := by
    rcases hmoves.popped hsame with ⟨-, hstack⟩ | ⟨top, hstack⟩
    · exact hstack ▸ hmem'
    · exact hstack ▸ List.mem_cons_of_mem top hmem'
  have hthere : s.head = tail := by
    rcases h.there_or_gone (by omega) with hthere | hgone
    · exact hthere
    · exact absurd hmem hgone
  exact ⟨by omega, hthere, hmem⟩

/-- What a call knows is not lost by a step of another one that leaves its element alone. -/
theorem LifoPc.Sound.of_moves (h : pc.Sound s stack) (hinv : s.Inv stack) (hinv' : s'.Inv stack')
    (hmoves : s.Moves stack s' stack') (hown : ∀ a, pc.elem = some a → s'.next a = s.next a) :
    pc.Sound s' stack' := by
  cases pc with
  | pushLoad elem => exact h
  | pushStore elem tail => exact h
  | pushExchange elem tail newhead =>
      obtain ⟨helem, hnext, hnew⟩ := h
      exact ⟨helem, (hown elem rfl).trans hnext, hnew⟩
  | popLoad => trivial
  | popNext tail pushes => exact Loaded.of_moves h hinv hmoves
  | popExchange tail newhead pushes =>
      obtain ⟨hloaded, hnew⟩ := h
      refine ⟨hloaded.of_moves hinv hmoves, fun hpushes hhead => ?_⟩
      obtain ⟨hpushes', hhead', hmem⟩ := hloaded.same hinv' hmoves hpushes hhead
      rw [hmoves.next _ hmem]
      exact hnew hpushes' hhead'

/-- The owner of an element overwrites it. -/
theorem Lifo.Inv.write (h : s.Inv stack) (helem : elem ∉ stack) (value : Nat) :
    Lifo.Inv { s with next := Function.update s.next elem value } stack ∧
    s.Moves stack { s with next := Function.update s.next elem value } stack := by
  have hnext : ∀ a ∈ stack, Function.update s.next elem value a = s.next a := by
    intro a ha
    refine Function.update_of_ne ?_ _ _
    rintro rfl
    exact helem ha
  exact ⟨h.of_next hnext, le_refl _, fun _ => .inl ⟨rfl, rfl⟩, hnext⟩

/-! ## The steps of a push -/

theorem pushLoad_spec (h : s.Inv stack) (hpc : (LifoPc.pushLoad elem).Sound s stack)
    (spurious : Bool) :
    ∃ s' outcome stack', (LifoPc.pushLoad elem).step s spurious = some (s', outcome) ∧
      (LifoPc.pushLoad elem).StepsTo s stack s' outcome stack' := by
  have hstep :
      (LifoPc.pushLoad elem).step s spurious = some (s, .goes (.pushStore elem s.head)) := by
    simp [LifoPc.step, hpc.1, guard]
  refine ⟨s, _, stack, hstep, h, .refl s stack, rfl, ?_, fun _ _ => rfl⟩
  rintro pc' ⟨⟩
  exact ⟨hpc, rfl⟩

theorem pushStore_spec (h : s.Inv stack) (hpc : (LifoPc.pushStore elem tail).Sound s stack)
    (hout : elem ∉ stack) (spurious : Bool) :
    ∃ s' outcome stack', (LifoPc.pushStore elem tail).step s spurious = some (s', outcome) ∧
      (LifoPc.pushStore elem tail).StepsTo s stack s' outcome stack' := by
  obtain ⟨haligned, hne⟩ := hpc
  obtain ⟨hinv, hmoves⟩ := h.write hout tail
  refine ⟨_, _, stack, rfl, ?_⟩
  rw [haligned]
  refine ⟨hinv, hmoves, rfl, ?_, ?_⟩
  · rintro pc' ⟨⟩
    exact ⟨⟨⟨haligned, hne⟩, Function.update_self elem tail s.next, rfl⟩, rfl⟩
  · intro a ha
    refine Function.update_of_ne ?_ _ _
    rintro rfl
    exact ha rfl

theorem pushExchange_spec (h : s.Inv stack)
    (hpc : (LifoPc.pushExchange elem tail newhead).Sound s stack) (hout : elem ∉ stack)
    (spurious : Bool) :
    ∃ s' outcome stack', (LifoPc.pushExchange elem tail newhead).step s spurious =
      some (s', outcome) ∧
      (LifoPc.pushExchange elem tail newhead).StepsTo s stack s' outcome stack' := by
  obtain ⟨⟨haligned, hne⟩, hnext, rfl⟩ := hpc
  by_cases hok : s.head = tail ∧ ¬ spurious
  · -- the element links the head, whatever happened since the load
    have hhead := hok.1
    refine ⟨_, _, elem :: stack, if_pos hok, ?_, ?_, ⟨elem, rfl, rfl⟩, ?_, fun _ _ => rfl⟩
    · refine ⟨⟨lfLifo_pushHead haligned, hne, ?_⟩, List.nodup_cons.2 ⟨hout, h.nodup⟩, ?_⟩
      · show LifoChain s.next (s.next elem) stack
        rw [hnext, ← hhead]
        exact h.chain
      · show abaValue (pushHead elem tail) = (s.pushes + 1) % 2 ^ 16
        rw [abaValue_pushHead haligned, ← hhead, h.tag, Nat.mod_add_mod]
    · exact ⟨Nat.le_succ _, fun heq => absurd heq (Nat.succ_ne_self _), fun _ _ => rfl⟩
    · rintro pc' ⟨⟩
  · refine ⟨s, _, stack, if_neg hok, h, .refl s stack, rfl, ?_, fun _ _ => rfl⟩
    rintro pc' ⟨⟩
    exact ⟨⟨haligned, hne⟩, rfl⟩

/-! ## The steps of a pop -/

theorem popLoad_spec (h : s.Inv stack) (spurious : Bool) :
    ∃ s' outcome stack', LifoPc.popLoad.step s spurious = some (s', outcome) ∧
      LifoPc.popLoad.StepsTo s stack s' outcome stack' := by
  by_cases hempty : lfLifo s.head = 0
  · have hstack : stack = [] := h.chain.unique hempty
    refine ⟨s, _, stack, if_pos hempty, h, .refl s stack, ⟨rfl, hstack, hstack⟩, ?_, fun _ _ => rfl⟩
    rintro pc' ⟨⟩
  · refine ⟨s, _, stack, if_neg hempty, h, .refl s stack, rfl, ?_, fun _ _ => rfl⟩
    rintro pc' ⟨⟩
    exact ⟨⟨hempty, h.tag, le_refl _, fun _ => .inl rfl⟩, rfl⟩

theorem popNext_spec (h : s.Inv stack) (hpc : (LifoPc.popNext tail pushes).Sound s stack)
    (spurious : Bool) :
    ∃ s' outcome stack', (LifoPc.popNext tail pushes).step s spurious = some (s', outcome) ∧
      (LifoPc.popNext tail pushes).StepsTo s stack s' outcome stack' := by
  refine ⟨s, _, stack, rfl, h, .refl s stack, rfl, ?_, fun _ _ => rfl⟩
  rintro pc' ⟨⟩
  exact ⟨⟨hpc, fun _ _ => rfl⟩, rfl⟩

theorem popExchange_spec (h : s.Inv stack)
    (hpc : (LifoPc.popExchange tail newhead pushes).Sound s stack)
    (htimely : (LifoPc.popExchange tail newhead pushes).Timely s) (spurious : Bool) :
    ∃ s' outcome stack', (LifoPc.popExchange tail newhead pushes).step s spurious =
      some (s', outcome) ∧
      (LifoPc.popExchange tail newhead pushes).StepsTo s stack s' outcome stack' := by
  obtain ⟨hloaded, hnew⟩ := hpc
  by_cases hok : s.head = tail ∧ ¬ spurious
  · have hhead := hok.1
    -- the tags agree and less than 2^16 pushes have completed, so none has
    have hpushes : s.pushes = pushes := by
      have htag : s.pushes % 2 ^ 16 = pushes % 2 ^ 16 := by rw [← h.tag, hhead, hloaded.tag]
      have hle := hloaded.le
      have hlt : s.pushes - pushes < 2 ^ 16 := htimely
      omega
    have hnew := hnew hpushes hhead
    obtain ⟨rest, hstack, hrest⟩ := h.chain.head_mem (hhead ▸ hloaded.ne_zero)
    rw [hhead] at hstack hrest
    refine ⟨_, _, rest, if_pos hok, ?_, ?_, ⟨rfl, hstack⟩, ?_, fun _ _ => rfl⟩
    · refine ⟨?_, (List.nodup_cons.1 (hstack ▸ h.nodup)).2, ?_⟩
      · show LifoChain s.next newhead rest
        rw [hnew]
        exact hrest.of_word lfLifo_popHead
      · show abaValue newhead = s.pushes % 2 ^ 16
        rw [hnew, abaValue_popHead, hloaded.tag, hpushes]
    · exact ⟨le_refl _, fun _ => .inr ⟨_, hstack⟩, fun _ _ => rfl⟩
    · rintro pc' ⟨⟩
  · refine ⟨s, _, stack, if_neg hok, h, .refl s stack, rfl, ?_, fun _ _ => rfl⟩
    rintro pc' ⟨⟩
    exact ⟨trivial, rfl⟩

/-! ## Any step -/

/-- **An atomic step keeps the stack**: it is a push or a pop of the stack when its
compare-exchange succeeds, and otherwise leaves it alone. -/
theorem LifoPc.step_spec (h : s.Inv stack) (hpc : pc.Sound s stack)
    (hout : ∀ a, pc.elem = some a → a ∉ stack) (htimely : pc.Timely s) (spurious : Bool) :
    ∃ s' outcome stack', pc.step s spurious = some (s', outcome) ∧
      pc.StepsTo s stack s' outcome stack' := by
  cases pc with
  | pushLoad elem => exact pushLoad_spec h hpc spurious
  | pushStore elem tail => exact pushStore_spec h hpc (hout elem rfl) spurious
  | pushExchange elem tail newhead => exact pushExchange_spec h hpc (hout elem rfl) spurious
  | popLoad => exact popLoad_spec h spurious
  | popNext tail pushes => exact popNext_spec h hpc spurious
  | popExchange tail newhead pushes => exact popExchange_spec h hpc htimely spurious

/-- A pop that runs alone takes the top, or finds that there is none. -/
theorem lfLifoPop_spec (h : s.Inv stack) :
    stack = [] ∧ lfLifoPop s = (none, s) ∨
    ∃ elem rest s', stack = elem :: rest ∧ lfLifoPop s = (some elem, s') ∧ s'.Inv rest := by
  by_cases hempty : lfLifo s.head = 0
  · left
    exact ⟨h.chain.unique hempty, by simp [lfLifoPop, hempty]⟩
  · right
    obtain ⟨rest, hstack, hrest⟩ := h.chain.head_mem hempty
    refine ⟨_, rest, _, hstack, by simp only [lfLifoPop, if_neg hempty]; rfl, ?_⟩
    refine ⟨hrest.of_word lfLifo_popHead, (List.nodup_cons.1 (hstack ▸ h.nodup)).2, ?_⟩
    show abaValue (popHead _ s.head) = s.pushes % 2 ^ 16
    rw [abaValue_popHead, h.tag]

end SmallAllocators
