/-
SmallAllocators.LfLifo.Runs — every interleaving of pushes and pops is a
history of a stack.

Any number of threads call `lf_lifo_push` and `lf_lifo_pop`, one atomic step
at a time, under any schedule. An element has at most one owner; its owner
may push it, overwrite it, or hand it to another thread. A push that
completes takes the element from its owner, a pop gives it to the caller.

The state keeps a log of the calls in the order in which they took effect:
at the compare-exchange that succeeds, or, for a pop that finds nothing, at
its load of the head. `replay` runs this log on an abstract stack. That the
log replays, and leaves the elements that are linked from the head, is the
invariant `LifoState.Inv`; the steps themselves are those of
`LfLifo.Invariant`.
-/
import SmallAllocators.Lib.Runs
import SmallAllocators.LfLifo.Invariant

namespace SmallAllocators

/-! ## The abstract stack -/

/-- A call that has taken effect: a push of an element, or a pop with its result. -/
inductive StackCall where
  | push (elem : Nat)
  | pop (result : Option Nat)
deriving DecidableEq, Repr

/-- What a call makes of a stack; `none` when a stack does not answer so. -/
def StackCall.run : StackCall → List Nat → Option (List Nat)
  | .push elem, stack => some (elem :: stack)
  | .pop none, [] => some []
  | .pop none, _ :: _ => none
  | .pop (some _), [] => none
  | .pop (some elem), top :: rest => if top = elem then some rest else none

/-- The stack after the calls of a log, whose latest call is the first. -/
def replay {τ : Type} : List (τ × StackCall) → Option (List Nat)
  | [] => some []
  | (_, call) :: log => (replay log).bind call.run

/-- The number of pushes in a log. -/
def pushCount {τ : Type} (log : List (τ × StackCall)) : Nat :=
  log.countP fun entry => entry.2 matches .push _

/-! ## The machine -/

/-- One lifo and the threads `τ` that use it. -/
structure LifoState (τ : Type) where
  lifo : Lifo
  /-- Where the call of a thread is, if there is one. -/
  pc : τ → Option LifoPc
  /-- The owner of an element that is not in the stack. -/
  owner : Nat → Option τ
  /-- The calls that have taken effect, with their threads, latest first. -/
  log : List (τ × StackCall)

inductive LifoStep (τ : Type) where
  | push (t : τ) (elem : Nat)
  | pop (t : τ)
  | step (t : τ) (spurious : Bool)
  | write (t : τ) (elem value : Nat)
  | hand (t u : τ) (elem : Nat)

variable {τ : Type} [DecidableEq τ]

/-- A thread after a step of its call, by the outcome of the step. -/
def LifoState.after (s : LifoState τ) (t : τ) (elem : Option Nat) : LifoOutcome → LifoState τ
  | .goes pc => { s with pc := Function.update s.pc t (some pc) }
  | .pushed =>
    match elem with
    | some a =>
      { s with
        pc := Function.update s.pc t none, owner := Function.update s.owner a none,
        log := (t, .push a) :: s.log }
    | none => { s with pc := Function.update s.pc t none }
  | .popped none => { s with pc := Function.update s.pc t none, log := (t, .pop none) :: s.log }
  | .popped (some a) =>
    { s with
      pc := Function.update s.pc t none, owner := Function.update s.owner a (some t),
      log := (t, .pop (some a)) :: s.log }

def LifoStep.exec (s : LifoState τ) : LifoStep τ → Option (LifoState τ)
  | .push t elem => some { s with pc := Function.update s.pc t (some (.pushLoad elem)) }
  | .pop t => some { s with pc := Function.update s.pc t (some .popLoad) }
  | .step t spurious => do
    let pc ← s.pc t
    let (lifo, outcome) ← pc.step s.lifo spurious
    some ({ s with lifo := lifo }.after t pc.elem outcome)
  | .write _ elem value =>
      some { s with lifo := { s.lifo with next := Function.update s.lifo.next elem value } }
  | .hand _ u elem => some { s with owner := Function.update s.owner elem (some u) }

/-- A thread has an element at its disposal: it owns it and is not pushing it. -/
def LifoState.Disposes (s : LifoState τ) (t : τ) (elem : Nat) : Prop :=
  s.owner elem = some t ∧ ∀ pc, s.pc t = some pc → pc.elem ≠ some elem

/-- The schedule is arbitrary, but for the age of a pop. A thread that has no call in flight may
begin one, with an aligned element of its own if it is a push. -/
def LifoStep.Allowed (s : LifoState τ) : LifoStep τ → Prop
  | .push t elem => s.pc t = none ∧ s.owner elem = some t ∧ lfLifo elem = elem ∧ elem ≠ 0
  | .pop t => s.pc t = none
  | .step t _ => ∃ pc, s.pc t = some pc ∧ pc.Timely s.lifo
  | .write t elem _ => s.Disposes t elem
  | .hand t _ elem => s.Disposes t elem

instance LifoState.Disposes.decidable (s : LifoState τ) (t : τ) (elem : Nat) :
    Decidable (s.Disposes t elem) :=
  inferInstanceAs (Decidable (_ ∧ ∀ pc ∈ s.pc t, _))

instance LifoStep.Allowed.decidable (s : LifoState τ) : (st : LifoStep τ) → Decidable (st.Allowed s)
  | .push _ _ => inferInstanceAs (Decidable (_ ∧ _ ∧ _ ∧ _))
  | .pop t => inferInstanceAs (Decidable (s.pc t = none))
  | .step t _ => inferInstanceAs (Decidable (∃ pc ∈ s.pc t, pc.Timely s.lifo))
  | .write t elem _ => inferInstanceAs (Decidable (s.Disposes t elem))
  | .hand t _ elem => inferInstanceAs (Decidable (s.Disposes t elem))

/-- After `lf_lifo_init`. -/
structure LifoState.Init (s : LifoState τ) : Prop where
  lifo : ∃ lifo, s.lifo = lfLifoInit lifo
  pc : ∀ t, s.pc t = none
  log : s.log = []

/-- All interleavings of the calls of the threads `τ`. -/
def lifoMachine (τ : Type) [DecidableEq τ] : Machine (LifoState τ) (LifoStep τ) where
  init := LifoState.Init
  allowed := LifoStep.Allowed
  exec := LifoStep.exec

/-! ## The invariant -/

/-- What a call in flight knows; it is the owner of the element that it pushes. -/
def LifoState.Knows (s : LifoState τ) (stack : List Nat) (t : τ) (pc : LifoPc) : Prop :=
  pc.Sound s.lifo stack ∧ ∀ elem, pc.elem = some elem → s.owner elem = some t

/-- The log replays to the stack that is linked from the head, and no element of it has an owner. -/
structure LifoState.Inv (s : LifoState τ) (stack : List Nat) : Prop where
  lifo : s.lifo.Inv stack
  log : replay s.log = some stack
  count : s.lifo.pushes = pushCount s.log
  free : ∀ elem ∈ stack, s.owner elem = none
  calls : ∀ t pc, s.pc t = some pc → s.Knows stack t pc

variable {s s' : LifoState τ} {stack stack' : List Nat} {lifo lifo' : Lifo} {t u : τ}
    {pc : LifoPc} {elem : Nat}
  {outcome : LifoOutcome} {spurious : Bool}

omit [DecidableEq τ] in
theorem LifoState.Init.inv (h : s.Init) : s.Inv [] := by
  obtain ⟨lifo, hlifo⟩ := h.lifo
  refine ⟨hlifo ▸ lfLifoInit_inv lifo, ?_, ?_, ?_, ?_⟩
  · rw [h.log, replay]
  · rw [h.log, hlifo]
    rfl
  · intro elem helem
    cases helem
  · intro t pc hpc
    cases (h.pc t).symm.trans hpc

omit [DecidableEq τ] in
/-- An element that has an owner is not in the stack. -/
theorem LifoState.Inv.not_mem (h : s.Inv stack) (howner : s.owner elem = some t) :
    elem ∉ stack := by
  intro hmem
  cases (h.free elem hmem).symm.trans howner

/-- What holds of all calls when one thread moves. -/
theorem forall_update {P : τ → LifoPc → Prop} {pcs : τ → Option LifoPc} {now : Option LifoPc}
    (hothers : ∀ u pc, u ≠ t → pcs u = some pc → P u pc) (hnow : ∀ pc, now = some pc → P t pc) :
    ∀ u pc, Function.update pcs t now u = some pc → P u pc := by
  intro u pc hpc
  by_cases hu : u = t
  · subst hu
    rw [Function.update_self] at hpc
    exact hnow pc hpc
  · rw [Function.update_of_ne hu] at hpc
    exact hothers u pc hu hpc

/-! ## Steps outside of a call -/

/-- A thread begins a call. -/
theorem LifoState.Inv.begin (h : s.Inv stack) (hknows : s.Knows stack t pc) :
    LifoState.Inv { s with pc := Function.update s.pc t (some pc) } stack where
  lifo := h.lifo
  log := h.log
  count := h.count
  free := h.free
  calls := by
    refine forall_update (fun u pc _ => h.calls u pc) ?_
    rintro pc' ⟨⟩
    exact hknows

omit [DecidableEq τ] in
/-- An owner overwrites its element. -/
theorem LifoState.Inv.write (h : s.Inv stack) (hown : s.Disposes t elem) (value : Nat) :
    LifoState.Inv { s with lifo :=
      { s.lifo with next := Function.update s.lifo.next elem value } } stack := by
  obtain ⟨howner, hidle⟩ := hown
  obtain ⟨hinv, hmoves⟩ := h.lifo.write (h.not_mem howner) value
  refine ⟨hinv, h.log, h.count, h.free, fun u pc hpc => ?_⟩
  obtain ⟨hsound, hpushed⟩ := h.calls u pc hpc
  refine ⟨hsound.of_moves h.lifo hinv hmoves fun a ha => Function.update_of_ne ?_ _ _, hpushed⟩
  -- an element that is being pushed is not at the disposal of its owner
  rintro rfl
  obtain rfl : u = t := Option.some.inj ((hpushed a ha).symm.trans howner)
  exact hidle pc hpc ha

omit [DecidableEq τ] in
/-- An owner hands its element to another thread. -/
theorem LifoState.Inv.hand (h : s.Inv stack) (hown : s.Disposes t elem) (u : τ) :
    LifoState.Inv { s with owner := Function.update s.owner elem (some u) } stack where
  lifo := h.lifo
  log := h.log
  count := h.count
  free := by
    intro a ha
    have hne : a ≠ elem := fun heq => h.not_mem hown.1 (heq ▸ ha)
    show Function.update s.owner elem (some u) a = none
    rw [Function.update_of_ne hne]
    exact h.free a ha
  calls := by
    intro v pc hpc
    obtain ⟨hsound, hpushed⟩ := h.calls v pc hpc
    refine ⟨hsound, fun a ha => ?_⟩
    have hne : a ≠ elem := by
      rintro rfl
      obtain rfl : v = t := Option.some.inj ((hpushed a ha).symm.trans hown.1)
      exact hown.2 pc hpc ha
    show Function.update s.owner elem (some u) a = some v
    rw [Function.update_of_ne hne]
    exact hpushed a ha

/-! ## Steps of a call -/

/-- Only the compare-exchange of a push counts. -/
theorem LifoPc.step_pushes (h : pc.step lifo spurious = some (lifo', outcome)) :
    lifo'.pushes = lifo.pushes + if outcome = .pushed then 1 else 0 := by
  cases pc with
  | pushLoad elem =>
      obtain ⟨-, -, h⟩ := Option.bind_eq_some_iff.1 h
      cases h
      rfl
  | pushStore elem tail =>
      cases h
      rfl
  | pushExchange elem tail newhead =>
      rw [LifoPc.step] at h
      split at h <;> (cases h; rfl)
  | popLoad =>
      rw [LifoPc.step] at h
      split at h <;> (cases h; rfl)
  | popNext tail pushes =>
      cases h
      rfl
  | popExchange tail newhead pushes =>
      rw [LifoPc.step] at h
      split at h <;> (cases h; rfl)

omit [DecidableEq τ] in
/-- A step of one thread leaves the others what they know. -/
theorem LifoState.Inv.others (h : s.Inv stack) (hpc : s.pc t = some pc)
    (hsteps : pc.StepsTo s.lifo stack lifo outcome stack') (u : τ) (pc' : LifoPc) (hu : u ≠ t)
    (hpc' : s.pc u = some pc') :
    pc'.Sound lifo stack' ∧ ∀ elem, pc'.elem = some elem →
      s.owner elem = some u ∧ pc.elem ≠ some elem := by
  obtain ⟨hsound, hpushed⟩ := h.calls u pc' hpc'
  -- the two do not push the same element
  have hne : ∀ a, pc'.elem = some a → pc.elem ≠ some a := by
    intro a ha ha'
    exact hu (Option.some.inj ((hpushed a ha).symm.trans ((h.calls t pc hpc).2 a ha')))
  exact ⟨hsound.of_moves h.lifo hsteps.inv hsteps.moves fun a ha => hsteps.frame a (hne a ha),
    fun a ha => ⟨hpushed a ha, hne a ha⟩⟩

/-- The compare-exchange of a push has succeeded. -/
theorem LifoState.Inv.pushed (h : s.Inv stack) (hpc : s.pc t = some pc)
    (hstep : pc.step s.lifo spurious = some (lifo, .pushed))
    (hsteps : pc.StepsTo s.lifo stack lifo .pushed stack') :
    ({ s with lifo := lifo }.after t pc.elem .pushed).Inv stack' := by
  have hothers := h.others hpc hsteps
  have hpushes := LifoPc.step_pushes hstep
  obtain ⟨a, helem, rfl⟩ := hsteps.effect
  rw [helem] at hothers ⊢
  refine ⟨hsteps.inv, ?_, ?_, ?_, forall_update (fun u pc' hu hpc' => ?_) ?_⟩
  · show (replay s.log).bind (StackCall.push a).run = some (a :: stack)
    rw [h.log]
    rfl
  · rw [LifoState.after, pushCount, List.countP_cons_of_pos rfl]
    exact hpushes.trans (congrArg Nat.succ h.count)
  · intro b hb
    show Function.update s.owner a none b = none
    by_cases hab : b = a
    · rw [hab, Function.update_self]
    · rw [Function.update_of_ne hab]
      exact h.free b ((List.mem_cons.1 hb).resolve_left hab)
  · obtain ⟨hsound, hpushed⟩ := hothers u pc' hu hpc'
    refine ⟨hsound, fun b hb => ?_⟩
    obtain ⟨howner, hne⟩ := hpushed b hb
    show Function.update s.owner a none b = some u
    rw [Function.update_of_ne fun hab : b = a => hne (hab ▸ rfl)]
    exact howner
  · rintro pc' ⟨⟩

/-- The compare-exchange of a pop has succeeded. -/
theorem LifoState.Inv.popped (h : s.Inv stack) (hpc : s.pc t = some pc)
    (hstep : pc.step s.lifo spurious = some (lifo, .popped (some elem)))
    (hsteps : pc.StepsTo s.lifo stack lifo (.popped (some elem)) stack') :
    ({ s with lifo := lifo }.after t pc.elem (.popped (some elem))).Inv stack' := by
  have hothers := h.others hpc hsteps
  have hpushes := LifoPc.step_pushes hstep
  obtain ⟨-, rfl⟩ := hsteps.effect
  have hnodup := List.nodup_cons.1 h.lifo.nodup
  refine ⟨hsteps.inv, ?_, hpushes.trans h.count, ?_, forall_update (fun u pc' hu hpc' => ?_) ?_⟩
  · show (replay s.log).bind (StackCall.pop (some elem)).run = some stack'
    rw [h.log]
    exact if_pos rfl
  · intro b hb
    show Function.update s.owner elem (some t) b = none
    rw [Function.update_of_ne fun hab : b = elem => hnodup.1 (hab ▸ hb)]
    exact h.free b (List.mem_cons_of_mem elem hb)
  · obtain ⟨hsound, hpushed⟩ := hothers u pc' hu hpc'
    refine ⟨hsound, fun b hb => ?_⟩
    have howner := (hpushed b hb).1
    -- what is in the stack has no owner
    have hne : b ≠ elem := fun hab => h.not_mem howner (hab ▸ List.mem_cons_self)
    show Function.update s.owner elem (some t) b = some u
    rw [Function.update_of_ne hne]
    exact howner
  · rintro pc' ⟨⟩

/-- The state after a step of a call. -/
theorem LifoState.Inv.after (h : s.Inv stack) (hpc : s.pc t = some pc)
    (hstep : pc.step s.lifo spurious = some (lifo, outcome))
    (hsteps : pc.StepsTo s.lifo stack lifo outcome stack') :
    ({ s with lifo := lifo }.after t pc.elem outcome).Inv stack' := by
  have hpushes := LifoPc.step_pushes hstep
  have hothers : ∀ u pc', u ≠ t → s.pc u = some pc' →
      pc'.Sound lifo stack' ∧ ∀ elem, pc'.elem = some elem → s.owner elem = some u := by
    intro u pc' hu hpc'
    obtain ⟨hsound, hpushed⟩ := h.others hpc hsteps u pc' hu hpc'
    exact ⟨hsound, fun a ha => (hpushed a ha).1⟩
  cases outcome with
  | goes pc' =>
      obtain rfl : stack' = stack := hsteps.effect
      obtain ⟨hsound, helem⟩ := hsteps.goes pc' rfl
      refine ⟨hsteps.inv, h.log, hpushes.trans h.count, h.free, forall_update hothers ?_⟩
      rintro pc'' ⟨⟩
      exact ⟨hsound, fun a ha => (h.calls t pc hpc).2 a (helem ▸ ha)⟩
  | pushed => exact h.pushed hpc hstep hsteps
  | popped result =>
      cases result with
      | none =>
          obtain ⟨-, rfl, rfl⟩ := hsteps.effect
          refine ⟨hsteps.inv, ?_, hpushes.trans h.count, h.free, forall_update hothers ?_⟩
          · show (replay s.log).bind (StackCall.pop none).run = some []
            rw [h.log]
            rfl
          · rintro pc' ⟨⟩
      | some a => exact h.popped hpc hstep hsteps

/-- The next step of a call: it does not fail, and takes effect on the stack as its outcome says. -/
theorem LifoState.Inv.step (h : s.Inv stack) (hpc : s.pc t = some pc) (htimely : pc.Timely s.lifo)
    (spurious : Bool) :
    ∃ lifo outcome stack', pc.step s.lifo spurious = some (lifo, outcome) ∧
      ({ s with lifo := lifo }.after t pc.elem outcome).Inv stack' ∧
      outcome.Effect pc.elem stack stack' := by
  obtain ⟨hsound, hpushed⟩ := h.calls t pc hpc
  obtain ⟨lifo, outcome, stack', hstep, hsteps⟩ :=
    LifoPc.step_spec h.lifo hsound (fun a ha => h.not_mem (hpushed a ha)) htimely spurious
  exact ⟨lifo, outcome, stack', hstep, h.after hpc hstep hsteps, hsteps.effect⟩

/-! ## Runs -/

/-- Any step of any thread. -/
theorem LifoStep.exec_inv (h : s.Inv stack) {st : LifoStep τ} (hst : st.Allowed s) :
    ∃ s', st.exec s = some s' ∧ ∃ stack', s'.Inv stack' := by
  cases st with
  | push t elem =>
      obtain ⟨-, howner, haligned, hne⟩ := hst
      refine ⟨_, rfl, stack, h.begin ⟨⟨haligned, hne⟩, ?_⟩⟩
      rintro a ⟨⟩
      exact howner
  | pop t => exact ⟨_, rfl, stack, h.begin ⟨trivial, fun a ha => by cases ha⟩⟩
  | step t spurious =>
      obtain ⟨pc, hpc, htimely⟩ := hst
      obtain ⟨lifo, outcome, stack', hstep, hinv, -⟩ := h.step hpc htimely spurious
      exact ⟨_, by simp [LifoStep.exec, hpc, hstep], stack', hinv⟩
  | write t elem value => exact ⟨_, rfl, stack, h.write hst value⟩
  | hand t u elem => exact ⟨_, rfl, stack, h.hand hst u⟩

/-- The run lemma. -/
theorem lifoMachine_inv (hs : (lifoMachine τ).Reachable s) : ∃ stack, s.Inv stack :=
  (Machine.invariant (lifoMachine τ) (P := fun s => ∃ stack, s.Inv stack) (fun _ h => ⟨[], h.inv⟩)
    (fun _ _ hinv hal => hinv.elim fun _ h => LifoStep.exec_inv h hal) hs).1

/-- **Linearizability**: in every state of every interleaving in which no pop is overtaken by 2^16
pushes, the calls that have taken effect, in this order, are a history of a stack; this stack is
linked from the head without repetition, and the tag of the head counts its pushes. The next step
of any call in flight does not fail. If it is a compare-exchange that succeeds, it is a push or a
pop of the stack there and then, and a pop that returns `NULL` loaded the head of an empty stack. -/
theorem lf_lifo_linearizable (hs : (lifoMachine τ).Reachable s) :
    ∃ stack, replay s.log = some stack ∧ LifoChain s.lifo.next s.lifo.head stack ∧ stack.Nodup ∧
      abaValue s.lifo.head = pushCount s.log % 2 ^ 16 ∧
      ∀ t pc spurious, s.pc t = some pc → pc.Timely s.lifo →
        ∃ lifo outcome stack', pc.step s.lifo spurious = some (lifo, outcome) ∧
          replay ({ s with lifo := lifo }.after t pc.elem outcome).log = some stack' ∧
          LifoChain lifo.next lifo.head stack' ∧ outcome.Effect pc.elem stack stack' := by
  obtain ⟨stack, h⟩ := lifoMachine_inv hs
  refine ⟨stack, h.log, h.lifo.chain, h.lifo.nodup, h.count ▸ h.lifo.tag, ?_⟩
  intro t pc spurious hpc htimely
  obtain ⟨lifo, outcome, stack', hstep, hinv, heffect⟩ := h.step hpc htimely spurious
  have hlifo : ({ s with lifo := lifo }.after t pc.elem outcome).lifo = lifo := by
    cases outcome with
    | goes pc' => rfl
    | pushed => cases hpcElem : pc.elem <;> rfl
    | popped result => cases result <;> rfl
  exact ⟨lifo, outcome, stack', hstep, hinv.log, hlifo ▸ hinv.lifo.chain, heffect⟩

/-- Two threads with one element, which the first of them owns. -/
def oneElement : LifoState Bool where
  lifo := lfLifoInit { head := 0, next := fun _ => 0, pushes := 0 }
  pc := fun _ => none
  owner := fun elem => if elem = 65536 then some true else none
  log := []

/-- The three steps of a call that succeeds at once. -/
def threeSteps (t : Bool) : List (LifoStep Bool) := [.step t false, .step t false, .step t false]

/-- One thread is about to pop the element when the other one pops it and pushes it again. The head
has the same address then, but another tag: the compare-exchange fails. -/
def popOvertaken : List (LifoStep Bool) :=
  [.push true 65536] ++ threeSteps true ++ [.pop false, .step false false, .step false false,
    .pop true] ++
    threeSteps true ++ [.push true 65536] ++ threeSteps true ++ [.step false false]

theorem lf_lifo_linearizable_overtaken :
    ∃ s, (lifoMachine Bool).Reachable s ∧ s.pc false = some .popLoad ∧
      s.log = [(true, .push 65536), (true, .pop (some 65536)), (true, .push 65536)] ∧
      ∃ stack, replay s.log = some stack ∧ LifoChain s.lifo.next s.lifo.head stack := by
  have hrun : ((lifoMachine Bool).run
      (fun s st => decide (st.Allowed s)) popOvertaken oneElement).map
      (fun s => (s.pc false, s.log)) = some (some .popLoad,
        [(true, .push 65536), (true, .pop (some 65536)), (true, .push 65536)]) := by
    decide +kernel
  obtain ⟨s, hs, heq⟩ := Option.map_eq_some_iff.1 hrun
  rw [Prod.mk.injEq] at heq
  have hreach := Machine.Reachable.run (lifoMachine Bool)
    (fun s st h => (decide_eq_true_iff (p := st.Allowed s)).1 h) popOvertaken
    (.init (s := oneElement) ⟨⟨_, rfl⟩, fun _ => rfl, rfl⟩) hs
  obtain ⟨stack, hreplay, hchain, -⟩ := lf_lifo_linearizable hreach
  exact ⟨s, hreach, heq.1, heq.2, stack, hreplay, hchain⟩

end SmallAllocators
