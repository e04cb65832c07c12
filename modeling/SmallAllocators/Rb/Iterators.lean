/-
SmallAllocators.Rb.Iterators — what the searches and the iterators of the
red-black trees find.

`RbLinks.Rep` says that the pointers form a tree. The searches are
bisections of the nodes in order (`BinaryTree.lastVisit_visits`), and a step
of an iterator goes from one spot of the tree to the next. `iprev` is `inext`
in the mirror image of the tree.
-/
import Mathlib.Data.List.Nodup
import SmallAllocators.Lib.Trees
import SmallAllocators.Rb.Model

namespace SmallAllocators

open BinaryTree

variable {α : Type}

/-- The child pointers of the nodes are those of the tree. -/
def RbLinked (left right : α → Option α) : BinaryTree α → Prop
  | .nil => True
  | .node a l r =>
      left a = l.root? ∧ right a = r.root? ∧ RbLinked left right l ∧ RbLinked left right r

/-- The pointers form the tree `s`. -/
structure RbLinks.Rep (t : RbLinks α) (s : BinaryTree α) : Prop where
  root : t.root = s.root?
  linked : RbLinked t.left t.right s
  nodup : s.inorder.Nodup
  height : s.height ≤ rbMaxTreeHeight

variable {t : RbLinks α} {s s' : BinaryTree α} {left right : α → Option α} {st pre post : List α}

theorem RbLinked.mirror (h : RbLinked left right s) : RbLinked right left s.mirror := by
  induction s with
  | nil => trivial
  | node a l r ihl ihr =>
      obtain ⟨h1, h2, h3, h4⟩ := h
      exact ⟨by rw [h2, root?_mirror], by rw [h1, root?_mirror], ihr h4, ihl h3⟩

theorem RbLinked.spot (h : RbLinked left right s) (hs : Spot s st pre s' post) :
    RbLinked left right s' := by
  induction hs with
  | root _ => exact h
  | left _ ih => exact ih.2.2.1
  | right _ ih => exact ih.2.2.2

/-! ## Steps of an iterator -/

section Steps

/-- The stack leads to the node `cur`; the nodes before and after it are in the two lists. -/
def Located (s : BinaryTree α) (st before : List α) (cur : α) (after : List α) : Prop :=
  ∃ pre l r post st', Spot s st pre (.node cur l r) post ∧ st = cur :: st' ∧
  before = pre ++ l.inorder ∧
    after = r.inorder ++ post

theorem Located.inorder_eq {before after : List α} {cur : α} (h : Located s st before cur after) :
    s.inorder = before ++ cur :: after := by
  obtain ⟨pre, l, r, post, st', hs, -, rfl, rfl⟩ := h
  rw [hs.inorder_eq]
  simp [inorder]

theorem Located.isPath {before after : List α} {cur : α} (h : Located s st before cur after) :
    s.IsPath st.reverse ∧ st.head? = some cur := by
  obtain ⟨pre, l, r, post, st', hs, rfl, -, -⟩ := h
  exact ⟨hs.isPath, rfl⟩

theorem located_of_spot (h : Spot s st pre s' post) :
    ∃ before cur after, Located s st before cur after := by
  obtain ⟨a, st', l, r, rfl, rfl⟩ := h.top
  exact ⟨_, a, _, pre, l, r, post, st', h, rfl, rfl, rfl⟩

/-- Going down to the left from a subtree: its first node. -/
theorem goDown_spec {a : α} {l r : BinaryTree α} (h : RbLinked left right s)
    (hs : Spot s (a :: st) pre (.node a l r) post) (fuel : Nat)
    (hfuel : (BinaryTree.node a l r).height ≤ fuel) :
    ∃ st' cur after, goDown left fuel a st = some st' ∧ Located s st' pre cur after ∧
      cur :: after = (BinaryTree.node a l r).inorder ++ post := by
  induction fuel generalizing a l r st post with
  | zero => simp [BinaryTree.height] at hfuel
  | succ fuel ih =>
      have hleft : left a = l.root? := (h.spot hs).1
      unfold goDown
      rw [hleft]
      cases l with
      | nil =>
          refine ⟨a :: st, a, r.inorder ++ post, rfl,
            ⟨pre, .nil, r, post, st, hs, rfl, ?_, rfl⟩, ?_⟩
          · simp [inorder]
          · simp [inorder]
      | node b l l' =>
          obtain ⟨st', cur, after, heq, hloc, hafter⟩ := ih (.left hs) (by
            simp only [BinaryTree.height] at hfuel ⊢
            omega)
          refine ⟨st', cur, after, heq, hloc, ?_⟩
          rw [hafter]
          simp [inorder]

variable [DecidableEq α]

/-- Going up from the last node of a subtree: the first node behind it. -/
theorem goUp_spec (h : RbLinked left right s) (hnodup : s.inorder.Nodup)
    (hs : Spot s st pre s' post) :
    (goUp right st = [] ∧ post = []) ∨
    ∃ cur after, Located s (goUp right st) (pre ++ s'.inorder) cur after ∧ post = cur :: after := by
  induction hs with
  | root _ => exact Or.inl ⟨rfl, rfl⟩
  | left hs ih =>
      rename_i st pre post a b l l' r
      -- the subtree is to the left of the node above it, so this one is next
      have hright : right a = r.root? := (h.spot hs).2.1
      have hne : right a ≠ some b := by
        intro heq
        rw [hright] at heq
        have hmem := root?_mem heq
        have hnd := hnodup
        rw [hs.inorder_eq] at hnd
        simp only [inorder, List.append_assoc, List.nodup_append, List.nodup_cons] at hnd
        simp at hnd
        grind
      refine Or.inr ⟨a, r.inorder ++ post, ?_, rfl⟩
      rw [goUp, if_pos hne]
      exact ⟨pre, _, r, post, st, hs, rfl, rfl, rfl⟩
  | right hs ih =>
      rename_i st pre post a b l r r'
      have hright : right a = some b := (h.spot hs).2.1
      rw [goUp, if_neg (by simp [hright])]
      rcases ih with ⟨h1, h2⟩ | ⟨cur, after, hloc, hpost⟩
      · exact Or.inl ⟨h1, h2⟩
      · refine Or.inr ⟨cur, after, ?_, hpost⟩
        simpa [inorder] using hloc

/-- **One step of an iterator** returns the node it is at and goes to the next one. -/
theorem istep_spec (h : RbLinked left right s) (hnodup : s.inorder.Nodup)
    (hheight : s.height ≤ rbMaxTreeHeight) {before after : List α} {cur : α}
    (hloc : Located s st before cur after) :
    ∃ st', istep right left st = some (some cur, st') ∧
      (after = [] ∧ st' = [] ∨
        ∃ next after', after = next :: after' ∧ Located s st' (before ++ [cur]) next after') := by
  obtain ⟨pre, l, r, post, st0, hs, rfl, rfl, rfl⟩ := hloc
  have hright : right cur = r.root? := (h.spot hs).2.1
  rw [istep, hright]
  cases r with
  | nil =>
      refine ⟨_, rfl, ?_⟩
      rcases goUp_spec h hnodup hs with ⟨h1, h2⟩ | ⟨next, after', hloc, hpost⟩
      · exact Or.inl ⟨by simp [inorder, h2], h1⟩
      · refine Or.inr ⟨next, after', by simp [inorder, hpost], ?_⟩
        simpa [inorder] using hloc
  | node b r r' =>
      have hle := hs.height_le
      have hspot := Spot.right hs
      obtain ⟨st', next, after', heq, hloc, hafter⟩ := goDown_spec h hspot
        (rbMaxTreeHeight - (cur :: st0).length) (by
          simp only [BinaryTree.height, List.length_cons] at hle ⊢
          omega)
      refine ⟨st', by simp only [root?, heq]; rfl, Or.inr ⟨next, after', hafter.symm, hloc⟩⟩

/-- An iterator at nothing stays there. -/
theorem isteps_nil (n : Nat) :
    isteps (istep right left) n [] = some (List.replicate n none, []) := by
  induction n with
  | zero => rfl
  | succ n ih =>
      simp only [isteps, istep, Option.bind_eq_bind, Option.bind_some, ih, List.replicate_succ]

theorem take_append_replicate {β : Type} (xs : List β) (x : β) (n : Nat) :
    (xs ++ List.replicate (n + 1) x).take n = (xs ++ List.replicate n x).take n := by
  rw [List.replicate_succ', ← List.append_assoc]
  exact List.take_append_of_le_length (by simp)

/-- **Any number of steps** returns the node the iterator is at and then each following node, in
order, and then `NULL`. -/
theorem isteps_spec (h : RbLinked left right s) (hnodup : s.inorder.Nodup)
    (hheight : s.height ≤ rbMaxTreeHeight) (n : Nat) {before after : List α} {cur : α}
    (hloc : Located s st before cur after) :
    ∃ st', isteps (istep right left) n st =
      some (((cur :: after).map some ++ List.replicate n none).take n, st') ∧
      (st' = [] ∨ s.IsPath st'.reverse) ∧ iteratorGet st' = (cur :: after)[n]? := by
  induction n generalizing st before cur after with
  | zero => exact ⟨st, rfl, Or.inr hloc.isPath.1, hloc.isPath.2⟩
  | succ n ih =>
      obtain ⟨st1, heq, hnext⟩ := istep_spec h hnodup hheight hloc
      simp only [isteps, heq, Option.bind_eq_bind, Option.bind_some]
      rcases hnext with ⟨rfl, rfl⟩ | ⟨next, after', rfl, hloc'⟩
      · rw [isteps_nil]
        exact ⟨[], by simp [List.take_replicate], Or.inl rfl, by simp [iteratorGet]⟩
      · obtain ⟨st', hsteps, hpath, hget⟩ := ih hloc'
        rw [hsteps]
        refine ⟨st', ?_, hpath, by simpa using hget⟩
        rw [List.map_cons (l := next :: after'), List.cons_append, List.take_succ_cons,
          take_append_replicate]
        rfl

end Steps

/-! ## Searches -/

section Searches

/-- The node sends a search to the right. -/
def goesRight (step : Ordering → Dir × Mark) (key : α → Ordering) (a : α) : Bool :=
  (step (key a)).1 = .right

/-- The search remembers the node in this way. -/
def marked (step : Ordering → Dir × Mark) (key : α → Ordering) (m : Mark) (a : α) : Bool :=
  (step (key a)).2 = m

variable {step : Ordering → Dir × Mark} {key : α → Ordering}

/-- A search that returns a node: the last one found, or else the last one that is near. -/
theorem searchLoop_spec (h : RbLinked t.left t.right s) (st : List α) (fuel : Nat)
    (hfuel : s.height ≤ fuel) (found near : Option α) :
    searchLoop t step key fuel s.root? found near =
      some (
        (((lastVisit (marked step key .found) (visits (goesRight step key) s st)).bind
          List.head?).or found).or
        (((lastVisit (marked step key .near) (visits (goesRight step key) s st)).bind
          List.head?).or near)) := by
  induction s generalizing st fuel found near with
  | nil =>
      unfold searchLoop
      cases found <;> rfl
  | node a l r ihl ihr =>
      obtain ⟨hl, hr, hll, hlr⟩ := h
      cases fuel with
      | zero => simp [BinaryTree.height] at hfuel
      | succ fuel =>
          have hfl : l.height ≤ fuel := by simp only [BinaryTree.height] at hfuel; omega
          have hfr : r.height ≤ fuel := by simp only [BinaryTree.height] at hfuel; omega
          rw [visits, lastVisit_cons, lastVisit_cons]
          simp only [root?, searchLoop, List.head?_cons, Option.any_some]
          rcases hstep : step (key a) with ⟨dir, mark⟩
          cases dir <;> cases mark <;>
            simp only [hstep, RbLinks.child, goesRight, marked, hl, hr, ihl hll (a :: st) fuel hfl,
              ihr hlr (a :: st) fuel hfr, head?_lastVisit_or, decide_true, decide_false,
              reduceCtorEq, if_true, if_false,
              Bool.false_eq_true, Option.or_none, Option.or_assoc, Option.some_or]

theorem truncate_of_suffix {path : List α} (h : st <:+ path) : truncate path st.length = st :=
  (List.suffix_iff_eq_drop.mp h).symm

theorem isearchLoop_none (fuel : Nat) (path : List α) (ret : Option Nat) (near : Nat) :
    isearchLoop t step key fuel none path ret near = some (truncate path (ret.getD near)) := by
  cases fuel <;> cases ret <;> rfl

variable (step key) in
/-- A search that positions an iterator: at the last node found, or else at the last one that is
near. -/
theorem isearchLoop_spec (h : RbLinked t.left t.right s) (st : List α) (fuel : Nat)
    (hfuel : s.height ≤ fuel) (ret : Option (List α)) (near : List α)
    (hret : ∀ st', ret = some st' → st' <:+ st) (hnear : near <:+ st) :
    isearchLoop t step key fuel s.root? st (ret.map List.length) near.length =
      some (((lastVisit (marked step key .found) (visits (goesRight step key) s st)).or ret).getD
        ((lastVisit (marked step key .near) (visits (goesRight step key) s st)).getD near)) := by
  induction s generalizing st fuel ret near with
  | nil =>
      rw [root?, isearchLoop_none]
      cases ret with
      | none => simp [visits, lastVisit, truncate_of_suffix hnear]
      | some st' => simp [visits, lastVisit, truncate_of_suffix (hret st' rfl)]
  | node a l r ihl ihr =>
      obtain ⟨hl, hr, hll, hlr⟩ := h
      cases fuel with
      | zero => simp [BinaryTree.height] at hfuel
      | succ fuel =>
          have hfl : l.height ≤ fuel := by simp only [BinaryTree.height] at hfuel; omega
          have hfr : r.height ≤ fuel := by simp only [BinaryTree.height] at hfuel; omega
          have hret' : ∀ st', ret = some st' → st' <:+ a :: st :=
            fun st' hst => (hret st' hst).trans (List.suffix_cons _ _)
          have hnear' : near <:+ a :: st := hnear.trans (List.suffix_cons _ _)
          have hself : ∀ st', some (a :: st) = some st' → st' <:+ a :: st := by
            intro st' hst
            rw [Option.some.injEq] at hst
            exact hst ▸ List.suffix_refl _
          rw [visits, lastVisit_cons, lastVisit_cons]
          simp only [root?, isearchLoop, List.head?_cons, Option.any_some]
          rcases hstep : step (key a) with ⟨dir, mark⟩
          -- what the rest of the walk starts with
          have hgo : ∀ ret near, (∀ st', ret = some st' → st' <:+ a :: st) → near <:+ a :: st →
              isearchLoop t step key fuel (t.child a dir) (a :: st)
                (ret.map List.length) near.length =
              some (((lastVisit (marked step key .found) (if goesRight step key a = true then
                  visits (goesRight step key) r (a :: st)
                    else visits (goesRight step key) l (a :: st))).or ret).getD
                ((lastVisit (marked step key .near) (if goesRight step key a = true then
                  visits (goesRight step key) r (a :: st)
                      else visits (goesRight step key) l (a :: st))).getD near)) := by
            intro ret near h1 h2
            cases dir with
            | left =>
                rw [RbLinks.child, hl, ihl hll (a :: st) fuel hfl ret near h1 h2, goesRight, hstep]
                rfl
            | right =>
                rw [RbLinks.child, hr, ihr hlr (a :: st) fuel hfr ret near h1 h2, goesRight, hstep]
                rfl
          cases mark with
          | skip =>
              simp only [hgo ret near hret' hnear', marked, hstep, decide_false, reduceCtorEq,
                if_false, Bool.false_eq_true, Option.or_none]
          | near =>
              simp only [hgo ret (a :: st) hret' (List.suffix_refl _), marked, hstep, decide_true,
                decide_false, reduceCtorEq, if_true, if_false, Bool.false_eq_true, Option.or_none]
              cases lastVisit (marked step key .near) (if goesRight step key a = true then
                visits (goesRight step key) r (a :: st)
                  else visits (goesRight step key) l (a :: st)) <;> rfl
          | found =>
              have := hgo (some (a :: st)) near hself hnear'
              rw [Option.map_some] at this
              simp only [this, marked, hstep, decide_true, decide_false, reduceCtorEq, if_true,
                if_false, Bool.false_eq_true, Option.or_none, Option.or_assoc, Option.some_or]

/-! ## Monotone keys -/

/-- The key is greater than, equal to and less than the nodes in their order. -/
def KeyMono (key : α → Ordering) (xs : List α) : Prop :=
  xs.Pairwise fun x y => (key x = .lt → key y = .lt) ∧ (key y = .gt → key x = .gt)

theorem KeyMono.reverse {xs : List α} (h : KeyMono key xs) :
    KeyMono (fun x => (key x).swap) xs.reverse := by
  refine List.pairwise_reverse.mpr (h.imp fun {x y} hxy => ⟨fun hlt => ?_, fun hgt => ?_⟩)
  · rw [Ordering.swap_eq_lt] at *
    exact hxy.2 hlt
  · rw [Ordering.swap_eq_gt] at *
    exact hxy.1 hgt

/-- If the first node that is not below the key does not match it, no node does. -/
theorem KeyMono.ne_eq_of_find? {xs : List α} (h : KeyMono key xs) {p : α → Bool}
    (hp : ∀ x, p x = (key x != .gt)) {a : α} (ha : xs.find? p = some a) (hne : key a ≠ .eq) :
    ∀ b ∈ xs, key b ≠ .eq := by
  obtain ⟨hpa, as, bs, rfl, has⟩ := List.find?_eq_some_iff_append.mp ha
  have halt : key a = .lt := by
    rw [hp a] at hpa
    cases hk : key a <;> simp_all
  intro b hb
  rcases List.mem_append.mp hb with hb | hb
  · have := has b hb
    rw [hp b] at this
    intro heq
    simp [heq] at this
  · rcases List.mem_cons.mp hb with rfl | hb
    · exact hne
    · have := ((List.pairwise_cons.mp (List.pairwise_append.mp h).2.1).1 b hb).1 halt
      rw [this]
      simp

theorem KeyMono.gt {xs : List α} (h : KeyMono key xs) :
    xs.Pairwise fun x y => key y = .gt → key x = .gt :=
  h.imp fun hxy => hxy.2

theorem KeyMono.ge {xs : List α} (h : KeyMono key xs) :
    xs.Pairwise fun x y => key y ≠ .lt → key x ≠ .lt :=
  h.imp fun hxy hy hx => hy (hxy.1 hx)

/-- If the last node that is not above the key does not match it, no node does. -/
theorem KeyMono.ne_eq_of_find?_reverse {xs : List α} (h : KeyMono key xs) {p : α → Bool}
    (hp : ∀ x, p x = (key x != .lt)) {a : α} (ha : xs.reverse.find? p = some a)
    (hne : key a ≠ .eq) :
    ∀ b ∈ xs, key b ≠ .eq := by
  intro b hb heq
  refine h.reverse.ne_eq_of_find? (fun x => ?_) ha (fun hs => hne ?_) b (List.mem_reverse.mpr hb) ?_
  · rw [hp x]
    cases key x <;> rfl
  · rwa [Ordering.swap_eq_eq] at hs
  · rw [Ordering.swap_eq_eq]
    exact heq

/-! ## What the searches find -/

/-- The iterator is at the node, or at nothing; its path leads from the root to the node. -/
structure ItAt (s : BinaryTree α) (it : RbIterator α) (node : Option α) : Prop where
  get : iteratorGet it = node
  path : it = [] ∨ s.IsPath it.reverse

theorem itAt_lastVisit (p f : α → Bool) :
    ItAt s ((lastVisit p (visits f s [])).getD [])
      ((lastVisit p (visits f s [])).bind List.head?) := by
  cases hl : lastVisit p (visits f s []) with
  | none => exact ⟨rfl, Or.inl rfl⟩
  | some st =>
      obtain ⟨pre, s', post, hspot⟩ := Hangs.root.visits_spot _ (lastVisit_some hl).1
      exact ⟨rfl, Or.inr hspot.isPath⟩

/-- A search that positions an iterator finds the node that the kind `p` of its last turns says. -/
theorem isearchLoop_at (h : t.Rep s) {p : α → Bool} {node : Option α}
    (hpq : ∀ a, p a = (marked step key .found a || marked step key .near a))
    (hp : (lastVisit p (visits (goesRight step key) s [])).bind List.head? = node)
    (hq : ∀ a, node = some a → marked step key .found a = false →
      ∀ b ∈ s.inorder, marked step key .found b = false) :
    ∃ it, isearchLoop t step key rbMaxTreeHeight t.root [] none 0 = some it ∧ ItAt s it node := by
  have hloop := isearchLoop_spec step key h.linked [] rbMaxTreeHeight h.height none [] (by simp)
    (List.suffix_refl _)
  have hor := lastVisit_or (visits (goesRight step key) s []) hpq fun a st hl hqa b st' hb => by
    rw [hl] at hp
    exact hq a hp.symm hqa b (mem_of_mem_visits hb)
  refine ⟨(lastVisit p (visits (goesRight step key) s [])).getD [], ?_, hp ▸ itAt_lastVisit p _⟩
  rw [h.root]
  refine hloop.trans ?_
  rw [Option.or_none, ← hor]
  cases lastVisit (marked step key .found) (visits (goesRight step key) s []) <;> rfl

/-- The last visit of a walk that goes to the right below the key, or up to it. -/
theorem head?_lastVisit_gt (hmono : KeyMono key s.inorder) :
    (lastVisit (fun x => key x != .gt) (visits (fun x => key x == .gt) s [])).bind List.head? =
      s.inorder.find? (fun x => key x != .gt) ∧
    (lastVisit (fun x => key x == .gt) (visits (fun x => key x == .gt) s [])).bind List.head? =
      s.inorder.reverse.find? (fun x => key x == .gt) :=
  head?_lastVisit (t := s) (by simpa using hmono.gt)

theorem head?_lastVisit_ge (hmono : KeyMono key s.inorder) :
    (lastVisit (fun x => key x == .lt) (visits (fun x => key x != .lt) s [])).bind List.head? =
      s.inorder.find? (fun x => key x == .lt) ∧
    (lastVisit (fun x => key x != .lt) (visits (fun x => key x != .lt) s [])).bind List.head? =
      s.inorder.reverse.find? (fun x => key x != .lt) := by
  have hright : s.inorder.Pairwise fun x y => (key y != .lt) = true →
      (key x != .lt) = true := by simpa using hmono.ge
  have hleft : (fun x => key x == .lt) = fun x => !(key x != .lt) :=
    funext fun x => by cases key x <;> rfl
  rw [hleft]
  exact head?_lastVisit hright

theorem isearchGe_spec (h : t.Rep s) (hmono : KeyMono key s.inorder) :
    ∃ it, isearchGe t key = some it ∧ ItAt s it (s.inorder.find? fun x => key x != .gt) := by
  have hright : goesRight isearchGeStep key = fun x => key x == .gt :=
    funext fun x => by unfold goesRight; cases key x <;> rfl
  have hfound : ∀ x, marked isearchGeStep key .found x = (key x == .eq) :=
    fun x => by unfold marked; cases key x <;> rfl
  refine isearchLoop_at h (p := fun x => key x != .gt)
    (fun x => by unfold marked; cases key x <;> rfl) ?_ ?_
  · rw [hright]
    exact (head?_lastVisit_gt hmono).1
  · intro a ha hne b hb
    rw [hfound] at hne ⊢
    simpa using hmono.ne_eq_of_find? (fun _ => rfl) ha (by simpa using hne) b hb

theorem isearchLe_spec (h : t.Rep s) (hmono : KeyMono key s.inorder) :
    ∃ it, isearchLe t key = some it ∧
      ItAt s it (s.inorder.reverse.find? fun x => key x != .lt) := by
  have hright : goesRight isearchLeStep key = fun x => key x != .lt :=
    funext fun x => by unfold goesRight; cases key x <;> rfl
  have hfound : ∀ x, marked isearchLeStep key .found x = (key x == .eq) :=
    fun x => by unfold marked; cases key x <;> rfl
  refine isearchLoop_at h (p := fun x => key x != .lt)
    (fun x => by unfold marked; cases key x <;> rfl) ?_ ?_
  · rw [hright]
    exact (head?_lastVisit_ge hmono).2
  · intro a ha hne b hb
    rw [hfound] at hne ⊢
    simpa using hmono.ne_eq_of_find?_reverse (fun _ => rfl) ha (by simpa using hne) b hb

theorem isearchGt_spec (h : t.Rep s) (hmono : KeyMono key s.inorder) :
    ∃ it, isearchGt t key = some it ∧ ItAt s it (s.inorder.find? fun x => key x == .lt) := by
  have hright : goesRight isearchGtStep key = fun x => key x != .lt :=
    funext fun x => by unfold goesRight; cases key x <;> rfl
  have hfound : ∀ x, marked isearchGtStep key .found x = false :=
    fun x => by unfold marked; cases key x <;> rfl
  refine isearchLoop_at h (p := fun x => key x == .lt)
    (fun x => by unfold marked; cases key x <;> rfl) ?_
    fun _ _ _ b _ => hfound b
  rw [hright]
  exact (head?_lastVisit_ge hmono).1

theorem isearchLt_spec (h : t.Rep s) (hmono : KeyMono key s.inorder) :
    ∃ it, isearchLt t key = some it ∧
      ItAt s it (s.inorder.reverse.find? fun x => key x == .gt) := by
  have hright : goesRight isearchLtStep key = fun x => key x == .gt :=
    funext fun x => by unfold goesRight; cases key x <;> rfl
  have hfound : ∀ x, marked isearchLtStep key .found x = false :=
    fun x => by unfold marked; cases key x <;> rfl
  refine isearchLoop_at h (p := fun x => key x == .gt)
    (fun x => by unfold marked; cases key x <;> rfl) ?_
    fun _ _ _ b _ => hfound b
  rw [hright]
  exact (head?_lastVisit_gt hmono).2

/-- `nsearch` returns the last node that matches, or else the first one above the key. -/
theorem nsearch_spec (h : t.Rep s) (hmono : KeyMono key s.inorder) :
    nsearch t key =
      some ((s.inorder.reverse.find? fun x => key x == .eq).or (s.inorder.find? fun x =>
        key x == .lt)) := by
  have hright : goesRight nsearchStep key = fun x => key x != .lt :=
    funext fun x => by unfold goesRight; cases key x <;> rfl
  have hfound : marked nsearchStep key .found = fun x => key x == .eq :=
    funext fun x => by unfold marked; cases key x <;> rfl
  have hnear : marked nsearchStep key .near = fun x => key x == .lt :=
    funext fun x => by unfold marked; cases key x <;> rfl
  have hlast := head?_lastVisit_of_imp (q := fun x => key x == .eq) (fun a ha => by simp_all)
    (head?_lastVisit_ge hmono).2 (fun a st hmem => List.mem_reverse.mpr (mem_of_mem_visits hmem))
    fun a ha hne b hb => by
      simpa using hmono.ne_eq_of_find?_reverse (fun _ => rfl) ha (by simpa using hne) b
        (List.mem_reverse.mp hb)
  rw [nsearch, h.root, searchLoop_spec h.linked [] _ h.height, hright, hfound, hnear, hlast,
    (head?_lastVisit_ge hmono).1, Option.or_none, Option.or_none]

/-- `psearch` returns the first node that matches, or else the last one below the key. -/
theorem psearch_spec (h : t.Rep s) (hmono : KeyMono key s.inorder) :
    psearch t key =
      some ((s.inorder.find? fun x => key x == .eq).or (s.inorder.reverse.find? fun x =>
        key x == .gt)) := by
  have hright : goesRight psearchStep key = fun x => key x == .gt :=
    funext fun x => by unfold goesRight; cases key x <;> rfl
  have hfound : marked psearchStep key .found = fun x => key x == .eq :=
    funext fun x => by unfold marked; cases key x <;> rfl
  have hnear : marked psearchStep key .near = fun x => key x == .gt :=
    funext fun x => by unfold marked; cases key x <;> rfl
  have hfirst := head?_lastVisit_of_imp (q := fun x => key x == .eq) (fun a ha => by simp_all)
    (head?_lastVisit_gt hmono).1 (fun a st hmem => mem_of_mem_visits hmem)
    fun a ha hne b hb => by
      simpa using hmono.ne_eq_of_find? (fun _ => rfl) ha (by simpa using hne) b hb
  rw [psearch, h.root, searchLoop_spec h.linked [] _ h.height, hright, hfound, hnear, hfirst,
    (head?_lastVisit_gt hmono).2, Option.or_none, Option.or_none]

/-- The search that stops at the first match it meets. -/
theorem matchLoop_spec {T : BinaryTree α} (h : RbLinked t.left t.right s) (hs : Hangs T st s)
    (hmono : KeyMono key s.inorder) (fuel : Nat) (hfuel : s.height ≤ fuel) :
    (∃ a st', matchLoop t key fuel s.root? st = some (true, a :: st') ∧ key a = .eq ∧
        T.IsPath (a :: st').reverse) ∨
    matchLoop t key fuel s.root? st = some (false, []) ∧ ∀ x ∈ s.inorder, key x ≠ .eq := by
  induction s generalizing st fuel with
  | nil => exact Or.inr ⟨by cases fuel <;> rfl, by simp [inorder]⟩
  | node a l r ihl ihr =>
      obtain ⟨hl, hr, hll, hlr⟩ := h
      obtain ⟨pre, post, hspot⟩ := hs.spot
      obtain ⟨hml, hma, hlar⟩ := List.pairwise_append.mp hmono
      obtain ⟨har, hmr⟩ := List.pairwise_cons.mp hma
      cases fuel with
      | zero => simp [BinaryTree.height] at hfuel
      | succ fuel =>
          have hfl : l.height ≤ fuel := by simp only [BinaryTree.height] at hfuel; omega
          have hfr : r.height ≤ fuel := by simp only [BinaryTree.height] at hfuel; omega
          rw [root?, matchLoop]
          cases hk : key a with
          | eq => exact Or.inl ⟨a, st, rfl, hk, hspot.isPath⟩
          | lt =>
              -- all nodes behind this one are above the key
              simp only [hl]
              rcases ihl hll (.left hspot) hml fuel hfl with hfound | ⟨heq, hnone⟩
              · exact Or.inl hfound
              · refine Or.inr ⟨heq, fun x hx => ?_⟩
                rcases List.mem_append.mp hx with hx | hx
                · exact hnone x hx
                · rcases List.mem_cons.mp hx with rfl | hx
                  · simp [hk]
                  · simp [(har x hx).1 hk]
          | gt =>
              simp only [hr]
              rcases ihr hlr (.right hspot) hmr fuel hfr with hfound | ⟨heq, hnone⟩
              · exact Or.inl hfound
              · refine Or.inr ⟨heq, fun x hx => ?_⟩
                rcases List.mem_append.mp hx with hx | hx
                · simp [(hlar x hx a (by simp)).2 hk]
                · rcases List.mem_cons.mp hx with rfl | hx
                  · simp [hk]
                  · exact hnone x hx

end Searches

/-! ## Search trees -/

variable {cmp : α → α → Ordering}

/-- The pointers form the search tree `s`, which is not higher than an iterator can follow. -/
structure SearchTree (cmp : α → α → Ordering) (t : RbLinks α) (s : BinaryTree α) : Prop where
  root : t.root = s.root?
  linked : RbLinked t.left t.right s
  sorted : s.inorder.Pairwise fun x y => cmp x y = .lt
  height : s.height ≤ rbMaxTreeHeight

theorem SearchTree.rep [Std.TransCmp cmp] (h : SearchTree cmp t s) : t.Rep s where
  root := h.root
  linked := h.linked
  nodup := h.sorted.imp fun {x y} hlt heq => by
    have heq' : cmp y y = .eq := Std.ReflCmp.compare_self
    rw [heq, heq'] at hlt
    simp at hlt
  height := h.height

/-- The comparison with a node is monotone. -/
theorem SearchTree.keyMono [Std.TransCmp cmp] (h : SearchTree cmp t s) (node : α) :
    KeyMono (cmp node) s.inorder :=
  h.sorted.imp fun hlt => ⟨fun hx => Std.TransCmp.lt_trans hx hlt,
    fun hy => Std.TransCmp.gt_trans hy (Std.OrientedCmp.gt_of_lt hlt)⟩

/-- What the searches for a key return. -/
structure Searches (t : RbLinks α) (s : BinaryTree α) (key : α → Ordering) : Prop where
  /-- The first node not below the key. -/
  ge : ∃ it, isearchGe t key = some it ∧ ItAt s it (s.inorder.find? fun x => key x != .gt)
  /-- The first node above the key. -/
  gt : ∃ it, isearchGt t key = some it ∧ ItAt s it (s.inorder.find? fun x => key x == .lt)
  /-- The last node not above the key. -/
  le : ∃ it, isearchLe t key = some it ∧ ItAt s it (s.inorder.reverse.find? fun x => key x != .lt)
  /-- The last node below the key. -/
  lt : ∃ it, isearchLt t key = some it ∧ ItAt s it (s.inorder.reverse.find? fun x => key x == .gt)
  isearch : (∃ it x, isearch t key = some (true, it) ∧ key x = .eq ∧ ItAt s it (some x)) ∨
    isearch t key = some (false, []) ∧ ∀ x ∈ s.inorder, key x ≠ .eq
  /-- The last node that matches, or else the first one above the key. -/
  nsearch : nsearch t key =
    some ((s.inorder.reverse.find? fun x => key x == .eq).or (s.inorder.find? fun x =>
      key x == .lt))
  /-- The first node that matches, or else the last one below the key. -/
  psearch : psearch t key =
    some ((s.inorder.find? fun x => key x == .eq).or (s.inorder.reverse.find? fun x =>
      key x == .gt))

/-- The calls of `step` return the nodes `nodes` one after another, and then `NULL`; the path of the
iterator leads to the node that is next. -/
def Enumerates (step : RbIterator α → Option (Option α × RbIterator α)) (s : BinaryTree α)
    (it : RbIterator α) (nodes : List α) : Prop :=
  ∀ n, ∃ it', isteps step n it = some ((nodes.map some ++ List.replicate n none).take n, it') ∧
  ItAt s it' nodes[n]?

structure SearchTree.Exact [DecidableEq α] (cmp : α → α → Ordering) (t : RbLinks α)
    (s : BinaryTree α) : Prop where
  searches : ∀ key, KeyMono key s.inorder → Searches t s key
  icreate : ∀ node, (∃ it x, icreate t cmp node = some (true, it) ∧ cmp node x = .eq ∧
      ItAt s it (some x)) ∨
    icreate t cmp node = some (false, []) ∧ ∀ x ∈ s.inorder, cmp node x ≠ .eq
  ifirst : ∃ it, ifirst t = some it ∧ ItAt s it s.inorder.head?
  ilast : ∃ it, ilast t = some it ∧ ItAt s it s.inorder.getLast?
  inext : ∀ it before cur after, s.inorder = before ++ cur :: after → ItAt s it (some cur) →
    Enumerates (inext t) s it (cur :: after)
  iprev : ∀ it before cur after, s.inorder = before ++ cur :: after → ItAt s it (some cur) →
    Enumerates (iprev t) s it (cur :: before.reverse)
  nothing : Enumerates (SmallAllocators.inext t) s [] [] ∧
    Enumerates (SmallAllocators.iprev t) s [] []

theorem matchLoop_at {key : α → Ordering} (h : t.Rep s) (hmono : KeyMono key s.inorder) :
    (∃ it x, matchLoop t key rbMaxTreeHeight t.root [] = some (true, it) ∧ key x = .eq ∧
        ItAt s it (some x)) ∨
    matchLoop t key rbMaxTreeHeight t.root [] = some (false, []) ∧ ∀ x ∈ s.inorder,
    key x ≠ .eq := by
  rw [h.root]
  rcases matchLoop_spec h.linked .root hmono rbMaxTreeHeight h.height with
    ⟨a, st, heq, hk, hpath⟩ | hnone
  · exact Or.inl ⟨_, a, heq, hk, rfl, Or.inr hpath⟩
  · exact Or.inr hnone

theorem RbLinks.Rep.searches {key : α → Ordering} (h : t.Rep s) (hmono : KeyMono key s.inorder) :
    Searches t s key where
  ge := isearchGe_spec h hmono
  gt := isearchGt_spec h hmono
  le := isearchLe_spec h hmono
  lt := isearchLt_spec h hmono
  isearch := matchLoop_at h hmono
  nsearch := nsearch_spec h hmono
  psearch := psearch_spec h hmono

/-- The spot of an iterator is determined by its node. -/
theorem Located.of_itAt (hnodup : s.inorder.Nodup) {it before after : List α} {cur : α}
    (hs : s.inorder = before ++ cur :: after) (hat : ItAt s it (some cur)) :
    Located s it before cur after := by
  have hget : it.head? = some cur := hat.get
  have hpath : s.IsPath it.reverse := by
    rcases hat.path with rfl | hpath
    · simp at hget
    · exact hpath
  obtain ⟨pre, s', post, hspot⟩ := hpath.spot
  rw [List.reverse_reverse] at hspot
  obtain ⟨before', cur', after', hloc⟩ := located_of_spot hspot
  have hcur : cur' = cur := by
    have := hloc.isPath.2
    rw [hget, Option.some.injEq] at this
    exact this.symm
  subst hcur
  have heq := hloc.inorder_eq
  rw [hs] at heq
  rw [hs] at hnodup
  obtain ⟨-, h2, h3⟩ := List.nodup_append.mp hnodup
  obtain ⟨rfl, -, rfl⟩ := (List.append_cons_inj_of_notMem (fun hmem => h3 _ hmem _ (by simp) rfl)
    (List.nodup_cons.mp h2).1).mp heq
  exact hloc

/-- `ifirst`, and `ilast` in the mirror image. -/
theorem goDown_at {left right : α → Option α} (h : RbLinked left right s)
    (hheight : s.height ≤ rbMaxTreeHeight) :
    ∃ it, (match s.root? with
      | none => some []
      | some root => goDown left rbMaxTreeHeight root []) = some it ∧
          ItAt s it s.inorder.head? := by
  cases s with
  | nil => exact ⟨[], rfl, rfl, Or.inl rfl⟩
  | node a l r =>
      obtain ⟨it, cur, after, heq, hloc, hafter⟩ :=
        goDown_spec h (.root rfl) rbMaxTreeHeight hheight
      obtain ⟨hpath, hhead⟩ := hloc.isPath
      refine ⟨it, heq, ?_, Or.inr hpath⟩
      rw [iteratorGet, hhead]
      rw [List.append_nil] at hafter
      rw [← hafter]
      rfl

theorem ItAt.mirror {it : List α} {node : Option α} (h : ItAt s it node) : ItAt s.mirror it node :=
  ⟨h.get, h.path.imp_right IsPath.mirror⟩

theorem ifirst_at (h : t.Rep s) : ∃ it, ifirst t = some it ∧ ItAt s it s.inorder.head? := by
  rw [ifirst, h.root]
  exact goDown_at h.linked h.height

theorem ilast_at (h : t.Rep s) : ∃ it, ilast t = some it ∧ ItAt s it s.inorder.getLast? := by
  obtain ⟨it, heq, hat⟩ := goDown_at h.linked.mirror (by rw [height_mirror]; exact h.height)
  rw [root?_mirror] at heq
  rw [inorder_mirror, List.head?_reverse] at hat
  have hat' := hat.mirror
  rw [mirror_mirror] at hat'
  rw [ilast, h.root]
  exact ⟨it, heq, hat'⟩

section Exact

variable [DecidableEq α]

theorem Enumerates.of_located {left right : α → Option α} (h : RbLinked left right s)
    (hnodup : s.inorder.Nodup) (hheight : s.height ≤ rbMaxTreeHeight) {it before after : List α}
    {cur : α} (hloc : Located s it before cur after) :
    Enumerates (istep right left) s it (cur :: after) := by
  intro n
  obtain ⟨it', heq, hpath, hget⟩ := isteps_spec h hnodup hheight n hloc
  exact ⟨it', heq, hget, hpath⟩

theorem Enumerates.nil (left right : α → Option α) : Enumerates (istep right left) s [] [] := by
  intro n
  exact ⟨[], by rw [isteps_nil]; simp, by simp [iteratorGet], Or.inl rfl⟩

theorem inext_enumerates (h : t.Rep s) {it before after : List α} {cur : α}
    (hs : s.inorder = before ++ cur :: after) (hat : ItAt s it (some cur)) :
    Enumerates (inext t) s it (cur :: after) :=
  .of_located h.linked h.nodup h.height (.of_itAt h.nodup hs hat)

theorem iprev_enumerates (h : t.Rep s) {it before after : List α} {cur : α}
    (hs : s.inorder = before ++ cur :: after) (hat : ItAt s it (some cur)) :
    Enumerates (iprev t) s it (cur :: before.reverse) := by
  have hnodup : s.mirror.inorder.Nodup := by
    rw [inorder_mirror]
    exact List.nodup_reverse.mpr h.nodup
  have hs' : s.mirror.inorder = after.reverse ++ cur :: before.reverse := by
    rw [inorder_mirror, hs]
    simp
  have henum := Enumerates.of_located h.linked.mirror hnodup (by rw [height_mirror]; exact h.height)
    (.of_itAt hnodup hs' hat.mirror)
  intro n
  obtain ⟨it', heq, hat'⟩ := henum n
  have hat'' := hat'.mirror
  rw [mirror_mirror] at hat''
  exact ⟨it', heq, hat''⟩

/-- **The searches and the iterators of a red-black tree are exact**, for every search tree that
is not higher than an iterator can follow. -/
theorem rb_search_tree_exact [Std.TransCmp cmp] (h : SearchTree cmp t s) :
    SearchTree.Exact cmp t s := by
  have hrep := h.rep
  constructor
  case searches => exact fun key hmono => hrep.searches hmono
  case icreate => exact fun node => matchLoop_at hrep (h.keyMono node)
  case ifirst => exact ifirst_at hrep
  case ilast => exact ilast_at hrep
  case inext => exact fun it before cur after hs hat => inext_enumerates hrep hs hat
  case iprev => exact fun it before cur after hs hat => iprev_enumerates hrep hs hat
  case nothing => exact ⟨Enumerates.nil _ _, Enumerates.nil _ _⟩

/-- The tree of the nodes 1, 2 and 3. -/
def threeLinks : RbLinks Nat where
  root := some 2
  left := fun a => if a = 2 then some 1 else none
  right := fun a => if a = 2 then some 3 else none

def threeNodes : BinaryTree Nat := .node 2 (.node 1 .nil .nil) (.node 3 .nil .nil)

theorem rb_search_tree_exact_three :
    SearchTree compare threeLinks threeNodes ∧ SearchTree.Exact compare threeLinks threeNodes := by
  have h : SearchTree compare threeLinks threeNodes :=
    ⟨rfl, ⟨rfl, rfl, ⟨rfl, rfl, trivial, trivial⟩, rfl, rfl, trivial,
    trivial⟩, by decide, by decide⟩
  exact ⟨h, rb_search_tree_exact h⟩

end Exact

end SmallAllocators
