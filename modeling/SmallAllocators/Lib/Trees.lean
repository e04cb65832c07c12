/-
SmallAllocators.Lib.Trees — positions in a binary tree.

A walk from the root keeps the nodes it visited on a stack, the last one
first. `Spot` relates the stack to the subtree it leads to and to the nodes
before and after that subtree in order. `guided` is the pre-order of the part
of the tree that some edges lead to. `visits` is a walk that decides at
each node to which side it goes; when the nodes that send it to the right
are an initial part of the order, the walk is a bisection: the last node
that sent it to the right is the last one of that part, and the last node
that sent it to the left is the first one behind it.
-/
import Mathlib.Data.List.Basic
import Mathlib.Data.List.Infix
import Mathlib.Data.Tree.Basic

namespace BinaryTree

universe u

variable {α : Type u}

def inorder : BinaryTree α → List α
  | nil => []
  | node a l r => l.inorder ++ a :: r.inorder

def mirror : BinaryTree α → BinaryTree α
  | nil => nil
  | node a l r => node a r.mirror l.mirror

/-- The node at the root. -/
def root? : BinaryTree α → Option α
  | nil => none
  | node a _ _ => some a

theorem mirror_mirror (t : BinaryTree α) : t.mirror.mirror = t := by
  induction t with
  | nil => rfl
  | node a l r ihl ihr => simp [mirror, ihl, ihr]

theorem inorder_mirror (t : BinaryTree α) : t.mirror.inorder = t.inorder.reverse := by
  induction t with
  | nil => rfl
  | node a l r ihl ihr => simp [mirror, inorder, ihl, ihr]

theorem height_mirror (t : BinaryTree α) : t.mirror.height = t.height := by
  induction t with
  | nil => rfl
  | node a l r ihl ihr => simp [mirror, height, ihl, ihr, Nat.max_comm]

theorem root?_mirror (t : BinaryTree α) : t.mirror.root? = t.root? := by
  cases t <;> rfl

theorem root?_mem {t : BinaryTree α} {a : α} (h : t.root? = some a) : a ∈ t.inorder := by
  cases t with
  | nil => simp [root?] at h
  | node b l r =>
      rw [root?, Option.some.injEq] at h
      simp [inorder, h]

theorem root?_eq_none {t : BinaryTree α} (h : t.root? = none) : t = nil := by
  cases t with
  | nil => rfl
  | node b l r => simp [root?] at h

/-- The list is a path from the root, which is its first node. -/
def IsPath : BinaryTree α → List α → Prop
  | nil, _ => False
  | node _ _ _, [] => False
  | node a l r, b :: p => b = a ∧ (p = [] ∨ l.IsPath p ∨ r.IsPath p)

theorem IsPath.mirror {t : BinaryTree α} {p : List α} (h : t.IsPath p) : t.mirror.IsPath p := by
  induction t generalizing p with
  | nil => exact h
  | node a l r ihl ihr =>
      cases p with
      | nil => exact h
      | cons b p =>
          obtain ⟨hb, hp | hp | hp⟩ := h
          · exact ⟨hb, Or.inl hp⟩
          · exact ⟨hb, Or.inr (Or.inr (ihl hp))⟩
          · exact ⟨hb, Or.inr (Or.inl (ihr hp))⟩

/-! ## Guided pre-order -/

/-- The nodes in pre-order. -/
def preorder : BinaryTree α → List α
  | nil => []
  | node a l r => a :: (l.preorder ++ r.preorder)

/-- The nodes in pre-order, without the subtrees to which the node above does not allow to go. -/
def guided (goLeft goRight : α → Bool) : BinaryTree α → List α
  | nil => []
  | node a l r =>
    a :: ((if goLeft a then l.guided goLeft goRight else []) ++ if goRight a then
        r.guided goLeft goRight else [])

/-- The node can be reached from the root through edges that the nodes above them allow. -/
inductive Leads (goLeft goRight : α → Bool) : BinaryTree α → α → Prop where
  | root {a : α} {l r : BinaryTree α} : Leads goLeft goRight (node a l r) a
  | left {a b : α} {l r : BinaryTree α} : goLeft a = true → Leads goLeft goRight l b →
      Leads goLeft goRight (node a l r) b
  | right {a b : α} {l r : BinaryTree α} : goRight a = true → Leads goLeft goRight r b →
      Leads goLeft goRight (node a l r) b

section Guided

variable {goLeft goRight : α → Bool}

theorem preorder_perm (t : BinaryTree α) : t.preorder.Perm t.inorder := by
  induction t with
  | nil => exact .nil
  | node a l r ihl ihr =>
      have h : (a :: (l.preorder ++ r.preorder)).Perm (a :: (l.inorder ++ r.inorder)) :=
        (ihl.append ihr).cons a
      exact h.trans List.perm_middle.symm

theorem guided_sublist (t : BinaryTree α) : (t.guided goLeft goRight).Sublist t.preorder := by
  induction t with
  | nil => exact List.Sublist.refl _
  | node a l r ihl ihr =>
      refine List.Sublist.cons_cons a (List.Sublist.append ?_ ?_)
      · split
        · exact ihl
        · exact List.nil_sublist _
      · split
        · exact ihr
        · exact List.nil_sublist _

theorem guided_nodup {t : BinaryTree α} (h : t.inorder.Nodup) : (t.guided goLeft goRight).Nodup :=
  (t.preorder_perm.nodup_iff.2 h).sublist t.guided_sublist

theorem mem_guided_iff {t : BinaryTree α} {b : α} :
    b ∈ t.guided goLeft goRight ↔ Leads goLeft goRight t b := by
  constructor
  · intro h
    induction t with
    | nil => simp [guided] at h
    | node a l r ihl ihr =>
        rw [guided, List.mem_cons, List.mem_append] at h
        rcases h with rfl | h | h
        · exact .root
        · split at h
          · next hl => exact .left hl (ihl h)
          · simp at h
        · split at h
          · next hr => exact .right hr (ihr h)
          · simp at h
  · intro h
    induction h with
    | root => simp [guided]
    | left hl _ ih => simp [guided, hl, ih]
    | right hr _ ih => simp [guided, hr, ih]

/-- With all edges allowed, all nodes are visited. -/
theorem guided_eq_preorder {t : BinaryTree α}
    (h : ∀ a ∈ t.inorder, goLeft a = true ∧ goRight a = true) :
    t.guided goLeft goRight = t.preorder := by
  induction t with
  | nil => rfl
  | node a l r ihl ihr =>
      obtain ⟨hl, hr⟩ := h a (by simp [inorder])
      rw [guided, preorder, hl, hr, ihl fun b hb => h b (by simp [inorder, hb]),
        ihr fun b hb => h b (by simp [inorder, hb])]
      simp

end Guided

/-! ## Spots -/

/-- The stack leads from the root of `t` to a subtree; the nodes before and after the subtree are in
the two lists. -/
inductive Spot (t : BinaryTree α) : List α → List α → BinaryTree α → List α → Prop where
  | root {a : α} {l r : BinaryTree α} (h : t = node a l r) : Spot t [a] [] t []
  | left {st pre post : List α} {a b : α} {l l' r : BinaryTree α}
      (h : Spot t (a :: st) pre (node a (node b l l') r) post) :
      Spot t (b :: a :: st) pre (node b l l') (a :: r.inorder ++ post)
  | right {st pre post : List α} {a b : α} {l r r' : BinaryTree α}
      (h : Spot t (a :: st) pre (node a l (node b r r')) post) :
      Spot t (b :: a :: st) (pre ++ l.inorder ++ [a]) (node b r r') post

variable {t s : BinaryTree α} {st pre post : List α}

theorem Spot.inorder_eq (h : Spot t st pre s post) : t.inorder = pre ++ s.inorder ++ post := by
  induction h with
  | root h => simp
  | left h ih => rw [ih]; simp [inorder]
  | right h ih => rw [ih]; simp [inorder]

theorem Spot.top (h : Spot t st pre s post) : ∃ a st' l r, st = a :: st' ∧ s = node a l r := by
  cases h with
  | root h => exact ⟨_, _, _, _, rfl, h⟩
  | left h => exact ⟨_, _, _, _, rfl, rfl⟩
  | right h => exact ⟨_, _, _, _, rfl, rfl⟩

theorem Spot.height_le (h : Spot t st pre s post) : st.length + s.height ≤ t.height + 1 := by
  induction h with
  | root h => simp [Nat.add_comm]
  | left h ih => simp only [List.length_cons, height] at *; omega
  | right h ih => simp only [List.length_cons, height] at *; omega

/-- A subtree hangs below the last node of the stack, or is the whole tree. -/
inductive Hangs (t : BinaryTree α) : List α → BinaryTree α → Prop where
  | root : Hangs t [] t
  | left {st pre post : List α} {a : α} {l r : BinaryTree α}
      (h : Spot t (a :: st) pre (node a l r) post) :
      Hangs t (a :: st) l
  | right {st pre post : List α} {a : α} {l r : BinaryTree α}
      (h : Spot t (a :: st) pre (node a l r) post) :
      Hangs t (a :: st) r

theorem Hangs.spot {a : α} {l r : BinaryTree α} (h : Hangs t st (node a l r)) :
    ∃ pre post, Spot t (a :: st) pre (node a l r) post := by
  generalize hs : node a l r = s at h
  cases h with
  | root => exact ⟨[], [], Spot.root hs.symm⟩
  | left h => subst hs; exact ⟨_, _, Spot.left h⟩
  | right h => subst hs; exact ⟨_, _, Spot.right h⟩

/-- A path in a subtree, behind the stack that leads there, is a spot. -/
theorem Hangs.spot_of_isPath {p : List α} (h : Hangs t st s) (hp : s.IsPath p) :
    ∃ pre s' post, Spot t (p.reverse ++ st) pre s' post := by
  induction s generalizing st p with
  | nil => exact absurd hp id
  | node a l r ihl ihr =>
      cases p with
      | nil => exact absurd hp id
      | cons b p =>
          obtain ⟨rfl, hp⟩ := hp
          obtain ⟨pre, post, hspot⟩ := h.spot
          rw [List.reverse_cons, List.append_assoc, List.singleton_append]
          rcases hp with rfl | hp | hp
          · exact ⟨pre, _, post, hspot⟩
          · exact ihl (.left hspot) hp
          · exact ihr (.right hspot) hp

theorem IsPath.spot {p : List α} (h : t.IsPath p) : ∃ pre s post, Spot t p.reverse pre s post := by
  have := Hangs.root.spot_of_isPath h
  rwa [List.append_nil] at this

/-- A path in the subtree, behind the nodes above it, is a path from the root. -/
theorem Spot.isPath_append {p : List α} (h : Spot t st pre s post) (hp : s.IsPath p) :
    t.IsPath (st.tail.reverse ++ p) := by
  induction h generalizing p with
  | root h => exact hp
  | left h ih =>
      have := ih (p := _ :: p) ⟨rfl, Or.inr (Or.inl hp)⟩
      simpa using this
  | right h ih =>
      have := ih (p := _ :: p) ⟨rfl, Or.inr (Or.inr hp)⟩
      simpa using this

theorem Spot.isPath (h : Spot t st pre s post) : t.IsPath st.reverse := by
  obtain ⟨a, st', l, r, rfl, rfl⟩ := h.top
  have := h.isPath_append (p := [a]) ⟨rfl, Or.inl rfl⟩
  simpa using this

/-! ## Bisection -/

/-- The stacks of a walk that goes to the right at the nodes with `right`, to the left at others. -/
def visits (right : α → Bool) : BinaryTree α → List α → List (List α)
  | nil, _ => []
  | node a l r, st => (a :: st) :: if right a then visits right r (a :: st)
      else visits right l (a :: st)

variable {right : α → Bool}

theorem Hangs.visits_spot (h : Hangs t st s) :
    ∀ st' ∈ visits right s st, ∃ pre s' post, Spot t st' pre s' post := by
  induction s generalizing st with
  | nil => intro st' hst; simp [visits] at hst
  | node a l r ihl ihr =>
      obtain ⟨pre, post, hspot⟩ := h.spot
      intro st' hst
      rw [visits, List.mem_cons] at hst
      rcases hst with rfl | hst
      · exact ⟨pre, _, post, hspot⟩
      · split at hst
        · exact ihr (.right hspot) st' hst
        · exact ihl (.left hspot) st' hst

/-- The last stack of a walk whose top has `p`. -/
def lastVisit (p : α → Bool) (vs : List (List α)) : Option (List α) :=
  vs.reverse.find? fun st => st.head?.any p

theorem lastVisit_cons (p : α → Bool) (st : List α) (vs : List (List α)) :
    lastVisit p (st :: vs) = (lastVisit p vs).or (if st.head?.any p then some st else none) := by
  unfold lastVisit
  rw [List.reverse_cons, List.find?_append, List.find?_singleton]

theorem lastVisit_some {p : α → Bool} {vs : List (List α)} (h : lastVisit p vs = some st) :
    st ∈ vs ∧ ∃ a st', st = a :: st' ∧ p a = true := by
  refine ⟨List.mem_reverse.mp (List.mem_of_find?_eq_some h), ?_⟩
  have := List.find?_some h
  cases st with
  | nil => simp at this
  | cons a st' => exact ⟨a, st', rfl, by simpa using this⟩

/-- The top of the last visit, when there is an earlier visit to a node with `p`. -/
theorem head?_lastVisit_or {p : α → Bool} {vs : List (List α)} {a : α} :
    ((lastVisit p vs).or (some (a :: st))).bind List.head? = ((lastVisit p vs).bind List.head?).or
      (some a) := by
  cases h : lastVisit p vs with
  | none => rfl
  | some st' =>
      obtain ⟨-, b, st'', rfl, -⟩ := lastVisit_some h
      rfl

/-- **Bisection**: the last node that sends the walk to the left is the first one of the second
part of the order, and the last one that sends it to the right is the last one of the first
part. -/
theorem lastVisit_visits (st xs ys : List α) (hs : s.inorder = xs ++ ys)
    (hxs : ∀ x ∈ xs, right x = true) (hys : ∀ y ∈ ys, right y = false) :
    (lastVisit (fun a => !right a) (visits right s st)).bind List.head? = ys.head? ∧
    (lastVisit right (visits right s st)).bind List.head? = xs.getLast? := by
  induction s generalizing st xs ys with
  | nil =>
      obtain ⟨rfl, rfl⟩ := List.append_eq_nil_iff.mp hs.symm
      exact ⟨rfl, rfl⟩
  | node a l r ihl ihr =>
      rw [visits, lastVisit_cons, lastVisit_cons]
      rcases List.append_eq_append_iff.mp hs with ⟨as, hxs', has⟩ | ⟨bs, hl, hys'⟩
      · cases as with
        | nil =>
            -- the second part starts with the node
            have ha : right a = false := hys a (by rw [← List.nil_append ys, ← has]; simp)
            obtain ⟨h1, h2⟩ := ihl (a :: st) l.inorder [] (by simp)
              (by simpa [hxs'] using hxs) (by simp)
            rw [List.nil_append] at has
            simp only [ha, Bool.false_eq_true, if_false, List.head?_cons, Option.any_some,
              Bool.not_false, if_true, Option.or_none, head?_lastVisit_or, h1, h2]
            refine ⟨by rw [← has]; rfl, by rw [hxs']; simp⟩
        | cons b as =>
            -- the node is in the first part
            rw [List.cons_append, List.cons.injEq] at has
            obtain ⟨rfl, hr⟩ := has
            have ha : right a = true := hxs a (by rw [hxs']; simp)
            obtain ⟨h1, h2⟩ :=
              ihr (a :: st) as ys hr (fun x hx => hxs x (by rw [hxs']; simp [hx])) hys
            simp only [ha, if_true, List.head?_cons, Option.any_some, Bool.not_true,
              Bool.false_eq_true, if_false, Option.or_none, head?_lastVisit_or, h1, h2]
            refine ⟨trivial, ?_⟩
            rw [hxs', List.getLast?_append, List.getLast?_cons]
            cases as.getLast? <;> rfl
      · -- the node is in the second part
        have ha : right a = false := hys a (by rw [hys']; simp)
        obtain ⟨h1, h2⟩ := ihl (a :: st) xs bs hl hxs fun y hy => hys y (by rw [hys']; simp [hy])
        simp only [ha, Bool.false_eq_true, if_false, List.head?_cons, Option.any_some,
          Bool.not_false, if_true, Option.or_none, head?_lastVisit_or, h1, h2]
        refine ⟨?_, trivial⟩
        rw [hys', List.head?_append]
        rfl

/-- The nodes that a walk visits are those of the tree. -/
theorem mem_of_mem_visits {a : α} (h : a :: st ∈ visits right t []) : a ∈ t.inorder := by
  obtain ⟨pre, s, post, hspot⟩ := Hangs.root.visits_spot _ h
  obtain ⟨b, st', l, r, hst, rfl⟩ := hspot.top
  rw [List.cons.injEq] at hst
  rw [hspot.inorder_eq, hst.1]
  simp [inorder]

/-- A decreasing predicate splits the list. -/
theorem exists_split {p : α → Bool} {zs : List α}
    (h : zs.Pairwise fun x y => p y = true → p x = true) :
    ∃ xs ys, zs = xs ++ ys ∧ (∀ x ∈ xs, p x = true) ∧ (∀ y ∈ ys, p y = false) ∧
      zs.find? (fun x => !p x) = ys.head? ∧ zs.reverse.find? p = xs.getLast? := by
  induction zs with
  | nil => exact ⟨[], [], rfl, by simp, by simp, rfl, rfl⟩
  | cons z zs ih =>
      obtain ⟨hz, hzs⟩ := List.pairwise_cons.mp h
      cases hp : p z with
      | true =>
          obtain ⟨xs, ys, rfl, hxs, hys, h1, h2⟩ := ih hzs
          refine ⟨z :: xs, ys, rfl, by simpa [hp] using hxs, hys, by simpa [hp] using h1, ?_⟩
          rw [List.reverse_cons, List.find?_append, h2, List.getLast?_cons]
          cases xs.getLast? <;> simp [hp]
      | false =>
          have hall : ∀ y ∈ z :: zs, p y = false := by
            intro y hy
            rcases List.mem_cons.mp hy with rfl | hy
            · exact hp
            · have := hz y hy
              cases hpy : p y with
              | true => exact absurd (this hpy) (by simp [hp])
              | false => rfl
          refine ⟨[], z :: zs, rfl, by simp, hall, by simp [hp], ?_⟩
          rw [List.find?_eq_none.mpr]
          · rfl
          · intro x hx
            simp [hall x (List.mem_reverse.mp hx)]

/-- The last visit to a node that sends the walk to the left is the one to the first such node in
order; for the right, to the last one. -/
theorem head?_lastVisit (h : t.inorder.Pairwise fun x y => right y = true → right x = true) :
    (lastVisit (fun a => !right a) (visits right t [])).bind List.head? =
      t.inorder.find? (fun a => !right a) ∧
    (lastVisit right (visits right t [])).bind List.head? = t.inorder.reverse.find? right := by
  obtain ⟨xs, ys, hs, hxs, hys, h1, h2⟩ := exists_split h
  rw [h1, h2]
  exact lastVisit_visits [] xs ys hs hxs hys

theorem lastVisit_eq_none {p : α → Bool} {vs : List (List α)}
    (h : ∀ a st, a :: st ∈ vs → p a = false) :
    lastVisit p vs = none := by
  cases hl : lastVisit p vs with
  | none => rfl
  | some st =>
      obtain ⟨hmem, a, st', rfl, ha⟩ := lastVisit_some hl
      rw [h a st' hmem] at ha
      exact absurd ha (by simp)

theorem eq_false_of_lastVisit {p : α → Bool} {vs : List (List α)} (h : lastVisit p vs = none)
    {a : α} (hmem : a :: st ∈ vs) : p a = false := by
  have := List.find?_eq_none.mp h (a :: st) (List.mem_reverse.mpr hmem)
  simpa using this

/-- The last visit to a node with `p` is the last one to a node with `q`, if it has `q`. -/
theorem lastVisit_of_imp {p q : α → Bool} {vs : List (List α)}
    (hqp : ∀ a, q a = true → p a = true) {a : α} (h : lastVisit p vs = some (a :: st))
    (ha : q a = true) : lastVisit q vs = some (a :: st) := by
  unfold lastVisit at h ⊢
  rw [List.find?_eq_some_iff_append] at h ⊢
  obtain ⟨-, as, bs, hvs, has⟩ := h
  refine ⟨by simpa using ha, as, bs, hvs, fun st' hst => ?_⟩
  have := has st' hst
  cases st' with
  | nil => rfl
  | cons b st' =>
      simp only [List.head?_cons, Option.any_some, Bool.not_eq_true'] at this ⊢
      cases hq : q b with
      | true => rw [hqp b hq] at this; exact absurd this (by simp)
      | false => rfl

/-- A search that remembers two kinds of nodes, of which the first counts. -/
theorem lastVisit_or {p q q' : α → Bool} (vs : List (List α)) (hpq : ∀ a, p a = (q a || q' a))
    (h : ∀ a st, lastVisit p vs = some (a :: st) → q a = false → ∀ b st', b :: st' ∈ vs →
      q b = false) :
    (lastVisit q vs).or (lastVisit q' vs) = lastVisit p vs := by
  cases hl : lastVisit p vs with
  | none =>
      have hnone : ∀ a st, a :: st ∈ vs → q a = false ∧ q' a = false := by
        intro a st hmem
        have := eq_false_of_lastVisit hl hmem
        rw [hpq a] at this
        simpa using this
      rw [lastVisit_eq_none fun a st hmem => (hnone a st hmem).1,
        lastVisit_eq_none fun a st hmem => (hnone a st hmem).2]
      rfl
  | some st =>
      obtain ⟨hmem, a, st', rfl, ha⟩ := lastVisit_some hl
      cases hq : q a with
      | true =>
          rw [lastVisit_of_imp (fun b hb => by rw [hpq b, hb]; rfl) hl hq]
          rfl
      | false =>
          rw [hpq a, hq, Bool.false_or] at ha
          rw [lastVisit_eq_none (h a st' hl hq),
            lastVisit_of_imp (fun b hb => by rw [hpq b, hb, Bool.or_true]) hl ha]
          rfl

theorem find?_of_imp {p q : α → Bool} {zs : List α} (hqp : ∀ a, q a = true → p a = true) {a : α}
    (h : zs.find? p = some a) (ha : q a = true) : zs.find? q = some a := by
  rw [List.find?_eq_some_iff_append] at h ⊢
  obtain ⟨-, as, bs, hzs, has⟩ := h
  refine ⟨ha, as, bs, hzs, fun b hb => ?_⟩
  have := has b hb
  cases hq : q b with
  | true => rw [hqp b hq] at this; exact absurd this (by simp)
  | false => rfl

/-- If the last visit to a node with `p` is the one to the first node with `p` in a list, the
same holds for `q`, when no node has `q` unless that one does. -/
theorem head?_lastVisit_of_imp {p q : α → Bool} {vs : List (List α)} {zs : List α}
    (hqp : ∀ a, q a = true → p a = true) (hp : (lastVisit p vs).bind List.head? = zs.find? p)
    (hvs : ∀ a st, a :: st ∈ vs → a ∈ zs)
    (hq : ∀ a, zs.find? p = some a → q a = false → ∀ b ∈ zs, q b = false) :
    (lastVisit q vs).bind List.head? = zs.find? q := by
  have hnone : (∀ b ∈ zs, q b = false) → (lastVisit q vs).bind List.head? = zs.find? q := by
    intro hno
    rw [lastVisit_eq_none fun a st hmem => hno a (hvs a st hmem),
      List.find?_eq_none.mpr fun b hb => by simp [hno b hb]]
    rfl
  cases hl : lastVisit p vs with
  | none =>
      rw [hl] at hp
      refine hnone fun b hb => ?_
      have := List.find?_eq_none.mp hp.symm b hb
      cases hqb : q b with
      | true => exact absurd (hqp b hqb) this
      | false => rfl
  | some st =>
      obtain ⟨-, a, st', rfl, -⟩ := lastVisit_some hl
      rw [hl] at hp
      cases hqa : q a with
      | true =>
          rw [lastVisit_of_imp hqp hl hqa, find?_of_imp hqp hp.symm hqa]
          rfl
      | false => exact hnone (hq a hp.symm hqa)

end BinaryTree
