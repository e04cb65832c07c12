/-
SmallAllocators.Rb.Walk — the guided pre-order traversal of
`include/small/rb.h` (`walk_init` and `walk_next`).

The walk keeps the path to the node that it returned last, with the
directions that the caller gave for the nodes above it. When it cannot go
down, it goes up: it compares the node that it comes from with the right
child of its parent, and looks at the directions given for the parent. The
calls return exactly the nodes that the directions lead to
(`rb_walk_guided`).
-/
import SmallAllocators.Rb.Iterators

namespace SmallAllocators

/-- `RB_WALK_LEFT`. -/
def rbWalkLeft : Nat := 1

/-- `RB_WALK_RIGHT`. -/
def rbWalkRight : Nat := 2

/-- `struct walk`: `path[0].node`, and `path[0..count)` with the last entry first. The `dir` of
an entry is set by the call after the one that made the entry; until then it is 0 here. -/
structure RbWalk (α : Type) where
  root : Option α
  path : List (α × Nat)

variable {α : Type}

def walkInit (t : RbLinks α) : RbWalk α where
  root := t.root
  path := []

section Walk

variable [DecidableEq α] (t : RbLinks α)

/-- The loop that goes up from `node`; the entries of the nodes above it are `path`. The result
is the next node and the entries above that one, or `none` when `count` is 0. -/
def walkUp : α → List (α × Nat) → Option (α × List (α × Nat))
  | _, [] => none
  | node, (parent, dir) :: path =>
    match t.right parent with
    | some right =>
      if dir &&& rbWalkRight ≠ 0 ∧ right ≠ node then some (right, (parent, dir) :: path)
      else walkUp parent path
    | none => walkUp parent path

/-- Where `walk_next` goes from `node`, in the directions `dir`. -/
def walkFrom (node : α) (dir : Nat) (path : List (α × Nat)) : Option (α × List (α × Nat)) :=
  match (if dir &&& rbWalkLeft ≠ 0 then t.left node else none) with
  | some left => some (left, (node, dir) :: path)
  | none =>
    match (if dir &&& rbWalkRight ≠ 0 then t.right node else none) with
    | some right => some (right, (node, dir) :: path)
    | none => walkUp t node path

/-- What `walk_next` returns for a node: `r_left` and `r_right` are its children. -/
def RbLinks.visit (t : RbLinks α) (node : α) : α × Option α × Option α :=
  (node, t.left node, t.right node)

/-- `walk_next`. It fails when the path has no room for the node. -/
def walkNext (it : RbWalk α) (dir : Nat) : Option (Option (α × Option α × Option α) × RbWalk α) :=
  match it.path with
  | [] =>
    match it.root with
    | none => some (none, it)
    | some node => some (some (t.visit node), { it with path := [(node, 0)] })
  | (node, _) :: path =>
    match walkFrom t node dir path with
    | none => some (none, { it with path := [] })
    | some (node, path) => do
      guard (path.length < rbMaxTreeHeight)
      some (some (t.visit node), { it with path := (node, 0) :: path })

/-- What the calls of `walk_next` return until the first `NULL`, for at most `n` calls. The
first one has the directions `dir`, and each other one those that `dirs` gives for the node that
was returned. -/
def walkCalls (dirs : α → Nat) : Nat → RbWalk α → Nat → Option (List (α × Option α × Option α))
  | 0, _, _ => none
  | n + 1, it, dir => do
    let (ret, it) ← walkNext t it dir
    match ret with
    | none => some []
    | some v => (walkCalls dirs n it (dirs v.1)).map (v :: ·)

end Walk

/-! ## What the calls return -/

open BinaryTree

variable {t : RbLinks α} {s : BinaryTree α} {dirs : α → Nat} {root : Option α} {a b : α}
    {path : List (α × Nat)}
  {l r : BinaryTree α} {n : Nat}

/-- The directions for a node allow to go to its left or right child. -/
def walksLeft (dirs : α → Nat) (a : α) : Bool := dirs a &&& rbWalkLeft ≠ 0

def walksRight (dirs : α → Nat) (a : α) : Bool := dirs a &&& rbWalkRight ≠ 0

section Calls

variable [DecidableEq α]

/-- The calls from a place on the way: the next node and the entries above it, or the end of the
walk. -/
def walkRest (t : RbLinks α) (dirs : α → Nat) (root : Option α) (n : Nat) :
    Option (α × List (α × Nat)) → Option (List (α × Option α × Option α))
  | none => some []
  | some (a, path) =>
    if path.length < rbMaxTreeHeight then
      (walkCalls t dirs n ⟨root, (a, 0) :: path⟩ (dirs a)).map (t.visit a :: ·)
    else none

theorem walkCalls_succ (dir : Nat) :
    walkCalls t dirs (n + 1) ⟨root, (a, 0) :: path⟩ dir =
      walkRest t dirs root n (walkFrom t a dir path) := by
  simp only [walkCalls, walkNext]
  cases walkFrom t a dir path with
  | none => rfl
  | some place =>
      by_cases hroom :
        place.2.length < rbMaxTreeHeight <;> simp [walkRest, guard, hroom, RbLinks.visit]

/-- Where the walk goes from `a` when it does not go to the left. -/
def walkRight (t : RbLinks α) (a : α) (dir : Nat) (path : List (α × Nat)) :
    Option (α × List (α × Nat)) :=
  (if dir &&& rbWalkRight ≠ 0 then t.right a else none).elim (walkUp t a path) fun c =>
    some (c, (a, dir) :: path)

theorem walkFrom_eq (a : α) (dir : Nat) (path : List (α × Nat)) :
    walkFrom t a dir path = (if dir &&& rbWalkLeft ≠ 0 then t.left a else none).elim
      (walkRight t a dir path) fun b =>
      some (b, (a, dir) :: path) := by
  unfold walkFrom walkRight
  cases (if dir &&& rbWalkLeft ≠ 0 then t.left a else none) with
  | none => cases (if dir &&& rbWalkRight ≠ 0 then t.right a else none) <;> rfl
  | some b => rfl

/-- Coming from the left child, the walk goes to the right, if that is allowed. -/
theorem walkUp_of_left {dir : Nat} (h : t.right a ≠ some b) :
    walkUp t b ((a, dir) :: path) = walkRight t a dir path := by
  unfold walkRight
  rw [walkUp]
  cases hright : t.right a with
  | none => simp
  | some c =>
      have hne : c ≠ b := fun heq => h (by rw [hright, heq])
      by_cases hdir : dir &&& rbWalkRight ≠ 0
      · simp [hdir, hne]
      · simp [hdir]

/-- Coming from the right child, it goes up. -/
theorem walkUp_of_right {dir : Nat} (h : t.right a = some b) :
    walkUp t b ((a, dir) :: path) = walkUp t a path := by
  rw [walkUp, h]
  simp

/-- The nodes of a subtree that the directions lead to, if they allow to go there. -/
def below (dirs : α → Nat) (goes : Bool) (s : BinaryTree α) : List α :=
  if goes then s.guided (walksLeft dirs) (walksRight dirs) else []

omit [DecidableEq α] in
@[simp] theorem below_nil (dirs : α → Nat) (goes : Bool) :
    below dirs goes (.nil : BinaryTree α) = [] := by
  cases goes <;> rfl

omit [DecidableEq α] in
theorem below_true (dirs : α → Nat) (s : BinaryTree α) :
    below dirs true s = s.guided (walksLeft dirs) (walksRight dirs) := rfl

omit [DecidableEq α] in
@[simp] theorem below_false (dirs : α → Nat) (s : BinaryTree α) : below dirs false s = [] := rfl

omit [DecidableEq α] in
theorem guided_node (dirs : α → Nat) (a : α) (l r : BinaryTree α) :
    (BinaryTree.node a l r).guided (walksLeft dirs) (walksRight dirs) =
      a :: (below dirs (walksLeft dirs a) l ++ below dirs (walksRight dirs a) r) := rfl

/-- The calls that visit a subtree return the nodes that the directions lead to in it, and go on
where the walk goes up from its root. -/
theorem walkRest_subtree (dirs : α → Nat) (root : Option α) (s : BinaryTree α)
    (h : RbLinked t.left t.right s) (hnodup : s.inorder.Nodup)
    (hheight : path.length + s.height ≤ rbMaxTreeHeight) (ha : s.root? = some a) (n : Nat) :
    walkRest t dirs root (n + (s.guided (walksLeft dirs) (walksRight dirs)).length)
      (some (a, path)) =
      (walkRest t dirs root n (walkUp t a path)).map
        ((s.guided (walksLeft dirs) (walksRight dirs)).map t.visit ++ ·) := by
  induction s generalizing a path n with
  | nil => cases ha
  | node a₀ l r ihl ihr =>
      obtain rfl : a₀ = a := Option.some.inj ha
      obtain ⟨hleft, hright, hl, hr⟩ := h
      obtain ⟨hnl, hnar, hdisjoint⟩ := List.nodup_append.1 hnodup
      obtain ⟨-, hnr⟩ := List.nodup_cons.1 hnar
      have hroom : path.length < rbMaxTreeHeight := by
        simp only [BinaryTree.height] at hheight
        omega
      have hlower : ∀ dir, ((a₀, dir) :: path).length + l.height ≤ rbMaxTreeHeight ∧
          ((a₀, dir) :: path).length + r.height ≤ rbMaxTreeHeight := by
        intro dir
        simp only [BinaryTree.height, List.length_cons] at hheight ⊢
        omega
      -- the right subtree, and what comes behind it
      have hgoRight : ∀ m, walkRest t dirs root (m + (below dirs (walksRight dirs a₀) r).length)
          (walkRight t a₀ (dirs a₀) path) =
          (walkRest t dirs root m (walkUp t a₀ path)).map
            ((below dirs (walksRight dirs a₀) r).map t.visit ++ ·) := by
        intro m
        unfold walkRight
        by_cases hdir : dirs a₀ &&& rbWalkRight ≠ 0
        · have hwalks : walksRight dirs a₀ = true := decide_eq_true hdir
          rw [if_pos hdir, hwalks, hright]
          cases hroot : r.root? with
          | none => simp [root?_eq_none hroot]
          | some c =>
              rw [Option.elim_some, below_true, ihr hr hnr (hlower _).2 hroot m,
                walkUp_of_right (hright.trans hroot)]
        · have hwalks : walksRight dirs a₀ = false := decide_eq_false hdir
          rw [if_neg hdir, hwalks]
          simp
      -- the left subtree before it
      have hgo : ∀ m, walkRest t dirs root
          (m + (below dirs (walksLeft dirs a₀) l ++ below dirs (walksRight dirs a₀) r).length)
          (walkFrom t a₀ (dirs a₀) path) =
          (walkRest t dirs root m (walkUp t a₀ path)).map
            ((below dirs (walksLeft dirs a₀) l ++ below dirs (walksRight dirs a₀) r).map
              t.visit ++ ·) := by
        intro m
        rw [walkFrom_eq, List.length_append, Nat.add_comm (List.length _), ← Nat.add_assoc,
          List.map_append]
        by_cases hdir : dirs a₀ &&& rbWalkLeft ≠ 0
        · have hwalks : walksLeft dirs a₀ = true := decide_eq_true hdir
          rw [if_pos hdir, hwalks, hleft]
          cases hroot : l.root? with
          | none => simp [root?_eq_none hroot, hgoRight]
          | some b =>
              have hne : t.right a₀ ≠ some b := by
                intro heq
                have hb := root?_mem (hright ▸ heq)
                exact hdisjoint b (root?_mem hroot) b (List.mem_cons_of_mem _ hb) rfl
              rw [Option.elim_some, below_true, ihl hl hnl (hlower _).1 hroot, walkUp_of_left hne,
                hgoRight]
              simp [Function.comp_def]
        · have hwalks : walksLeft dirs a₀ = false := decide_eq_false hdir
          rw [if_neg hdir, hwalks]
          simp [hgoRight]
      rw [guided_node, List.length_cons, ← Nat.add_assoc, walkRest, if_pos hroom,
        walkCalls_succ, hgo]
      simp [Function.comp_def]

/-! ## The walk -/

/-- The calls of a walk from its start. -/
theorem walkCalls_guided (h : t.Rep s) (dirs : α → Nat) (dir n : Nat) :
    walkCalls t dirs (n + (s.guided (walksLeft dirs) (walksRight dirs)).length + 1)
      (walkInit t) dir =
      some ((s.guided (walksLeft dirs) (walksRight dirs)).map t.visit) := by
  cases hroot : s.root? with
  | none =>
      have hnone : t.root = none := h.root.trans hroot
      simp [root?_eq_none hroot, guided, walkCalls, walkNext, walkInit, hnone]
  | some a =>
      have hsome : t.root = some a := h.root.trans hroot
      have hheight : ([] : List (α × Nat)).length + s.height ≤ rbMaxTreeHeight := by
        rw [List.length_nil, Nat.zero_add]
        exact h.height
      have hsub := walkRest_subtree dirs t.root s h.linked h.nodup hheight hroot n
      rw [walkRest, List.length_nil, if_pos (by decide)] at hsub
      have hfirst : ∀ m, walkCalls t dirs (m + 1) (walkInit t) dir =
          (walkCalls t dirs m ⟨t.root, [(a, 0)]⟩ (dirs a)).map (t.visit a :: ·) := by
        intro m
        simp [walkCalls, walkNext, walkInit, hsome, RbLinks.visit]
      rw [hfirst, hsub]
      simp [walkUp, walkRest]

/-- The walk through the tree `s`, where the caller gives the directions `dirs` for the nodes
returned, and any directions `dir` to the first call. -/
structure RbLinks.Walks (t : RbLinks α) (s : BinaryTree α) (dirs : α → Nat) (dir : Nat)
    (nodes : List α) : Prop where
  /-- The nodes are returned with their children, and then `NULL`. -/
  calls : ∀ n, walkCalls t dirs (n + nodes.length + 1) (walkInit t) dir =
    some (nodes.map fun a => (a, t.left a, t.right a))
  order : nodes.Sublist s.preorder
  once : nodes.Nodup
  /-- They are the nodes that the directions lead to. -/
  mem : ∀ a, a ∈ nodes ↔ Leads (walksLeft dirs) (walksRight dirs) s a
  all : (∀ a ∈ s.inorder, walksLeft dirs a = true ∧ walksRight dirs a = true) →
    nodes = s.preorder ∧ nodes.Perm s.inorder

/-- **The walk is a guided pre-order traversal**, for every tree that is not higher than its
path. -/
theorem rb_walk_guided (h : t.Rep s) (dirs : α → Nat) (dir : Nat) :
    t.Walks s dirs dir (s.guided (walksLeft dirs) (walksRight dirs)) := by
  constructor
  case calls => exact fun n => walkCalls_guided h dirs dir n
  case order => exact guided_sublist s
  case once => exact guided_nodup h.nodup
  case mem => exact fun a => mem_guided_iff
  case all =>
    intro hall
    have heq := guided_eq_preorder hall
    exact ⟨heq, heq ▸ preorder_perm s⟩

/-- To the right from the root of three nodes. -/
theorem rb_walk_guided_three : threeLinks.Rep threeNodes ∧
    walkCalls threeLinks (fun _ => rbWalkRight) 3 (walkInit threeLinks) 0 =
    some [(2, some 1, some 3), (3, none, none)] := by
  have h : threeLinks.Rep threeNodes :=
    ⟨rfl, ⟨rfl, rfl, ⟨rfl, rfl, trivial, trivial⟩, rfl, rfl, trivial, trivial⟩,
    by decide, by decide⟩
  exact ⟨h, (rb_walk_guided h (fun _ => rbWalkRight) 0).calls 0⟩

end Calls

end SmallAllocators
