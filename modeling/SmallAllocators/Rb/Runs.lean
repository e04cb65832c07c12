/-
SmallAllocators.Rb.Runs — runs of `insert` and `remove`.

A client inserts nodes that are not in the tree and removes nodes that are.
`live` has the nodes it inserted and did not remove. There are fewer nodes
than addresses, so that a path has room for the height of the tree.
-/
import SmallAllocators.Lib.Runs
import SmallAllocators.Rb.Remove

namespace SmallAllocators

open ColorTree

/-- A tree, and the nodes that the client inserted and did not remove. -/
structure RbState (α ν : Type) where
  tree : RbTree α ν
  live : List α

inductive RbOp (α : Type) where
  | insert (node : α)
  | remove (node : α)

variable {α ν : Type}

def RbOp.Allowed (s : RbState α ν) : RbOp α → Prop
  | .insert a => a ∉ s.live ∧ s.live.length + 2 < 2 ^ 64
  | .remove a => a ∈ s.live

variable [DecidableEq α]

def RbOp.exec (f : α → Option ν → Option ν → ν) (cmp : α → α → Ordering) (s : RbState α ν) :
    RbOp α → Option (RbState α ν)
  | .insert a => do
    let tree ← rbInsert f cmp s.tree a
    some { tree := tree, live := a :: s.live }
  | .remove a => do
    let tree ← rbRemove f cmp s.tree a
    some { tree := tree, live := s.live.erase a }

def rbMachine (f : α → Option ν → Option ν → ν) (cmp : α → α → Ordering) :
    Machine (RbState α ν) (RbOp α) where
  init s := s.tree.root = none ∧ s.live = []
  allowed s op := op.Allowed s
  exec s op := op.exec f cmp s

variable {f : α → Option ν → Option ν → ν} {cmp : α → α → Ordering} {s : RbState α ν}

omit [DecidableEq α] in
/-- The tree is balanced and augmented, in order, and has the client's nodes. -/
structure RbState.Inv (f : α → Option ν → Option ν → ν) (cmp : α → α → Ordering)
    (s : RbState α ν) : Prop where
  tree : ∃ nodes, HoldsTree f s.tree nodes ∧ InOrder cmp nodes ∧ nodes.Perm s.live
  length : s.live.length + 1 < 2 ^ 64

theorem RbState.Inv.of_init (h : (rbMachine f cmp).init s) : s.Inv f cmp := by
  obtain ⟨hroot, hlive⟩ := h
  refine ⟨⟨[], ⟨.nil, 0, hroot, trivial, trivial, .nil, rfl⟩, List.Pairwise.nil, by rw [hlive]⟩, ?_⟩
  simp only [hlive, List.length_nil]
  decide

theorem RbOp.exec_inv [Std.TransCmp cmp] [Std.LawfulEqCmp cmp] (h : s.Inv f cmp) (op : RbOp α)
    (hop : op.Allowed s) : ∃ s', op.exec f cmp s = some s' ∧ s'.Inv f cmp := by
  obtain ⟨⟨nodes, hholds, hord, hperm⟩, hlen⟩ := h
  have hlen' : nodes.length + 1 < 2 ^ 64 := by rw [hperm.length_eq]; exact hlen
  cases op with
  | insert node =>
      obtain ⟨habs, hroom⟩ := hop
      obtain ⟨t', nodes', heq, hholds', hord', hperm'⟩ :=
        rbInsert_spec hholds hord (fun hm => habs (hperm.mem_iff.1 hm)) hlen'
      refine ⟨⟨t', node :: s.live⟩, by simp [RbOp.exec, heq], ⟨nodes', hholds', hord', ?_⟩, hroom⟩
      exact hperm'.trans (hperm.cons node)
  | remove node =>
      obtain ⟨t', before, after, heq, rfl, hholds'⟩ :=
        rbRemove_spec hholds hord (hperm.mem_iff.2 hop) hlen'
      have hperm' : (before ++ after).Perm (s.live.erase node) := by
        refine List.Perm.trans ?_ (hperm.erase node)
        refine List.Perm.trans ?_ (List.perm_middle.symm.erase node)
        rw [List.erase_cons_head]
      refine ⟨⟨t', s.live.erase node⟩, by simp [RbOp.exec, heq],
        ⟨before ++ after, hholds', ?_, hperm'⟩, ?_⟩
      · exact List.Pairwise.sublist ((List.sublist_cons_self _ _).append_left _) hord
      · have hle := List.length_erase_le (a := node) (l := s.live)
        simp only at hle ⊢
        omega

/-! ## Balance and values -/

omit [DecidableEq α] in
/-- What a client sees of the tree: `shape` is the tree that the nodes form. -/
structure RbState.Exact (f : α → Option ν → Option ν → ν) (cmp : α → α → Ordering) (s : RbState α ν)
    (shape : ColorTree α ν) (n : Nat) : Prop where
  root : s.tree.root = shape.root?
  rep : Rep s.tree shape
  /-- The nodes are those the client inserted and did not remove, in search order. -/
  nodes : shape.nodes.Perm s.live
  order : InOrder cmp shape.nodes
  rootBlack : s.tree.isRed s.tree.root = false
  rightBlack : ∀ a ∈ s.live, s.tree.isRed (s.tree.node a).right = false
  leftBlack : ∀ a ∈ s.live, (s.tree.node a).red = true → s.tree.isRed (s.tree.node a).left = false
  paths : ∀ k ∈ shape.pathBlacks, k = n
  value : ∀ a ∈ s.live, (s.tree.node a).value =
    f a ((s.tree.node a).left.map fun b => (s.tree.node b).value)
      ((s.tree.node a).right.map fun b => (s.tree.node b).value)

omit [DecidableEq α] in
/-- The colours and the value of each node. -/
theorem Rep.fields {t : RbTree α ν} {shape : ColorTree α ν} {c : Bool} {n : Nat} (h : Rep t shape)
    (haug : shape.Aug f) (hb : Balanced shape c n) : ∀ a ∈ shape.nodes,
      t.isRed (t.node a).right = false ∧ ((t.node a).red = true → t.isRed (t.node a).left = false) ∧
      (t.node a).value = f a ((t.node a).left.map fun b => (t.node b).value)
        ((t.node a).right.map fun b => (t.node b).value) := by
  induction hb with
  | nil => simp [ColorTree.nodes]
  | @red b v l r n hl hr ihl ihr =>
      obtain ⟨hnode, hlrep, hrrep⟩ := h
      intro a ha
      simp only [ColorTree.nodes, List.mem_append, List.mem_cons] at ha
      rcases ha with ha | rfl | ha
      · exact ihl hlrep haug.2.1 a ha
      · simp only [hnode]
        exact ⟨hrrep.isRed hr, fun _ => hlrep.isRed hl, by
          rw [hlrep.value?, hrrep.value?]; exact haug.1⟩
      · exact ihr hrrep haug.2.2 a ha
  | @black b v l r c n hl hr ihl ihr =>
      obtain ⟨hnode, hlrep, hrrep⟩ := h
      intro a ha
      simp only [ColorTree.nodes, List.mem_append, List.mem_cons] at ha
      rcases ha with ha | rfl | ha
      · exact ihl hlrep haug.2.1 a ha
      · simp only [hnode]
        exact ⟨hrrep.isRed hr, by simp, by rw [hlrep.value?, hrrep.value?]; exact haug.1⟩
      · exact ihr hrrep haug.2.2 a ha

/-- **An augmented red-black tree stays balanced and augmented** in every run of `insert` and
`remove`, for every order and every augmentation, and no assertion fails. -/
theorem rb_augmented_balanced [Std.TransCmp cmp] [Std.LawfulEqCmp cmp]
    (hs : (rbMachine f cmp).Reachable s) :
    (∃ shape n, s.Exact f cmp shape n) ∧ ∀ op : RbOp α, op.Allowed s →
      ∃ s', op.exec f cmp s = some s' := by
  obtain ⟨⟨⟨nodes, ⟨shape, n, hroot, hrep, haug, hb, rfl⟩, hord, hperm⟩, -⟩, hstep⟩ :=
    (rbMachine f cmp).invariant (fun s h => .of_init h)
      (fun s op h hop => RbOp.exec_inv h op hop) hs
  refine ⟨⟨shape, n, ?_⟩, fun op hop => ?_⟩
  · have hfields := hrep.fields haug hb
    constructor
    case root => exact hroot
    case rep => exact hrep
    case nodes => exact hperm
    case order => exact hord
    case rootBlack =>
      rw [hroot]
      exact hrep.isRed hb
    case rightBlack => exact fun a ha => (hfields a (hperm.mem_iff.2 ha)).1
    case leftBlack => exact fun a ha => (hfields a (hperm.mem_iff.2 ha)).2.1
    case paths => exact hb.pathBlacks
    case value => exact fun a ha => (hfields a (hperm.mem_iff.2 ha)).2.2
  · obtain ⟨s', hex, -⟩ := hstep op hop
    exact ⟨s', hex⟩

/-- The number of nodes in a subtree. -/
def countNodes (_ : Nat) (l r : Option Nat) : Nat := l.getD 0 + r.getD 0 + 1

theorem rb_augmented_balanced_three :
    ∃ s : RbState Nat Nat, (rbMachine countNodes compare).Reachable s ∧ s.live = [3, 2] ∧
      s.tree.root = some 3 ∧
      (s.tree.node 3).value = 2 ∧ ∃ shape n, s.Exact countNodes compare shape n := by
  have h0 : (rbMachine countNodes compare).Reachable ⟨⟨none, fun _ => ⟨none, none, false, 0⟩⟩,
      []⟩ := .init ⟨rfl, rfl⟩
  have h1 := Machine.Reachable.step (M := rbMachine countNodes compare) (.insert 1) h0
    ⟨by decide, by decide⟩ rfl
  have h2 := Machine.Reachable.step (M := rbMachine countNodes compare) (.insert 2) h1
    ⟨by decide, by decide⟩ rfl
  have h3 := Machine.Reachable.step (M := rbMachine countNodes compare) (.insert 3) h2
    ⟨by decide, by decide⟩ rfl
  have h4 := Machine.Reachable.step (M := rbMachine countNodes compare) (.remove 1) h3
    (show 1 ∈ [3, 2, 1] by decide) rfl
  exact ⟨_, h4, rfl, rfl, rfl, (rb_augmented_balanced h4).1⟩

end SmallAllocators
