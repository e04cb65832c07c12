/-
SmallAllocators.Rb.Height — how high a tree can be.

`RB_MAX_TREE_HEIGHT` is the length of the paths of the iterators and walks of
`include/small/rb.h`. It is enough for a tree of fewer than 3 * 2^24 - 2
nodes, whatever the order of `insert` and `remove`
(`rb_max_tree_height_enough`). The nodes can be inserted so that a tree of
3 * 2^24 - 2 nodes is higher, and `ifirst` overruns its path
(`rb_max_tree_height_exceeded`): the comment at the constant takes the height of
a tree for the logarithm of its size.
-/
import SmallAllocators.Rb.Descending
import SmallAllocators.Rb.Runs
import SmallAllocators.Rb.Walk

namespace SmallAllocators

open ColorTree

variable {α ν : Type}

/-- The number of nodes from which a tree can be higher than `RB_MAX_TREE_HEIGHT`. -/
def rbTallNodes : Nat := 3 * 2 ^ 24 - 2

/-! ## The pointers of a tree -/

/-- The pointers that searches, iterators and walks follow. -/
def RbTree.links (t : RbTree α ν) : RbLinks α where
  root := t.root
  left a := (t.node a).left
  right a := (t.node a).right

namespace ColorTree

/-- The tree without its colours and values. -/
def binary : ColorTree α ν → BinaryTree α
  | nil => .nil
  | node a _ _ l r => .node a l.binary r.binary

@[simp] theorem root?_binary (s : ColorTree α ν) : s.binary.root? = s.root? := by
  cases s <;> rfl

@[simp] theorem inorder_binary (s : ColorTree α ν) : s.binary.inorder = s.nodes := by
  induction s with
  | nil => rfl
  | node a red v l r ihl ihr => simp [binary, BinaryTree.inorder, nodes, ihl, ihr]

@[simp] theorem height_binary (s : ColorTree α ν) : s.binary.height = s.height := by
  induction s with
  | nil => rfl
  | node a red v l r ihl ihr => simp [binary, BinaryTree.height, height, ihl, ihr]

end ColorTree

theorem Rep.linked {t : RbTree α ν} {s : ColorTree α ν} (h : Rep t s) :
    RbLinked t.links.left t.links.right s.binary := by
  induction s with
  | nil => trivial
  | node a red v l r ihl ihr =>
      obtain ⟨ha, hl, hr⟩ := h
      exact ⟨by simp [RbTree.links, ha], by simp [RbTree.links, ha], ihl hl, ihr hr⟩

variable [DecidableEq α]

/-- What the paths of iterators and walks are for: no search, step or walk fails for want of
room. -/
structure RbLinks.Traversable (t : RbLinks α) (s : BinaryTree α) : Prop where
  searches : ∀ key, KeyMono key s.inorder → Searches t s key
  ifirst : ∃ it, ifirst t = some it ∧ ItAt s it s.inorder.head?
  ilast : ∃ it, ilast t = some it ∧ ItAt s it s.inorder.getLast?
  inext : ∀ it before cur after, s.inorder = before ++ cur :: after → ItAt s it (some cur) →
    Enumerates (inext t) s it (cur :: after)
  iprev : ∀ it before cur after, s.inorder = before ++ cur :: after → ItAt s it (some cur) →
    Enumerates (iprev t) s it (cur :: before.reverse)
  walk : ∀ (dirs : α → Nat) (dir : Nat), ∃ visits, ∀ n,
    walkCalls t dirs (n + visits.length + 1) (walkInit t) dir = some visits

theorem RbLinks.Rep.traversable {t : RbLinks α} {s : BinaryTree α} (h : t.Rep s) :
    t.Traversable s := by
  constructor
  case searches => exact fun key hmono => h.searches hmono
  case ifirst => exact ifirst_at h
  case ilast => exact ilast_at h
  case inext => exact fun it before cur after hs hat => inext_enumerates h hs hat
  case iprev => exact fun it before cur after hs hat => iprev_enumerates h hs hat
  case walk =>
    intro dirs dir
    refine ⟨(s.guided (walksLeft dirs) (walksRight dirs)).map t.visit, fun n => ?_⟩
    rw [List.length_map]
    exact walkCalls_guided h dirs dir n

/-! ## Trees that are low enough -/

section Low

variable {f : α → Option ν → Option ν → ν} {cmp : α → α → Ordering} {s : RbState α ν}

omit [DecidableEq α] in
/-- A tree higher than `RB_MAX_TREE_HEIGHT` has 25 black nodes on each path and 24 red ones on
the longest, or more black ones. -/
theorem Balanced.height_le_rbMaxTreeHeight {shape : ColorTree α ν} {n : Nat}
    (h : Balanced shape false n) (hlen : shape.nodes.length < rbTallNodes) :
    shape.height ≤ rbMaxTreeHeight := by
  by_contra hhigh
  simp only [rbMaxTreeHeight, rbTallNodes, Nat.not_le] at hhigh hlen
  have hsize := h.pow_add_pow_le
  have hle := h.height_le
  simp only [Bool.toNat_false] at hle
  rcases Nat.lt_or_ge 25 n with hn | hn
  · have hpow : 2 ^ 26 ≤ 2 ^ n := Nat.pow_le_pow_right (by decide) hn
    have hpos := Nat.two_pow_pos (shape.height - n)
    omega
  · obtain rfl : n = 25 := by omega
    have hpow : 2 ^ 24 ≤ 2 ^ (shape.height - 25) := Nat.pow_le_pow_right (by decide) (by omega)
    omega

/-- The client's rules can be checked. -/
instance RbOp.decidableAllowed (s : RbState α ν) (op : RbOp α) : Decidable (op.Allowed s) :=
  match op with
  | .insert a => inferInstanceAs (Decidable (a ∉ s.live ∧ s.live.length + 2 < 2 ^ 64))
  | .remove a => inferInstanceAs (Decidable (a ∈ s.live))

omit [DecidableEq α] in
/-- An insertion leaves fewer nodes than a tree needs to be higher than `RB_MAX_TREE_HEIGHT`. -/
def RbOp.Low (s : RbState α ν) : RbOp α → Prop
  | .insert _ => s.live.length + 1 < rbTallNodes
  | .remove _ => True

/-- The runs whose insertions keep the number of nodes below that. -/
def rbLowMachine (f : α → Option ν → Option ν → ν) (cmp : α → α → Ordering) :
    Machine (RbState α ν) (RbOp α) :=
  { rbMachine f cmp with allowed := fun s op => op.Allowed s ∧ op.Low s }

omit [DecidableEq α] in
/-- What a client sees of a tree that is not higher than the paths are long. -/
structure RbState.Low [DecidableEq α] (s : RbState α ν) (shape : ColorTree α ν) : Prop where
  root : s.tree.root = shape.root?
  rep : Rep s.tree shape
  nodes : shape.nodes.Perm s.live
  height : shape.height ≤ rbMaxTreeHeight
  traversable : s.tree.links.Traversable shape.binary

theorem RbOp.exec_low [Std.TransCmp cmp] [Std.LawfulEqCmp cmp]
    (h : s.Inv f cmp ∧ s.live.length < rbTallNodes) (op : RbOp α)
    (hop : op.Allowed s ∧ op.Low s) :
    ∃ s', op.exec f cmp s = some s' ∧ s'.Inv f cmp ∧ s'.live.length < rbTallNodes := by
  obtain ⟨hinv, hlen⟩ := h
  obtain ⟨s', hex, hinv'⟩ := RbOp.exec_inv hinv op hop.1
  refine ⟨s', hex, hinv', ?_⟩
  cases op with
  | insert node =>
      obtain ⟨t', -, hs'⟩ := Option.bind_eq_some_iff.1 hex
      cases hs'
      exact hop.2
  | remove node =>
      obtain ⟨t', -, hs'⟩ := Option.bind_eq_some_iff.1 hex
      cases hs'
      exact Nat.lt_of_le_of_lt List.length_erase_le hlen

theorem RbState.Inv.low [Std.TransCmp cmp] [Std.LawfulEqCmp cmp] (h : s.Inv f cmp)
    (hlen : s.live.length < rbTallNodes) :
    ∃ shape, s.Low shape := by
  obtain ⟨⟨nodes, ⟨shape, n, hroot, hrep, -, hb, rfl⟩, hord, hperm⟩, -⟩ := h
  have hheight := Balanced.height_le_rbMaxTreeHeight hb (by rw [hperm.length_eq]; exact hlen)
  refine ⟨shape, hroot, hrep, hperm, hheight, RbLinks.Rep.traversable ?_⟩
  exact ⟨by simpa [RbTree.links] using hroot, hrep.linked, by simpa using hord.nodup, by
    simpa using hheight⟩

/-- **`RB_MAX_TREE_HEIGHT` bounds every tree of fewer than 3 * 2^24 - 2 nodes**, in every run of
`insert` and `remove`. -/
theorem rb_max_tree_height_enough [Std.TransCmp cmp] [Std.LawfulEqCmp cmp]
    (hs : (rbLowMachine f cmp).Reachable s) :
    (∃ shape, s.Low shape) ∧ ∀ op : RbOp α, op.Allowed s ∧ op.Low s →
      ∃ s', op.exec f cmp s = some s' := by
  have hinit : ∀ s, (rbLowMachine f cmp).init s → s.Inv f cmp ∧ s.live.length < rbTallNodes := by
    intro s h
    have hlive : s.live = [] := h.2
    refine ⟨.of_init h, ?_⟩
    rw [hlive, List.length_nil]
    decide
  obtain ⟨⟨hinv, hlen⟩, hstep⟩ :=
    (rbLowMachine f cmp).invariant hinit (fun s op h hop => RbOp.exec_low h op hop) hs
  refine ⟨hinv.low hlen, fun op hop => ?_⟩
  obtain ⟨s', hex, -⟩ := hstep op hop
  exact ⟨s', hex⟩

end Low

/-- A tree of the numbers 1, 2 and 3. -/
theorem rb_max_tree_height_enough_three :
    ∃ s : RbState Nat Nat, (rbLowMachine countNodes compare).Reachable s ∧ s.live = [1, 2, 3] ∧
      ∃ shape, s.Low shape := by
  have h0 : (rbLowMachine countNodes compare).Reachable ⟨⟨none, fun _ => ⟨none, none, false, 0⟩⟩,
      []⟩ := .init ⟨rfl, rfl⟩
  have h1 := Machine.Reachable.step (M := rbLowMachine countNodes compare) (.insert 3) h0
    ⟨⟨by decide, by decide⟩, (by decide : 1 < rbTallNodes)⟩ rfl
  have h2 := Machine.Reachable.step (M := rbLowMachine countNodes compare) (.insert 2) h1
    ⟨⟨by decide, by decide⟩, (by decide : 2 < rbTallNodes)⟩ rfl
  have h3 := Machine.Reachable.step (M := rbLowMachine countNodes compare) (.insert 1) h2
    ⟨⟨by decide, by decide⟩, (by decide : 3 < rbTallNodes)⟩ rfl
  exact ⟨_, h3, rfl, (rb_max_tree_height_enough h3).1⟩

/-! ## A tree that is too high -/

omit [DecidableEq α] in
/-- `ifirst` has no room for a left spine that is longer than its path. -/
theorem Spine.goDown_eq_none {t : RbTree α ν} {s : ColorTree α ν} {k n fuel : Nat}
    (h : Spine k n s) (hrep : Rep t s) (hfuel : fuel < n) (path : RbIterator α) :
    ∃ a, s.root? = some a ∧ goDown t.links.left fuel a path = none := by
  induction h generalizing fuel path with
  | nil => omega
  | @one k n a v l r hl hr ih =>
      obtain ⟨ha, hlrep, -⟩ := hrep
      have hleft : t.links.left a = l.root? := by simp [RbTree.links, ha]
      refine ⟨a, rfl, ?_⟩
      cases fuel with
      | zero => rfl
      | succ fuel =>
          obtain ⟨c, hc, hgo⟩ := ih hlrep (Nat.lt_of_succ_lt_succ hfuel) (a :: path)
          simp [goDown, hleft, hc, hgo]
  | @two k n a b v w l r r' hl hr' hr ih =>
      obtain ⟨ha, ⟨hb, hlrep, -⟩, -⟩ := hrep
      have hleft : t.links.left a = some b := by simp [RbTree.links, ha, root?]
      have hleft' : t.links.left b = l.root? := by simp [RbTree.links, hb]
      refine ⟨a, rfl, ?_⟩
      cases fuel with
      | zero => rfl
      | succ fuel =>
          cases fuel with
          | zero => simp [goDown, hleft]
          | succ fuel =>
              have hfuel' : fuel < n := by omega
              obtain ⟨c, hc, hgo⟩ := ih hlrep hfuel' (b :: a :: path)
              simp [goDown, hleft, hleft', hc, hgo]

/-- The insertions of `n`, `n - 1` and so on to 1. -/
def descending : Nat → List (RbOp Nat)
  | 0 => []
  | n + 1 => .insert (n + 1) :: descending n

@[simp] theorem length_descending (n : Nat) : (descending n).length = n := by
  induction n with
  | zero => rfl
  | succ n ih => simp [descending, ih]

/-- Each insertion in descending order is at the end of the left spine. -/
theorem run_descending {f : Nat → Option ν → Option ν → ν} (n : Nat) (s : RbState Nat ν)
    (hspine : HoldsSpine s.tree s.live) (hnodup : s.live.Nodup) (hgt : ∀ y ∈ s.live, n < y)
    (hlen : s.live.length + n + 1 < 2 ^ 63) :
    ∃ s', (rbMachine f compare).run (fun s op => decide (op.Allowed s)) (descending n) s = some s' ∧
      HoldsSpine s'.tree s'.live ∧ s'.live.length = s.live.length + n := by
  induction n generalizing s with
  | zero => exact ⟨s, rfl, hspine, rfl⟩
  | succ n ih =>
      have habs : n + 1 ∉ s.live := fun hmem => Nat.lt_irrefl _ (hgt _ hmem)
      have hnodup' : ((n + 1) :: s.live).Nodup := List.nodup_cons.2 ⟨habs, hnodup⟩
      have hlt : ∀ y ∈ s.live, compare (n + 1) y = .lt := fun y hy => Nat.compare_eq_lt.2 (hgt y hy)
      obtain ⟨t', heq, hspine'⟩ := rbInsert_spine (f := f) hspine hnodup' hlt (by omega)
      have hgt' : ∀ y ∈ (n + 1) :: s.live, n < y := by
        intro y hy
        rcases List.mem_cons.1 hy with rfl | hy
        · exact Nat.lt_succ_self n
        · exact Nat.lt_of_succ_lt (hgt y hy)
      obtain ⟨s', hrun, hspine'', hlen'⟩ := ih ⟨t', (n + 1) :: s.live⟩ hspine' hnodup' hgt'
        (by rw [List.length_cons]; omega)
      refine ⟨s', ?_, hspine'', ?_⟩
      · have hallowed : (RbOp.insert (n + 1)).Allowed s := ⟨habs, by omega⟩
        simpa [descending, Machine.run, rbMachine, RbOp.exec, hallowed, heq] using hrun
      · rw [hlen', List.length_cons]
        omega

/-- **A run of 3 * 2^24 - 2 operations makes a tree that is higher than `RB_MAX_TREE_HEIGHT`**,
and an assertion of `ifirst` fails. -/
theorem rb_max_tree_height_exceeded :
    (descending rbTallNodes).length ≤ 2 ^ 48 ∧ ∃ s : RbState Nat Nat,
    (rbMachine countNodes compare).run (fun s op => decide (op.Allowed s)) (descending rbTallNodes)
      ⟨⟨none, fun _ => ⟨none, none, false, 0⟩⟩, []⟩ = some s ∧
    (∃ shape, s.tree.root = shape.root? ∧ Rep s.tree shape ∧ rbMaxTreeHeight < shape.height) ∧
    ifirst s.tree.links = none := by
  have hsmall : rbTallNodes < 2 ^ 26 := by decide
  obtain ⟨s, hrun, ⟨shape, k, n, hroot, hrep, hspine, hnodes⟩, hlen⟩ :=
    run_descending (f := countNodes) rbTallNodes
    ⟨⟨none, fun _ => ⟨none, none, false, 0⟩⟩, []⟩ ⟨.nil, 0, 0, rfl, trivial, .nil,
    rfl⟩ List.nodup_nil (by simp)
    (by simp only [List.length_nil]; omega)
  have hn : n = 49 := hspine.eq_of_length (by rw [hnodes, hlen]; exact Nat.zero_add _)
  have hheight := hspine.le_height
  obtain ⟨a, ha, hgo⟩ := hspine.goDown_eq_none hrep (show rbMaxTreeHeight < n by rw [hn]; decide) []
  refine ⟨by rw [length_descending]; omega, s, hrun, ⟨shape, hroot, hrep, ?_⟩, ?_⟩
  · rw [hn] at hheight
    exact hheight
  · have hlinks : s.tree.links.root = some a := hroot.trans ha
    simp [ifirst, hlinks, hgo]

end SmallAllocators
