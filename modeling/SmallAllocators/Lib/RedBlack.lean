/-
SmallAllocators.Lib.RedBlack — left-leaning red-black trees whose nodes
carry a value computed from the values of their children.

`Balanced` is the balance of a tree and `Aug` says that every value is the
function `f` of the node and its children's values. A `Frame` is a node
with a hole in place of one child, and a list of frames, the innermost
first, is a tree with a hole; `Fits` says which trees may fill it. `plug`
fills the hole and computes the values of all nodes above it again.
-/
import Mathlib.Algebra.Ring.Nat
import Mathlib.Data.List.Nodup
import Mathlib.Data.List.Perm.Basic

namespace SmallAllocators

/-- A binary tree with a colour and a value at each node. -/
inductive ColorTree (α ν : Type) where
  | nil
  | node (a : α) (red : Bool) (v : ν) (l r : ColorTree α ν)

/-- A node without one of its children: the hole is to the left or not, and `sib` is the other
child. -/
structure Frame (α ν : Type) where
  left : Bool
  id : α
  red : Bool
  value : ν
  sib : ColorTree α ν

variable {α ν : Type}

namespace ColorTree

def root? : ColorTree α ν → Option α
  | nil => none
  | node a _ _ _ _ => some a

def value? : ColorTree α ν → Option ν
  | nil => none
  | node _ _ v _ _ => some v

/-- The nodes, in order. -/
def nodes : ColorTree α ν → List α
  | nil => []
  | node a _ _ l r => l.nodes ++ a :: r.nodes

def height : ColorTree α ν → Nat
  | nil => 0
  | node _ _ _ l r => max l.height r.height + 1

/-- The numbers of black nodes on the paths from the root to the leaves. -/
def pathBlacks : ColorTree α ν → List Nat
  | nil => [0]
  | node _ red _ l r => (l.pathBlacks ++ r.pathBlacks).map (· + (!red).toNat)

variable (f : α → Option ν → Option ν → ν)

/-- A node with the value that `f` gives it. -/
def augNode (a : α) (red : Bool) (l r : ColorTree α ν) : ColorTree α ν :=
  node a red (f a l.value? r.value?) l r

/-- Every value is the function of the node and the values of its children. -/
def Aug : ColorTree α ν → Prop
  | nil => True
  | node a _ v l r => v = f a l.value? r.value? ∧ l.Aug ∧ r.Aug

/-- The tree is balanced, its root is red or not, and there are `n` black nodes on every path. -/
inductive Balanced : ColorTree α ν → Bool → Nat → Prop where
  | nil : Balanced nil false 0
  | red {a : α} {v : ν} {l r : ColorTree α ν} {n : Nat} (hl : Balanced l false n)
      (hr : Balanced r false n) :
      Balanced (node a true v l r) true n
  | black {a : α} {v : ν} {l r : ColorTree α ν} {c : Bool} {n : Nat} (hl : Balanced l c n)
      (hr : Balanced r false n) : Balanced (node a false v l r) false (n + 1)

variable {f}

@[simp] theorem nodes_augNode (a : α) (red : Bool) (l r : ColorTree α ν) :
    (augNode f a red l r).nodes = l.nodes ++ a :: r.nodes := rfl

@[simp] theorem root?_augNode (a : α) (red : Bool) (l r : ColorTree α ν) :
    (augNode f a red l r).root? = some a := rfl

theorem aug_augNode (a : α) (red : Bool) {l r : ColorTree α ν} (hl : l.Aug f) (hr : r.Aug f) :
    (augNode f a red l r).Aug f := ⟨rfl, hl, hr⟩

theorem Aug.recolor {a : α} {c c' : Bool} {v : ν} {l r : ColorTree α ν}
    (h : (node a c v l r).Aug f) :
    (node a c' v l r).Aug f := h

theorem Balanced.blacken {a : α} {c c' : Bool} {v v' : ν} {l r : ColorTree α ν} {n : Nat}
    (h : Balanced (node a c v l r) c' n) : ∃ m, Balanced (node a false v' l r) false m := by
  cases h with
  | red hl hr => exact ⟨_, .black hl hr⟩
  | black hl hr => exact ⟨_, .black hl hr⟩

/-- A tree whose paths have a black node has a root; it is black if the tree's colour is. -/
theorem Balanced.of_black {s : ColorTree α ν} {n : Nat} (h : Balanced s false (n + 1)) :
    ∃ a v l r c, s = node a false v l r ∧ Balanced l c n ∧ Balanced r false n := by
  cases h with
  | black hl hr => exact ⟨_, _, _, _, _, rfl, hl, hr⟩

theorem Balanced.pathBlacks {s : ColorTree α ν} {c : Bool} {n : Nat} (h : Balanced s c n) :
    ∀ k ∈ s.pathBlacks, k = n := by
  induction h with
  | nil => simp [ColorTree.pathBlacks]
  | red hl hr ihl ihr =>
      intro k hk
      simp only [ColorTree.pathBlacks, List.mem_map, List.mem_append] at hk
      obtain ⟨m, hm | hm, rfl⟩ := hk
      · exact ihl m hm
      · exact ihr m hm
  | black hl hr ihl ihr =>
      intro k hk
      simp only [ColorTree.pathBlacks, List.mem_map, List.mem_append] at hk
      obtain ⟨m, hm | hm, rfl⟩ := hk
      · rw [ihl m hm]
        rfl
      · rw [ihr m hm]
        rfl

theorem Balanced.height_le {s : ColorTree α ν} {c : Bool} {n : Nat} (h : Balanced s c n) :
    s.height ≤ 2 * n + c.toNat := by
  induction h with
  | nil => simp [height]
  | red hl hr ihl ihr => simp only [height, Bool.toNat_false, Bool.toNat_true] at *; omega
  | @black a v l r c n hl hr ihl ihr =>
      have hc := Bool.toNat_le c
      simp only [height, Bool.toNat_false] at *
      omega

theorem Balanced.pow_le {s : ColorTree α ν} {c : Bool} {n : Nat} (h : Balanced s c n) :
    2 ^ n ≤ s.nodes.length + 1 := by
  induction h with
  | nil => simp [nodes]
  | red hl hr ihl ihr => simp only [nodes, List.length_append, List.length_cons]; omega
  | black hl hr ihl ihr =>
      simp only [nodes, List.length_append, List.length_cons, Nat.pow_succ]; omega

theorem Balanced.le_height {s : ColorTree α ν} {c : Bool} {n : Nat} (h : Balanced s c n) :
    n ≤ s.height := by
  induction h with
  | nil => exact Nat.le_refl 0
  | red hl hr ihl ihr => simp only [height]; omega
  | black hl hr ihl ihr => simp only [height]; omega

/-- A tree that is higher than its black nodes account for has room for more nodes: each red
node of the longest path has a subtree beside it. -/
theorem Balanced.pow_add_pow_le {s : ColorTree α ν} {c : Bool} {n : Nat} (h : Balanced s c n) :
    2 ^ n + 2 ^ (s.height - n) ≤ s.nodes.length + 2 := by
  induction h with
  | nil => simp [nodes, height]
  | @red a v l r n hl hr ihl ihr =>
      have hheight : ∀ x : ColorTree α ν, Balanced x false n → 2 ^ (x.height - n) ≤ 2 ^ n := by
        intro x hx
        have hle := hx.height_le
        simp only [Bool.toNat_false] at hle
        exact Nat.pow_le_pow_right (by decide) (by omega)
      have hlow := hl.le_height
      have hsize := hl.pow_le
      have hsize' := hr.pow_le
      rcases Nat.le_total l.height r.height with hmax | hmax
      · have hpow := hheight r hr
        rw [height, Nat.max_eq_right hmax, show r.height + 1 - n = r.height - n + 1 by omega,
          Nat.pow_succ]
        simp only [nodes, List.length_append, List.length_cons]
        omega
      · have hpow := hheight l hl
        rw [height, Nat.max_eq_left hmax, show l.height + 1 - n = l.height - n + 1 by omega,
          Nat.pow_succ]
        simp only [nodes, List.length_append, List.length_cons]
        omega
  | @black a v l r c n hl hr ihl ihr =>
      have hsize := hl.pow_le
      have hsize' := hr.pow_le
      rcases Nat.le_total l.height r.height with hmax | hmax
      · rw [height, Nat.max_eq_right hmax, Nat.add_sub_add_right, Nat.pow_succ]
        simp only [nodes, List.length_append, List.length_cons]
        omega
      · rw [height, Nat.max_eq_left hmax, Nat.add_sub_add_right, Nat.pow_succ]
        simp only [nodes, List.length_append, List.length_cons]
        omega

/-- The height of a tree with a black root is at most twice the logarithm of its size. -/
theorem Balanced.height_le_of_length {s : ColorTree α ν} {n k : Nat} (h : Balanced s false n)
    (hk : s.nodes.length + 1 < 2 ^ (k + 1)) : s.height ≤ 2 * k := by
  have hn : n < k + 1 := (Nat.pow_lt_pow_iff_right (by decide)).1 (Nat.lt_of_le_of_lt h.pow_le hk)
  have hh := h.height_le
  simp only [Bool.toNat_false] at hh
  omega

end ColorTree

open ColorTree

/-! ## Trees with a hole -/

namespace Frame

/-- The nodes of the frame before the hole. -/
def before (fr : Frame α ν) : List α := if fr.left then [] else fr.sib.nodes ++ [fr.id]

/-- The nodes of the frame behind the hole. -/
def after (fr : Frame α ν) : List α := if fr.left then fr.id :: fr.sib.nodes else []

variable (f : α → Option ν → Option ν → ν)

/-- The frame with its hole filled, and the value that `f` gives the node. -/
def fill (fr : Frame α ν) (s : ColorTree α ν) : ColorTree α ν :=
  if fr.left then augNode f fr.id fr.red s fr.sib else augNode f fr.id fr.red fr.sib s

end Frame

/-- The nodes before the hole. -/
def nodesBefore : List (Frame α ν) → List α
  | [] => []
  | fr :: ctx => nodesBefore ctx ++ fr.before

/-- The nodes behind the hole. -/
def nodesAfter : List (Frame α ν) → List α
  | [] => []
  | fr :: ctx => fr.after ++ nodesAfter ctx

/-- The node of the innermost frame and its other child are around the hole. -/
theorem Frame.mem_nodes {fr : Frame α ν} {x : α} (ctx : List (Frame α ν))
    (hx : x = fr.id ∨ x ∈ fr.sib.nodes) :
    x ∈ nodesBefore (fr :: ctx) ++ nodesAfter (fr :: ctx) := by
  simp only [nodesBefore, nodesAfter, Frame.before, Frame.after]
  cases fr.left <;> simp <;> tauto

theorem nodesBefore_append (below ctx : List (Frame α ν)) :
    nodesBefore (below ++ ctx) = nodesBefore ctx ++ nodesBefore below := by
  induction below with
  | nil => simp [nodesBefore]
  | cons fr below ih => simp [nodesBefore, ih]

theorem nodesAfter_append (below ctx : List (Frame α ν)) :
    nodesAfter (below ++ ctx) = nodesAfter below ++ nodesAfter ctx := by
  induction below with
  | nil => simp [nodesAfter]
  | cons fr below ih => simp [nodesAfter, ih]

/-- Fill the hole, and compute the values of the nodes above it. -/
def plug (f : α → Option ν → Option ν → ν) : List (Frame α ν) → ColorTree α ν → ColorTree α ν
  | [], s => s
  | fr :: ctx, s => plug f ctx (fr.fill f s)

/-- A tree of this colour and black height fits into the hole. The hole at the root takes any
height. -/
inductive Fits : List (Frame α ν) → Bool → Nat → Prop where
  | root {n : Nat} : Fits [] false n
  | leftRed {a : α} {v : ν} {sib : ColorTree α ν} {ctx : List (Frame α ν)} {n : Nat}
      (hs : Balanced sib false n) (hc : Fits ctx true n) :
      Fits (⟨true, a, true, v, sib⟩ :: ctx) false n
  | leftBlack {a : α} {v : ν} {sib : ColorTree α ν} {ctx : List (Frame α ν)} {c : Bool} {n : Nat}
      (hs : Balanced sib false n) (hc : Fits ctx false (n + 1)) :
      Fits (⟨true, a, false, v, sib⟩ :: ctx) c n
  | rightRed {a : α} {v : ν} {sib : ColorTree α ν} {ctx : List (Frame α ν)} {n : Nat}
      (hs : Balanced sib false n) (hc : Fits ctx true n) :
      Fits (⟨false, a, true, v, sib⟩ :: ctx) false n
  | rightBlack {a : α} {v : ν} {sib : ColorTree α ν} {ctx : List (Frame α ν)} {c : Bool} {n : Nat}
      (hs : Balanced sib c n) (hc : Fits ctx false (n + 1)) :
      Fits (⟨false, a, false, v, sib⟩ :: ctx) false n

/-- A hole that takes a red tree takes a black one. -/
theorem Fits.black {ctx : List (Frame α ν)} {c : Bool} {n : Nat} (h : Fits ctx c n) :
    Fits ctx false n := by
  cases h with
  | root => exact .root
  | leftRed hs hc => exact .leftRed hs hc
  | leftBlack hs hc => exact .leftBlack hs hc
  | rightRed hs hc => exact .rightRed hs hc
  | rightBlack hs hc => exact .rightBlack hs hc

/-- The left subtree of a tree that fits, and the hole it leaves. -/
theorem Fits.downLeft {ctx : List (Frame α ν)} {a : α} {red c : Bool} {v : ν}
    {l r : ColorTree α ν} {n : Nat} (hb : Balanced (.node a red v l r) c n) (h : Fits ctx c n) :
    ∃ c' m, Balanced l c' m ∧ Fits (⟨true, a, red, v, r⟩ :: ctx) c' m := by
  cases hb with
  | red hl hr => exact ⟨_, _, hl, .leftRed hr h⟩
  | black hl hr => exact ⟨_, _, hl, .leftBlack hr h⟩

theorem Fits.downRight {ctx : List (Frame α ν)} {a : α} {red c : Bool} {v : ν}
    {l r : ColorTree α ν} {n : Nat} (hb : Balanced (.node a red v l r) c n) (h : Fits ctx c n) :
    ∃ m, Balanced r false m ∧ Fits (⟨false, a, red, v, l⟩ :: ctx) false m := by
  cases hb with
  | red hl hr => exact ⟨_, hr, .rightRed hl h⟩
  | black hl hr => exact ⟨_, hr, .rightBlack hl h⟩

variable {f : α → Option ν → Option ν → ν}

@[simp] theorem Frame.nodes_fill (fr : Frame α ν) (s : ColorTree α ν) :
    (fr.fill f s).nodes = fr.before ++ s.nodes ++ fr.after := by
  unfold Frame.fill Frame.before Frame.after
  split <;> simp

theorem nodes_plug (ctx : List (Frame α ν)) (s : ColorTree α ν) :
    (plug f ctx s).nodes = nodesBefore ctx ++ s.nodes ++ nodesAfter ctx := by
  induction ctx generalizing s with
  | nil => simp [plug, nodesBefore, nodesAfter]
  | cons fr ctx ih => simp [plug, ih, nodesBefore, nodesAfter]

theorem aug_plug {ctx : List (Frame α ν)} {s : ColorTree α ν} (hc : ∀ fr ∈ ctx, fr.sib.Aug f)
    (hs : s.Aug f) : (plug f ctx s).Aug f := by
  induction ctx generalizing s with
  | nil => exact hs
  | cons fr ctx ih =>
      refine ih (fun fr' h => hc fr' (List.mem_cons_of_mem _ h)) ?_
      have hsib := hc fr List.mem_cons_self
      unfold Frame.fill
      split
      · exact aug_augNode _ _ hs hsib
      · exact aug_augNode _ _ hsib hs

theorem balanced_plug {ctx : List (Frame α ν)} {s : ColorTree α ν} {c : Bool} {n : Nat}
    (hc : Fits ctx c n) (hs : Balanced s c n) : ∃ m, Balanced (plug f ctx s) false m := by
  induction ctx generalizing s c n with
  | nil => cases hc; exact ⟨_, hs⟩
  | cons fr ctx ih =>
      cases hc with
      | leftRed hsib hc => exact ih hc (.red hs hsib)
      | leftBlack hsib hc => exact ih hc (.black hs hsib)
      | rightRed hsib hc => exact ih hc (.red hsib hs)
      | rightBlack hsib hc => exact ih hc (.black hsib hs)

end SmallAllocators
