/-
SmallAllocators.Rb.Model — searches and iterators of the red-black trees of
`include/small/rb.h`.

A node is a value of `α`, and `RbLinks` holds the root and the child pointers
of the nodes. A comparison function returns an `int`, of which only the sign
counts, so it is an `Ordering` here; the key is a function that compares it
with a node. The path of an iterator is a list with the last node first, and
`count` is its length.

A function returns `none` when an `assert` of the source fails, or when a
search that keeps no path makes more than `RB_MAX_TREE_HEIGHT` rounds.
-/
import SmallAllocators.Util

namespace SmallAllocators

/-- `RB_MAX_TREE_HEIGHT`. -/
def rbMaxTreeHeight : Nat := 48

/-- The root, and the children of the nodes. -/
structure RbLinks (α : Type) where
  root : Option α
  left : α → Option α
  right : α → Option α

variable {α : Type}

/-- `path[0..count)`, with the last node first. -/
abbrev RbIterator (α : Type) := List α

/-! ## Searches

All of them walk down from the root, and differ in where they go and what they remember. -/

/-- Where a search goes at a node, and what it remembers: the node may be found, or be the nearest
one on the side of it where the key is not. -/
inductive Dir where
  | left
  | right
deriving DecidableEq

inductive Mark where
  | skip
  | near
  | found
deriving DecidableEq

def RbLinks.child (t : RbLinks α) (node : α) : Dir → Option α
  | .left => t.left node
  | .right => t.right node

/-- What is left of a path when `count` is set to an earlier value. -/
def truncate (path : RbIterator α) (count : Nat) : RbIterator α := path.drop (path.length - count)

section Walk

variable (t : RbLinks α) (step : Ordering → Dir × Mark) (key : α → Ordering)

/-- The loop of the searches that return a node. -/
def searchLoop : Nat → Option α → Option α → Option α → Option (Option α)
  | _, none, found, near => some (if found = none then near else found)
  | 0, some _, _, _ => none
  | fuel + 1, some cur, found, near =>
    match step (key cur) with
    | (dir, .skip) => searchLoop fuel (t.child cur dir) found near
    | (dir, .near) => searchLoop fuel (t.child cur dir) found (some cur)
    | (dir, .found) => searchLoop fuel (t.child cur dir) (some cur) near

/-- The loop of the searches that position an iterator. They keep the value of `count` at the node
that they found last and at the nearest one. -/
def isearchLoop : Nat → Option α → RbIterator α → Option Nat → Nat → Option (RbIterator α)
  | _, none, path, retCount, nearCount =>
    match retCount with
    | some count => some (truncate path count)
    | none => some (truncate path nearCount)
  -- `assert(it->count < RB_MAX_TREE_HEIGHT)`
  | 0, some _, _, _, _ => none
  | fuel + 1, some cur, path, retCount, nearCount =>
    let path := cur :: path
    match step (key cur) with
    | (dir, .skip) => isearchLoop fuel (t.child cur dir) path retCount nearCount
    | (dir, .near) => isearchLoop fuel (t.child cur dir) path retCount path.length
    | (dir, .found) => isearchLoop fuel (t.child cur dir) path (some path.length) nearCount

end Walk

/-! What each search does at a node to which the key compares as less, greater or equal. -/

def nsearchStep : Ordering → Dir × Mark
  | .lt => (.left, .near)
  | .gt => (.right, .skip)
  | .eq => (.right, .found)

def psearchStep : Ordering → Dir × Mark
  | .lt => (.left, .skip)
  | .gt => (.right, .near)
  | .eq => (.left, .found)

def isearchLeStep : Ordering → Dir × Mark
  | .lt => (.left, .skip)
  | .gt => (.right, .near)
  | .eq => (.right, .found)

def isearchGeStep : Ordering → Dir × Mark
  | .lt => (.left, .near)
  | .gt => (.right, .skip)
  | .eq => (.left, .found)

def isearchLtStep : Ordering → Dir × Mark
  | .lt => (.left, .skip)
  | .gt => (.right, .near)
  | .eq => (.left, .skip)

def isearchGtStep : Ordering → Dir × Mark
  | .lt => (.left, .near)
  | .gt => (.right, .skip)
  | .eq => (.right, .skip)

section Searches

variable (t : RbLinks α) (key : α → Ordering)

def nsearch : Option (Option α) := searchLoop t nsearchStep key rbMaxTreeHeight t.root none none

def psearch : Option (Option α) := searchLoop t psearchStep key rbMaxTreeHeight t.root none none

def isearchLe : Option (RbIterator α) :=
  isearchLoop t isearchLeStep key rbMaxTreeHeight t.root [] none 0

def isearchGe : Option (RbIterator α) :=
  isearchLoop t isearchGeStep key rbMaxTreeHeight t.root [] none 0

def isearchLt : Option (RbIterator α) :=
  isearchLoop t isearchLtStep key rbMaxTreeHeight t.root [] none 0

def isearchGt : Option (RbIterator α) :=
  isearchLoop t isearchGtStep key rbMaxTreeHeight t.root [] none 0

/-- The loop of `isearch` and `icreate`, which stop at the first node that matches. -/
def matchLoop : Nat → Option α → RbIterator α → Option (Bool × RbIterator α)
  | _, none, _ => some (false, [])
  | 0, some _, _ => none
  | fuel + 1, some cur, path =>
    match key cur with
    | .lt => matchLoop fuel (t.left cur) (cur :: path)
    | .gt => matchLoop fuel (t.right cur) (cur :: path)
    | .eq => some (true, cur :: path)

def isearch : Option (Bool × RbIterator α) := matchLoop t key rbMaxTreeHeight t.root []

end Searches

/-- `icreate` looks for the node with the comparison function of the nodes. -/
def icreate (t : RbLinks α) (cmp : α → α → Ordering) (node : α) : Option (Bool × RbIterator α) :=
  matchLoop t (cmp node) rbMaxTreeHeight t.root []

/-! ## Iterators -/

/-- `iterator_get`. -/
def iteratorGet (it : RbIterator α) : Option α := it.head?

/-- `rbtn_iter_go_left_down` and `rbtn_iter_go_right_down`, with the child to go to; `fuel` is what
`count` is less than `RB_MAX_TREE_HEIGHT`. -/
def goDown (child : α → Option α) : Nat → α → RbIterator α → Option (RbIterator α)
  | 0, _, _ => none
  | fuel + 1, cur, path =>
    match child cur with
    | none => some (cur :: path)
    | some next => goDown child fuel next (cur :: path)

section Steps

variable [DecidableEq α]

/-- `rbtn_iter_go_left_up` and `rbtn_iter_go_right_up`: go up as long as the last node is that
child of the one before it. -/
def goUp (child : α → Option α) : RbIterator α → RbIterator α
  | [] => []
  | [_] => []
  | cur :: parent :: path =>
      if child parent ≠ some cur then parent :: path else goUp child (parent :: path)

/-- `inext` and `iprev`: `ahead` is the child on the side to which the iterator moves, and
`back` the other one. -/
def istep (ahead back : α → Option α) : RbIterator α → Option (Option α × RbIterator α)
  | [] => some (none, [])
  | ret :: path =>
    match ahead ret with
    | some next => do
      let it ← goDown back (rbMaxTreeHeight - (ret :: path).length) next (ret :: path)
      some (some ret, it)
    | none => some (some ret, goUp ahead (ret :: path))

def inext (t : RbLinks α) (it : RbIterator α) : Option (Option α × RbIterator α) :=
  istep t.right t.left it

def iprev (t : RbLinks α) (it : RbIterator α) : Option (Option α × RbIterator α) :=
  istep t.left t.right it

end Steps

def ifirst (t : RbLinks α) : Option (RbIterator α) :=
  match t.root with
  | none => some []
  | some root => goDown t.left rbMaxTreeHeight root []

def ilast (t : RbLinks α) : Option (RbIterator α) :=
  match t.root with
  | none => some []
  | some root => goDown t.right rbMaxTreeHeight root []

/-- What `n` calls of `inext` or `iprev` return, and the iterator after them. -/
def isteps (step : RbIterator α → Option (Option α × RbIterator α)) : Nat → RbIterator α →
    Option (List (Option α) × RbIterator α)
  | 0, it => some ([], it)
  | n + 1, it => do
    let (ret, it) ← step it
    let (rets, it) ← isteps step n it
    some (ret :: rets, it)

end SmallAllocators
