/-
SmallAllocators.Rb.Tree — insertion and removal in the augmented red-black
trees of `include/small/rb.h` (`rb_gen_ext_key_aug`).

The nodes are values of `α`, with their fields in `RbTree.node`; `value` is
what the augmentation callback sets, and `f` is the function by which it
does so, of the node and the values of its children. `cmp` compares nodes.
The arrays `path` of the source are lists with the last entry first, and
have room for the nodes of a path and the `NULL` behind them.

A function returns `none` when an `assert` of the source fails, a `NULL`
pointer is dereferenced, or a path has more entries than the array.
-/
import Mathlib.Logic.Function.Basic
import SmallAllocators.Util

namespace SmallAllocators

/-- `rb_node`, and the value that the augmentation sets. -/
structure RbNode (α ν : Type) where
  left : Option α
  right : Option α
  red : Bool
  value : ν
deriving DecidableEq

/-- `rb_tree`, and the nodes. -/
structure RbTree (α ν : Type) where
  root : Option α
  node : α → RbNode α ν

/-- The nodes of `path` and the results of their comparisons, the last one first. -/
abbrev RbPath (α : Type) := List (α × Ordering)

/-- The number of nodes on a path: the array has `sizeof(void *) << 4` entries. -/
def rbPathMax : Nat := 127

variable {α ν : Type} [DecidableEq α]

/-! ## Nodes -/

namespace RbTree

variable (t : RbTree α ν)

def update (a : α) (n : RbNode α ν) : RbTree α ν := { t with node := Function.update t.node a n }

def leftSet (a : α) (p : Option α) : RbTree α ν := t.update a { t.node a with left := p }

def rightSet (a : α) (p : Option α) : RbTree α ν := t.update a { t.node a with right := p }

/-- `rbtn_color_set`. -/
def colorSet (a : α) (red : Bool) : RbTree α ν := t.update a { t.node a with red := red }

def redSet (a : α) : RbTree α ν := t.colorSet a true

def blackSet (a : α) : RbTree α ν := t.colorSet a false

def setRoot (p : Option α) : RbTree α ν := { t with root := p }

omit [DecidableEq α] in
/-- `p != NULL && rbtn_red_get(p)`. -/
def isRed (p : Option α) : Bool := p.any fun a => (t.node a).red

/-- `rbtn_rotate_left`; it returns the new root of the subtree. -/
def rotateLeft (a : α) : Option (RbTree α ν × α) := do
  let r ← (t.node a).right
  let t := t.rightSet a (t.node r).left
  some (t.leftSet r (some a), r)

/-- `rbtn_rotate_right`. -/
def rotateRight (a : α) : Option (RbTree α ν × α) := do
  let l ← (t.node a).left
  let t := t.leftSet a (t.node l).right
  some (t.rightSet l (some a), l)

variable (f : α → Option ν → Option ν → ν)

/-- `rbtn_augment`. -/
def augment (a : α) : RbTree α ν :=
  t.update a { t.node a with
    value := f a ((t.node a).left.map fun b => (t.node b).value) ((t.node a).right.map fun b =>
        (t.node b).value) }

/-- `rbtn_augment_propagate`, from the last entry of the path to the first. -/
def augmentPropagate (path : RbPath α) : RbTree α ν := path.foldl (fun t x => t.augment f x.1) t

/-- The child pointer of the last entry of the path, or the root. -/
def link (path : RbPath α) (p : Option α) : RbTree α ν :=
  match path with
  | [] => t.setRoot p
  | (a, .lt) :: _ => t.leftSet a p
  | (a, _) :: _ => t.rightSet a p

end RbTree

open RbTree

section Operations

variable (f : α → Option ν → Option ν → ν) (cmp : α → α → Ordering)

/-! ## Insertion -/

/-- The loop that winds the path, with room for `fuel` more nodes. -/
def insertWind (t : RbTree α ν) (node : α) : Nat → Option α → RbPath α → Option (RbPath α)
  | _, none, path => some path
  | 0, some _, _ => none
  | fuel + 1, some cur, path =>
    match cmp node cur with
    -- `assert(cmp != 0)`
    | .eq => none
    | .lt => insertWind t node fuel (t.node cur).left ((cur, .lt) :: path)
    | .gt => insertWind t node fuel (t.node cur).right ((cur, .gt) :: path)

/-- What one round of an unwinding loop does: it returns from the function, or goes on with a
new root of the subtree. -/
inductive Round (α ν : Type) where
  | done (t : RbTree α ν)
  | up (t : RbTree α ν) (top : α)

/-- A round of the unwinding loop of `insert`, to the left. -/
def insertLeft (t : RbTree α ν) (cnode left : α) (path : RbPath α) : Option (Round α ν) :=
  let t := t.leftSet cnode (some left)
  if (t.node left).red then
    let leftleft := (t.node left).left
    if t.isRed leftleft then do
      -- Fix up 4-node
      let leftleft ← leftleft
      let (t, tnode) ← (t.blackSet leftleft).rotateRight cnode
      some (.up ((t.augment f cnode).augment f tnode) tnode)
    else some (.up (t.augment f cnode) cnode)
  else some (.done (t.augmentPropagate f ((cnode, .lt) :: path)))

/-- A round of the unwinding loop of `insert`, to the right. -/
def insertRight (t : RbTree α ν) (cnode right : α) (path : RbPath α) : Option (Round α ν) :=
  let t := t.rightSet cnode (some right)
  if (t.node right).red then
    let left := (t.node cnode).left
    if t.isRed left then do
      -- Split 4-node
      let left ← left
      some (.up ((((t.blackSet left).blackSet right).redSet cnode).augment f cnode) cnode)
    else do
      -- Lean left
      let tred := (t.node cnode).red
      let (t, tnode) ← t.rotateLeft cnode
      let t := (t.colorSet tnode tred).redSet cnode
      some (.up ((t.augment f cnode).augment f tnode) tnode)
  else some (.done (t.augmentPropagate f ((cnode, .gt) :: path)))

/-- The unwinding loop of `insert`; `top` is the root of the subtree below the path. -/
def insertUnwind : RbTree α ν → RbPath α → α → Option (RbTree α ν)
  | t, [], top => some ((t.setRoot (some top)).blackSet top)
  | t, (cnode, .lt) :: path, top => do
    match ← insertLeft f t cnode top path with
    | .done t => some t
    | .up t top => insertUnwind t path top
  | t, (cnode, _) :: path, top => do
    match ← insertRight f t cnode top path with
    | .done t => some t
    | .up t top => insertUnwind t path top

/-- `insert`. -/
def rbInsert (t : RbTree α ν) (node : α) : Option (RbTree α ν) := do
  let t := ((t.leftSet node none).rightSet node none).redSet node
  let t := t.augment f node
  let path ← insertWind cmp t node rbPathMax t.root []
  insertUnwind f t path node

/-! ## Removal -/

/-- The loop that finds the node's successor: it goes to the left. -/
def successorWind (t : RbTree α ν) : Nat → Option α → RbPath α → Option (RbPath α)
  | _, none, path => some path
  | 0, some _, _ => none
  | fuel + 1, some cur, path => successorWind t fuel (t.node cur).left ((cur, .lt) :: path)

/-- The loop that winds the path down to the node: the entries above it, the entry where the
comparison is 0, and the room that is left. -/
def removeWind (t : RbTree α ν) (node : α) : Nat → Option α → RbPath α → Option (RbPath α × α × Nat)
  -- `nodep` is `NULL`
  | _, none, _ => none
  | 0, some _, _ => none
  | fuel + 1, some cur, path =>
    match cmp node cur with
    | .lt => removeWind t node fuel (t.node cur).left ((cur, .lt) :: path)
    | .gt => removeWind t node fuel (t.node cur).right ((cur, .gt) :: path)
    | .eq => some (path, cur, fuel)

/-- The end of a round of the unwinding loop of `remove` that restores the balance: `tnode` is
the new root of the subtree below the path. -/
def restored (t : RbTree α ν) (path : RbPath α) (tnode : α) : Round α ν :=
  .done ((t.link path (some tnode)).augmentPropagate f path)

/-- A round of the unwinding loop of `remove`, to the left. -/
def removeLeft (t : RbTree α ν) (node : α) (child : Option α) (path : RbPath α) :
    Option (Round α ν) := do
  let t := t.leftSet node child
  let right ← (t.node node).right
  let rightleft := (t.node right).left
  if (t.node node).red then
    if t.isRed rightleft then
      let t := t.blackSet node
      let (t, tnode) ← t.rotateRight right
      let t := ((t.augment f right).augment f tnode).rightSet node (some tnode)
      let (t, tnode) ← t.rotateLeft node
      let t := (t.augment f node).augment f tnode
      guard (path ≠ [])
      some (restored f t path tnode)
    else
      let (t, tnode) ← t.rotateLeft node
      let t := (t.augment f node).augment f tnode
      guard (path ≠ [])
      some (restored f t path tnode)
  else if t.isRed rightleft then
    let rightleft ← rightleft
    let t := t.blackSet rightleft
    let (t, tnode) ← t.rotateRight right
    let t := ((t.augment f right).augment f tnode).rightSet node (some tnode)
    let (t, tnode) ← t.rotateLeft node
    let t := (t.augment f node).augment f tnode
    some (restored f t path tnode)
  else
    let t := t.redSet node
    let (t, tnode) ← t.rotateLeft node
    some (.up ((t.augment f node).augment f tnode) tnode)

/-- A round of the unwinding loop of `remove`, to the right, where the left child is red. -/
def removeRightRed (t : RbTree α ν) (node left : α) (path : RbPath α) : Option (Round α ν) := do
  let leftright ← (t.node left).right
  let leftrightleft := (t.node leftright).left
  if t.isRed leftrightleft then
    let leftrightleft ← leftrightleft
    let t := t.blackSet leftrightleft
    let (t, unode) ← t.rotateRight node
    let (t, tnode) ← t.rotateRight node
    let t := t.rightSet unode (some tnode)
    let t := (t.augment f node).augment f tnode
    let (t, tnode) ← t.rotateLeft unode
    let t := (t.augment f unode).augment f tnode
    some (restored f t path tnode)
  else
    let t := t.redSet leftright
    let (t, tnode) ← t.rotateRight node
    let t := ((t.augment f node).augment f tnode).blackSet tnode
    some (restored f t path tnode)

/-- A round of the unwinding loop of `remove`, to the right. -/
def removeRight (t : RbTree α ν) (node : α) (child : Option α) (path : RbPath α) :
    Option (Round α ν) := do
  let t := t.rightSet node child
  let left ← (t.node node).left
  let leftleft := (t.node left).left
  if (t.node left).red then removeRightRed f t node left path
  else if (t.node node).red then
    if t.isRed leftleft then
      let leftleft ← leftleft
      let t := ((t.blackSet node).redSet left).blackSet leftleft
      let (t, tnode) ← t.rotateRight node
      let t := (t.augment f node).augment f tnode
      guard (path ≠ [])
      some (restored f t path tnode)
    else
      let t := (t.redSet left).blackSet node
      some (.done (t.augmentPropagate f ((node, .gt) :: path)))
  else if t.isRed leftleft then
    let leftleft ← leftleft
    let t := t.blackSet leftleft
    let (t, tnode) ← t.rotateRight node
    let t := (t.augment f node).augment f tnode
    some (restored f t path tnode)
  else
    some (.up ((t.redSet left).augment f node) node)

/-- The unwinding loop of `remove`; `child` is the root of the subtree below the path. -/
def removeUnwind : RbTree α ν → RbPath α → Option α → Option (RbTree α ν)
  | t, [], child => do
    let t := t.setRoot child
    let root ← t.root
    guard (¬ (t.node root).red)
    some t
  -- `assert(pathp->cmp != 0)`
  | _, (_, .eq) :: _, _ => none
  | t, (node, .lt) :: path, child => do
    match ← removeLeft f t node child path with
    | .done t => some t
    | .up t top => removeUnwind t path (some top)
  | t, (node, .gt) :: path, child => do
    match ← removeRight f t node child path with
    | .done t => some t
    | .up t top => removeUnwind t path (some top)

/-- The end of `remove`: the node at the end of the path, which is red or not, is pruned. -/
def prune (t : RbTree α ν) (red : Bool) (path : RbPath α) : Option (RbTree α ν) :=
  if red then
    match path with
    | (parent, .lt) :: _ => some ((t.leftSet parent none).augmentPropagate f path)
    -- `assert(pathp[-1].cmp < 0)`
    | _ => none
  else removeUnwind f t path none

/-- Swap the node with its successor, which is at the end of the path `below ++ (node, .gt) ::
above`. -/
def swapSuccessor (t : RbTree α ν) (node succ : α) (above : RbPath α) : RbTree α ν :=
  let tred := (t.node succ).red
  let t := t.colorSet succ (t.node node).red
  let t := t.leftSet succ (t.node node).left
  let t := t.rightSet succ (t.node node).right
  let t := t.colorSet node tred
  t.link above (some succ)

/-- The end of `remove` for a node without a right child: `above` is the path to its parent. -/
def removeLast (t : RbTree α ν) (node : α) (above : RbPath α) : Option (RbTree α ν) := do
  match (t.node node).left with
  | some left =>
    -- splice the node out, without losing the left child
    guard ((t.node node).red = false)
    guard (t.node left).red
    let t := t.blackSet left
    some ((t.link above (some left)).augmentPropagate f above)
  | none =>
    -- the tree may have contained only this node
    if above = [] then some (t.setRoot none) else prune f t (t.node node).red above

/-- `remove`. -/
def rbRemove (t : RbTree α ν) (node : α) : Option (RbTree α ν) := do
  let (above, found, fuel) ← removeWind cmp t node rbPathMax t.root []
  guard (found = node)
  match ← successorWind t fuel (t.node node).right [] with
  | (succ, _) :: below =>
    let t := swapSuccessor t node succ above
    prune f t (t.node node).red (below ++ (succ, .gt) :: above)
  | [] => removeLast f t node above

end Operations

end SmallAllocators
