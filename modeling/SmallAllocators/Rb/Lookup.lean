/-
SmallAllocators.Rb.Lookup — a red-black tree as an ordered set.

`first`, `last`, `next`, `prev` and `search` of `include/small/rb.h` keep no
path, so nothing bounds the height of the trees they work on; `fuel` is the
number of nodes that a loop may visit. In every run of `insert` and `remove`
they answer as the list of the nodes in order does, after at most
2 * log2 (n + 1) nodes (`rb_refines_ordered_list`). `prev` is `next` in the
mirror image of the tree.
-/
import Mathlib.Data.List.Sort
import SmallAllocators.Rb.Height

namespace SmallAllocators

variable {α ν : Type}

/-! ## The functions -/

/-- `rb_new`. -/
def rbNew (t : RbTree α ν) : RbTree α ν := t.setRoot none

def rbEmpty (t : RbLinks α) : Bool := t.root.isNone

/-- The loops of `rbtn_first` and `rbtn_last`, from a node that is not `NULL`. -/
def descend (child : α → Option α) : Nat → α → Option α
  | 0, _ => none
  | fuel + 1, node =>
    match child node with
    | none => some node
    | some next => descend child fuel next

/-- `rbtn_first` and `rbtn_last`. -/
def outermost (child : α → Option α) (fuel : Nat) : Option α → Option (Option α)
  | none => some none
  | some root => (descend child fuel root).map some

def rbFirst (t : RbLinks α) (fuel : Nat) : Option (Option α) := outermost t.left fuel t.root

def rbLast (t : RbLinks α) (fuel : Nat) : Option (Option α) := outermost t.right fuel t.root

/-- The loop of `next` and `prev` from the root to the node. `near` is the result of the
comparison at the nodes that they remember. -/
def neighbourLoop (t : RbLinks α) (key : α → Ordering) (near : Ordering) :
    Nat → α → Option α → Option (Option α)
  | 0, _, _ => none
  | fuel + 1, tnode, ret =>
    match key tnode with
    | .lt => do
      -- `assert(tnode != NULL)`
      let child ← t.left tnode
      neighbourLoop t key near fuel child (if near = .lt then some tnode else ret)
    | .gt => do
      let child ← t.right tnode
      neighbourLoop t key near fuel child (if near = .gt then some tnode else ret)
    | .eq => some ret

def rbNext (cmp : α → α → Ordering) (t : RbLinks α) (fuel : Nat) (node : α) : Option (Option α) :=
  match t.right node with
  | some right => outermost t.left fuel (some right)
  | none => do
    let tnode ← t.root
    neighbourLoop t (cmp node) .lt fuel tnode none

def rbPrev (cmp : α → α → Ordering) (t : RbLinks α) (fuel : Nat) (node : α) : Option (Option α) :=
  match t.left node with
  | some left => outermost t.right fuel (some left)
  | none => do
    let tnode ← t.root
    neighbourLoop t (cmp node) .gt fuel tnode none

/-- The loop of `search`. -/
def rbSearchLoop (t : RbLinks α) (key : α → Ordering) : Nat → Option α → Option (Option α)
  | _, none => some none
  | 0, some _ => none
  | fuel + 1, some ret =>
    match key ret with
    | .lt => rbSearchLoop t key fuel (t.left ret)
    | .gt => rbSearchLoop t key fuel (t.right ret)
    | .eq => some (some ret)

def rbSearch (t : RbLinks α) (key : α → Ordering) (fuel : Nat) : Option (Option α) :=
  rbSearchLoop t key fuel t.root

/-! ## Loops -/

section Loops

open BinaryTree

variable {t : RbLinks α} {s : BinaryTree α} {left right : α → Option α} {key : α → Ordering}

/-- `rbtn_first`, and `rbtn_last` in the mirror image. -/
theorem outermost_spec (h : RbLinked left right s) (fuel : Nat) (hfuel : s.height ≤ fuel) :
    outermost left fuel s.root? = some s.inorder.head? := by
  induction s generalizing fuel with
  | nil => rfl
  | node a l r ihl _ =>
      obtain ⟨hl, -, hll, -⟩ := h
      cases fuel with
      | zero => simp [BinaryTree.height] at hfuel
      | succ fuel =>
          have hlow : l.height ≤ fuel := by
            simp only [BinaryTree.height] at hfuel
            omega
          have hrest := ihl hll fuel hlow
          cases l with
          | nil => simp [outermost, descend, hl, root?, inorder]
          | node b l l' =>
              simp only [root?, outermost] at hl hrest ⊢
              simp only [descend, hl, hrest]
              simp [inorder]

theorem rbSearchLoop_spec (h : RbLinked t.left t.right s) (hmono : KeyMono key s.inorder)
    (fuel : Nat) (hfuel : s.height ≤ fuel) :
    (∃ a ∈ s.inorder, key a = .eq ∧ rbSearchLoop t key fuel s.root? = some (some a)) ∨
    (∀ a ∈ s.inorder, key a ≠ .eq) ∧ rbSearchLoop t key fuel s.root? = some none := by
  induction s generalizing fuel with
  | nil =>
      refine Or.inr ⟨by simp [inorder], ?_⟩
      cases fuel <;> rfl
  | node a l r ihl ihr =>
      obtain ⟨hl, hr, hll, hlr⟩ := h
      obtain ⟨hmonol, hmonor, hcross⟩ := List.pairwise_append.mp hmono
      obtain ⟨hafter, hmonor⟩ := List.pairwise_cons.mp hmonor
      cases fuel with
      | zero => simp [BinaryTree.height] at hfuel
      | succ fuel =>
          simp only [BinaryTree.height] at hfuel
          have hlowl : l.height ≤ fuel := by omega
          have hlowr : r.height ≤ fuel := by omega
          simp only [root?, rbSearchLoop]
          cases hk : key a with
          | eq => exact Or.inl ⟨a, by simp [inorder], hk, rfl⟩
          | lt =>
              simp only [hl]
              rcases ihl hll hmonol fuel hlowl with ⟨b, hb, hbk, heq⟩ | ⟨hnone, heq⟩
              · exact Or.inl ⟨b, by simp [inorder, hb], hbk, heq⟩
              · refine Or.inr ⟨fun b hb => ?_, heq⟩
                rcases List.mem_append.mp hb with hb | hb
                · exact hnone b hb
                · rcases List.mem_cons.mp hb with rfl | hb
                  · simp [hk]
                  · simp [(hafter b hb).1 hk]
          | gt =>
              simp only [hr]
              rcases ihr hlr hmonor fuel hlowr with ⟨b, hb, hbk, heq⟩ | ⟨hnone, heq⟩
              · exact Or.inl ⟨b, by simp [inorder, hb], hbk, heq⟩
              · refine Or.inr ⟨fun b hb => ?_, heq⟩
                rcases List.mem_append.mp hb with hb | hb
                · simp [(hcross b hb a List.mem_cons_self).2 hk]
                · rcases List.mem_cons.mp hb with rfl | hb
                  · simp [hk]
                  · exact hnone b hb

/-- The children of a node, and what is before and after it. -/
theorem RbLinked.around (h : RbLinked left right s) (hnodup : s.inorder.Nodup)
    {before after : List α} {a : α} (hs : s.inorder = before ++ a :: after) :
    ∃ pre l r post, left a = l.root? ∧ right a = r.root? ∧ before = pre ++ l.inorder ∧
      after = r.inorder ++ post ∧
      RbLinked left right l ∧ RbLinked left right r ∧ l.height < s.height ∧
      r.height < s.height := by
  induction s generalizing before after with
  | nil => simp [inorder] at hs
  | node b l r ihl ihr =>
      obtain ⟨hl, hr, hll, hlr⟩ := h
      simp only [BinaryTree.height]
      rw [inorder] at hs hnodup
      obtain ⟨hnodupl, hnodupr, -⟩ := List.nodup_append.mp hnodup
      rcases List.append_eq_append_iff.mp hs with ⟨mid, rfl, htail⟩ | ⟨mid, hmid, htail⟩
      · cases mid with
        | nil =>
            obtain ⟨rfl, rfl⟩ : b = a ∧ r.inorder = after := by simpa using htail
            exact ⟨[], l, r, [], hl, hr, by simp, by simp, hll, hlr, by omega, by omega⟩
        | cons c mid =>
            obtain ⟨rfl, hmid⟩ : b = c ∧ r.inorder = mid ++ a :: after := by simpa using htail
            obtain ⟨pre, l', r', post, h1, h2, rfl, rfl, h5, h6, h7, h8⟩ :=
              ihr hlr (List.nodup_cons.mp hnodupr).2 hmid
            exact ⟨l.inorder ++ b :: pre, l', r', post, h1, h2, by simp, rfl, h5,
              h6, by omega, by omega⟩
      · cases mid with
        | nil =>
            obtain ⟨rfl, rfl⟩ : a = b ∧ after = r.inorder := by simpa using htail
            exact ⟨[], l, r, [], hl, hr, by simpa using hmid.symm, by simp, hll,
              hlr, by omega, by omega⟩
        | cons c mid =>
            obtain ⟨rfl, rfl⟩ : a = c ∧ after = mid ++ b :: r.inorder := by simpa using htail
            obtain ⟨pre, l', r', post, h1, h2, rfl, rfl, h5, h6, h7, h8⟩ := ihl hll hnodupl hmid
            exact ⟨pre, l', r', post ++ b :: r.inorder, h1, h2, rfl, by simp, h5,
              h6, by omega, by omega⟩

/-- The loop of `next`: the node after `a`, or else the one that it remembers. -/
theorem neighbourLoop_spec (h : RbLinked t.left t.right s) {before after : List α} {a : α}
    (hs : s.inorder = before ++ a :: after) (hbefore : ∀ x ∈ before, key x = .gt)
    (hat : key a = .eq) (hafter : ∀ x ∈ after, key x = .lt) (hright : t.right a = none)
    (fuel : Nat) (hfuel : s.height ≤ fuel) (ret : Option α) :
    ∃ root, s.root? = some root ∧ neighbourLoop t key .lt fuel root ret =
      some (after.head?.or ret) := by
  induction s generalizing before after fuel ret with
  | nil => simp [inorder] at hs
  | node b l r ihl ihr =>
      obtain ⟨hl, hr, hll, hlr⟩ := h
      refine ⟨b, rfl, ?_⟩
      cases fuel with
      | zero => simp [BinaryTree.height] at hfuel
      | succ fuel =>
          simp only [BinaryTree.height] at hfuel
          have hlowl : l.height ≤ fuel := by omega
          have hlowr : r.height ≤ fuel := by omega
          rw [inorder] at hs
          rw [neighbourLoop]
          rcases List.append_eq_append_iff.mp hs with ⟨mid, rfl, htail⟩ | ⟨mid, hmid, htail⟩
          · cases mid with
            | nil =>
                obtain ⟨rfl, rfl⟩ : b = a ∧ r.inorder = after := by simpa using htail
                have hnil := root?_eq_none (hr.symm.trans hright)
                simp [hat, hnil, inorder]
            | cons c mid =>
                obtain ⟨rfl, hmid⟩ : b = c ∧ r.inorder = mid ++ a :: after := by simpa using htail
                have hkey : key b = .gt := hbefore b (by simp)
                obtain ⟨root, hroot, heq⟩ :=
                  ihr hlr hmid (fun x hx => hbefore x (by simp [hx])) hafter fuel hlowr ret
                simpa [hkey, hr, hroot] using heq
          · cases mid with
            | nil =>
                obtain ⟨rfl, rfl⟩ : a = b ∧ after = r.inorder := by simpa using htail
                have hnil := root?_eq_none (hr.symm.trans hright)
                simp [hat, hnil, inorder]
            | cons c mid =>
                obtain ⟨rfl, rfl⟩ : a = c ∧ after = mid ++ b :: r.inorder := by simpa using htail
                have hkey : key b = .lt := hafter b (by simp)
                obtain ⟨root, hroot, heq⟩ :=
                  ihl hll hmid hbefore (fun x hx => hafter x (by simp [hx])) fuel hlowl (some b)
                have hhead : (mid ++ b :: r.inorder).head?.or ret = mid.head?.or (some b) := by
                  cases mid <;> simp
                rw [hhead]
                simpa [hkey, hl, hroot] using heq

/-- `prev` is `next` in the mirror image. -/
theorem neighbourLoop_mirror (t : RbLinks α) (key : α → Ordering) (fuel : Nat) (tnode : α)
    (ret : Option α) :
    neighbourLoop t key .gt fuel tnode ret =
      neighbourLoop ⟨t.root, t.right, t.left⟩ (fun x => (key x).swap) .lt fuel tnode ret := by
  induction fuel generalizing tnode ret with
  | zero => rfl
  | succ fuel ih =>
      unfold neighbourLoop
      cases key tnode <;> simp [ih]

end Loops

/-! ## The functions on a tree -/

section Tree

open BinaryTree

variable {t : RbLinks α} {s : BinaryTree α} {cmp : α → α → Ordering} {before after : List α}
    {a : α} {fuel : Nat}

theorem rbNext_spec (hroot : t.root = s.root?) (h : RbLinked t.left t.right s)
    (hnodup : s.inorder.Nodup) (hs : s.inorder = before ++ a :: after)
    (hbefore : ∀ x ∈ before, cmp a x = .gt) (hat : cmp a a = .eq)
    (hafter : ∀ x ∈ after, cmp a x = .lt) (hfuel : s.height ≤ fuel) :
    rbNext cmp t fuel a = some after.head? := by
  obtain ⟨pre, l, r, post, -, hr, -, hpost, -, hlr, -, hlow⟩ := h.around hnodup hs
  unfold rbNext
  cases r with
  | nil =>
      obtain ⟨root, hsome, heq⟩ := neighbourLoop_spec h hs hbefore hat hafter hr fuel hfuel none
      have hroot' : t.root = some root := hroot.trans hsome
      simpa [hr, root?, hroot'] using heq
  | node b l' r' =>
      have hfirst := outermost_spec hlr fuel (Nat.le_trans (Nat.le_of_lt hlow) hfuel)
      rw [root?] at hfirst hr
      simp only [hr, hfirst, hpost]
      simp [inorder]

theorem rbPrev_spec (hroot : t.root = s.root?) (h : RbLinked t.left t.right s)
    (hnodup : s.inorder.Nodup) (hs : s.inorder = before ++ a :: after)
    (hbefore : ∀ x ∈ before, cmp a x = .gt) (hat : cmp a a = .eq)
    (hafter : ∀ x ∈ after, cmp a x = .lt) (hfuel : s.height ≤ fuel) :
    rbPrev cmp t fuel a = some before.getLast? := by
  have hmirror : rbPrev cmp t fuel a = rbNext (fun x y => (cmp x y).swap) ⟨t.root, t.right,
      t.left⟩ fuel a := by
    unfold rbPrev rbNext
    simp only [neighbourLoop_mirror]
  have hs' : s.mirror.inorder = after.reverse ++ a :: before.reverse := by
    rw [inorder_mirror, hs]
    simp
  rw [hmirror, rbNext_spec (s := s.mirror) (by rw [root?_mirror]; exact hroot) h.mirror
    (by rw [inorder_mirror]; exact List.nodup_reverse.mpr hnodup) hs' ?_ (by simp [hat]) ?_
    (by rw [height_mirror]; exact hfuel), List.head?_reverse]
  · intro x hx
    simp [hafter x (List.mem_reverse.mp hx)]
  · intro x hx
    simp [hbefore x (List.mem_reverse.mp hx)]

end Tree

/-! ## A set of nodes in order -/

/-- The functions answer as the list of the nodes does, and no loop visits more than `fuel`
nodes. -/
structure OrderedSet (cmp : α → α → Ordering) (t : RbLinks α) (fuel : Nat) (nodes : List α) :
    Prop where
  order : InOrder cmp nodes
  empty : rbEmpty t = nodes.isEmpty
  first : rbFirst t fuel = some nodes.head?
  last : rbLast t fuel = some nodes.getLast?
  next : ∀ before a after, nodes = before ++ a :: after → rbNext cmp t fuel a = some after.head?
  prev : ∀ before a after, nodes = before ++ a :: after → rbPrev cmp t fuel a = some before.getLast?
  /-- A node that matches is found, whatever part of the order the key describes. -/
  search : ∀ key, KeyMono key nodes →
    (∃ a ∈ nodes, key a = .eq ∧ rbSearch t key fuel = some (some a)) ∨
    (∀ a ∈ nodes, key a ≠ .eq) ∧ rbSearch t key fuel = some none

/-- The number of nodes that a loop visits in a tree of `n` nodes. -/
def rbRounds (n : Nat) : Nat := 2 * Nat.log2 (n + 1)

theorem OrderedSet.of_linked {cmp : α → α → Ordering} [Std.TransCmp cmp] [Std.LawfulEqCmp cmp]
    {t : RbLinks α} {s : BinaryTree α} {fuel : Nat} (hroot : t.root = s.root?)
    (h : RbLinked t.left t.right s) (hord : InOrder cmp s.inorder) (hfuel : s.height ≤ fuel) :
    OrderedSet cmp t fuel s.inorder := by
  have hsplit : ∀ before a after, s.inorder = before ++ a :: after →
      (∀ x ∈ before, cmp a x = .gt) ∧ cmp a a = .eq ∧ ∀ x ∈ after, cmp a x = .lt := by
    intro before a after hs
    rw [hs] at hord
    obtain ⟨-, hright, hcross⟩ := List.pairwise_append.mp hord
    refine ⟨fun x hx => ?_, Std.ReflCmp.compare_self, (List.pairwise_cons.mp hright).1⟩
    exact Std.OrientedCmp.gt_of_lt (hcross x hx a List.mem_cons_self)
  constructor
  case order => exact hord
  case empty =>
    rw [rbEmpty, hroot]
    cases s <;> simp [BinaryTree.root?, BinaryTree.inorder]
  case first =>
    rw [rbFirst, hroot]
    exact outermost_spec h fuel hfuel
  case last =>
    have hlast := outermost_spec h.mirror fuel (by rw [BinaryTree.height_mirror]; exact hfuel)
    rw [BinaryTree.root?_mirror, BinaryTree.inorder_mirror, List.head?_reverse] at hlast
    rw [rbLast, hroot]
    exact hlast
  case next =>
    intro before a after hs
    obtain ⟨hbefore, hat, hafter⟩ := hsplit before a after hs
    exact rbNext_spec hroot h hord.nodup hs hbefore hat hafter hfuel
  case prev =>
    intro before a after hs
    obtain ⟨hbefore, hat, hafter⟩ := hsplit before a after hs
    exact rbPrev_spec hroot h hord.nodup hs hbefore hat hafter hfuel
  case search =>
    intro key hmono
    rw [rbSearch, hroot]
    exact rbSearchLoop_spec h hmono fuel hfuel

/-! ## Runs -/

section Runs

open ColorTree

/-- A tree of `n` nodes is not higher than 2 * log2 (n + 1). -/
theorem ColorTree.Balanced.height_le_rbRounds {s : ColorTree α ν} {n : Nat}
    (h : Balanced s false n) :
    s.height ≤ rbRounds s.nodes.length := by
  have hheight := h.height_le
  have hlog : n ≤ Nat.log2 (s.nodes.length + 1) := (Nat.le_log2 (Nat.succ_ne_zero _)).mpr h.pow_le
  simp only [Bool.toNat_false] at hheight
  rw [rbRounds]
  omega

theorem HoldsTree.orderedSet {f : α → Option ν → Option ν → ν} {cmp : α → α → Ordering}
    [Std.TransCmp cmp] [Std.LawfulEqCmp cmp] {t : RbTree α ν} {nodes : List α}
    (h : HoldsTree f t nodes) (hord : InOrder cmp nodes) :
    OrderedSet cmp t.links (rbRounds nodes.length) nodes := by
  obtain ⟨s, n, hroot, hrep, -, hb, rfl⟩ := h
  have hset := OrderedSet.of_linked (t := t.links) (s := s.binary)
    (by simpa [RbTree.links] using hroot) hrep.linked
    (by simpa using hord) (by simpa using hb.height_le_rbRounds)
  simpa using hset

variable {f : α → Option ν → Option ν → ν} {cmp : α → α → Ordering} [DecidableEq α]
    {s : RbState α ν}

/-- What an operation does to the list of the nodes in order. -/
def RbOp.onList (cmp : α → α → Ordering) (nodes : List α) : RbOp α → List α
  | .insert a => nodes.takeWhile (fun x => cmp x a = .lt) ++ a :: nodes.dropWhile
      (fun x => cmp x a = .lt)
  | .remove a => nodes.erase a

/-- What an operation does to the client's nodes. -/
def RbOp.onLive (live : List α) : RbOp α → List α
  | .insert a => a :: live
  | .remove a => live.erase a

omit [DecidableEq α] in
theorem InOrder.insert [Std.TransCmp cmp] [Std.LawfulEqCmp cmp] {nodes : List α} {a : α}
    (h : InOrder cmp nodes) (ha : a ∉ nodes) :
    InOrder cmp (nodes.takeWhile (fun x => cmp x a = .lt) ++
      a :: nodes.dropWhile (fun x => cmp x a = .lt)) := by
  induction nodes with
  | nil => simp [InOrder]
  | cons b nodes ih =>
      obtain ⟨hhead, htail⟩ := List.pairwise_cons.mp h
      obtain ⟨hne, ha'⟩ : a ≠ b ∧ a ∉ nodes := by simpa using ha
      have hperm : (nodes.takeWhile (fun x => cmp x a = .lt) ++
          a :: nodes.dropWhile (fun x => cmp x a = .lt)).Perm (a :: nodes) := by
        refine List.perm_middle.trans ?_
        rw [List.takeWhile_append_dropWhile]
      cases hlt : cmp b a with
      | lt =>
          simp only [hlt, decide_true, List.takeWhile_cons_of_pos, List.dropWhile_cons_of_pos,
            List.cons_append]
          refine List.pairwise_cons.mpr ⟨fun x hx => ?_, ih htail ha'⟩
          rcases List.mem_cons.mp (hperm.mem_iff.mp hx) with rfl | hx
          · exact hlt
          · exact hhead x hx
      | eq => exact absurd (Std.LawfulEqCmp.eq_of_compare hlt).symm hne
      | gt =>
          have hab : cmp a b = .lt := Std.OrientedCmp.lt_of_gt hlt
          simp only [hlt, reduceCtorEq, decide_false, Bool.false_eq_true, not_false_eq_true,
            List.takeWhile_cons_of_neg, List.dropWhile_cons_of_neg, List.nil_append]
          refine List.pairwise_cons.mpr ⟨fun x hx => ?_, h⟩
          rcases List.mem_cons.mp hx with rfl | hx
          · exact hab
          · exact Std.TransCmp.lt_trans hab (hhead x hx)

omit [DecidableEq α] in
/-- There is one order of the nodes. -/
theorem InOrder.eq_of_perm [Std.TransCmp cmp] {nodes nodes' : List α} (h : InOrder cmp nodes)
    (h' : InOrder cmp nodes') (hperm : nodes.Perm nodes') : nodes = nodes' := by
  refine hperm.eq_of_pairwise (fun x y _ _ hxy hyx => ?_) h h'
  rw [Std.OrientedCmp.gt_of_lt hxy] at hyx
  cases hyx

theorem RbOp.onList_perm (cmp : α → α → Ordering) {nodes live : List α} (hperm : nodes.Perm live)
    (op : RbOp α) :
    (op.onList cmp nodes).Perm (op.onLive live) := by
  cases op with
  | insert a =>
      refine List.perm_middle.trans ?_
      rw [List.takeWhile_append_dropWhile]
      exact hperm.cons a
  | remove a => exact hperm.erase a

theorem RbOp.onList_inOrder [Std.TransCmp cmp] [Std.LawfulEqCmp cmp] {nodes : List α}
    (h : InOrder cmp nodes) (hperm : nodes.Perm s.live) (op : RbOp α) (hop : op.Allowed s) :
    InOrder cmp (op.onList cmp nodes) := by
  cases op with
  | insert a => exact h.insert fun hmem => hop.1 (hperm.mem_iff.mp hmem)
  | remove a => exact List.Pairwise.sublist List.erase_sublist h

theorem RbOp.exec_live {s' : RbState α ν} {op : RbOp α} (h : op.exec f cmp s = some s') :
    s'.live = op.onLive s.live := by
  cases op with
  | insert a =>
      obtain ⟨t', -, hs'⟩ := Option.bind_eq_some_iff.1 h
      cases hs'
      rfl
  | remove a =>
      obtain ⟨t', -, hs'⟩ := Option.bind_eq_some_iff.1 h
      cases hs'
      rfl

/-- **A red-black tree is an ordered set**: in every run of `insert` and `remove` the functions
answer as the list of the nodes in order does, an operation does to it what it does to that
list, and no loop visits more nodes than 2 * log2 (n + 1). -/
theorem rb_refines_ordered_list [Std.TransCmp cmp] [Std.LawfulEqCmp cmp]
    (hs : (rbMachine f cmp).Reachable s) :
    ∃ nodes, nodes.Perm s.live ∧ OrderedSet cmp s.tree.links (rbRounds nodes.length) nodes ∧
      ∀ op : RbOp α, op.Allowed s → ∃ s', op.exec f cmp s = some s' ∧
        OrderedSet cmp s'.tree.links (rbRounds (op.onList cmp nodes).length)
          (op.onList cmp nodes) := by
  obtain ⟨⟨⟨nodes, hholds, hord, hperm⟩, -⟩, hstep⟩ :=
    (rbMachine f cmp).invariant (fun s h => .of_init h)
      (fun s op h hop => RbOp.exec_inv h op hop) hs
  refine ⟨nodes, hperm, hholds.orderedSet hord, fun op hop => ?_⟩
  obtain ⟨s', hex, ⟨nodes', hholds', hord', hperm'⟩, -⟩ := hstep op hop
  have hlist : nodes' = op.onList cmp nodes := by
    refine InOrder.eq_of_perm hord' (RbOp.onList_inOrder hord hperm op hop) (hperm'.trans ?_)
    rw [RbOp.exec_live hex]
    exact (RbOp.onList_perm cmp hperm op).symm
  rw [← hlist]
  exact ⟨s', hex, hholds'.orderedSet hord'⟩

/-- A tree of the nodes 2 and 3. -/
theorem rb_refines_ordered_list_two :
    ∃ s : RbState Nat Nat, (rbMachine countNodes compare).Reachable s ∧ s.live = [3, 2] ∧
      ∃ nodes, nodes.Perm s.live ∧
      OrderedSet compare s.tree.links (rbRounds nodes.length) nodes := by
  have h0 : (rbMachine countNodes compare).Reachable
      ⟨rbNew ⟨none, fun _ => ⟨none, none, false, 0⟩⟩, []⟩ := .init ⟨rfl, rfl⟩
  have h1 := Machine.Reachable.step (M := rbMachine countNodes compare) (.insert 2) h0
    ⟨by decide, by decide⟩ rfl
  have h2 := Machine.Reachable.step (M := rbMachine countNodes compare) (.insert 3) h1
    ⟨by decide, by decide⟩ rfl
  obtain ⟨nodes, hperm, hset, -⟩ := rb_refines_ordered_list h2
  exact ⟨_, h2, rfl, nodes, hperm, hset⟩

end Runs

end SmallAllocators
