/-
SmallAllocators.Rb.Iter — `iter` and `reverse_iter` of `include/small/rb.h`.

They call a function of the client at each node, which may change anything:
`σ` is the state of the program, and `links` is where the pointers of the
tree are in it. An iteration over the whole tree reads both child pointers of
a node before it calls the function there, so that the function may destroy
the node (`rb_iter_in_order`). An iteration with a start reads the pointer to the
children behind a node after the call at nodes behind the start. A start that
is not in the tree is never found, and the comparison gets a `NULL` pointer.
-/
import SmallAllocators.Rb.Lookup

namespace SmallAllocators

variable {α ν σ : Type}

/-! ## The functions -/

/-- Why a call has no result. -/
inductive IterFault where
  /-- The recursion goes deeper than it may here. -/
  | outOfFuel
  /-- The comparison gets a `NULL` pointer. -/
  | nullNode
deriving DecidableEq

@[simp] theorem IterFault.ok_bind {β γ : Type} (b : β) (f : β → Except IterFault γ) :
    (Except.ok b >>= f) = f b := rfl

@[simp] theorem IterFault.error_bind {β γ : Type} (e : IterFault) (f : β → Except IterFault γ) :
    (Except.error e >>= f) = Except.error e :=
  rfl

@[simp] theorem IterFault.pure_eq {β : Type} (b : β) :
    (pure b : Except IterFault β) = Except.ok b := rfl

section Iter

variable (back ahead : σ → α → Option α) (cb : σ → α → Option α × σ)

/-- `iter_recurse` and `reverse_iter_recurse`; `back` and `ahead` are the children before and
behind a node in the order of the iteration. -/
def iterRecurse : Nat → σ → Option α → Except IterFault (Option α × σ)
  | _, st, none => .ok (none, st)
  | 0, _, some _ => .error .outOfFuel
  | fuel + 1, st, some node => do
    let (ret, st) ← iterRecurse fuel st (back st node)
    if ret.isSome then return (ret, st)
    let next := ahead st node
    let (ret, st) := cb st node
    if ret.isSome then return (ret, st)
    iterRecurse fuel st next

/-- `iter_start` and `reverse_iter_start`; `cmp` is `near` at the nodes behind the start. -/
def iterStart (key : α → Ordering) (near : Ordering) :
    Nat → σ → Option α → Except IterFault (Option α × σ)
  -- `a_cmp` dereferences the node
  | _, _, none => .error .nullNode
  | 0, _, some _ => .error .outOfFuel
  | fuel + 1, st, some node =>
    if key node = near then do
      let (ret, st) ← iterStart key near fuel st (back st node)
      if ret.isSome then return (ret, st)
      let (ret, st) := cb st node
      if ret.isSome then return (ret, st)
      iterRecurse back ahead cb fuel st (ahead st node)
    else if key node = near.swap then iterStart key near fuel st (ahead st node)
    else do
      let next := ahead st node
      let (ret, st) := cb st node
      if ret.isSome then return (ret, st)
      iterRecurse back ahead cb fuel st next

end Iter

section Calls

variable (links : σ → RbLinks α) (cmp : α → α → Ordering) (cb : σ → α → Option α × σ) (fuel : Nat)
    (st : σ)

def rbIter : Option α → Except IterFault (Option α × σ)
  | some start =>
    iterStart (fun st => (links st).left) (fun st => (links st).right) cb (cmp start) .lt fuel st
      (links st).root
  | none => iterRecurse (fun st => (links st).left) (fun st => (links st).right) cb fuel st
      (links st).root

def rbReverseIter : Option α → Except IterFault (Option α × σ)
  | some start =>
    iterStart (fun st => (links st).right) (fun st => (links st).left) cb (cmp start) .gt fuel st
      (links st).root
  | none => iterRecurse (fun st => (links st).right) (fun st => (links st).left) cb fuel st
      (links st).root

end Calls

/-! ## What the client may do -/

/-- The calls of the function, one node after another, until it returns a node. -/
def visitAll (cb : σ → α → Option α × σ) : List α → σ → Option α × σ
  | [], st => (none, st)
  | a :: nodes, st => if (cb st a).1.isSome then cb st a else visitAll cb nodes (cb st a).2

theorem visitAll_append (cb : σ → α → Option α × σ) (xs ys : List α) (st : σ) :
    visitAll cb (xs ++ ys) st =
      if (visitAll cb xs st).1.isSome then visitAll cb xs st
      else visitAll cb ys (visitAll cb xs st).2 := by
  induction xs generalizing st with
  | nil => simp [visitAll]
  | cons a xs ih =>
      by_cases h : (cb st a).1.isSome = true
      · simp [visitAll, h]
      · simp [visitAll, h, ih]

/-- The pointers of the nodes are what they were at the start. -/
def Agrees (back ahead : σ → α → Option α) (left right : α → Option α) (nodes : List α)
    (st : σ) : Prop :=
  ∀ a ∈ nodes, back st a = left a ∧ ahead st a = right a

/-- The function keeps the pointers of the nodes that are still to come. -/
def KeepsLater (back ahead : σ → α → Option α) (left right : α → Option α)
    (cb : σ → α → Option α × σ) (nodes : List α) : Prop :=
  ∀ pre a rest st, nodes = pre ++ a :: rest → Agrees back ahead left right (a :: rest) st →
    Agrees back ahead left right rest (cb st a).2

/-- The function keeps the pointer of its own node to the child behind it, too. -/
def KeepsOwn (back ahead : σ → α → Option α) (left right : α → Option α) (cb : σ → α → Option α × σ)
    (nodes : List α) : Prop :=
  ∀ pre a rest st, nodes = pre ++ a :: rest → Agrees back ahead left right (a :: rest) st →
    ahead (cb st a).2 a = right a

section Client

variable {back ahead : σ → α → Option α} {left right : α → Option α} {cb : σ → α → Option α × σ}
    {xs ys : List α}
  {st : σ}

theorem KeepsLater.suffix (xs : List α) (h : KeepsLater back ahead left right cb (xs ++ ys)) :
    KeepsLater back ahead left right cb ys := by
  intro pre a rest st hys
  exact h (xs ++ pre) a rest st (by rw [hys, List.append_assoc])

theorem KeepsOwn.suffix (xs : List α) (h : KeepsOwn back ahead left right cb (xs ++ ys)) :
    KeepsOwn back ahead left right cb ys := by
  intro pre a rest st hys
  exact h (xs ++ pre) a rest st (by rw [hys, List.append_assoc])

/-- After the calls for the first nodes the others are as they were. -/
theorem KeepsLater.visitAll (h : KeepsLater back ahead left right cb (xs ++ ys))
    (hst : Agrees back ahead left right (xs ++ ys) st) (hnone : (visitAll cb xs st).1 = none) :
    Agrees back ahead left right ys (SmallAllocators.visitAll cb xs st).2 := by
  induction xs generalizing st with
  | nil => exact hst
  | cons a xs ih =>
      have hnext := h [] a (xs ++ ys) st rfl hst
      by_cases hret : (cb st a).1.isSome = true
      · simp [SmallAllocators.visitAll, hret] at hnone
        simp [hnone] at hret
      · simp only [SmallAllocators.visitAll, hret] at hnone ⊢
        exact ih (.suffix [a] h) hnext hnone

end Client

/-! ## Iterations -/

section Spec

open BinaryTree

variable {back ahead : σ → α → Option α} {left right : α → Option α} {cb : σ → α → Option α × σ}
    {s : BinaryTree α}
  {key : α → Ordering} {near : Ordering}

/-- An iteration over a subtree calls the function at its nodes in order. -/
theorem iterRecurse_spec (h : RbLinked left right s) (post : List α)
    (hcb : KeepsLater back ahead left right cb (s.inorder ++ post)) (fuel : Nat)
    (hfuel : s.height ≤ fuel) (st : σ)
    (hst : Agrees back ahead left right (s.inorder ++ post) st) :
    iterRecurse back ahead cb fuel st s.root? = .ok (visitAll cb s.inorder st) := by
  induction s generalizing post fuel st with
  | nil => cases fuel <;> rfl
  | node a l r ihl ihr =>
      obtain ⟨hl, hr, hll, hlr⟩ := h
      cases fuel with
      | zero => simp [BinaryTree.height] at hfuel
      | succ fuel =>
          simp only [BinaryTree.height] at hfuel
          have hlowl : l.height ≤ fuel := by omega
          have hlowr : r.height ≤ fuel := by omega
          rw [inorder, List.append_assoc] at hcb hst
          have hleft := ihl hll _ hcb fuel hlowl st hst
          have hback : back st a = l.root? := by
            rw [(hst a (by simp)).1, hl]
          rw [root?, iterRecurse, hback, hleft, inorder, visitAll_append]
          by_cases hret : (visitAll cb l.inorder st).1.isSome = true
          · simp [hret]
          · -- the pointer behind the node is read before the call
            have hmid := hcb.visitAll hst (by simpa using hret)
            have hahead : ahead (visitAll cb l.inorder st).2 a = r.root? := by
              rw [(hmid a (by simp)).2, hr]
            have hnext := hcb.suffix l.inorder [] a _ _ rfl hmid
            have hright := ihr hlr post (.suffix [a] (.suffix l.inorder hcb)) fuel hlowr _ hnext
            by_cases hret' : (cb (visitAll cb l.inorder st).2 a).1.isSome = true
            · simp [hret, hret', visitAll]
            · simp [hret, hret', visitAll, hahead, hright]

/-- An iteration with a start in the subtree calls the function at it and the nodes behind it. -/
theorem iterStart_spec (hnear : near ≠ .eq) (h : RbLinked left right s) {before after : List α}
    {a : α} (hs : s.inorder = before ++ a :: after) (hbefore : ∀ x ∈ before, key x = near.swap)
    (hat : key a = .eq) (hafter : ∀ x ∈ after, key x = near) (post : List α)
    (hcb : KeepsLater back ahead left right cb (a :: after ++ post))
    (hown : KeepsOwn back ahead left right cb (after ++ post)) (fuel : Nat)
    (hfuel : s.height ≤ fuel) (st : σ)
    (hst : Agrees back ahead left right (s.inorder ++ post) st) :
    iterStart back ahead cb key near fuel st s.root? = .ok (visitAll cb (a :: after) st) := by
  induction s generalizing before after post fuel st with
  | nil => simp [inorder] at hs
  | node b l r ihl ihr =>
      obtain ⟨hl, hr, hll, hlr⟩ := h
      have hat_ne : Ordering.eq ≠ near := hnear.symm
      have hat_ne' : Ordering.eq ≠ near.swap := fun heq => hnear (Ordering.swap_eq_eq.mp heq.symm)
      cases fuel with
      | zero => simp [BinaryTree.height] at hfuel
      | succ fuel =>
          simp only [BinaryTree.height] at hfuel
          have hlowl : l.height ≤ fuel := by omega
          have hlowr : r.height ≤ fuel := by omega
          rw [inorder, List.append_assoc] at hst
          rw [inorder] at hs
          have hback : back st b = l.root? := by rw [(hst b (by simp)).1, hl]
          have hahead : ahead st b = r.root? := by rw [(hst b (by simp)).2, hr]
          -- at the start itself
          have hhere : b = a → r.inorder = after →
              iterStart back ahead cb key near (fuel + 1) st (some b) =
              .ok (visitAll cb (a :: after) st) := by
            intro hba hra
            subst hba hra
            have hst' : Agrees back ahead left right (b :: r.inorder ++ post) st :=
              fun x hx => hst x (by simp_all)
            have hnext := hcb [] b _ st rfl hst'
            have hright := iterRecurse_spec hlr post (.suffix [b] hcb) fuel hlowr _ hnext
            rw [iterStart, hat, if_neg hat_ne, if_neg hat_ne', hahead]
            by_cases hret : (cb st b).1.isSome = true
            · simp [visitAll, hret]
            · simp [visitAll, hret, hright]
          rw [root?]
          rcases List.append_eq_append_iff.mp hs with ⟨mid, rfl, htail⟩ | ⟨mid, hmid, htail⟩
          · cases mid with
            | nil =>
                obtain ⟨hba, hra⟩ : b = a ∧ r.inorder = after := by simpa using htail
                exact hhere hba hra
            | cons c mid =>
                obtain ⟨rfl, hmid⟩ : b = c ∧ r.inorder = mid ++ a :: after := by simpa using htail
                have hkey : key b = near.swap := hbefore b (by simp)
                have hne : near.swap ≠ near := by
                  cases near <;> simp at hnear ⊢
                rw [iterStart, hkey, if_neg hne, if_pos rfl, hahead]
                exact ihr hlr hmid
                  (fun x hx => hbefore x (by simp [hx])) hafter post hcb hown fuel hlowr st
                  (fun x hx => hst x (by simp_all))
          · cases mid with
            | nil =>
                obtain ⟨hab, hra⟩ : a = b ∧ after = r.inorder := by simpa using htail
                exact hhere hab.symm hra.symm
            | cons c mid =>
                obtain ⟨rfl, rfl⟩ : a = c ∧ after = mid ++ b :: r.inorder := by simpa using htail
                have hkey : key b = near := hafter b (by simp)
                have hcb' : KeepsLater back ahead left right cb
                    (a :: mid ++ (b :: r.inorder ++ post)) := by
                  simpa using hcb
                have hown' :
                    KeepsOwn back ahead left right cb (mid ++ (b :: r.inorder ++ post)) := by
                  simpa using hown
                have hleft := ihl hll hmid hbefore
                  (fun x hx => hafter x (by simp [hx])) _ hcb' hown' fuel hlowl st hst
                rw [iterStart, hkey, if_pos rfl, hback, hleft]
                rw [← List.cons_append, visitAll_append]
                by_cases hret : (visitAll cb (a :: mid) st).1.isSome = true
                · simp [hret]
                · have hst' :
                      Agrees back ahead left right (a :: mid ++ (b :: r.inorder ++ post)) st := by
                    intro x hx
                    refine hst x ?_
                    rw [hmid]
                    simp only [List.mem_append] at hx ⊢
                    exact hx.imp_left Or.inr
                  have hmid' := hcb'.visitAll hst' (by simpa using hret)
                  have hnext := hcb'.suffix (a :: mid) [] b _ _ rfl hmid'
                  -- the pointer behind the node is read after the call
                  have hkeep := hown'.suffix mid [] b _ _ rfl hmid'
                  have hright := iterRecurse_spec hlr post
                    (.suffix [b] (.suffix (a :: mid) hcb')) fuel hlowr _ hnext
                  generalize visitAll cb (a :: mid) st = called at *
                  by_cases hret' : (cb called.2 b).1.isSome = true
                  · simp [hret, hret', visitAll]
                  · simp [hret, hret', visitAll, hkeep, hr, hright]

/-- A start that is not in the subtree is looked for behind a `NULL` pointer. -/
theorem iterStart_missing (h : RbLinked left right s)
    (hkey : ∀ x ∈ s.inorder, key x = near ∨ key x = near.swap) (fuel : Nat)
    (hfuel : s.height ≤ fuel) (st : σ) (hst : Agrees back ahead left right s.inorder st) :
    iterStart back ahead cb key near fuel st s.root? = .error .nullNode := by
  induction s generalizing fuel with
  | nil => cases fuel <;> rfl
  | node b l r ihl ihr =>
      obtain ⟨hl, hr, hll, hlr⟩ := h
      cases fuel with
      | zero => simp [BinaryTree.height] at hfuel
      | succ fuel =>
          simp only [BinaryTree.height] at hfuel
          have hlowl : l.height ≤ fuel := by omega
          have hlowr : r.height ≤ fuel := by omega
          have hmem : b ∈ (BinaryTree.node b l r).inorder := by simp [inorder]
          have hback : back st b = l.root? := by rw [(hst b hmem).1, hl]
          have hahead : ahead st b = r.root? := by rw [(hst b hmem).2, hr]
          have hleft := ihl hll (fun x hx => hkey x (by simp [inorder, hx])) fuel hlowl
            (fun x hx => hst x (by simp [inorder, hx]))
          have hright := ihr hlr (fun x hx => hkey x (by simp [inorder, hx])) fuel hlowr
            (fun x hx => hst x (by simp [inorder, hx]))
          rw [root?, iterStart, hback, hahead, hleft, hright]
          rcases hkey b hmem with hb | hb
          · simp [hb]
          · by_cases hswap : near.swap = near
            · simp [hb, hswap]
            · simp [hb, hswap]

end Spec

/-! ## Runs -/

section Runs

open ColorTree

/-- What an iteration over these nodes does. -/
structure Iterates (iter : Option α → Except IterFault (Option α × σ))
    (back ahead : σ → α → Option α) (left right : α → Option α) (cb : σ → α → Option α × σ)
    (st : σ) (nodes : List α) : Prop where
  whole : KeepsLater back ahead left right cb nodes → iter none = .ok (visitAll cb nodes st)
  start : ∀ before a after, nodes = before ++ a :: after →
    KeepsLater back ahead left right cb (a :: after) →
    KeepsOwn back ahead left right cb after → iter (some a) = .ok (visitAll cb (a :: after) st)
  missing : ∀ a, a ∉ nodes → iter (some a) = .error .nullNode

variable {cmp : α → α → Ordering}

/-- `iter`, and `reverse_iter` in the mirror image. -/
theorem Iterates.of_linked (near : Ordering) (hnear : near ≠ .eq) {back ahead : σ → α → Option α}
    {left right : α → Option α} {cb : σ → α → Option α × σ} {st : σ} {s : BinaryTree α}
    {fuel : Nat} (h : RbLinked left right s)
    (hord : s.inorder.Pairwise fun x y => cmp y x = near.swap ∧ cmp x y = near)
    (hself : ∀ a, cmp a a = .eq) (hne : ∀ a, a ∉ s.inorder → ∀ x ∈ s.inorder, cmp a x ≠ .eq)
    (hfuel : s.height ≤ fuel) (hback : back st = left) (hahead : ahead st = right)
    {root : Option α} (hroot : root = s.root?) {iter : Option α → Except IterFault (Option α × σ)}
    (hwhole : iter none = iterRecurse back ahead cb fuel st root)
    (hstart : ∀ a, iter (some a) = iterStart back ahead cb (cmp a) near fuel st root) :
    Iterates iter back ahead left right cb st s.inorder := by
  have hst : Agrees back ahead left right (s.inorder ++ []) st :=
    fun x _ => ⟨by rw [hback], by rw [hahead]⟩
  constructor
  case whole =>
    intro hcb
    rw [hwhole, hroot]
    exact iterRecurse_spec h [] (by simpa using hcb) fuel hfuel st hst
  case start =>
    intro before a after hs hcb hown
    have hord' := hord
    rw [hs] at hord'
    obtain ⟨-, htail, hcross⟩ := List.pairwise_append.mp hord'
    rw [hstart, hroot]
    refine iterStart_spec hnear h hs (fun x hx => ?_) (hself a) (fun x hx => ?_) []
      (by simpa using hcb) (by simpa using hown) fuel hfuel st hst
    · exact (hcross x hx a List.mem_cons_self).1
    · exact ((List.pairwise_cons.mp htail).1 x hx).2
  case missing =>
    intro a ha
    rw [hstart, hroot]
    refine iterStart_missing h (fun x hx => ?_) fuel hfuel st (by simpa using hst)
    cases hk : cmp a x with
    | eq => exact absurd hk (hne a ha x hx)
    | lt => cases near <;> simp at hnear ⊢
    | gt => cases near <;> simp at hnear ⊢

variable {f : α → Option ν → Option ν → ν} [DecidableEq α] {s : RbState α ν}

/-- **`iter` and `reverse_iter` go through the nodes in order**, in every run of `insert` and
`remove` and for every function of the client that keeps the pointers of the nodes still to
come: it may destroy the node it is called at, unless the iteration has a start, in which case
the pointer behind the node has to stay. -/
theorem rb_iter_in_order [Std.TransCmp cmp] [Std.LawfulEqCmp cmp]
    (hs : (rbMachine f cmp).Reachable s) (links : σ → RbLinks α) (cb : σ → α → Option α × σ) :
    ∃ nodes, nodes.Perm s.live ∧ InOrder cmp nodes ∧ ∀ st fuel, links st = s.tree.links →
      rbRounds nodes.length ≤ fuel →
      Iterates (rbIter links cmp cb fuel st) (fun st => (links st).left)
        (fun st => (links st).right)
        s.tree.links.left s.tree.links.right cb st nodes ∧
      Iterates (rbReverseIter links cmp cb fuel st) (fun st => (links st).right)
        (fun st => (links st).left)
        s.tree.links.right s.tree.links.left cb st nodes.reverse := by
  obtain ⟨⟨⟨nodes, ⟨shape, n, hroot, hrep, -, hb, rfl⟩, hord, hperm⟩, -⟩, -⟩ :=
    (rbMachine f cmp).invariant (fun s h => .of_init h)
      (fun s op h hop => RbOp.exec_inv h op hop) hs
  refine ⟨shape.nodes, hperm, hord, fun st fuel hlinks hfuel => ?_⟩
  have hself : ∀ a, cmp a a = .eq := fun a => Std.ReflCmp.compare_self
  have hmiss : ∀ nodes : List α, ∀ a, a ∉ nodes → ∀ x ∈ nodes, cmp a x ≠ .eq := by
    intro nodes a ha x hx heq
    exact ha (Std.LawfulEqCmp.eq_of_compare heq ▸ hx)
  have hlow : shape.binary.height ≤ fuel := by
    rw [height_binary]
    exact Nat.le_trans hb.height_le_rbRounds hfuel
  have hroot' : (links st).root = shape.binary.root? := by
    rw [hlinks, root?_binary]
    exact hroot
  constructor
  · have hiter : Iterates (rbIter links cmp cb fuel st) (fun st => (links st).left)
        (fun st => (links st).right)
        s.tree.links.left s.tree.links.right cb st shape.binary.inorder := by
      refine .of_linked .lt (by simp) hrep.linked ?_ hself (hmiss _) hlow (by rw [hlinks])
        (by rw [hlinks]) hroot' rfl
        (fun a => rfl)
      rw [inorder_binary]
      exact hord.imp fun hlt => ⟨Std.OrientedCmp.gt_of_lt hlt, hlt⟩
    rwa [inorder_binary] at hiter
  · have hiter : Iterates (rbReverseIter links cmp cb fuel st) (fun st => (links st).right)
        (fun st => (links st).left)
        s.tree.links.right s.tree.links.left cb st shape.binary.mirror.inorder := by
      refine .of_linked .gt (by simp) hrep.linked.mirror ?_ hself (hmiss _)
        (by rw [BinaryTree.height_mirror]; exact hlow)
        (by rw [hlinks]) (by rw [hlinks]) (by rw [BinaryTree.root?_mirror]; exact hroot') rfl
        (fun a => rfl)
      rw [BinaryTree.inorder_mirror, inorder_binary]
      exact List.pairwise_reverse.mpr (hord.imp fun hlt => ⟨hlt, Std.OrientedCmp.gt_of_lt hlt⟩)
    rwa [BinaryTree.inorder_mirror, inorder_binary] at hiter

/-! ## Destroying a tree -/

/-- A function that frees the node, so that its pointers are gone, and counts it. -/
def freeNode (st : RbLinks α × List α) (a : α) : Option α × (RbLinks α × List α) :=
  (none, ⟨st.1.root, Function.update st.1.left a none, Function.update st.1.right a none⟩,
      a :: st.2)

theorem freeNode_keepsLater {left right : α → Option α} {nodes : List α} (hnodup : nodes.Nodup) :
    KeepsLater (fun st : RbLinks α × List α => st.1.left)
      (fun st => st.1.right) left right freeNode nodes := by
  intro pre a rest st hs hst x hx
  rw [hs] at hnodup
  have hne : x ≠ a := by
    intro heq
    exact (List.nodup_cons.mp (List.nodup_append.mp hnodup).2.1).1 (heq ▸ hx)
  simpa [freeNode, hne] using hst x (List.mem_cons_of_mem a hx)

theorem visitAll_freeNode (nodes : List α) (st : RbLinks α × List α) :
    (visitAll freeNode nodes st).1 = none ∧
      (visitAll freeNode nodes st).2.2 = nodes.reverse ++ st.2 := by
  induction nodes generalizing st with
  | nil => exact ⟨rfl, rfl⟩
  | cons a nodes ih => simp [visitAll, freeNode, ih]

/-- The two nodes of a tree are freed, each of them once. -/
theorem rb_iter_in_order_two :
    ∃ s : RbState Nat Nat, (rbMachine countNodes compare).Reachable s ∧ s.live = [3, 2] ∧
      ∃ st, rbIter (fun st => st.1) compare freeNode 2 (s.tree.links, []) none = .ok (none, st) ∧
      st.2.Perm s.live := by
  have h0 : (rbMachine countNodes compare).Reachable
      ⟨rbNew ⟨none, fun _ => ⟨none, none, false, 0⟩⟩, []⟩ := .init ⟨rfl, rfl⟩
  have h1 := Machine.Reachable.step (M := rbMachine countNodes compare) (.insert 2) h0
    ⟨by decide, by decide⟩ rfl
  have h2 := Machine.Reachable.step (M := rbMachine countNodes compare) (.insert 3) h1
    ⟨by decide, by decide⟩ rfl
  obtain ⟨nodes, hperm, hord, hiter⟩ :=
    rb_iter_in_order h2 (fun st : RbLinks Nat × List Nat => st.1) freeNode
  have hrounds : rbRounds nodes.length ≤ 2 := by
    rw [hperm.length_eq]
    decide
  have hwhole := (hiter (_, []) 2 rfl hrounds).1.whole (freeNode_keepsLater hord.nodup)
  obtain ⟨hret, hfreed⟩ := visitAll_freeNode nodes (_, [])
  refine ⟨_, h2, rfl, _, hwhole.trans (congrArg Except.ok (Prod.ext hret rfl)), ?_⟩
  rw [hfreed, List.append_nil]
  exact (List.reverse_perm nodes).trans hperm

end Runs

end SmallAllocators
