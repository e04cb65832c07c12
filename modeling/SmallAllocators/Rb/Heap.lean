/-
SmallAllocators.Rb.Heap — the trees that the nodes of an `RbTree` form.

`Rep t s` says that the fields of the nodes are those of the tree `s`, and
`Above t p ctx` that the nodes above a hole are those of the frames, with
`p` in the hole. `Becomes` is a change of one subtree that leaves all other
nodes as they are: each macro of `rb.h` is such a change, and a round of
the loops is a chain of them. `At` is a tree with a subtree in focus, where
the pointer to the subtree may be an old one.
-/
import SmallAllocators.Lib.RedBlack
import SmallAllocators.Rb.Tree

namespace SmallAllocators

open ColorTree

variable {α ν : Type}

/-- The fields of the nodes are those of the tree. -/
def Rep (t : RbTree α ν) : ColorTree α ν → Prop
  | .nil => True
  | .node a red v l r => t.node a = ⟨l.root?, r.root?, red, v⟩ ∧ Rep t l ∧ Rep t r

/-- The fields of the frame's node, with `p` in the hole. -/
def Frame.cell (fr : Frame α ν) (p : Option α) : RbNode α ν :=
  if fr.left then ⟨p, fr.sib.root?, fr.red, fr.value⟩ else ⟨fr.sib.root?, p, fr.red, fr.value⟩

/-- The nodes above a hole are those of the frames, and the pointer in the hole is `p`. -/
def Above (t : RbTree α ν) : Option α → List (Frame α ν) → Prop
  | p, [] => t.root = p
  | p, fr :: ctx => t.node fr.id = fr.cell p ∧ Rep t fr.sib ∧ Above t (some fr.id) ctx

/-- The path to the hole. -/
def pathOf (ctx : List (Frame α ν)) : RbPath α :=
  ctx.map fun fr => (fr.id, if fr.left then .lt else .gt)

@[simp] theorem pathOf_left (a : α) (c : Bool) (v : ν) (sib : ColorTree α ν)
    (ctx : List (Frame α ν)) :
    pathOf (⟨true, a, c, v, sib⟩ :: ctx) = (a, .lt) :: pathOf ctx := rfl

@[simp] theorem pathOf_right (a : α) (c : Bool) (v : ν) (sib : ColorTree α ν)
    (ctx : List (Frame α ν)) :
    pathOf (⟨false, a, c, v, sib⟩ :: ctx) = (a, .gt) :: pathOf ctx := rfl

/-- `t'` is `t` with the subtree `s'` in place of `s`. -/
structure Becomes (t : RbTree α ν) (s : ColorTree α ν) (t' : RbTree α ν) (s' : ColorTree α ν) :
    Prop where
  rep : Rep t' s'
  nodup : s'.nodes.Nodup
  nodes : s'.nodes = s.nodes
  frame : ∀ x ∉ s.nodes, t'.node x = t.node x
  root : t'.root = t.root

/-- The subtree `s` is in focus, and `p` is the pointer to it. -/
structure At (t : RbTree α ν) (p : Option α) (ctx : List (Frame α ν)) (s : ColorTree α ν) :
    Prop where
  rep : Rep t s
  above : Above t p ctx
  nodup : (nodesBefore ctx ++ s.nodes ++ nodesAfter ctx).Nodup

/-- The tree of the nodes is balanced and augmented, and has these nodes in order. -/
def HoldsTree (f : α → Option ν → Option ν → ν) (t : RbTree α ν) (nodes : List α) : Prop :=
  ∃ s n, t.root = s.root? ∧ Rep t s ∧ s.Aug f ∧ Balanced s false n ∧ s.nodes = nodes

/-! ## Nodes that change -/

theorem Rep.congr {t t' : RbTree α ν} {s : ColorTree α ν} (h : Rep t s)
    (he : ∀ x ∈ s.nodes, t'.node x = t.node x) : Rep t' s := by
  induction s with
  | nil => trivial
  | node a red v l r ihl ihr =>
      obtain ⟨ha, hl, hr⟩ := h
      refine ⟨?_, ihl hl ?_, ihr hr ?_⟩
      · rw [he a (by simp [nodes])]
        exact ha
      · intro x hx
        exact he x (by simp [nodes, hx])
      · intro x hx
        exact he x (by simp [nodes, hx])

theorem Rep.value? {t : RbTree α ν} {s : ColorTree α ν} (h : Rep t s) :
    (s.root?.map fun b => (t.node b).value) = s.value? := by
  cases s with
  | nil => rfl
  | node a red v l r =>
      obtain ⟨ha, -⟩ := h
      simp [root?, ColorTree.value?, ha]

theorem Rep.isRed {t : RbTree α ν} {s : ColorTree α ν} {c : Bool} {n : Nat} (h : Rep t s)
    (hb : Balanced s c n) : t.isRed s.root? = c := by
  cases hb with
  | nil => rfl
  | red hl hr =>
      obtain ⟨ha, -⟩ := h
      simp [RbTree.isRed, root?, ha]
  | black hl hr =>
      obtain ⟨ha, -⟩ := h
      simp [RbTree.isRed, root?, ha]

theorem Above.congr {t t' : RbTree α ν} {p : Option α} {ctx : List (Frame α ν)} (h : Above t p ctx)
    (he : ∀ x ∈ nodesBefore ctx ++ nodesAfter ctx, t'.node x = t.node x) (hr : t'.root = t.root) :
    Above t' p ctx := by
  induction ctx generalizing p with
  | nil => exact hr.trans h
  | cons fr ctx ih =>
      obtain ⟨ha, hs, hc⟩ := h
      refine ⟨?_, hs.congr ?_, ih hc ?_⟩
      · rw [he _ (Frame.mem_nodes ctx (Or.inl rfl))]
        exact ha
      · intro x hx
        exact he x (Frame.mem_nodes ctx (Or.inr hx))
      · intro x hx
        refine he x ?_
        simp only [nodesBefore, nodesAfter, List.mem_append] at hx ⊢
        tauto

section Update

variable [DecidableEq α]

theorem RbTree.update_node_self (t : RbTree α ν) (a : α) (n : RbNode α ν) :
    (t.update a n).node a = n := by
  simp [RbTree.update]

theorem RbTree.update_node_ne (t : RbTree α ν) {a x : α} (n : RbNode α ν) (h : x ≠ a) :
    (t.update a n).node x = t.node x := by
  simp [RbTree.update, h]

theorem Rep.update {t : RbTree α ν} {s : ColorTree α ν} (h : Rep t s) {a : α} (n : RbNode α ν)
    (ha : a ∉ s.nodes) : Rep (t.update a n) s :=
  h.congr fun _ hx => t.update_node_ne n fun he => ha (he ▸ hx)

theorem Above.update {t : RbTree α ν} {p : Option α} {ctx : List (Frame α ν)} (h : Above t p ctx)
    {a : α} (n : RbNode α ν) (ha : a ∉ nodesBefore ctx ++ nodesAfter ctx) :
    Above (t.update a n) p ctx :=
  h.congr (fun _ hx => t.update_node_ne n fun he => ha (he ▸ hx)) rfl

end Update

/-! ## Changes of a subtree -/

namespace Becomes

variable {t₀ t t' : RbTree α ν} {s₀ l l' r r' : ColorTree α ν} {a b : α} {c d : Bool} {v w : ν}

theorem refl {s : ColorTree α ν} (h : Rep t s) (hn : s.nodes.Nodup) : Becomes t s t s :=
  ⟨h, hn, rfl, fun _ _ => rfl, rfl⟩

/-- The left subtree, in focus. -/
theorem left (h : Becomes t₀ s₀ t (.node a c v l r)) : Becomes t l t l :=
  refl h.rep.2.1 (List.nodup_append'.1 h.nodup).1

/-- The right subtree, in focus. -/
theorem right (h : Becomes t₀ s₀ t (.node a c v l r)) : Becomes t r t r :=
  refl h.rep.2.2 (List.nodup_cons.1 (List.nodup_append'.1 h.nodup).2.1).2

/-- The root is in neither subtree, and these share no node. -/
theorem apart (h : Becomes t₀ s₀ t (.node a c v l r)) :
    a ∉ l.nodes ∧ a ∉ r.nodes ∧ ∀ x ∈ l.nodes, x ∉ r.nodes := by
  obtain ⟨-, hr, hd⟩ := List.nodup_append'.1 h.nodup
  refine ⟨fun ha => hd ha List.mem_cons_self, (List.nodup_cons.1 hr).1, ?_⟩
  intro x hl hr
  exact hd hl (List.mem_cons_of_mem _ hr)

theorem mem (h : Becomes t₀ s₀ t (.node a c v l r)) : a ∈ s₀.nodes := by
  rw [← h.nodes]
  simp [ColorTree.nodes]

/-- A change of the left subtree that keeps its root. -/
theorem inLeft (h : Becomes t₀ s₀ t (.node a c v l r)) (hl : Becomes t l t' l')
    (hroot : l'.root? = l.root?) :
    Becomes t₀ s₀ t' (.node a c v l' r) := by
  obtain ⟨hal, har, hlr⟩ := h.apart
  have hnodes : (ColorTree.node a c v l' r).nodes = (ColorTree.node a c v l r).nodes := by
    simp [ColorTree.nodes, hl.nodes]
  refine ⟨⟨?_, hl.rep, h.rep.2.2.congr ?_⟩, hnodes ▸ h.nodup, hnodes.trans h.nodes, ?_,
    hl.root.trans h.root⟩
  · rw [hl.frame a hal, hroot]
    exact h.rep.1
  · intro x hx
    exact hl.frame x fun hx' => hlr x hx' hx
  · intro x hx
    rw [hl.frame x fun hx' => hx (h.nodes ▸ by simp [ColorTree.nodes, hx'])]
    exact h.frame x hx

/-- A change of the right subtree that keeps its root. -/
theorem inRight (h : Becomes t₀ s₀ t (.node a c v l r)) (hr : Becomes t r t' r')
    (hroot : r'.root? = r.root?) :
    Becomes t₀ s₀ t' (.node a c v l r') := by
  obtain ⟨hal, har, hlr⟩ := h.apart
  have hnodes : (ColorTree.node a c v l r').nodes = (ColorTree.node a c v l r).nodes := by
    simp [ColorTree.nodes, hr.nodes]
  refine ⟨⟨?_, h.rep.2.1.congr ?_, hr.rep⟩, hnodes ▸ h.nodup, hnodes.trans h.nodes, ?_,
    hr.root.trans h.root⟩
  · rw [hr.frame a har, hroot]
    exact h.rep.1
  · intro x hx
    exact hr.frame x fun hx' => hlr x hx hx'
  · intro x hx
    rw [hr.frame x fun hx' => hx (h.nodes ▸ by simp [ColorTree.nodes, hx'])]
    exact h.frame x hx

section Update

variable [DecidableEq α]

/-- New fields for the root of the subtree, which keep its children. -/
theorem update (h : Becomes t₀ s₀ t (.node a c v l r)) (d : Bool) (w : ν) :
    Becomes t₀ s₀ (t.update a ⟨l.root?, r.root?, d, w⟩) (.node a d w l r) := by
  obtain ⟨hal, har, -⟩ := h.apart
  refine ⟨⟨t.update_node_self _ _, h.rep.2.1.update _ hal, h.rep.2.2.update _ har⟩, h.nodup,
    h.nodes, ?_, h.root⟩
  intro x hx
  rw [t.update_node_ne _ fun (he : x = a) => hx (he ▸ h.mem)]
  exact h.frame x hx

theorem colorSet (h : Becomes t₀ s₀ t (.node a c v l r)) (d : Bool) :
    Becomes t₀ s₀ (t.colorSet a d) (.node a d v l r) := by
  unfold RbTree.colorSet
  rw [h.rep.1]
  exact h.update d v

theorem augment (f : α → Option ν → Option ν → ν) (h : Becomes t₀ s₀ t (.node a c v l r)) :
    Becomes t₀ s₀ (t.augment f a) (augNode f a c l r) := by
  unfold RbTree.augment
  rw [h.rep.1, h.rep.2.1.value?, h.rep.2.2.value?]
  exact h.update c _

/-- A change of the right subtree, and of the pointer to it. -/
theorem linkRight (h : Becomes t₀ s₀ t (.node a c v l r)) (hr : Becomes t r t' r') :
    Becomes t₀ s₀ (t'.rightSet a r'.root?) (.node a c v l r') := by
  obtain ⟨hal, har, hlr⟩ := h.apart
  have hnodes : (ColorTree.node a c v l r').nodes = (ColorTree.node a c v l r).nodes := by
    simp [ColorTree.nodes, hr.nodes]
  have hcell : t'.rightSet a r'.root? = t'.update a ⟨l.root?, r'.root?, c, v⟩ := by
    rw [RbTree.rightSet, hr.frame a har, h.rep.1]
  rw [hcell]
  refine ⟨⟨t'.update_node_self _ _, ?_, hr.rep.update _ (hr.nodes ▸ har)⟩, hnodes ▸ h.nodup,
    hnodes.trans h.nodes, ?_, hr.root.trans h.root⟩
  · refine (h.rep.2.1.congr fun x hx => ?_).update _ hal
    exact hr.frame x (hlr x hx)
  · intro x hx
    rw [t'.update_node_ne _ fun (he : x = a) => hx (he ▸ h.mem),
      hr.frame x fun hx' => hx (h.nodes ▸ by simp [ColorTree.nodes, hx'])]
    exact h.frame x hx

theorem rotateLeft (h : Becomes t₀ s₀ t (.node a c v l (.node b d w r r'))) :
    ∃ t', t.rotateLeft a = some (t', b) ∧ Becomes t₀ s₀ t' (.node b d w (.node a c v l r) r') := by
  obtain ⟨hal, har, hlr⟩ := h.apart
  obtain ⟨hbr, hbr', hrr⟩ := h.right.apart
  have hne : b ≠ a := fun he => har (by simp [ColorTree.nodes, he])
  have hbl : b ∉ l.nodes := fun hb => hlr b hb (by simp [ColorTree.nodes])
  have hra : a ∉ r.nodes := fun ha => har (by simp [ColorTree.nodes, ha])
  have hra' : a ∉ r'.nodes := fun ha => har (by simp [ColorTree.nodes, ha])
  obtain ⟨ha, hl, hb, hr, hr'⟩ := h.rep
  have hnodes : (ColorTree.node b d w (.node a c v l r) r').nodes
      = (ColorTree.node a c v l (.node b d w r r')).nodes := by
    simp [ColorTree.nodes]
  have hset : t.rightSet a (t.node b).left = t.update a ⟨l.root?, r.root?, c, v⟩ := by
    rw [RbTree.rightSet, ha, hb]
  have hset' : (t.update a ⟨l.root?, r.root?, c, v⟩).leftSet b (some a)
      = (t.update a ⟨l.root?, r.root?, c, v⟩).update b ⟨some a, r'.root?, d, w⟩ := by
    rw [RbTree.leftSet, t.update_node_ne _ hne, hb]
  refine ⟨(t.update a ⟨l.root?, r.root?, c, v⟩).update b ⟨some a, r'.root?, d, w⟩, ?_, ⟨?_, ?_, ?_⟩,
    hnodes ▸ h.nodup, hnodes.trans h.nodes, ?_, h.root⟩
  · have hchild : (t.node a).right = some b := by rw [ha]; rfl
    rw [← hset', ← hset]
    simp [RbTree.rotateLeft, hchild]
  · exact RbTree.update_node_self _ _ _
  · refine ⟨?_, (hl.update _ hal).update _ hbl, (hr.update _ hra).update _ hbr⟩
    rw [RbTree.update_node_ne _ _ hne.symm, t.update_node_self]
  · exact (hr'.update _ hra').update _ hbr'
  · intro x hx
    have hmem : ∀ y ∈ (ColorTree.node a c v l (.node b d w r r')).nodes, x ≠ y :=
      fun y hy he => hx (h.nodes ▸ he ▸ hy)
    rw [RbTree.update_node_ne _ _ (hmem b (by simp [ColorTree.nodes])),
      RbTree.update_node_ne _ _ (hmem a (by simp [ColorTree.nodes]))]
    exact h.frame x hx

theorem rotateRight (h : Becomes t₀ s₀ t (.node a c v (.node b d w l l') r)) :
    ∃ t', t.rotateRight a = some (t', b) ∧ Becomes t₀ s₀ t' (.node b d w l (.node a c v l' r)) := by
  obtain ⟨hal, har, hlr⟩ := h.apart
  obtain ⟨hbl, hbl', hll⟩ := h.left.apart
  have hne : b ≠ a := fun he => hal (by simp [ColorTree.nodes, he])
  have hbr : b ∉ r.nodes := hlr b (by simp [ColorTree.nodes])
  have hla : a ∉ l.nodes := fun ha => hal (by simp [ColorTree.nodes, ha])
  have hla' : a ∉ l'.nodes := fun ha => hal (by simp [ColorTree.nodes, ha])
  obtain ⟨ha, ⟨hb, hl, hl'⟩, hr⟩ := h.rep
  have hnodes : (ColorTree.node b d w l (.node a c v l' r)).nodes
      = (ColorTree.node a c v (.node b d w l l') r).nodes := by
    simp [ColorTree.nodes]
  have hset : t.leftSet a (t.node b).right = t.update a ⟨l'.root?, r.root?, c, v⟩ := by
    rw [RbTree.leftSet, ha, hb]
  have hset' : (t.update a ⟨l'.root?, r.root?, c, v⟩).rightSet b (some a)
      = (t.update a ⟨l'.root?, r.root?, c, v⟩).update b ⟨l.root?, some a, d, w⟩ := by
    rw [RbTree.rightSet, t.update_node_ne _ hne, hb]
  refine ⟨(t.update a ⟨l'.root?, r.root?, c, v⟩).update b ⟨l.root?, some a, d, w⟩, ?_, ⟨?_, ?_, ?_⟩,
    hnodes ▸ h.nodup, hnodes.trans h.nodes, ?_, h.root⟩
  · have hchild : (t.node a).left = some b := by rw [ha]; rfl
    rw [← hset', ← hset]
    simp [RbTree.rotateRight, hchild]
  · exact RbTree.update_node_self _ _ _
  · exact (hl.update _ hla).update _ hbl
  · refine ⟨?_, (hl'.update _ hla').update _ hbl', (hr.update _ har).update _ hbr⟩
    rw [RbTree.update_node_ne _ _ hne.symm, t.update_node_self]
  · intro x hx
    have hmem : ∀ y ∈ (ColorTree.node a c v (.node b d w l l') r).nodes, x ≠ y :=
      fun y hy he => hx (h.nodes ▸ he ▸ hy)
    rw [RbTree.update_node_ne _ _ (hmem b (by simp [ColorTree.nodes])),
      RbTree.update_node_ne _ _ (hmem a (by simp [ColorTree.nodes]))]
    exact h.frame x hx

end Update

end Becomes

/-! ## A subtree in focus -/

namespace At

variable {t t' : RbTree α ν} {p : Option α} {ctx : List (Frame α ν)}
    {s s' sib : ColorTree α ν} {a : α}
  {c : Bool} {v : ν}

theorem focus (h : At t p ctx s) : Becomes t s t s :=
  .refl h.rep (List.nodup_append'.1 (List.nodup_append'.1 h.nodup).1).2.1

/-- The nodes around the subtree are not its own. -/
theorem apart (h : At t p ctx s) {x : α} (hx : x ∈ nodesBefore ctx ++ nodesAfter ctx) :
    x ∉ s.nodes := by
  obtain ⟨hbs, -, hdisj⟩ := List.nodup_append'.1 h.nodup
  obtain ⟨-, -, hdisj'⟩ := List.nodup_append'.1 hbs
  intro hs
  rcases List.mem_append.1 hx with hx | hx
  · exact hdisj' hx hs
  · exact hdisj (List.mem_append.2 (Or.inr hs)) hx

theorem becomes (h : At t p ctx s) (hb : Becomes t s t' s') : At t' p ctx s' :=
  ⟨hb.rep, h.above.congr (fun x hx => hb.frame x (h.apart hx)) hb.root, hb.nodes ▸ h.nodup⟩

/-- The nodes in order, with the parent of the subtree in the frame or in focus. -/
theorem nodes_left (ctx : List (Frame α ν)) (a : α) (c : Bool) (v : ν) (s sib : ColorTree α ν) :
    nodesBefore (⟨true, a, c, v, sib⟩ :: ctx) ++ s.nodes ++ nodesAfter (⟨true, a, c, v, sib⟩ :: ctx)
      = nodesBefore ctx ++ (ColorTree.node a c v s sib).nodes ++ nodesAfter ctx := by
  simp [nodesBefore, nodesAfter, Frame.before, Frame.after, ColorTree.nodes]

theorem nodes_right (ctx : List (Frame α ν)) (a : α) (c : Bool) (v : ν) (s sib : ColorTree α ν) :
    nodesBefore (⟨false, a, c, v, sib⟩ :: ctx) ++ s.nodes ++ nodesAfter
      (⟨false, a, c, v, sib⟩ :: ctx)
      = nodesBefore ctx ++ (ColorTree.node a c v sib s).nodes ++ nodesAfter ctx := by
  simp [nodesBefore, nodesAfter, Frame.before, Frame.after, ColorTree.nodes]

/-- The parent of the subtree in focus. -/
theorem upLeft (h : At t s.root? (⟨true, a, c, v, sib⟩ :: ctx) s) :
    At t (some a) ctx (.node a c v s sib) := by
  obtain ⟨ha, hsib, habove⟩ := h.above
  exact ⟨⟨ha, h.rep, hsib⟩, habove, nodes_left ctx a c v s sib ▸ h.nodup⟩

theorem upRight (h : At t s.root? (⟨false, a, c, v, sib⟩ :: ctx) s) :
    At t (some a) ctx (.node a c v sib s) := by
  obtain ⟨ha, hsib, habove⟩ := h.above
  exact ⟨⟨ha, hsib, h.rep⟩, habove, nodes_right ctx a c v s sib ▸ h.nodup⟩

/-- The left child of the subtree in focus. -/
theorem downLeft (h : At t (some a) ctx (.node a c v s sib)) :
    At t s.root? (⟨true, a, c, v, sib⟩ :: ctx) s := by
  obtain ⟨ha, hs, hsib⟩ := h.rep
  exact ⟨hs, ⟨ha, hsib, h.above⟩, (nodes_left ctx a c v s sib).symm ▸ h.nodup⟩

theorem downRight (h : At t (some a) ctx (.node a c v sib s)) :
    At t s.root? (⟨false, a, c, v, sib⟩ :: ctx) s := by
  obtain ⟨ha, hsib, hs⟩ := h.rep
  exact ⟨hs, ⟨ha, hsib, h.above⟩, (nodes_right ctx a c v s sib).symm ▸ h.nodup⟩

section Update

variable [DecidableEq α]

/-- The pointer to the subtree is set. -/
theorem link (h : At t p ctx s) (q : Option α) : At (t.link (pathOf ctx) q) q ctx s := by
  cases ctx with
  | nil => exact ⟨h.rep.congr fun _ _ => rfl, rfl, h.nodup⟩
  | cons fr ctx =>
      have hlink : t.link (pathOf (fr :: ctx)) q = t.update fr.id (fr.cell q) := by
        obtain ⟨ha, -⟩ := h.above
        obtain ⟨left, a, c, v, sib⟩ := fr
        cases left
        · simpa [pathOf, RbTree.link, RbTree.rightSet, Frame.cell] using by rw [ha]; rfl
        · simpa [pathOf, RbTree.link, RbTree.leftSet, Frame.cell] using by rw [ha]; rfl
      have hids : fr.id ∉ fr.sib.nodes ∧ fr.id ∉ nodesBefore ctx ++ nodesAfter ctx := by
        have hn := h.nodup
        simp only [nodesBefore, nodesAfter, Frame.before, Frame.after] at hn
        cases hl : fr.left
        · simp only [hl, Bool.false_eq_true, if_false, List.nil_append, List.nodup_append',
            List.nodup_singleton, List.disjoint_singleton] at hn
          simp only [List.mem_append, not_or]
          have hd := hn.2.2
          simp only [List.disjoint_append_left, List.singleton_disjoint] at hd
          have hb := hn.1.1.2.2
          simp only [List.disjoint_append_right, List.disjoint_singleton] at hb
          exact ⟨hn.1.1.2.1.2.2, hb.2, hd.1.2.2⟩
        · simp only [hl, if_true, List.append_nil, List.nodup_append', List.cons_append,
            List.nodup_cons, List.mem_append, not_or, List.disjoint_append_left,
            List.disjoint_cons_right] at hn
          simp only [List.mem_append, not_or]
          exact ⟨hn.2.1.1.1, hn.2.2.1.1, hn.2.1.1.2⟩
      obtain ⟨ha, hsib, habove⟩ := h.above
      rw [hlink]
      refine ⟨h.rep.update _ (h.apart (Frame.mem_nodes ctx (Or.inl rfl))),
        ⟨t.update_node_self _ _, hsib.update _ hids.1, ?_⟩, h.nodup⟩
      exact habove.update _ hids.2

variable {f : α → Option ν → Option ν → ν}

/-- The values of the nodes above the subtree are computed again. -/
theorem propagate_plug (h : At t s.root? ctx s) :
    (t.augmentPropagate f (pathOf ctx)).root = (plug f ctx s).root? ∧
      Rep (t.augmentPropagate f (pathOf ctx)) (plug f ctx s) := by
  induction ctx generalizing t s with
  | nil => exact ⟨h.above, h.rep⟩
  | cons fr ctx ih =>
      obtain ⟨left, a, c, v, sib⟩ := fr
      cases left with
      | false => exact ih (h.upRight.becomes (h.upRight.focus.augment f))
      | true => exact ih (h.upLeft.becomes (h.upLeft.focus.augment f))

theorem propagate {n : Nat} (h : At t s.root? ctx s) (hs : s.Aug f)
    (hctx : ∀ fr ∈ ctx, fr.sib.Aug f) (hb : Balanced s c n) (hfit : Fits ctx c n) :
    HoldsTree f (t.augmentPropagate f (pathOf ctx))
      (nodesBefore ctx ++ s.nodes ++ nodesAfter ctx) := by
  obtain ⟨m, hm⟩ := balanced_plug (f := f) hfit hb
  exact ⟨_, m, h.propagate_plug.1, h.propagate_plug.2, aug_plug hctx hs, hm, nodes_plug ctx s⟩

end Update

end At

/-! ## The order of the nodes -/

section Order

variable {cmp : α → α → Ordering} {t : RbTree α ν} {ctx : List (Frame α ν)}
    {s sib : ColorTree α ν} {a : α}
  {c : Bool} {v : ν} {f : α → Option ν → Option ν → ν}

/-- The nodes are in search order. -/
def InOrder (cmp : α → α → Ordering) (nodes : List α) : Prop :=
  nodes.Pairwise fun a b => cmp a b = .lt

theorem InOrder.nodup [Std.LawfulEqCmp cmp] {nodes : List α} (h : InOrder cmp nodes) :
    nodes.Nodup := by
  refine List.Pairwise.imp ?_ h
  rintro a b hlt rfl
  have heq : cmp a a = .eq := Std.ReflCmp.compare_self
  rw [heq] at hlt
  cases hlt

/-- The subtree that a search goes to: what is before it is less, and what is behind it is
greater. -/
structure Between (cmp : α → α → Ordering) (node : α) (ctx : List (Frame α ν)) : Prop where
  before : ∀ y ∈ nodesBefore ctx, cmp node y = .gt
  after : ∀ y ∈ nodesAfter ctx, cmp node y = .lt

theorem Between.downLeft [Std.TransCmp cmp] {node : α} (h : Between cmp node ctx)
    (hs : InOrder cmp (ColorTree.node a c v s sib).nodes) (ha : cmp node a = .lt) :
    Between cmp node (⟨true, a, c, v, sib⟩ :: ctx) := by
  obtain ⟨-, hright, -⟩ := List.pairwise_append.1 hs
  refine ⟨fun y hy => h.before y ?_, fun y hy => ?_⟩
  · simpa [nodesBefore, Frame.before] using hy
  · simp only [nodesAfter, Frame.after, if_true, List.mem_append, List.mem_cons] at hy
    rcases hy with (rfl | hy) | hy
    · exact ha
    · exact Std.TransCmp.lt_trans ha (List.rel_of_pairwise_cons hright hy)
    · exact h.after y hy

theorem Between.downRight [Std.TransCmp cmp] {node : α} (h : Between cmp node ctx)
    (hs : InOrder cmp (ColorTree.node a c v sib s).nodes) (ha : cmp node a = .gt) :
    Between cmp node (⟨false, a, c, v, sib⟩ :: ctx) := by
  obtain ⟨-, -, hleft⟩ := List.pairwise_append.1 hs
  refine ⟨fun y hy => ?_, fun y hy => h.after y ?_⟩
  · simp only [nodesBefore, Frame.before, Bool.false_eq_true, if_false, List.mem_append,
      List.mem_singleton] at hy
    rcases hy with hy | hy | rfl
    · exact h.before y hy
    · exact Std.TransCmp.gt_trans ha (Std.OrientedCmp.gt_of_lt (hleft y hy a List.mem_cons_self))
    · exact ha
  · simpa [nodesAfter, Frame.after] using hy

/-- A node has its place between the lesser and the greater ones. -/
theorem Between.inOrder [Std.TransCmp cmp] {node : α} (h : Between cmp node ctx)
    (hs : InOrder cmp (nodesBefore ctx ++ nodesAfter ctx)) :
    InOrder cmp (nodesBefore ctx ++ [node] ++ nodesAfter ctx) := by
  obtain ⟨hbefore, hafter, hlt⟩ := List.pairwise_append.1 hs
  refine List.pairwise_append.2
    ⟨List.pairwise_append.2 ⟨hbefore, List.pairwise_singleton _ _, ?_⟩, hafter, ?_⟩
  · intro x hx y hy
    rw [List.mem_singleton.1 hy]
    exact Std.OrientedCmp.gt_iff_lt.1 (h.before x hx)
  · intro x hx y hy
    rcases List.mem_append.1 hx with hx | hx
    · exact hlt x hx y hy
    · rw [List.mem_singleton.1 hx]
      exact h.after y hy

theorem InOrder.left {l r : ColorTree α ν} (h : InOrder cmp (ColorTree.node a c v l r).nodes) :
    InOrder cmp l.nodes := (List.pairwise_append.1 h).1

theorem InOrder.right {l r : ColorTree α ν} (h : InOrder cmp (ColorTree.node a c v l r).nodes) :
    InOrder cmp r.nodes := (List.pairwise_cons.1 (List.pairwise_append.1 h).2.1).2

/-- The whole tree, in focus. -/
theorem HoldsTree.at [Std.LawfulEqCmp cmp] {nodes : List α} (h : HoldsTree f t nodes)
    (hord : InOrder cmp nodes) :
    ∃ s n, At t s.root? [] s ∧ s.Aug f ∧ Balanced s false n ∧ s.nodes = nodes := by
  obtain ⟨s, n, hroot, hrep, haug, hb, hnodes⟩ := h
  refine ⟨s, n, ⟨hrep, hroot, ?_⟩, haug, hb, hnodes⟩
  simpa [nodesBefore, nodesAfter, hnodes] using hord.nodup

/-- A tree with fewer than `2 ^ 64` places for nodes fits into the path. -/
theorem height_le_rbPathMax {n : Nat} (h : Balanced s false n)
    (hlen : s.nodes.length + 1 < 2 ^ 64) :
    s.height ≤ rbPathMax := by
  have hh := h.height_le_of_length (k := 63) hlen
  unfold rbPathMax
  omega

end Order

end SmallAllocators
