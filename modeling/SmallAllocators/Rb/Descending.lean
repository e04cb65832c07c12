/-
SmallAllocators.Rb.Descending — insertion of ever lesser nodes.

When each node that is inserted is less than all nodes of the tree, only the
left spine changes. All subtrees to the right of it are full (`Full`), and the
spine is a counter: it has one or two nodes for each black height (`Spine`),
and an insertion adds one at the bottom, with carry. A spine with two nodes for
each black height is as high as a tree of its size can be.
-/
import SmallAllocators.Rb.Insert

namespace SmallAllocators

open ColorTree

variable {α ν : Type}

/-- A tree of black nodes in which all paths have `k` nodes. -/
inductive Full : Nat → ColorTree α ν → Prop where
  | nil : Full 0 .nil
  | node {k : Nat} {a : α} {v : ν} {l r : ColorTree α ν} (hl : Full k l) (hr : Full k r) :
      Full (k + 1) (.node a false v l r)

/-- A tree of black height `k`, with `n` nodes on its left spine, and full subtrees to the right
of it. -/
inductive Spine : Nat → Nat → ColorTree α ν → Prop where
  | nil : Spine 0 0 .nil
  | one {k n : Nat} {a : α} {v : ν} {l r : ColorTree α ν} (hl : Spine k n l) (hr : Full k r) :
      Spine (k + 1) (n + 1) (.node a false v l r)
  | two {k n : Nat} {a b : α} {v w : ν} {l r r' : ColorTree α ν} (hl : Spine k n l)
      (hr' : Full k r') (hr : Full k r) :
      Spine (k + 1) (n + 2) (.node a false v (.node b true w l r') r)

/-- The upper part of a spine, where a tree of black height `k` hangs. -/
inductive Hang : Nat → List (Frame α ν) → Prop where
  | root {k : Nat} : Hang k []
  | one {k : Nat} {a : α} {v : ν} {r : ColorTree α ν} {ctx : List (Frame α ν)} (hr : Full k r)
      (hc : Hang (k + 1) ctx) :
      Hang k (⟨true, a, false, v, r⟩ :: ctx)
  | two {k : Nat} {a b : α} {v w : ν} {r r' : ColorTree α ν} {ctx : List (Frame α ν)}
      (hr' : Full k r')
      (hr : Full k r) (hc : Hang (k + 1) ctx) :
      Hang k (⟨true, b, true, w, r'⟩ :: ⟨true, a, false, v, r⟩ :: ctx)

variable {f : α → Option ν → Option ν → ν} {cmp : α → α → Ordering} {t : RbTree α ν} {p : Option α}
  {ctx : List (Frame α ν)} {s l r sib : ColorTree α ν} {a node top : α} {c : Bool} {v w : ν}
  {k n : Nat}

/-! ## Sizes -/

theorem Full.length (h : Full k s) : s.nodes.length + 1 = 2 ^ k := by
  induction h with
  | nil => rfl
  | node hl hr ihl ihr =>
      simp only [nodes, List.length_append, List.length_cons, Nat.pow_succ]; omega

theorem Spine.le_two_mul (h : Spine k n s) : n ≤ 2 * k := by
  induction h with
  | nil => exact Nat.le_refl 0
  | one _ _ ih => omega
  | two _ _ _ ih => omega

theorem Spine.pow_le (h : Spine k n s) : 2 ^ k ≤ s.nodes.length + 1 := by
  induction h with
  | nil => simp [nodes]
  | one hl hr ih =>
      have := hr.length
      simp only [nodes, List.length_append, List.length_cons, Nat.pow_succ]
      omega
  | two hl hr' hr ih =>
      have := hr.length
      simp only [nodes, List.length_append, List.length_cons, Nat.pow_succ]
      omega

/-- Each black height at which the spine has one node only takes nodes from the tree. -/
theorem Spine.length_le (h : Spine k n s) : s.nodes.length + 2 + 2 * k ≤ 2 ^ (k + 1) + n := by
  induction h with
  | nil => simp [nodes]
  | @one k n a v l r hl hr ih =>
      have hfull := hr.length
      have hpos := Nat.two_pow_pos k
      simp only [nodes, List.length_append, List.length_cons, Nat.pow_succ] at ih ⊢
      omega
  | @two k n a b v w l r r' hl hr' hr ih =>
      have hfull := hr.length
      have hfull' := hr'.length
      simp only [nodes, List.length_append, List.length_cons, Nat.pow_succ] at ih ⊢
      omega

theorem Spine.le_height (h : Spine k n s) : n ≤ s.height := by
  induction h with
  | nil => exact Nat.le_refl 0
  | one _ _ ih => simp only [height]; omega
  | two _ _ _ ih => simp only [height]; omega

/-- The root of a spine is black. -/
theorem Spine.isRed (h : Spine k n s) (hrep : Rep t s) : t.isRed s.root? = false := by
  cases h with
  | nil => rfl
  | one hl hr => simp [RbTree.isRed, root?, hrep.1]
  | two hl hr' hr => simp [RbTree.isRed, root?, hrep.1]

/-- A spine of 25 black nodes is full of red ones before the tree has 3 * 2^24 nodes. -/
theorem Spine.eq_of_length (h : Spine k n s) (hlen : s.nodes.length = 3 * 2 ^ 24 - 2) : n = 49 := by
  have hpow := h.pow_le
  have hle := h.length_le
  have hn := h.le_two_mul
  have hk : k = 25 := by
    rcases Nat.lt_trichotomy k 25 with hlt | heq | hgt
    · have : 2 ^ (k + 1) ≤ 2 ^ 25 := Nat.pow_le_pow_right (by decide) hlt
      omega
    · exact heq
    · have : 2 ^ 26 ≤ 2 ^ k := Nat.pow_le_pow_right (by decide) hgt
      omega
  subst hk
  cases h with
  | @one _ n a v l r hl hr =>
      have hfull := hr.length
      have hrest := hl.length_le
      have hup := hl.le_two_mul
      simp only [nodes, List.length_append, List.length_cons] at hlen
      omega
  | @two _ n a b v w l r r' hl hr' hr =>
      -- two nodes at the top leave too few for the rest
      have hfull := hr.length
      have hfull' := hr'.length
      have hrest := hl.pow_le
      simp only [nodes, List.length_append, List.length_cons] at hlen
      omega

/-! ## The way down -/

theorem Hang.plug (h : Hang k ctx) (hs : Spine k n s) : ∃ k n, Spine k n (plug f ctx s) := by
  induction h generalizing s n with
  | root => exact ⟨_, _, hs⟩
  | one hr _ ih => exact ih (.one hs hr)
  | two hr' hr _ ih => exact ih (.two hs hr' hr)

/-- The hole at the end of the spine. -/
theorem Spine.hang (hs : Spine k n s) (hat : At t s.root? ctx s) (h : Hang k ctx) :
    ∃ ctx', At t none ctx' .nil ∧ Hang 0 ctx' ∧ ctx'.length = ctx.length + n ∧
      nodesBefore ctx' ++ nodesAfter ctx' = nodesBefore ctx ++ s.nodes ++ nodesAfter ctx := by
  induction hs generalizing ctx with
  | nil => exact ⟨ctx, hat, h, rfl, by simp [nodes]⟩
  | one hl hr ih =>
      obtain ⟨ctx', hat', h', hlen, hnodes⟩ := ih hat.downLeft (.one hr h)
      rw [At.nodes_left] at hnodes
      refine ⟨ctx', hat', h', ?_, hnodes⟩
      rw [hlen, List.length_cons]
      omega
  | two hl hr' hr ih =>
      obtain ⟨ctx', hat', h', hlen, hnodes⟩ := ih hat.downLeft.downLeft (.two hr' hr h)
      rw [At.nodes_left, At.nodes_left] at hnodes
      refine ⟨ctx', hat', h', ?_, hnodes⟩
      rw [hlen, List.length_cons, List.length_cons]
      omega

/-- All nodes of a spine are behind the hole. -/
theorem Hang.left (h : Hang k ctx) : nodesBefore ctx = [] ∧ ∀ fr ∈ ctx, fr.left = true := by
  induction h with
  | root => exact ⟨rfl, by simp⟩
  | one _ _ ih => exact ⟨by simp [nodesBefore, Frame.before, ih.1], by simpa using ih.2⟩
  | two _ _ _ ih => exact ⟨by simp [nodesBefore, Frame.before, ih.1], by simpa using ih.2⟩

theorem mem_nodesAfter {fr : Frame α ν} (hfr : fr ∈ ctx) (hleft : fr.left = true) :
    fr.id ∈ nodesAfter ctx := by
  induction ctx with
  | nil => cases hfr
  | cons fr' ctx ih =>
      rcases List.mem_cons.1 hfr with rfl | hfr
      · simp [nodesAfter, Frame.after, hleft]
      · simp [nodesAfter, ih hfr]

/-- The loop that winds the path goes to the left at every node that is greater. -/
theorem insertWind_left (habove : Above t p ctx)
    (hleft : ∀ fr ∈ ctx, fr.left = true ∧ cmp node fr.id = .lt) (fuel : Nat) :
    insertWind cmp t node (ctx.length + fuel) t.root [] = insertWind cmp t node fuel p
      (pathOf ctx) := by
  induction ctx generalizing p fuel with
  | nil => rw [show t.root = p from habove, List.length_nil, Nat.zero_add]; rfl
  | cons fr ctx ih =>
      obtain ⟨hcell, -, hrest⟩ := habove
      obtain ⟨hl, hlt⟩ := hleft fr List.mem_cons_self
      have hstep := ih hrest (fun fr' h => hleft fr' (List.mem_cons_of_mem _ h)) (fuel + 1)
      rw [List.length_cons, Nat.add_right_comm, Nat.add_assoc, hstep]
      simp [insertWind, hlt, hcell, Frame.cell, hl, pathOf]

/-! ## The way up -/

/-- The nodes form a spine with full subtrees to the right of it. -/
def HoldsSpine (t : RbTree α ν) (nodes : List α) : Prop :=
  ∃ s k n, t.root = s.root? ∧ Rep t s ∧ Spine k n s ∧ s.nodes = nodes

section Unwind

variable [DecidableEq α]

/-- A round below which the left child is red, and its own left child is not. -/
theorem insertLeft_red (h : At t p (⟨true, a, c, v, sib⟩ :: ctx) (.node top true w l r))
    (hl : Spine k n l) :
    ∃ t', insertLeft f t a top (pathOf ctx) = some (.up t' a) ∧
      At t' (some a) ctx (augNode f a c (.node top true w l r) sib) := by
  have h1 := h.link (some top)
  change At (t.leftSet a (some top)) _ _ _ at h1
  obtain ⟨htop, hlrep, -⟩ := h1.rep
  have hblack := hl.isRed hlrep
  exact ⟨_, by simp [insertLeft, htop, hblack], h1.upLeft.becomes (h1.upLeft.focus.augment f)⟩

/-- A round below which there are two red nodes: the 4-node is split. -/
theorem insertLeft_split {b : α} {u : ν} {r' : ColorTree α ν}
    (h : At t p (⟨true, a, false, v, sib⟩ :: ctx) (.node b true u (.node top true w l r) r')) :
    ∃ t', insertLeft f t a b (pathOf ctx) = some (.up t' b) ∧
      At t' (some a) ctx (augNode f b true (.node top false w l r) (augNode f a false r' sib)) := by
  have h1 := h.link (some b)
  change At (t.leftSet a (some b))
    (ColorTree.node b true u (.node top true w l r) r').root? _ _ at h1
  obtain ⟨hb, htop, -⟩ := h1.rep
  have hblack : Becomes _ _ ((t.leftSet a (some b)).blackSet top)
      (.node a false v (.node b true u (.node top false w l r) r') sib) :=
    h1.upLeft.focus.inLeft
      (h1.upLeft.focus.left.inLeft (h1.upLeft.focus.left.left.colorSet false) rfl) rfl
  obtain ⟨t2, hrot, h2⟩ := hblack.rotateRight
  have h3 := (h2.inRight (h2.right.augment f) rfl).augment f
  exact ⟨(t2.augment f a).augment f b, by simp [insertLeft, hb, htop.1, RbTree.isRed, root?,
    hrot], h1.upLeft.becomes h3⟩

/-- A subtree with a black root ends the loop. -/
theorem Hang.absorb (hc : Hang k ctx) (h : At t p ctx (.node top false w l r))
    (hs : Spine k n (.node top false w l r)) :
    ∃ t', insertUnwind f t (pathOf ctx) top = some t' ∧
      HoldsSpine t'
        (nodesBefore ctx ++ (ColorTree.node top false w l r).nodes ++ nodesAfter ctx) := by
  have h1 := h.link (some top)
  obtain ⟨k', n', hplug⟩ := hc.plug (f := f) hs
  cases ctx with
  | nil =>
      have hroot := h1.becomes (h1.focus.colorSet false)
      exact ⟨_, rfl, .node top false w l r, _, _, hroot.above, hroot.rep,
        hs, by simp [nodesBefore, nodesAfter]⟩
  | cons fr ctx =>
      obtain ⟨left, a, c, v, sib⟩ := fr
      obtain rfl : left = true := hc.left.2 _ List.mem_cons_self
      change At (t.leftSet a (some top)) (ColorTree.node top false w l r).root? _ _ at h1
      obtain ⟨htop, -⟩ := h1.rep
      have hprop := At.propagate_plug (f := f) h1
      exact ⟨_, by simp [insertUnwind, insertLeft, htop], _, _, _, hprop.1, hprop.2, hplug,
        nodes_plug _ _⟩

/-- A subtree with a red root is carried to the first black height at which the spine has one
node. -/
theorem Hang.carry (hc : Hang k ctx) (h : At t p ctx (.node top true w l r)) (hl : Spine k n l)
    (hr : Full k r) :
    ∃ t', insertUnwind f t (pathOf ctx) top = some t' ∧
      HoldsSpine t'
        (nodesBefore ctx ++ (ColorTree.node top true w l r).nodes ++ nodesAfter ctx) := by
  induction hc generalizing t p top w l r n with
  | root =>
      have hroot := (h.link (some top)).becomes ((h.link (some top)).focus.colorSet false)
      exact ⟨_, rfl, .node top false w l r, _, _, hroot.above, hroot.rep,
        .one hl hr, by simp [nodesBefore, nodesAfter, nodes]⟩
  | one hsib hc _ =>
      obtain ⟨t1, hround, h1⟩ := insertLeft_red (f := f) h hl
      obtain ⟨t', hunwind, hspine⟩ := hc.absorb (f := f) h1 (.two hl hr hsib)
      rw [At.nodes_left]
      exact ⟨t', by simp [insertUnwind, hround, hunwind], hspine⟩
  | two hsib' hsib hc ih =>
      obtain ⟨t1, hround, h1⟩ := insertLeft_red (f := f) h hl
      obtain ⟨t2, hround', h2⟩ := insertLeft_split (f := f) h1
      obtain ⟨t', hunwind, hspine⟩ := ih h2 (.one hl hr) (.node hsib' hsib)
      rw [At.nodes_left, At.nodes_left]
      rw [pathOf_left] at hround
      refine ⟨t', by simp [insertUnwind, hround, hround', hunwind], ?_⟩
      simpa [nodes] using hspine

/-- `insert` of a node that is less than all nodes of a spine. -/
theorem rbInsert_spine {nodes : List α} (h : HoldsSpine t nodes) (hnodup : (node :: nodes).Nodup)
    (hlt : ∀ y ∈ nodes, cmp node y = .lt) (hlen : nodes.length + 1 < 2 ^ 63) :
    ∃ t', rbInsert f cmp t node = some t' ∧ HoldsSpine t' (node :: nodes) := by
  obtain ⟨s, k, n, hroot, hrep, hs, rfl⟩ := h
  obtain ⟨habs, hnd⟩ := List.nodup_cons.1 hnodup
  obtain ⟨t1, ht1, hself, hother, hroot1⟩ := t.newNode_spec f node
  have hat1 : At t1 s.root? [] s := by
    refine ⟨hrep.congr fun x hx => hother x fun he => habs (he ▸ hx), hroot1.trans hroot, ?_⟩
    simpa [nodesBefore, nodesAfter] using hnd
  obtain ⟨ctx, hat2, hang, hctx, hnodes⟩ := hs.hang hat1 (Hang.root (k := k))
  obtain ⟨hbefore, hleft⟩ := hang.left
  simp only [nodesBefore, nodesAfter, hbefore, List.nil_append, List.append_nil] at hnodes
  -- the path has room for the spine
  obtain ⟨fuel, hfuel⟩ : ∃ fuel, rbPathMax = ctx.length + fuel := by
    have hk : k < 63 := (Nat.pow_lt_pow_iff_right (by decide)).1 (Nat.lt_of_le_of_lt hs.pow_le hlen)
    have hn := hs.le_two_mul
    refine ⟨rbPathMax - ctx.length, ?_⟩
    simp only [rbPathMax, hctx, List.length_nil]
    omega
  have hids : ∀ fr ∈ ctx, fr.left = true ∧ cmp node fr.id = .lt := by
    intro fr hfr
    have hmem := mem_nodesAfter hfr (hleft fr hfr)
    rw [hnodes] at hmem
    exact ⟨hleft fr hfr, hlt fr.id hmem⟩
  have hwind := insertWind_left hat2.above hids fuel
  have hnew : At t1 none ctx (augNode f node true .nil .nil) := by
    refine ⟨⟨hself, trivial, trivial⟩, hat2.above, ?_⟩
    rw [hbefore, hnodes]
    simpa [nodes] using hnodup
  obtain ⟨t', hunwind, hspine⟩ := hang.carry (f := f) hnew .nil .nil
  rw [hbefore, hnodes] at hspine
  refine ⟨t', ?_, by simpa [nodes] using hspine⟩
  rw [← hfuel] at hwind
  simp [rbInsert, ht1, hwind, insertWind, hunwind]

end Unwind

end SmallAllocators
