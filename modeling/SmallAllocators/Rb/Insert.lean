/-
SmallAllocators.Rb.Insert — `insert` keeps the tree balanced and augmented.

The loop that unwinds the path carries a subtree that is new in its place
(`Fresh`): it is balanced and may be red where a black one was, or it is
red with a red left child where a red one was. Each round makes a fresh
subtree of the parent, or ends with the whole tree.
-/
import SmallAllocators.Rb.Heap

namespace SmallAllocators

open ColorTree

variable {α ν : Type}

/-- What a round of an unwinding loop leaves: the whole tree, or a subtree in focus that
satisfies `P`. `nodes` are the nodes of the subtree. -/
def Continues (f : α → Option ν → Option ν → ν) (P : List (Frame α ν) → ColorTree α ν → Prop)
    (ctx : List (Frame α ν)) (nodes : List α) : Round α ν → Prop
  | .done t => HoldsTree f t (nodesBefore ctx ++ nodes ++ nodesAfter ctx)
  | .up t top => ∃ p s, At t p ctx s ∧ s.root? = some top ∧ s.Aug f ∧ s.nodes = nodes ∧ P ctx s

/-- The subtree is new in its place. -/
inductive Fresh (ctx : List (Frame α ν)) : ColorTree α ν → Prop where
  | balanced {s : ColorTree α ν} {c : Bool} {n : Nat} (hs : Balanced s c n)
      (hc : Fits ctx false n) : Fresh ctx s
  | redred {a : α} {v : ν} {l r : ColorTree α ν} {n : Nat} (hl : Balanced l true n)
      (hr : Balanced r false n) (hc : Fits ctx true n) : Fresh ctx (.node a true v l r)

variable [DecidableEq α] {f : α → Option ν → Option ν → ν} {t : RbTree α ν} {p : Option α}
  {ctx : List (Frame α ν)} {s sib : ColorTree α ν} {a top : α} {c : Bool} {v : ν}
  {cmp : α → α → Ordering}

theorem insertLeft_spec (h : At t p (⟨true, a, c, v, sib⟩ :: ctx) s) (htop : s.root? = some top)
    (haug : s.Aug f) (hctx : ∀ fr ∈ ⟨true, a, c, v, sib⟩ :: ctx, fr.sib.Aug f)
    (hf : Fresh (⟨true, a, c, v, sib⟩ :: ctx) s) :
    ∃ r, insertLeft f t a top (pathOf ctx) = some r ∧
      Continues f Fresh ctx (s.nodes ++ a :: sib.nodes) r := by
  have hsib : sib.Aug f := hctx ⟨true, a, c, v, sib⟩ List.mem_cons_self
  have h1 := h.link (some top)
  change At (t.leftSet a (some top)) _ _ _ at h1
  unfold insertLeft
  generalize t.leftSet a (some top) = t1 at h1
  rw [← htop] at h1
  cases hf with
  | balanced hs hc =>
      cases hs with
      | nil => simp [root?] at htop
      | red hl hr =>
          cases htop
          obtain ⟨hb, hlrep, -⟩ := h1.rep
          have hred := hlrep.isRed hl
          refine ⟨.up (t1.augment f a) a, by simp [hb, hred], _, _,
            h1.upLeft.becomes (h1.upLeft.focus.augment f), rfl, ⟨rfl, haug, hsib⟩, rfl, ?_⟩
          cases hc with
          | leftRed hsibB hc => exact .redred (.red hl hr) hsibB hc
          | leftBlack hsibB hc => exact .balanced (.black (.red hl hr) hsibB) hc
      | black hl hr =>
          cases htop
          obtain ⟨hb, -⟩ := h1.rep
          refine ⟨.done (t1.augmentPropagate f ((a, .lt) :: pathOf ctx)), by simp [hb], ?_⟩
          have hdone := h1.propagate haug hctx (.black hl hr) hc
          rw [At.nodes_left] at hdone
          exact hdone
  | @redred b w l r n hl hr hc =>
      cases hc with
      | leftBlack hsibB hc =>
          cases htop
          cases hl with
          | @red d u dl dr _ hdl hdr =>
              obtain ⟨hb, hd, -⟩ := h1.rep
              have hblack : Becomes t1 _ (t1.blackSet d)
                  (.node a false v (.node top true w (.node d false u dl dr) r) sib) :=
                h1.upLeft.focus.inLeft
                  (h1.upLeft.focus.left.inLeft (h1.upLeft.focus.left.left.colorSet false) rfl) rfl
              obtain ⟨t2, hrot, h2⟩ := hblack.rotateRight
              have h3 := (h2.inRight (h2.right.augment f) rfl).augment f
              refine ⟨.up ((t2.augment f a).augment f top) top, ?_, _, _, h1.upLeft.becomes h3, rfl,
                ⟨rfl, haug.2.1, rfl, haug.2.2, hsib⟩, by simp [ColorTree.nodes], ?_⟩
              · simp [hb, hd.1, RbTree.isRed, root?, hrot]
              · exact .balanced (.red (.black hdl hdr) (.black hr hsibB)) hc

theorem insertRight_spec (h : At t p (⟨false, a, c, v, sib⟩ :: ctx) s) (htop : s.root? = some top)
    (haug : s.Aug f) (hctx : ∀ fr ∈ ⟨false, a, c, v, sib⟩ :: ctx, fr.sib.Aug f)
    (hf : Fresh (⟨false, a, c, v, sib⟩ :: ctx) s) :
    ∃ r, insertRight f t a top (pathOf ctx) = some r ∧
      Continues f Fresh ctx (sib.nodes ++ a :: s.nodes) r := by
  have hsib : sib.Aug f := hctx ⟨false, a, c, v, sib⟩ List.mem_cons_self
  have h1 := h.link (some top)
  change At (t.rightSet a (some top)) _ _ _ at h1
  unfold insertRight
  generalize t.rightSet a (some top) = t1 at h1
  rw [← htop] at h1
  obtain ⟨ha, hsibrep, -⟩ := h1.above
  have hleft : (t1.node a).left = sib.root? := by rw [ha]; rfl
  have hared : (t1.node a).red = c := by rw [ha]; rfl
  cases hf with
  | redred hl hr hc => cases hc
  | @balanced _ _ n hs hc =>
      cases hs with
      | nil => simp [root?] at htop
      | red hl hr =>
          cases htop
          obtain ⟨hb, -⟩ := h1.rep
          -- the left child is red only below a black node
          have hcases : (∃ d u dl dr, sib = .node d true u dl dr ∧ c = false ∧ Balanced dl false n ∧
              Balanced dr false n ∧ Fits ctx false (n + 1)) ∨
              (Balanced sib false n ∧ Fits ctx c (n + (!c).toNat)) := by
            cases hc with
            | rightRed hsibB hc => exact Or.inr ⟨hsibB, hc⟩
            | rightBlack hsibB hc =>
                cases hsibB with
                | nil => exact Or.inr ⟨.nil, hc⟩
                | black hdl hdr => exact Or.inr ⟨.black hdl hdr, hc⟩
                | red hdl hdr => exact Or.inl ⟨_, _, _, _, rfl, rfl, hdl, hdr, hc⟩
          rcases hcases with ⟨d, u, dl, dr, rfl, rfl, hdl, hdr, hc⟩ | ⟨hsibB, hc⟩
          · -- split the 4-node
            have h2 := h1.upRight.focus
            have h3 := h2.inLeft (h2.left.colorSet false) rfl
            have h4 := h3.inRight (h3.right.colorSet false) rfl
            have h5 := (h4.colorSet true).augment f
            refine ⟨.up _ a, ?_, _, _, h1.upRight.becomes h5, rfl, ⟨rfl, hsib, haug⟩, rfl, ?_⟩
            · simp [hb, hleft, RbTree.isRed, root?, hsibrep.1]
              rfl
            · exact .balanced (.red (.black hdl hdr) (.black hl hr)) hc
          · -- lean left
            have hred := hsibrep.isRed hsibB
            obtain ⟨t2, hrot, h2⟩ := h1.upRight.focus.rotateLeft
            have h3 := h2.colorSet c
            have h4 := h3.inLeft (h3.left.colorSet true) rfl
            have h5 := (h4.inLeft (h4.left.augment f) rfl).augment f
            refine ⟨.up _ top, ?_, _, _, h1.upRight.becomes h5, rfl,
              ⟨rfl, ⟨rfl, hsib, haug.2.1⟩, haug.2.2⟩, by simp [ColorTree.nodes], ?_⟩
            · simp [hb, hleft, hred, hrot, hared]
              rfl
            · cases c with
              | true => exact .redred (.red hsibB hl) hr hc
              | false => exact .balanced (.black (.red hsibB hl) hr) hc
      | black hl hr =>
          cases htop
          obtain ⟨hb, -⟩ := h1.rep
          refine ⟨.done (t1.augmentPropagate f ((a, .gt) :: pathOf ctx)), by simp [hb], ?_⟩
          have hdone := h1.propagate haug hctx (.black hl hr) hc
          rw [At.nodes_right] at hdone
          exact hdone

/-- The unwinding loop ends with a balanced and augmented tree. -/
theorem insertUnwind_spec (h : At t p ctx s) (htop : s.root? = some top) (haug : s.Aug f)
    (hctx : ∀ fr ∈ ctx, fr.sib.Aug f) (hf : Fresh ctx s) :
    ∃ t', insertUnwind f t (pathOf ctx) top = some t' ∧
      HoldsTree f t' (nodesBefore ctx ++ s.nodes ++ nodesAfter ctx) := by
  induction ctx generalizing t p s top with
  | nil =>
      cases hf with
      | redred hl hr hc => cases hc
      | balanced hs hc =>
          cases s with
          | nil => simp [root?] at htop
          | node b red w l r =>
              cases htop
              have hroot := (h.link (some top)).becomes ((h.link (some top)).focus.colorSet false)
              obtain ⟨m, hm⟩ := hs.blacken
              refine ⟨_, rfl, .node top false w l r, m, hroot.above, hroot.rep, haug, hm, ?_⟩
              simp [ColorTree.nodes, nodesBefore, nodesAfter]
  | cons fr ctx ih =>
      have hctx' : ∀ fr ∈ ctx, fr.sib.Aug f := fun fr' hfr => hctx fr' (List.mem_cons_of_mem _ hfr)
      obtain ⟨left, a, c, v, sib⟩ := fr
      cases left with
      | false =>
          obtain ⟨r, hr, hcont⟩ := insertRight_spec h htop haug hctx hf
          rw [At.nodes_right]
          cases r with
          | done t' => exact ⟨t', by simp [insertUnwind, hr], hcont⟩
          | up t' top' =>
              obtain ⟨p', s', hat, htop', haug', hnodes, hf'⟩ := hcont
              obtain ⟨t'', hunwind, hholds⟩ := ih hat htop' haug' hctx' hf'
              rw [hnodes] at hholds
              exact ⟨t'', by simp [insertUnwind, hr, hunwind], hholds⟩
      | true =>
          obtain ⟨r, hr, hcont⟩ := insertLeft_spec h htop haug hctx hf
          rw [At.nodes_left]
          cases r with
          | done t' => exact ⟨t', by simp [insertUnwind, hr], hcont⟩
          | up t' top' =>
              obtain ⟨p', s', hat, htop', haug', hnodes, hf'⟩ := hcont
              obtain ⟨t'', hunwind, hholds⟩ := ih hat htop' haug' hctx' hf'
              rw [hnodes] at hholds
              exact ⟨t'', by simp [insertUnwind, hr, hunwind], hholds⟩

/-! ## The path -/

omit [DecidableEq α] in
/-- The path leads to the place of the node. -/
theorem insertWind_spec [Std.TransCmp cmp] [Std.LawfulEqCmp cmp] {node : α} {fuel n : Nat}
    (h : At t s.root? ctx s) (hb : Balanced s c n) (hfit : Fits ctx c n) (haug : s.Aug f)
    (hctx : ∀ fr ∈ ctx, fr.sib.Aug f) (hord : InOrder cmp s.nodes) (hbet : Between cmp node ctx)
    (habs : node ∉ s.nodes) (hfuel : s.height ≤ fuel) :
    ∃ ctx', insertWind cmp t node fuel s.root? (pathOf ctx) = some (pathOf ctx') ∧
      At t none ctx' .nil ∧
      Fits ctx' false 0 ∧ (∀ fr ∈ ctx', fr.sib.Aug f) ∧ Between cmp node ctx' ∧
      nodesBefore ctx' ++ nodesAfter ctx' = nodesBefore ctx ++ s.nodes ++ nodesAfter ctx := by
  induction s generalizing ctx c n fuel with
  | nil =>
      cases hb
      exact ⟨ctx, by cases fuel <;> rfl, h, hfit, hctx, hbet, by simp [ColorTree.nodes]⟩
  | node a red v l r ihl ihr =>
      obtain ⟨ha, -⟩ := h.rep
      simp only [ColorTree.nodes, List.mem_append, List.mem_cons, not_or] at habs
      obtain ⟨fuel, rfl⟩ : ∃ k, fuel = k + 1 := ⟨fuel - 1, by simp only [height] at hfuel; omega⟩
      simp only [height] at hfuel
      cases hcmp : cmp node a with
      | eq => exact absurd (Std.LawfulEqCmp.eq_of_compare hcmp) habs.2.1
      | lt =>
          obtain ⟨c', m, hb', hfit'⟩ := hfit.downLeft hb
          have hwind :=
            ihl h.downLeft hb' hfit' haug.2.1 (List.forall_mem_cons.2 ⟨haug.2.2, hctx⟩) hord.left
            (hbet.downLeft hord hcmp) habs.1 (by omega : l.height ≤ fuel)
          rw [At.nodes_left] at hwind
          simpa [insertWind, root?, hcmp, ha] using hwind
      | gt =>
          obtain ⟨m, hb', hfit'⟩ := hfit.downRight hb
          have hwind := ihr h.downRight hb' hfit' haug.2.2
            (List.forall_mem_cons.2 ⟨haug.2.1, hctx⟩) hord.right
            (hbet.downRight hord hcmp) habs.2.2 (by omega : r.height ≤ fuel)
          rw [At.nodes_right] at hwind
          simpa [insertWind, root?, hcmp, ha] using hwind

/-- The fields of the node before it is in the tree. -/
theorem RbTree.newNode_spec (t : RbTree α ν) (f : α → Option ν → Option ν → ν) (node : α) :
    ∃ t1, (((t.leftSet node none).rightSet node none).redSet node).augment f node = t1 ∧
      t1.node node = ⟨none, none, true, f node none none⟩ ∧ (∀ x, x ≠ node → t1.node x = t.node x) ∧
      t1.root = t.root := by
  refine ⟨_, rfl, ?_, ?_, rfl⟩
  · simp [RbTree.augment, RbTree.redSet, RbTree.colorSet, RbTree.rightSet, RbTree.leftSet,
      RbTree.update]
  · intro x hx
    simp [RbTree.augment, RbTree.redSet, RbTree.colorSet, RbTree.rightSet, RbTree.leftSet,
      RbTree.update, hx]

/-- `insert` of a node that is not in the tree. -/
theorem rbInsert_spec [Std.TransCmp cmp] [Std.LawfulEqCmp cmp] {nodes : List α} {node : α}
    (h : HoldsTree f t nodes) (hord : InOrder cmp nodes) (habs : node ∉ nodes)
    (hlen : nodes.length + 1 < 2 ^ 64) :
    ∃ t' nodes', rbInsert f cmp t node = some t' ∧ HoldsTree f t' nodes' ∧ InOrder cmp nodes' ∧
      nodes'.Perm (node :: nodes) := by
  obtain ⟨s, n, hat, haug, hb, rfl⟩ := h.at hord
  obtain ⟨t1, ht1, hself, hother, hroot⟩ := t.newNode_spec f node
  have hat1 : At t1 s.root? [] s :=
    ⟨hat.rep.congr fun x hx => hother x fun he => habs (he ▸ hx), hroot.trans hat.above, hat.nodup⟩
  obtain ⟨ctx, hwind, hat2, hfit, hctx, hbet, hnodes⟩ := insertWind_spec hat1 hb .root haug
    (by simp) hord ⟨by simp [nodesBefore], by simp [nodesAfter]⟩ habs (height_le_rbPathMax hb hlen)
  simp only [nodesBefore, nodesAfter, List.nil_append, List.append_nil] at hnodes
  have hmem : node ∉ nodesBefore ctx ++ nodesAfter ctx := hnodes ▸ habs
  have hnew : At t1 none ctx (augNode f node true .nil .nil) := by
    refine ⟨⟨hself, trivial, trivial⟩, hat2.above, ?_⟩
    have hperm : (nodesBefore ctx ++ [node] ++ nodesAfter ctx).Perm
        (node :: (nodesBefore ctx ++ nodesAfter ctx)) := by
      simp
    exact hperm.nodup_iff.2 (List.nodup_cons.2 ⟨hmem, hnodes ▸ hord.nodup⟩)
  obtain ⟨t', hunwind, hholds⟩ := insertUnwind_spec hnew rfl (aug_augNode _ _ trivial trivial) hctx
    (.balanced (.red .nil .nil) hfit)
  refine ⟨t', _, ?_, hholds, ?_, ?_⟩
  · rw [← (show t1.root = s.root? from hat1.above)] at hwind
    have hpath : insertWind cmp t1 node rbPathMax t1.root [] = some (pathOf ctx) := hwind
    simp [rbInsert, ht1, hpath, hunwind]
  · exact hbet.inOrder (hnodes ▸ hord)
  · rw [← hnodes]
    simp [ColorTree.nodes]

end SmallAllocators
