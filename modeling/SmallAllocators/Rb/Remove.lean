/-
SmallAllocators.Rb.Remove — `remove` keeps the tree balanced and augmented.

The loop that unwinds the path carries a subtree with one black node too
few on its paths (`Short`). Each round restores the balance, and ends with
the whole tree, or makes a short subtree of the parent.
-/
import SmallAllocators.Rb.Insert

namespace SmallAllocators

open ColorTree

variable {α ν : Type}

/-- The subtree has one black node too few on its paths. -/
def Short (ctx : List (Frame α ν)) (s : ColorTree α ν) : Prop :=
  ∃ n, Balanced s false n ∧ Fits ctx false (n + 1)

theorem Fits.pathOf_ne_nil {ctx : List (Frame α ν)} {n : Nat} (h : Fits ctx true n) :
    pathOf ctx ≠ [] := by
  cases h with
  | leftBlack hs hc => simp

variable [DecidableEq α] {f : α → Option ν → Option ν → ν} {t t' : RbTree α ν} {p : Option α}
  {ctx : List (Frame α ν)} {s s' sib : ColorTree α ν} {a top : α} {c : Bool} {v : ν} {n : Nat}

/-- A round that restores the balance of the subtree. -/
theorem restored_spec (h : At t p ctx s) (hb : Becomes t s t' s') (htop : s'.root? = some top)
    (haug : s'.Aug f) (hctx : ∀ fr ∈ ctx, fr.sib.Aug f) (hs : Balanced s' c n)
    (hfit : Fits ctx c n) :
    Continues f Short ctx s.nodes (restored f t' (pathOf ctx) top) := by
  have hlink := (h.becomes hb).link (some top)
  rw [← htop] at hlink
  have hdone := hlink.propagate haug hctx hs hfit
  rw [hb.nodes, htop] at hdone
  exact hdone

theorem removeLeft_spec (h : At t p (⟨true, a, c, v, sib⟩ :: ctx) s) (haug : s.Aug f)
    (hctx : ∀ fr ∈ ⟨true, a, c, v, sib⟩ :: ctx, fr.sib.Aug f) (hs : Balanced s false n)
    (hfit : Fits (⟨true, a, c, v, sib⟩ :: ctx) false (n + 1)) :
    ∃ r, removeLeft f t a s.root? (pathOf ctx) = some r ∧
      Continues f Short ctx (ColorTree.node a c v s sib).nodes r := by
  have hsib := hctx _ List.mem_cons_self
  replace hctx : ∀ fr ∈ ctx, fr.sib.Aug f := fun fr hfr => hctx fr (List.mem_cons_of_mem _ hfr)
  have h1 := h.link s.root?
  change At (t.leftSet a s.root?) _ _ _ at h1
  unfold removeLeft
  generalize t.leftSet a s.root? = t1 at h1
  have h2 := h1.upLeft
  obtain ⟨ha, -, hsibrep⟩ := h2.rep
  have hnode : (t1.node a).red = c := by rw [ha]
  cases hfit with
  | leftRed hsibB hc =>
      have hpath := hc.pathOf_ne_nil
      obtain ⟨b, w, bl, br, d, rfl, hbl, hbr⟩ := hsibB.of_black
      obtain ⟨hb, hblrep, -⟩ := hsibrep
      have hright : (t1.node a).right = some b := by rw [ha]; rfl
      have hleft : (t1.node b).left = bl.root? := by rw [hb]
      have hred := hblrep.isRed hbl
      cases d with
      | true =>
          cases hbl with
          | @red e u el er _ hel her =>
              -- the parent and the right child become children of the right child's left child
              have h3 := h2.focus.colorSet false
              obtain ⟨t2, hrot, h4⟩ := h3.right.rotateRight
              have h5 : Becomes t1 _ (((t2.augment f b).augment f e).rightSet a (some e)) _ :=
                h3.linkRight ((h4.inRight (h4.right.augment f) rfl).augment f)
              obtain ⟨t3, hrot', h6⟩ := h5.rotateLeft
              have h7 := (h6.inLeft (h6.left.augment f) rfl).augment f
              refine ⟨restored f ((t3.augment f a).augment f e) (pathOf ctx) e, ?_,
                restored_spec h2 h7 rfl ?_ hctx (.red (.black hs hel) (.black her hbr)) hc⟩
              · simp [hright, hnode, hleft, hred, hrot, hrot', RbTree.blackSet, hpath]
              · exact aug_augNode _ _ (aug_augNode _ _ haug hsib.2.1.2.1)
                  (aug_augNode _ _ hsib.2.1.2.2 hsib.2.2)
      | false =>
          obtain ⟨t2, hrot, h3⟩ := h2.focus.rotateLeft
          have h4 := (h3.inLeft (h3.left.augment f) rfl).augment f
          refine ⟨restored f ((t2.augment f a).augment f b) (pathOf ctx) b, ?_,
            restored_spec h2 h4 rfl ?_ hctx (.black (.red hs hbl) hbr) hc.black⟩
          · simp [hright, hnode, hleft, hred, hrot, hpath]
          · exact aug_augNode _ _ (aug_augNode _ _ haug hsib.2.1) hsib.2.2
  | leftBlack hsibB hc =>
      obtain ⟨b, w, bl, br, d, rfl, hbl, hbr⟩ := hsibB.of_black
      obtain ⟨hb, hblrep, -⟩ := hsibrep
      have hright : (t1.node a).right = some b := by rw [ha]; rfl
      have hleft : (t1.node b).left = bl.root? := by rw [hb]
      have hred := hblrep.isRed hbl
      cases d with
      | true =>
          cases hbl with
          | @red e u el er _ hel her =>
              have h3 := h2.focus.inRight
                (h2.focus.right.inLeft (h2.focus.right.left.colorSet false) rfl) rfl
              obtain ⟨t2, hrot, h4⟩ := h3.right.rotateRight
              have h5 : Becomes t1 _ (((t2.augment f b).augment f e).rightSet a (some e)) _ :=
                h3.linkRight ((h4.inRight (h4.right.augment f) rfl).augment f)
              obtain ⟨t3, hrot', h6⟩ := h5.rotateLeft
              have h7 := (h6.inLeft (h6.left.augment f) rfl).augment f
              refine ⟨restored f ((t3.augment f a).augment f e) (pathOf ctx) e, ?_,
                restored_spec h2 h7 rfl ?_ hctx (.black (.black hs hel) (.black her hbr)) hc⟩
              · change t1.isRed (some e) = true at hred
                change (t1.node b).left = some e at hleft
                simp [hright, hnode, hleft, hred, hrot, hrot', RbTree.blackSet]
              · exact aug_augNode _ _ (aug_augNode _ _ haug hsib.2.1.2.1)
                  (aug_augNode _ _ hsib.2.1.2.2 hsib.2.2)
      | false =>
          obtain ⟨t2, hrot, h3⟩ := (h2.focus.colorSet true).rotateLeft
          have h4 := (h3.inLeft (h3.left.augment f) rfl).augment f
          refine ⟨.up ((t2.augment f a).augment f b) b, ?_, _, _, h2.becomes h4, rfl,
            aug_augNode _ _ (aug_augNode _ _ haug hsib.2.1) hsib.2.2, h4.nodes, _,
            .black (.red hs hbl) hbr, hc⟩
          simp [hright, hnode, hleft, hred, hrot, RbTree.redSet]

/-- The round to the right where the left child is red. -/
theorem removeRightRed_spec {b : α} {w : ν} {bl br : ColorTree α ν}
    (h : At t p ctx (.node a false v (.node b true w bl br) s)) (haug : s.Aug f)
    (hsib : (ColorTree.node b true w bl br).Aug f) (hctx : ∀ fr ∈ ctx, fr.sib.Aug f)
    (hs : Balanced s false n) (hbl : Balanced bl false (n + 1)) (hbr : Balanced br false (n + 1))
    (hfit : Fits ctx false (n + 2)) :
    ∃ r, removeRightRed f t a b (pathOf ctx) = some r ∧
      Continues f Short ctx (ColorTree.node a false v (.node b true w bl br) s).nodes r := by
  unfold removeRightRed
  obtain ⟨e, u, el, er, d, rfl, hel, her⟩ := hbr.of_black
  obtain ⟨ha, ⟨hb, -, he, helrep, -⟩, -⟩ := h.rep
  have hright : (t.node b).right = some e := by rw [hb]; rfl
  have hleft : (t.node e).left = el.root? := by rw [he]
  have hred := helrep.isRed hel
  obtain ⟨-, hblaug, heval, helaug, heraug⟩ := hsib
  cases d with
  | true =>
      cases hel with
      | @red g x gl gr _ hgl hgr =>
          -- the left child's right child becomes the root, above the left child and the parent
          have hf := h.focus
          have h1 := hf.inLeft
            (hf.left.inRight (hf.left.right.inLeft (hf.left.right.left.colorSet false) rfl) rfl)
            rfl
          obtain ⟨t2, hrot, h2⟩ := h1.rotateRight
          obtain ⟨t3, hrot', h3⟩ := h2.right.rotateRight
          have h4 : Becomes t _ (t3.rightSet b (some e)) _ := h2.linkRight h3
          have h5 := h4.inRight (h4.right.inRight (h4.right.right.augment f) rfl) rfl
          have h6 := h5.inRight (h5.right.augment f) rfl
          obtain ⟨t4, hrot'', h7⟩ := h6.rotateLeft
          have h8 := (h7.inLeft (h7.left.augment f) rfl).augment f
          refine ⟨restored f ((t4.augment f b).augment f e) (pathOf ctx) e, ?_,
            restored_spec h h8 rfl ?_ hctx
              (.black (.red hbl (.black hgl hgr)) (.black her hs)) hfit⟩
          · change t.isRed (some g) = true at hred
            change (t.node e).left = some g at hleft
            simp [hright, hleft, hred, hrot, hrot', hrot'', RbTree.blackSet]
          · exact aug_augNode _ _ (aug_augNode _ _ hblaug helaug) (aug_augNode _ _ heraug haug)
  | false =>
      have hf := h.focus
      have h1 := hf.inLeft (hf.left.inRight (hf.left.right.colorSet true) rfl) rfl
      obtain ⟨t2, hrot, h2⟩ := h1.rotateRight
      have h3 := ((h2.inRight (h2.right.augment f) rfl).augment f).colorSet false
      refine ⟨restored f (((t2.augment f a).augment f b).blackSet b) (pathOf ctx) b, ?_,
        restored_spec h h3 rfl ?_ hctx (.black hbl (.black (.red hel her) hs)) hfit⟩
      · simp [hright, hleft, hred, hrot, RbTree.redSet]
      · exact ⟨rfl, hblaug, rfl, ⟨heval, helaug, heraug⟩, haug⟩

theorem removeRight_spec (h : At t p (⟨false, a, c, v, sib⟩ :: ctx) s) (haug : s.Aug f)
    (hctx : ∀ fr ∈ ⟨false, a, c, v, sib⟩ :: ctx, fr.sib.Aug f) (hs : Balanced s false n)
    (hfit : Fits (⟨false, a, c, v, sib⟩ :: ctx) false (n + 1)) :
    ∃ r, removeRight f t a s.root? (pathOf ctx) = some r ∧
      Continues f Short ctx (ColorTree.node a c v sib s).nodes r := by
  have hsib := hctx _ List.mem_cons_self
  replace hctx : ∀ fr ∈ ctx, fr.sib.Aug f := fun fr hfr => hctx fr (List.mem_cons_of_mem _ hfr)
  have h1 := h.link s.root?
  change At (t.rightSet a s.root?) _ _ _ at h1
  unfold removeRight
  generalize t.rightSet a s.root? = t1 at h1
  have h2 := h1.upRight
  obtain ⟨ha, hsibrep, -⟩ := h2.rep
  have hnode : (t1.node a).red = c := by rw [ha]
  cases hfit with
  | rightRed hsibB hc =>
      have hpath := hc.pathOf_ne_nil
      obtain ⟨b, w, bl, br, d, rfl, hbl, hbr⟩ := hsibB.of_black
      obtain ⟨hb, hblrep, -⟩ := hsibrep
      have hleft : (t1.node a).left = some b := by rw [ha]; rfl
      have hbred : (t1.node b).red = false := by rw [hb]
      have hleftleft : (t1.node b).left = bl.root? := by rw [hb]
      have hred := hblrep.isRed hbl
      cases d with
      | true =>
          cases hbl with
          | @red e u el er _ hel her =>
              have h3 := h2.focus.colorSet false
              have h4 := h3.inLeft (h3.left.colorSet true) rfl
              have h5 := h4.inLeft (h4.left.inLeft (h4.left.left.colorSet false) rfl) rfl
              obtain ⟨t2, hrot, h6⟩ := h5.rotateRight
              have h7 := (h6.inRight (h6.right.augment f) rfl).augment f
              refine ⟨restored f ((t2.augment f a).augment f b) (pathOf ctx) b, ?_,
                restored_spec h2 h7 rfl ?_ hctx (.red (.black hel her) (.black hbr hs)) hc⟩
              · change t1.isRed (some e) = true at hred
                change (t1.node b).left = some e at hleftleft
                simp [hleft, hbred, hnode, hleftleft, hred, hrot, RbTree.redSet,
                  RbTree.blackSet, hpath]
              · exact aug_augNode _ _ hsib.2.1 (aug_augNode _ _ hsib.2.2 haug)
      | false =>
          -- the balance is restored without a rotation
          have h3 := h2.focus.inLeft (h2.focus.left.colorSet true) rfl
          have h4 := (h2.becomes (h3.colorSet false)).downRight
          have hdone := h4.propagate haug (List.forall_mem_cons.2 ⟨hsib, hctx⟩) hs
            (.rightBlack (.red hbl hbr) hc.black)
          rw [At.nodes_right] at hdone
          refine ⟨.done (((t1.redSet b).blackSet a).augmentPropagate f ((a, .gt) :: pathOf ctx)),
            ?_, hdone⟩
          simp [hleft, hbred, hnode, hleftleft, hred]
  | @rightBlack _ _ _ _ d _ hsibB hc =>
      cases hsibB with
      | @red b w bl br _ hbl hbr =>
          obtain ⟨r, hr, hcont⟩ := removeRightRed_spec h2 haug hsib hctx hs hbl hbr hc
          obtain ⟨hb, -⟩ := hsibrep
          have hleft : (t1.node a).left = some b := by rw [ha]; rfl
          have hbred : (t1.node b).red = true := by rw [hb]
          exact ⟨r, by simp [hleft, hbred, hr], hcont⟩
      | @black b w bl br d _ hbl hbr =>
          obtain ⟨hb, hblrep, -⟩ := hsibrep
          have hleft : (t1.node a).left = some b := by rw [ha]; rfl
          have hbred : (t1.node b).red = false := by rw [hb]
          have hleftleft : (t1.node b).left = bl.root? := by rw [hb]
          have hred := hblrep.isRed hbl
          cases d with
          | true =>
              cases hbl with
              | @red e u el er _ hel her =>
                  have h3 := h2.focus.inLeft
                    (h2.focus.left.inLeft (h2.focus.left.left.colorSet false) rfl) rfl
                  obtain ⟨t2, hrot, h4⟩ := h3.rotateRight
                  have h5 := (h4.inRight (h4.right.augment f) rfl).augment f
                  refine ⟨restored f ((t2.augment f a).augment f b) (pathOf ctx) b, ?_,
                    restored_spec h2 h5 rfl ?_ hctx (.black (.black hel her) (.black hbr hs)) hc⟩
                  · change t1.isRed (some e) = true at hred
                    change (t1.node b).left = some e at hleftleft
                    simp [hleft, hbred, hnode, hleftleft, hred, hrot, RbTree.blackSet]
                  · exact aug_augNode _ _ hsib.2.1 (aug_augNode _ _ hsib.2.2 haug)
          | false =>
              have h3 := (h2.focus.inLeft (h2.focus.left.colorSet true) rfl).augment f
              refine ⟨.up ((t1.redSet b).augment f a) a, ?_, _, _, h2.becomes h3, rfl,
                aug_augNode _ _ hsib haug, h3.nodes, _, .black (.red hbl hbr) hs, hc⟩
              simp [hleft, hbred, hnode, hleftleft, hred]

/-- The unwinding loop ends with a balanced and augmented tree. -/
theorem removeUnwind_spec (h : At t p ctx s) (haug : s.Aug f) (hctx : ∀ fr ∈ ctx, fr.sib.Aug f)
    (hs : Short ctx s) (hne : ctx = [] → s.root? ≠ none) :
    ∃ t', removeUnwind f t (pathOf ctx) s.root? = some t' ∧
      HoldsTree f t' (nodesBefore ctx ++ s.nodes ++ nodesAfter ctx) := by
  induction ctx generalizing t p s with
  | nil =>
      obtain ⟨n, hb, -⟩ := hs
      cases hb with
      | nil => exact absurd rfl (hne rfl)
      | @black b w l r _ n hl hr =>
          have h1 := h.link (some b)
          have hred : (t.node b).red = false := by rw [h.rep.1]
          refine ⟨t.setRoot (some b), ?_, .node b false w l r, n + 1, rfl, h1.rep, haug,
            .black hl hr, ?_⟩
          · simp [pathOf, removeUnwind, root?, RbTree.setRoot, hred]
          · simp [nodesBefore, nodesAfter]
  | cons fr ctx ih =>
      obtain ⟨n, hb, hfit⟩ := hs
      have hctx' : ∀ fr ∈ ctx, fr.sib.Aug f := fun fr' hfr => hctx fr' (List.mem_cons_of_mem _ hfr)
      obtain ⟨left, a, c, v, sib⟩ := fr
      cases left with
      | false =>
          obtain ⟨r, hr, hcont⟩ := removeRight_spec h haug hctx hb hfit
          rw [At.nodes_right]
          cases r with
          | done t' => exact ⟨t', by simp [removeUnwind, hr], hcont⟩
          | up t' top =>
              obtain ⟨p', s', hat, htop, haug', hnodes, hs'⟩ := hcont
              obtain ⟨t'', hunwind, hholds⟩ := ih hat haug' hctx' hs' (by simp [htop])
              rw [hnodes] at hholds
              rw [htop] at hunwind
              exact ⟨t'', by simp [removeUnwind, hr, hunwind], hholds⟩
      | true =>
          obtain ⟨r, hr, hcont⟩ := removeLeft_spec h haug hctx hb hfit
          rw [At.nodes_left]
          cases r with
          | done t' => exact ⟨t', by simp [removeUnwind, hr], hcont⟩
          | up t' top =>
              obtain ⟨p', s', hat, htop, haug', hnodes, hs'⟩ := hcont
              obtain ⟨t'', hunwind, hholds⟩ := ih hat haug' hctx' hs' (by simp [htop])
              rw [hnodes] at hholds
              rw [htop] at hunwind
              exact ⟨t'', by simp [removeUnwind, hr, hunwind], hholds⟩

/-- A node without children is pruned. -/
theorem prune_spec {x : α} {red : Bool} {w : ν} (h : At t p ctx .nil)
    (hctx : ∀ fr ∈ ctx, fr.sib.Aug f) (hb : Balanced (.node x red w .nil .nil) c n)
    (hfit : Fits ctx c n) (hne : ctx ≠ []) :
    ∃ t', prune f t red (pathOf ctx) = some t' ∧
      HoldsTree f t' (nodesBefore ctx ++ nodesAfter ctx) := by
  cases hb with
  | red hl hr =>
      cases hl
      have hlink : At (t.link (pathOf ctx) none) (root? (.nil : ColorTree α ν)) ctx .nil :=
        h.link none
      have hdone := hlink.propagate trivial hctx .nil hfit.black
      simp only [ColorTree.nodes, List.append_nil] at hdone
      cases hfit with
      | leftBlack hs hc => exact ⟨_, rfl, hdone⟩
  | black hl hr =>
      cases hl
      obtain ⟨t', hunwind, hholds⟩ :=
        removeUnwind_spec h trivial hctx ⟨0, .nil, hfit⟩ (fun he => absurd he hne)
      exact ⟨t', hunwind, by simpa [ColorTree.nodes] using hholds⟩

/-! ## The path -/

omit [DecidableEq α] in
/-- The path leads to the node. -/
theorem removeWind_spec {cmp : α → α → Ordering} [Std.TransCmp cmp] [Std.LawfulEqCmp cmp]
    {node : α} {fuel : Nat} (h : At t s.root? ctx s) (hb : Balanced s c n) (hfit : Fits ctx c n)
    (haug : s.Aug f) (hctx : ∀ fr ∈ ctx, fr.sib.Aug f) (hord : InOrder cmp s.nodes)
    (hmem : node ∈ s.nodes) (hfuel : s.height ≤ fuel) :
    ∃ ctx' red v l r c' m fuel', removeWind cmp t node fuel s.root? (pathOf ctx) =
      some (pathOf ctx', node, fuel') ∧
      At t (some node) ctx' (.node node red v l r) ∧ Balanced (.node node red v l r) c' m ∧
      Fits ctx' c' m ∧
      l.Aug f ∧ r.Aug f ∧ (∀ fr ∈ ctx', fr.sib.Aug f) ∧ r.height ≤ fuel' ∧
      nodesBefore ctx' ++ (l.nodes ++ node :: r.nodes) ++ nodesAfter ctx'
        = nodesBefore ctx ++ s.nodes ++ nodesAfter ctx := by
  induction s generalizing ctx c n fuel with
  | nil => simp [ColorTree.nodes] at hmem
  | node a red v l r ihl ihr =>
      obtain ⟨ha, -⟩ := h.rep
      obtain ⟨fuel, rfl⟩ : ∃ k, fuel = k + 1 := ⟨fuel - 1, by simp only [height] at hfuel; omega⟩
      simp only [height] at hfuel
      simp only [ColorTree.nodes, List.mem_append, List.mem_cons] at hmem
      obtain ⟨-, hright, hleft⟩ := List.pairwise_append.1 hord
      -- a node of the left subtree is less than the root, and one of the right subtree is greater
      have hl : node ∈ l.nodes → cmp node a = .lt := fun hl => hleft node hl a List.mem_cons_self
      have hr : node ∈ r.nodes → cmp node a = .gt := fun hr =>
        Std.OrientedCmp.gt_of_lt (List.rel_of_pairwise_cons hright hr)
      have heq : node = a → cmp node a = .eq := fun he => he ▸ Std.ReflCmp.compare_self
      cases hcmp : cmp node a with
      | eq =>
          obtain rfl := Std.LawfulEqCmp.eq_of_compare hcmp
          refine ⟨ctx, red, v, l, r, c, n, fuel, ?_, h, hb, hfit, haug.2.1, haug.2.2,
            hctx, by omega, rfl⟩
          simp [removeWind, root?, hcmp]
      | lt =>
          have hmem' : node ∈ l.nodes := by
            rcases hmem with hm | hm | hm
            · exact hm
            · simp [hcmp] at heq; exact absurd hm heq
            · simp [hcmp] at hr; exact absurd hm hr
          obtain ⟨c', m, hb', hfit'⟩ := hfit.downLeft hb
          have hwind :=
            ihl h.downLeft hb' hfit' haug.2.1 (List.forall_mem_cons.2 ⟨haug.2.2, hctx⟩) hord.left
            hmem' (by omega : l.height ≤ fuel)
          rw [At.nodes_left] at hwind
          simpa [removeWind, root?, hcmp, ha] using hwind
      | gt =>
          have hmem' : node ∈ r.nodes := by
            rcases hmem with hm | hm | hm
            · simp [hcmp] at hl; exact absurd hm hl
            · simp [hcmp] at heq; exact absurd hm heq
            · exact hm
          obtain ⟨m, hb', hfit'⟩ := hfit.downRight hb
          have hwind := ihr h.downRight hb' hfit' haug.2.2
            (List.forall_mem_cons.2 ⟨haug.2.1, hctx⟩) hord.right
            hmem' (by omega : r.height ≤ fuel)
          rw [At.nodes_right] at hwind
          simpa [removeWind, root?, hcmp, ha] using hwind

omit [DecidableEq α] in
/-- The path goes on to the leftmost node of the subtree, which has no children. -/
theorem successorWind_spec {fuel : Nat} {below : List (Frame α ν)}
    (h : At t s.root? (below ++ ctx) s) (hb : Balanced s c n) (hfit : Fits (below ++ ctx) c n)
    (haug : s.Aug f) (hctx : ∀ fr ∈ below ++ ctx, fr.sib.Aug f) (hne : s ≠ .nil)
    (hfuel : s.height ≤ fuel) (hbelow : nodesBefore below = []) :
    ∃ below' succ red w c' m,
      successorWind t fuel s.root? (pathOf below) = some ((succ, .lt) :: pathOf below') ∧
      At t (some succ) (below' ++ ctx) (.node succ red w .nil .nil) ∧
      Balanced (.node succ red w .nil .nil) c' m ∧ Fits (below' ++ ctx) c' m ∧
      (∀ fr ∈ below' ++ ctx, fr.sib.Aug f) ∧ nodesBefore below' = [] ∧
      succ :: nodesAfter below' = s.nodes ++ nodesAfter below := by
  induction s generalizing below c n fuel with
  | nil => exact absurd rfl hne
  | node a red v l r ihl ihr =>
      obtain ⟨ha, -⟩ := h.rep
      obtain ⟨fuel, rfl⟩ : ∃ k, fuel = k + 1 := ⟨fuel - 1, by simp only [height] at hfuel; omega⟩
      simp only [height] at hfuel
      cases l with
      | nil =>
          have hr : r = .nil := by
            cases hb with
            | red hl hr => cases hl; cases hr; rfl
            | black hl hr => cases hl; cases hr; rfl
          subst hr
          refine ⟨below, a, red, v, c, n, ?_, h, hb, hfit, hctx, hbelow, by simp [ColorTree.nodes]⟩
          simp [successorWind, root?, ha]
      | node b red' w l r' =>
          obtain ⟨c', m, hb', hfit'⟩ := hfit.downLeft hb
          have hdown : At t _ ((⟨true, a, red, v, r⟩ :: below) ++ ctx) _ := h.downLeft
          have hwind := ihl hdown hb' hfit' haug.2.1
            (List.forall_mem_cons.2 ⟨haug.2.2, hctx⟩) (by simp) (by omega : _ ≤ fuel)
            (by simp [nodesBefore, Frame.before, hbelow])
          simpa [successorWind, root?, ha, nodesAfter, Frame.after, ColorTree.nodes] using hwind

/-! ## The swap with the successor -/

omit [DecidableEq α] in
/-- What fits does not depend on which node is in a frame, and on its value. -/
theorem Fits.replace {below : List (Frame α ν)} {left red : Bool} {a b : α} {v w : ν}
    (h : Fits (below ++ ⟨left, a, red, v, sib⟩ :: ctx) c n) :
    Fits (below ++ ⟨left, b, red, w, sib⟩ :: ctx) c n := by
  induction below generalizing c n with
  | nil =>
      cases h with
      | leftRed hs hc => exact .leftRed hs hc
      | leftBlack hs hc => exact .leftBlack hs hc
      | rightRed hs hc => exact .rightRed hs hc
      | rightBlack hs hc => exact .rightBlack hs hc
  | cons fr below ih =>
      cases h with
      | leftRed hs hc => exact .leftRed hs (ih hc)
      | leftBlack hs hc => exact .leftBlack hs (ih hc)
      | rightRed hs hc => exact .rightRed hs (ih hc)
      | rightBlack hs hc => exact .rightBlack hs (ih hc)

omit [DecidableEq α] in
/-- The nodes above the hole after the swap of the node `a`, whose right subtree has the hole,
with `b`. -/
theorem Above.swap {below : List (Frame α ν)} {b : α} {w : ν} {red : Bool}
    (h : Above t p (below ++ ⟨false, a, red, v, sib⟩ :: ctx))
    (hbelow : ∀ x ∈ nodesBefore below ++ nodesAfter below, t'.node x = t.node x)
    (hsib : Rep t' sib) (hb : t'.node b = ⟨(t.node a).left, (t.node a).right, (t.node a).red, w⟩)
    (habove : Above t' (some b) ctx) :
    Above t' p (below ++ ⟨false, b, red, w, sib⟩ :: ctx) := by
  induction below generalizing p with
  | nil =>
      obtain ⟨ha, -, -⟩ := h
      refine ⟨?_, hsib, habove⟩
      rw [hb, ha]
      rfl
  | cons fr below ih =>
      obtain ⟨hfr, hsib', hrest⟩ := h
      refine ⟨?_, hsib'.congr fun x hx => hbelow x (Frame.mem_nodes below (Or.inr hx)),
        ih hrest fun x hx => hbelow x ?_⟩
      · rw [hbelow _ (Frame.mem_nodes below (Or.inl rfl))]
        exact hfr
      · simp only [nodesBefore, nodesAfter, List.mem_append] at hx ⊢
        tauto

/-- A pointer of a frame is set in the frame's node. -/
theorem RbTree.link_node (t : RbTree α ν) (ctx : List (Frame α ν)) (q : Option α) {x : α}
    (hx : x ∉ nodesBefore ctx ++ nodesAfter ctx) : (t.link (pathOf ctx) q).node x = t.node x := by
  cases ctx with
  | nil => rfl
  | cons fr ctx =>
      have hne : x ≠ fr.id := fun he => hx (Frame.mem_nodes ctx (Or.inl he))
      obtain ⟨left, a, red, v, sib⟩ := fr
      cases left
      · exact t.update_node_ne _ hne
      · exact t.update_node_ne _ hne

omit [DecidableEq α] in
theorem Above.outer {below : List (Frame α ν)} (h : Above t p (below ++ ctx)) :
    ∃ q, Above t q ctx := by
  induction below generalizing p with
  | nil => exact ⟨p, h⟩
  | cons fr below ih => exact ih h.2.2

/-- The node is swapped with its successor and leaves the tree. -/
theorem swapSuccessor_spec {below : List (Frame α ν)} {node succ : α} {red red' : Bool} {w : ν}
    (h : At t (some succ) (below ++ ⟨false, node, red, v, sib⟩ :: ctx)
      (.node succ red' w .nil .nil)) :
    At (swapSuccessor t node succ (pathOf ctx)) (some succ)
      (below ++ ⟨false, succ, red, w, sib⟩ :: ctx) .nil ∧
      ((swapSuccessor t node succ (pathOf ctx)).node node).red = red' := by
  obtain ⟨q, hnode, hsibrep, hctx⟩ := h.above.outer
  obtain ⟨hsucc, -⟩ := h.rep
  have hperm : (nodesBefore (below ++ ⟨false, node, red, v, sib⟩ :: ctx) ++ [succ] ++
      nodesAfter (below ++ ⟨false, node, red, v, sib⟩ :: ctx)).Perm
        (node :: succ :: (sib.nodes ++
        ((nodesBefore below ++ nodesAfter below) ++ (nodesBefore ctx ++ nodesAfter ctx)))) := by
    rw [List.perm_iff_count]
    intro x
    simp only [nodesBefore_append, nodesAfter_append, nodesBefore, nodesAfter, Frame.before,
      Frame.after,
      Bool.false_eq_true, if_false, List.count_append, List.count_cons, List.count_nil]
    omega
  have hn := hperm.nodup_iff.1 h.nodup
  obtain ⟨hnotin, hn⟩ := List.nodup_cons.1 hn
  obtain ⟨hsuccnotin, hrest⟩ := List.nodup_cons.1 hn
  obtain ⟨-, hrest, hdisjSib⟩ := List.nodup_append'.1 hrest
  obtain ⟨-, hctxnodup, hdisj⟩ := List.nodup_append'.1 hrest
  have hne : succ ≠ node := fun he => hnotin (by simp [he])
  -- the nodes before the pointer above is set
  generalize ht1 :
    (((t.colorSet succ (t.node node).red).leftSet succ
        ((t.colorSet succ (t.node node).red).node node).left)
      |>.rightSet succ
        (((t.colorSet succ (t.node node).red).leftSet succ
          ((t.colorSet succ (t.node node).red).node node).left).node node).right).colorSet node
      (t.node succ).red = t1
  have ht2 : swapSuccessor t node succ (pathOf ctx) = t1.link (pathOf ctx) (some succ) := by
    rw [← ht1]
    rfl
  have h1succ : t1.node succ = ⟨(t.node node).left, (t.node node).right, (t.node node).red, w⟩ := by
    simp [← ht1, RbTree.colorSet, RbTree.leftSet, RbTree.rightSet, RbTree.update, hne,
      hne.symm, hsucc]
  have h1node : (t1.node node).red = red' := by
    simp [← ht1, RbTree.colorSet, RbTree.leftSet, RbTree.rightSet, RbTree.update, hsucc]
  have h1other : ∀ x, x ≠ succ → x ≠ node → t1.node x = t.node x := by
    intro x hx hx'
    simp [← ht1, RbTree.colorSet, RbTree.leftSet, RbTree.rightSet, RbTree.update, hx, hx']
  have h1root : t1.root = t.root := by rw [← ht1]; rfl
  have hat1 : At t1 (some node) ctx .nil := by
    refine ⟨trivial, hctx.congr (fun x hx => h1other x ?_ ?_) h1root, by
      simpa [ColorTree.nodes] using hctxnodup⟩
    · rintro rfl; exact hsuccnotin (by simp only [List.mem_append] at hx ⊢; tauto)
    · rintro rfl; exact hnotin (by simp only [List.mem_append, List.mem_cons] at hx ⊢; tauto)
  have hlink := hat1.link (some succ)
  rw [ht2]
  have hother : ∀ x, x ≠ succ → x ≠ node → x ∉ nodesBefore ctx ++ nodesAfter ctx →
      (t1.link (pathOf ctx) (some succ)).node x = t.node x := by
    intro x hx hx' hx''
    rw [t1.link_node ctx _ hx'']
    exact h1other x hx hx'
  have hsuccctx : succ ∉ nodesBefore ctx ++ nodesAfter ctx := fun hx =>
    hsuccnotin (List.mem_append.2 (Or.inr (List.mem_append.2 (Or.inr hx))))
  have hnodectx : node ∉ nodesBefore ctx ++ nodesAfter ctx := fun hx =>
    hnotin (List.mem_cons_of_mem _ (List.mem_append.2 (Or.inr (List.mem_append.2 (Or.inr hx)))))
  refine ⟨⟨trivial, h.above.swap (fun x hx => hother x ?_ ?_ (hdisj hx))
    (hsibrep.congr fun x hx => hother x ?_ ?_ ?_)
    ?_ hlink.above, ?_⟩, ?_⟩
  · rintro rfl; exact hsuccnotin (List.mem_append.2 (Or.inr (List.mem_append.2 (Or.inl hx))))
  · rintro rfl; exact hnotin
      (List.mem_cons_of_mem _ (List.mem_append.2 (Or.inr (List.mem_append.2 (Or.inl hx)))))
  · rintro rfl; exact hsuccnotin (List.mem_append.2 (Or.inl hx))
  · rintro rfl; exact hnotin (List.mem_cons_of_mem _ (List.mem_append.2 (Or.inl hx)))
  · exact fun hx' => hdisjSib hx (List.mem_append.2 (Or.inr hx'))
  · rw [t1.link_node ctx _ hsuccctx]
    exact h1succ
  · refine List.Perm.nodup_iff ?_ |>.1 hn
    rw [List.perm_iff_count]
    intro x
    simp only [nodesBefore_append, nodesAfter_append, nodesBefore, nodesAfter, Frame.before,
      Frame.after,
      ColorTree.nodes, Bool.false_eq_true, if_false, List.count_append, List.count_cons,
      List.count_nil]
    omega
  · rw [t1.link_node ctx _ hnodectx]
    exact h1node

/-! ## `remove` -/

theorem removeLast_spec {node : α} {red : Bool} {l : ColorTree α ν}
    (h : At t (some node) ctx (.node node red v l .nil))
    (hb : Balanced (.node node red v l .nil) c n) (hfit : Fits ctx c n) (hl : l.Aug f)
    (hctx : ∀ fr ∈ ctx, fr.sib.Aug f) :
    ∃ t', removeLast f t node (pathOf ctx) = some t' ∧
      HoldsTree f t' (nodesBefore ctx ++ l.nodes ++ nodesAfter ctx) := by
  obtain ⟨hnode, hlrep, -⟩ := h.rep
  have hleft : (t.node node).left = l.root? := by rw [hnode]
  have hred : (t.node node).red = red := by rw [hnode]
  have hchild : At t (some node) ctx l := by
    refine ⟨hlrep, h.above, List.Nodup.sublist ?_ h.nodup⟩
    exact ((List.sublist_append_left _ _).append_left _).append_right _
  cases l with
  | nil =>
      by_cases hne : ctx = []
      · subst hne
        exact ⟨t.setRoot none, by simp [removeLast, hleft, root?, pathOf], .nil, 0, rfl, trivial,
          trivial, .nil, rfl⟩
      · obtain ⟨t', hprune, hholds⟩ := prune_spec hchild hctx hb hfit hne
        refine ⟨t', ?_, by simpa [ColorTree.nodes] using hholds⟩
        have hpath : pathOf ctx ≠ [] := fun he => hne (List.map_eq_nil_iff.1 he)
        simp [removeLast, hleft, hred, root?, hpath, hprune]
  | node left red' w ll lr =>
      -- the node is black and its child is red
      have hshape : red = false ∧ red' = true ∧ c = false ∧ n = 1 ∧ Balanced ll false 0 ∧
          Balanced lr false 0 := by
        cases hb with
        | red hbl hbr => cases hbr; cases hbl
        | black hbl hbr =>
            cases hbr
            cases hbl with
            | red hll hlr => exact ⟨rfl, rfl, rfl, rfl, hll, hlr⟩
      obtain ⟨rfl, rfl, rfl, rfl, hll, hlr⟩ := hshape
      have hleftred : (t.node left).red = true := by rw [hlrep.1]
      have hlink := (hchild.becomes (hchild.focus.colorSet false)).link (some left)
      have hdone := hlink.propagate hl.recolor hctx (.black hll hlr) hfit
      refine ⟨((t.blackSet left).link (pathOf ctx) (some left)).augmentPropagate f (pathOf ctx),
        ?_, hdone⟩
      simp [removeLast, hleft, root?, hred, hleftred]

/-- `remove` of a node of the tree. -/
theorem rbRemove_spec {cmp : α → α → Ordering} [Std.TransCmp cmp] [Std.LawfulEqCmp cmp]
    {nodes : List α} {node : α} (h : HoldsTree f t nodes) (hord : InOrder cmp nodes)
    (hmem : node ∈ nodes) (hlen : nodes.length + 1 < 2 ^ 64) :
    ∃ t' before after, rbRemove f cmp t node = some t' ∧ nodes = before ++ node :: after ∧
      HoldsTree f t' (before ++ after) := by
  obtain ⟨s, n, hat, haug, hb, rfl⟩ := h.at hord
  obtain ⟨ctx, red, v, l, r, c, m, fuel, hwind, hat1, hb1, hfit, hl, hr, hctx, hfuel, hnodes⟩ :=
    removeWind_spec hat hb .root haug (by simp) hord hmem (height_le_rbPathMax hb hlen)
  have hpath : removeWind cmp t node rbPathMax t.root [] = some (pathOf ctx, node, fuel) := by
    rw [show t.root = s.root? from hat.above]
    exact hwind
  simp only [nodesBefore, nodesAfter, List.nil_append, List.append_nil] at hnodes
  have hright : (t.node node).right = r.root? := by rw [hat1.rep.1]
  cases r with
  | nil =>
      obtain ⟨t', hlast, hholds⟩ := removeLast_spec hat1 hb1 hfit hl hctx
      refine ⟨t', nodesBefore ctx ++ l.nodes, nodesAfter ctx,
        ?_, by simp [← hnodes, ColorTree.nodes], hholds⟩
      have hsucc : successorWind t fuel none [] = some [] := by cases fuel <;> rfl
      simp [rbRemove, hpath, hright, root?, hsucc, hlast]
  | node b red' w rl rr =>
      obtain ⟨m', hb2, hfit2⟩ := hfit.downRight hb1
      have hdown : At t _ ([] ++ ⟨false, node, red, v, l⟩ :: ctx) _ := hat1.downRight
      have hctx2 : ∀ fr ∈ [] ++ ⟨false, node, red, v, l⟩ :: ctx, fr.sib.Aug f :=
        List.forall_mem_cons.2 ⟨hl, hctx⟩
      obtain ⟨below, succ, red'', u, c', k, hsucc, hat2, hb3, hfit3, hctx3, hbelow, hnodes3⟩ :=
        successorWind_spec hdown hb2 hfit2 hr hctx2 (by simp) hfuel rfl
      obtain ⟨hat3, hred⟩ := swapSuccessor_spec hat2
      have hctx4 : ∀ fr ∈ below ++ ⟨false, succ, red, u, l⟩ :: ctx, fr.sib.Aug f := by
        intro fr hfr
        rcases List.mem_append.1 hfr with hfr | hfr
        · exact hctx3 fr (List.mem_append.2 (Or.inl hfr))
        · rcases List.mem_cons.1 hfr with rfl | hfr
          · exact hl
          · exact hctx fr hfr
      obtain ⟨t', hprune, hholds⟩ := prune_spec hat3 hctx4 hb3 hfit3.replace (by simp)
      refine ⟨t', nodesBefore ctx ++ l.nodes, succ :: nodesAfter below ++ nodesAfter ctx,
        ?_, ?_, ?_⟩
      · have hpath' : successorWind t fuel (some b) [] = some ((succ, .lt) :: pathOf below) := hsucc
        have happ : pathOf (below ++ ⟨false, succ, red, u, l⟩ :: ctx) =
            pathOf below ++ (succ, .gt) :: pathOf ctx := by
          simp [pathOf]
        rw [happ] at hprune
        simp [rbRemove, hpath, hright, root?, hpath', hred, hprune]
      · rw [← hnodes, hnodes3]
        simp [nodesAfter]
      · simpa [nodesBefore_append, nodesAfter_append, nodesBefore, nodesAfter, Frame.before,
          Frame.after, hbelow]
          using hholds

end SmallAllocators
