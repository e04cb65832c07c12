/-
SmallAllocators.Rlist.Between — the operations of `include/small/rlist.h` at
the tail of a list, and between two lists.

`Rlist` has the operations at the front of one list. The header is symmetric
in its two fields: `Links.flip` exchanges them, and turns each list around,
so that an operation at the tail is the flipped operation at the head.

For two lists without a common node, `rlist_splice`, `rlist_cut_before` and
`rlist_swap` each have one lemma: what the two heads hold afterwards, and
that the fields of all other nodes are as before. In each, the path of a
list is cut into parts between which only the outer fields change
(`Links.keep_between`), and glued together again.
-/
import SmallAllocators.Rlist

namespace SmallAllocators

variable {ν : Type} [DecidableEq ν]

/-! ## The functions of the header -/

def rlistShiftTail (l : Links ν) (head : ν) : ν × Links ν :=
  let shift := l.prev head
  (shift, rlistDel l shift)

def rlistMove (l : Links ν) (to' item : ν) : Links ν := rlistAdd (rlistDel l item) to' item

def rlistMoveTail (l : Links ν) (to' item : ν) : Links ν :=
  let l := l.setNext (l.prev item) (l.next item)
  let l := l.setPrev (l.next item) (l.prev item)
  let l := l.setNext item to'
  let l := l.setPrev item (l.prev to')
  let l := l.setNext (l.prev item) item
  l.setPrev (l.next item) item

/-- The half of `rlist_swap` that relinks the nodes of `head`, whose fields were those of
`other`. -/
def rlistRelink (l : Links ν) (head other : ν) : Links ν :=
  let l := if l.next head = other then l.setNext head head else l
  let l := l.setPrev (l.next head) head
  l.setNext (l.prev head) head

def rlistSwap (l : Links ν) (rhs lhs : ν) : Links ν :=
  let tmpNext := l.next rhs
  let tmpPrev := l.prev rhs
  let l := (l.setNext rhs (l.next lhs)).setPrev rhs (l.prev lhs)
  let l := (l.setNext lhs tmpNext).setPrev lhs tmpPrev
  let l := rlistRelink l lhs rhs
  rlistRelink l rhs lhs

def rlistSplice (l : Links ν) (head1 head2 : ν) : Links ν :=
  if rlistEmpty l head2 then l
  else
    let l := l.setPrev (l.next head1) (l.prev head2)
    let l := l.setNext (l.prev head2) (l.next head1)
    let l := l.setNext head1 (l.next head2)
    let l := l.setPrev (l.next head2) head1
    rlistCreate l head2

def rlistSpliceTail (l : Links ν) (head1 head2 : ν) : Links ν :=
  if rlistEmpty l head2 then l
  else
    let l := l.setNext (l.prev head1) (l.next head2)
    let l := l.setPrev (l.next head2) (l.prev head1)
    let l := l.setPrev head1 (l.prev head2)
    let l := l.setNext (l.prev head2) head1
    rlistCreate l head2

def rlistCutBefore (l : Links ν) (head1 head2 item : ν) : Links ν :=
  if l.next head1 = item then rlistCreate l head1
  else
    let l := l.setNext head1 (l.next head2)
    let l := l.setPrev (l.next head1) head1
    let l := l.setPrev head1 (l.prev item)
    let l := l.setNext (l.prev head1) head1
    let l := l.setNext head2 item
    l.setPrev item head2

/-! ## Rings by their ends -/

section Rings

variable {ν : Type} {l l' : Links ν} {h a z : ν} {xs ys : List ν}

/-- A linked path stays linked if the fields between its nodes stay. -/
theorem Links.keep_chain (hc : List.IsChain l.Joined xs)
    (hnext : ∀ y ∈ xs.dropLast, l'.next y = l.next y)
    (hprev : ∀ y ∈ xs.tail, l'.prev y = l.prev y) : List.IsChain l'.Joined xs := by
  induction xs with
  | nil => exact .nil
  | cons x xs ih =>
      cases xs with
      | nil => exact .singleton x
      | cons y ys =>
          obtain ⟨⟨hn, hp⟩, hrest⟩ := List.isChain_cons_cons.1 hc
          rw [List.dropLast_cons_cons] at hnext
          refine List.isChain_cons_cons.2 ⟨⟨?_, ?_⟩, ih hrest ?_ ?_⟩
          · rw [hnext x List.mem_cons_self, hn]
          · rw [hprev y List.mem_cons_self, hp]
          · intro w hw
            exact hnext w (List.mem_cons_of_mem x hw)
          · intro w hw
            exact hprev w (List.mem_cons_of_mem y hw)

/-- The ends of a list that is not empty are neighbours of its head. -/
theorem IsRing.ends (hr : IsRing l h xs) (ha : xs.head? = some a) (hz : xs.getLast? = some z) :
    l.Joined h a ∧ l.Joined z h ∧ List.IsChain l.Joined xs := by
  obtain ⟨hfirst, hrest⟩ := List.isChain_cons.1 (List.cons_append ▸ hr.path)
  obtain ⟨hc, -, hlast⟩ := List.isChain_append.1 hrest
  refine ⟨hfirst a ?_, hlast z hz h rfl, hc⟩
  rw [List.head?_append, ha]
  rfl

theorem IsRing.of_ends (hnd : (h :: xs).Nodup) (ha : xs.head? = some a) (hz : xs.getLast? = some z)
    (hha : l.Joined h a) (hzh : l.Joined z h) (hc : List.IsChain l.Joined xs) : IsRing l h xs := by
  refine ⟨hnd, ?_⟩
  rw [List.cons_append, List.isChain_cons, List.isChain_append]
  refine ⟨?_, hc, .singleton h, ?_⟩
  · intro y hy
    rw [List.head?_append, ha] at hy
    cases hy
    exact hha
  · intro x hx y hy
    rw [hz] at hx
    cases hx
    cases hy
    exact hzh

/-- The first node is not in the tail, and the last one not before the end. -/
theorem head_not_mem_tail (hnd : xs.Nodup) (ha : xs.head? = some a) : a ∉ xs.tail := by
  cases xs with
  | nil => cases ha
  | cons x xs =>
      cases ha
      exact (List.nodup_cons.1 hnd).1

theorem getLast_not_mem_dropLast (hnd : xs.Nodup) (hz : xs.getLast? = some z) :
    z ∉ xs.dropLast := by
  obtain ⟨ys, rfl⟩ := List.getLast?_eq_some_iff.1 hz
  rw [List.dropLast_concat]
  intro hmem
  exact (List.nodup_append.1 hnd).2.2 z hmem z (List.mem_singleton_self z) rfl

/-- The path between two ends stays linked if only their outer fields change. -/
theorem Links.keep_between (hc : List.IsChain l.Joined xs) (hnd : xs.Nodup) (ha : xs.head? = some a)
    (hz : xs.getLast? = some z) (hnext : ∀ y ∈ xs, y ≠ z → l'.next y = l.next y)
    (hprev : ∀ y ∈ xs, y ≠ a → l'.prev y = l.prev y) : List.IsChain l'.Joined xs := by
  refine Links.keep_chain hc (fun y hy => hnext y (List.dropLast_subset _ hy) ?_)
    (fun y hy => hprev y (List.mem_of_mem_tail hy) ?_)
  · rintro rfl
    exact getLast_not_mem_dropLast hnd hz hy
  · rintro rfl
    exact head_not_mem_tail hnd ha hy

end Rings

/-! ## The two directions -/

section Flip

variable {l : Links ν} {h : ν} {xs : List ν}

/-- The heap with its two fields exchanged. -/
def Links.flip {ν : Type} (l : Links ν) : Links ν := ⟨l.prev, l.next⟩

omit [DecidableEq ν] in
theorem Links.flip_joined {a b : ν} : l.flip.Joined a b ↔ l.Joined b a := and_comm

omit [DecidableEq ν] in
/-- A list read through the other field is the list turned around. -/
theorem IsRing.flip (hr : IsRing l h xs) : IsRing l.flip h xs.reverse := by
  refine ⟨?_, ?_⟩
  · have hnd := hr.nodup
    rw [List.nodup_cons] at hnd ⊢
    exact ⟨fun hmem => hnd.1 (List.mem_reverse.1 hmem), List.nodup_reverse.2 hnd.2⟩
  · have hpath := hr.path
    rw [← List.reverse_reverse (h :: xs ++ [h]), List.isChain_reverse] at hpath
    have hrev : (h :: xs ++ [h]).reverse = h :: xs.reverse ++ [h] := by simp
    rw [hrev] at hpath
    exact hpath.imp fun a b hab => Links.flip_joined.2 hab

omit [DecidableEq ν] in
theorem Links.SameAt.flip {l' : Links ν} {y : ν} (h : l.SameAt l' y) : l.flip.SameAt l'.flip y :=
  ⟨h.2, h.1⟩

theorem rlistEmpty_flip (l : Links ν) (h : ν) : rlistEmpty l.flip h = rlistEmpty l h := by
  have hiff : (l.prev h = l.next h ∧ l.prev h = h) ↔ (l.next h = l.prev h ∧ l.next h = h) :=
    ⟨fun h => ⟨h.1.symm, h.1.symm.trans h.2⟩, fun h => ⟨h.1.symm, h.1.symm.trans h.2⟩⟩
  rw [Bool.eq_iff_iff, rlistEmpty, rlistEmpty, Bool.and_eq_true, Bool.and_eq_true,
    decide_eq_true_iff, decide_eq_true_iff, decide_eq_true_iff, decide_eq_true_iff]
  exact hiff

/-- `rlist_add_tail` is `rlist_add` in the other direction. -/
theorem rlistAddTail_flip {x : ν} (hx : x ≠ h) (hp : l.prev h ≠ x) :
    rlistAddTail l h x = (rlistAdd l.flip h x).flip := by
  simp [rlistAddTail, rlistAdd, Links.flip, Links.setNext, Links.setPrev, hx, Ne.symm hp]

theorem rlistSpliceTail_flip (l : Links ν) (head1 head2 : ν) :
    rlistSpliceTail l head1 head2 = (rlistSplice l.flip head1 head2).flip := by
  rw [rlistSpliceTail, rlistSplice, rlistEmpty_flip]
  split
  · rfl
  · rfl

end Flip

/-! ## Operations at the tail -/

section Tail

variable {l : Links ν} {h x y : ν} {xs : List ν}

omit [DecidableEq ν] in
theorem IsRing.prev_head_mem (hr : IsRing l h xs) : l.prev h ∈ h :: xs := by
  have hprev : l.prev h = xs.reverse.headD h := hr.flip.next_head
  rw [hprev]
  cases hrev : xs.reverse with
  | nil => exact List.mem_cons_self
  | cons z zs =>
      refine List.mem_cons_of_mem h (List.mem_reverse.1 ?_)
      rw [hrev]
      exact List.mem_cons_self

theorem rlistAddTail_eq (hr : IsRing l h xs) (hx : x ∉ h :: xs) :
    rlistAddTail l h x = (rlistAdd l.flip h x).flip := by
  refine rlistAddTail_flip (fun he => hx (he ▸ List.mem_cons_self)) ?_
  rintro rfl
  exact hx hr.prev_head_mem

/-- The flipped list has the same nodes. -/
theorem mem_cons_reverse {ν : Type} {h y : ν} {xs : List ν} :
    y ∈ h :: xs.reverse ↔ y ∈ h :: xs := by
  simp

theorem rlistAddTail_ring (hr : IsRing l h xs) (hx : x ∉ h :: xs) :
    IsRing (rlistAddTail l h x) h (xs ++ [x]) := by
  rw [rlistAddTail_eq hr hx]
  have hadd := (rlistAdd_ring hr.flip (mt mem_cons_reverse.1 hx)).flip
  rwa [List.reverse_cons, List.reverse_reverse] at hadd

theorem rlistAddTail_same (hr : IsRing l h xs) (hx : x ∉ h :: xs) (hy : y ∉ h :: xs) (hyx : y ≠ x) :
    l.SameAt (rlistAddTail l h x) y := by
  rw [rlistAddTail_eq hr hx]
  have hxh : x ≠ h := fun he => hx (he ▸ List.mem_cons_self)
  exact (rlistAdd_same hr.flip (mt mem_cons_reverse.1 hy) hyx hxh).flip

theorem rlistShiftTail_eq (hr : IsRing l h (xs ++ [x])) :
    rlistShiftTail l h = (x, rlistDel l x) := by
  have hprev : l.prev h = (xs ++ [x]).reverse.headD h := hr.flip.next_head
  rw [List.reverse_concat, List.headD_cons] at hprev
  rw [rlistShiftTail, hprev]

/-- `rlist_move_tail` is `rlist_del` and `rlist_add_tail`. -/
theorem rlistMoveTail_eq {to' : ν} (hx : x ≠ to') :
    rlistMoveTail l to' x = rlistAddTail (rlistDel l x) to' x := by
  simp [rlistMoveTail, rlistAddTail, rlistDel, rlistCreate, Links.setNext, Links.setPrev,
    Ne.symm hx]
  constructor
  · funext y
    by_cases hy : y = x
    · simp [hy]
    · simp [hy]
  · funext y
    by_cases hy : y = x
    · simp [hy]
    · simp [hy]

end Tail

/-! ## Operations on two lists -/

section Two

variable {l : Links ν} {head1 head2 a z n y item : ν} {xs1 xs2 : List ν}

/-- No node is on both lists. -/
def Apart {ν : Type} (head1 : ν) (xs1 : List ν) (head2 : ν) (xs2 : List ν) : Prop :=
  ∀ y ∈ head1 :: xs1, y ∉ head2 :: xs2

omit [DecidableEq ν] in
theorem Apart.symm (h : Apart head1 xs1 head2 xs2) : Apart head2 xs2 head1 xs1 :=
  fun y h2 h1 => h y h1 h2

omit [DecidableEq ν] in
theorem IsRing.exists_ends (hne : xs2 ≠ []) :
    ∃ a z, xs2.head? = some a ∧ xs2.getLast? = some z ∧ a ∈ xs2 ∧ z ∈ xs2 :=
  ⟨xs2.head hne, xs2.getLast hne, List.head?_eq_some_head hne, List.getLast?_eq_some_getLast hne,
    List.head_mem hne, List.getLast_mem hne⟩

omit [DecidableEq ν] in
/-- The path from the first node back to the head. -/
theorem IsRing.rest (hr : IsRing l head1 xs1) : List.IsChain l.Joined (xs1 ++ [head1]) ∧
    (xs1 ++ [head1]).head? = some (l.next head1) ∧ (xs1 ++ [head1]).Nodup := by
  refine ⟨List.isChain_of_isChain_cons (List.cons_append ▸ hr.path), ?_, ?_⟩
  · rw [hr.next_head]
    cases xs1 <;> rfl
  · refine List.nodup_append.2 ⟨hr.nodup_tail, List.nodup_singleton head1, ?_⟩
    rintro y hy _ hh rfl
    exact hr.head_not_mem (List.mem_singleton.1 hh ▸ hy)

omit [DecidableEq ν] in
theorem IsRing.next_head_mem (hr : IsRing l head1 xs1) : l.next head1 ∈ head1 :: xs1 := by
  rw [hr.next_head]
  cases xs1 with
  | nil => exact List.mem_cons_self
  | cons x xs => exact List.mem_cons_of_mem head1 List.mem_cons_self

theorem rlistSplice_next (hempty : rlistEmpty l head2 = false) (ha : l.next head2 = a)
    (hz : l.prev head2 = z) (hn : l.next head1 = n) (hheads : head1 ≠ head2) (hz2 : z ≠ head2)
    (hn2 : n ≠ head2) (y : ν) :
    (rlistSplice l head1 head2).next y =
      if y = head2 then head2 else if y = head1 then a else if y = z then n else l.next y := by
  simp [rlistSplice, rlistCreate, hempty, ha, hz, hn, hheads.symm, hz2.symm, hn2.symm]

theorem rlistSplice_prev (hempty : rlistEmpty l head2 = false) (ha : l.next head2 = a)
    (hz : l.prev head2 = z) (hn : l.next head1 = n) (hheads : head1 ≠ head2) (hz2 : z ≠ head2)
    (hn2 : n ≠ head2) (y : ν) :
    (rlistSplice l head1 head2).prev y =
      if y = head2 then head2 else if y = a then head1 else if y = n then z else l.prev y := by
  simp [rlistSplice, rlistCreate, hempty, ha, hz, hn, hheads.symm, hz2.symm, hn2.symm]

/-- `rlist_splice` of a list that is not empty. -/
theorem rlistSplice_of_ne_nil (hr1 : IsRing l head1 xs1) (hr2 : IsRing l head2 xs2)
    (hd : Apart head1 xs1 head2 xs2) (hne : xs2 ≠ []) :
    IsRing (rlistSplice l head1 head2) head1 (xs2 ++ xs1) ∧
      IsRing (rlistSplice l head1 head2) head2 [] ∧
      ∀ y, y ∉ head1 :: xs1 → y ∉ head2 :: xs2 → l.SameAt (rlistSplice l head1 head2) y := by
  obtain ⟨a, z, ha, hz, hamem, hzmem⟩ := IsRing.exists_ends hne
  obtain ⟨⟨hnext2, -⟩, ⟨-, hprev2⟩, hc2⟩ := hr2.ends ha hz
  obtain ⟨hc1, hn, hnd1⟩ := hr1.rest
  have hempty : rlistEmpty l head2 = false := by
    rw [← Bool.not_eq_true, rlistEmpty_iff hr2]
    exact hne
  -- which of the nodes that are written to differ
  have hheads : head1 ≠ head2 := fun he => hd head1 List.mem_cons_self (he ▸ List.mem_cons_self)
  have hnd2 := hr2.nodup_tail
  have hout1 : ∀ y ∈ xs2, y ∉ head1 :: xs1 :=
    fun y hy hy1 => hd y hy1 (List.mem_cons_of_mem head2 hy)
  have hout2 : ∀ y ∈ xs1 ++ [head1], y ∉ head2 :: xs2 :=
    fun y hy => hd y (by simpa [or_comm] using hy)
  have hx2 : ∀ y ∈ xs2, y ≠ head2 ∧ y ≠ head1 := fun y hy =>
    ⟨fun he => hr2.head_not_mem (he ▸ hy), fun he => hout1 y hy (he ▸ List.mem_cons_self)⟩
  have hx1 : ∀ y ∈ xs1 ++ [head1], y ≠ head2 ∧ ∀ w ∈ xs2, y ≠ w := fun y hy =>
    ⟨fun he => hout2 y hy (he ▸ List.mem_cons_self), fun w hw he =>
      hout2 y hy (List.mem_cons_of_mem head2 (he ▸ hw))⟩
  have hnmem : l.next head1 ∈ xs1 ++ [head1] := List.mem_of_mem_head? hn
  have hnext := rlistSplice_next hempty hnext2 hprev2 rfl hheads (hx2 z hzmem).1 (hx1 _ hnmem).1
  have hprev := rlistSplice_prev hempty hnext2 hprev2 rfl hheads (hx2 z hzmem).1 (hx1 _ hnmem).1
  refine ⟨⟨?_, ?_⟩, IsRing.nil_iff.2 ⟨by rw [hnext, if_pos rfl], by rw [hprev, if_pos rfl]⟩, ?_⟩
  · refine List.nodup_cons.2 ⟨fun hmem => ?_,
      List.nodup_append.2 ⟨hnd2, hr1.nodup_tail, fun y hy2 w hy1 he => ?_⟩⟩
    · rcases List.mem_append.1 hmem with hmem | hmem
      · exact (hx2 head1 hmem).2 rfl
      · exact hr1.head_not_mem hmem
    · exact hout1 y hy2 (List.mem_cons_of_mem head1 (he ▸ hy1))
  · -- the head, the second list, and the rest of the first
    have hfirst : (rlistSplice l head1 head2).Joined head1 a := by
      refine ⟨?_, ?_⟩
      · rw [hnext, if_neg hheads, if_pos rfl]
      · rw [hprev, if_neg (hx2 a hamem).1, if_pos rfl]
    have hmiddle : (rlistSplice l head1 head2).Joined z (l.next head1) := by
      refine ⟨?_, ?_⟩
      · rw [hnext, if_neg (hx2 z hzmem).1, if_neg (hx2 z hzmem).2, if_pos rfl]
      · rw [hprev, if_neg (hx1 _ hnmem).1, if_neg ((hx1 _ hnmem).2 a hamem), if_pos rfl]
    have hkeep2 : List.IsChain (rlistSplice l head1 head2).Joined xs2 := by
      refine Links.keep_between hc2 hnd2 ha hz (fun y hy hyz => ?_) (fun y hy hya => ?_)
      · rw [hnext, if_neg (hx2 y hy).1, if_neg (hx2 y hy).2, if_neg hyz]
      · rw [hprev, if_neg (hx2 y hy).1, if_neg hya, if_neg ((hx1 _ hnmem).2 y hy).symm]
    have hkeep1 : List.IsChain (rlistSplice l head1 head2).Joined (xs1 ++ [head1]) := by
      refine Links.keep_between hc1 hnd1 hn List.getLast?_concat (fun y hy hyh => ?_)
        (fun y hy hyn => ?_)
      · rw [hnext, if_neg (hx1 y hy).1, if_neg hyh, if_neg ((hx1 y hy).2 z hzmem)]
      · rw [hprev, if_neg (hx1 y hy).1, if_neg ((hx1 y hy).2 a hamem), if_neg hyn]
    have hrest := IsRing.chain_glue hkeep2 hkeep1 hz hn hmiddle
    have hstart : (xs2 ++ (xs1 ++ [head1])).head? = some a := by rw [List.head?_append, ha]; rfl
    have hall := IsRing.chain_glue (.singleton head1) hrest rfl hstart hfirst
    simpa using hall
  · intro y hy1 hy2
    have hyh1 : y ≠ head1 := fun he => hy1 (he ▸ List.mem_cons_self)
    have hyh2 : y ≠ head2 := fun he => hy2 (he ▸ List.mem_cons_self)
    have hyx2 : ∀ w ∈ xs2, y ≠ w := fun w hw he => hy2 (List.mem_cons_of_mem head2 (he ▸ hw))
    have hyn : y ≠ l.next head1 := fun he => hy1 (he ▸ hr1.next_head_mem)
    refine ⟨?_, ?_⟩
    · rw [hnext, if_neg hyh2, if_neg hyh1, if_neg (hyx2 z hzmem)]
    · rw [hprev, if_neg hyh2, if_neg (hyx2 a hamem), if_neg hyn]

/-- `rlist_splice` puts the second list in front of the first. -/
theorem rlistSplice_spec (hr1 : IsRing l head1 xs1) (hr2 : IsRing l head2 xs2)
    (hd : Apart head1 xs1 head2 xs2) :
    IsRing (rlistSplice l head1 head2) head1 (xs2 ++ xs1) ∧
      IsRing (rlistSplice l head1 head2) head2 [] ∧
      ∀ y, y ∉ head1 :: xs1 → y ∉ head2 :: xs2 → l.SameAt (rlistSplice l head1 head2) y := by
  by_cases hne : xs2 = []
  · have hsame :
        rlistSplice l head1 head2 = l := by rw [rlistSplice, if_pos ((rlistEmpty_iff hr2).2 hne)]
    subst hne
    rw [hsame]
    exact ⟨hr1, hr2, fun y _ _ => ⟨rfl, rfl⟩⟩
  · exact rlistSplice_of_ne_nil hr1 hr2 hd hne

/-- `rlist_splice_tail` puts the second list behind the first. -/
theorem rlistSpliceTail_spec (hr1 : IsRing l head1 xs1) (hr2 : IsRing l head2 xs2)
    (hd : Apart head1 xs1 head2 xs2) :
    IsRing (rlistSpliceTail l head1 head2) head1 (xs1 ++ xs2) ∧
      IsRing (rlistSpliceTail l head1 head2) head2 [] ∧
      ∀ y, y ∉ head1 :: xs1 → y ∉ head2 :: xs2 → l.SameAt (rlistSpliceTail l head1 head2) y := by
  have hd' : Apart head1 xs1.reverse head2 xs2.reverse := fun y h1 h2 =>
    hd y (mem_cons_reverse.1 h1) (mem_cons_reverse.1 h2)
  obtain ⟨hring1, hring2, hsame⟩ := rlistSplice_spec hr1.flip hr2.flip hd'
  rw [rlistSpliceTail_flip]
  refine ⟨?_, hring2.flip, fun y h1 h2 => ?_⟩
  · have hring := hring1.flip
    rwa [List.reverse_append, List.reverse_reverse, List.reverse_reverse] at hring
  · exact (hsame y (mt mem_cons_reverse.1 h1) (mt mem_cons_reverse.1 h2)).flip

/-! ### `rlist_cut_before` -/

/-- Cutting before the first node: the first list is empty, and nothing else changes. -/
theorem rlistCutBefore_first (hnext : l.next head2 = item) (hprev : l.prev item = head2)
    (hheads : head1 ≠ head2) (hitem : item ≠ head1) (hfirst : l.next head1 ≠ item) :
    (rlistCutBefore l head1 head2 item).SelfLinked head1 ∧
      ∀ y, y ≠ head1 → l.SameAt (rlistCutBefore l head1 head2 item) y := by
  have hn : ∀ y, (rlistCutBefore l head1 head2 item).next y = if y = head1 then head1
      else l.next y := by
    intro y
    by_cases hy : y = head2
    · simp [rlistCutBefore, hfirst, hnext, hy, hheads.symm]
    · by_cases hy1 : y = head1
      · simp [rlistCutBefore, hfirst, hnext, hheads, hy1]
      · simp [rlistCutBefore, hfirst, hnext, hy, hy1]
  have hp : ∀ y, (rlistCutBefore l head1 head2 item).prev y = if y = head1 then head1
      else l.prev y := by
    intro y
    by_cases hy : y = item
    · simp [rlistCutBefore, hy, hfirst, hprev, hitem]
    · simp [rlistCutBefore, hy, hfirst, hnext]
  refine ⟨⟨by rw [hn, if_pos rfl], by rw [hp, if_pos rfl]⟩, fun y hy =>
    ⟨by rw [hn, if_neg hy], by rw [hp, if_neg hy]⟩⟩

theorem rlistCutBefore_next (ha : l.next head2 = a) (hz : l.prev item = z)
    (hfirst : l.next head1 ≠ item) (hitem : item ≠ a) (hheads : head1 ≠ head2) (hz1 : z ≠ head1)
    (y : ν) :
    (rlistCutBefore l head1 head2 item).next y =
      if y = head2 then item else if y = head1 then a else if y = z then head1 else l.next y := by
  by_cases hy : y = head1
  · simp [rlistCutBefore, hfirst, ha, hz, hitem, hy, hheads, hz1.symm]
  · simp [rlistCutBefore, hfirst, ha, hz, hitem, hy]

theorem rlistCutBefore_prev (ha : l.next head2 = a) (hz : l.prev item = z)
    (hfirst : l.next head1 ≠ item) (hitem : item ≠ a) (y : ν) :
    (rlistCutBefore l head1 head2 item).prev y =
      if y = item then head2 else if y = head1 then z else if y = a then head1 else l.prev y := by
  simp [rlistCutBefore, hfirst, ha, hz, hitem]

/-- `rlist_cut_before`: the nodes before the item go to the first head, the others stay. -/
theorem rlistCutBefore_spec {pre post : List ν} (hr1 : IsRing l head1 xs1)
    (hr2 : IsRing l head2 (pre ++ post)) (hd : Apart head1 xs1 head2 (pre ++ post))
    (hitem : (post ++ [head2]).head? = some item) :
    IsRing (rlistCutBefore l head1 head2 item) head1 pre ∧
      IsRing (rlistCutBefore l head1 head2 item) head2 post ∧
      ∀ y, y ∉ head1 :: xs1 → y ∉ head2 :: (pre ++ post) →
      l.SameAt (rlistCutBefore l head1 head2 item) y := by
  obtain ⟨hc, hn, hnd⟩ := hr2.rest
  rw [List.append_assoc] at hc hn hnd
  have hheads : head1 ≠ head2 := fun he => hd head1 List.mem_cons_self (he ▸ List.mem_cons_self)
  have hitemmem : item ∈ post ++ [head2] := List.mem_of_mem_head? hitem
  have hout : ∀ y ∈ pre ++ (post ++ [head2]), y ∉ head1 :: xs1 := fun y hy h1 => hd y h1 (by
    simp only [List.mem_append, List.mem_cons, List.not_mem_nil, or_false] at hy ⊢
    tauto)
  have hne1 : ∀ y ∈ pre ++ (post ++ [head2]), y ≠ head1 :=
    fun y hy he => hout y hy (he ▸ List.mem_cons_self)
  have hfirst : l.next head1 ≠ item := fun he =>
    hout item (List.mem_append_right pre hitemmem) (he ▸ hr1.next_head_mem)
  by_cases hpre : pre = []
  · subst hpre
    rw [List.nil_append] at hn
    have hnext : l.next head2 = item := Option.some.inj (hn.symm.trans hitem)
    have hprev : l.prev item = head2 := by
      obtain ⟨hstart, -⟩ := List.isChain_cons.1 (List.cons_append ▸ hr2.path)
      exact (hstart item hitem).2
    obtain ⟨hself, hsame⟩ := rlistCutBefore_first hnext hprev hheads (hne1 item hitemmem) hfirst
    refine ⟨IsRing.nil_iff.2 hself, hr2.congr fun y hy => hsame y ?_, fun y hy _ => hsame y ?_⟩
    · exact hne1 y (by simpa [or_comm] using hy)
    · rintro rfl
      exact hy List.mem_cons_self
  · obtain ⟨a, z, ha, hz, hamem, hzmem⟩ := IsRing.exists_ends hpre
    obtain ⟨hcpre, hcpost, hseam⟩ := List.isChain_append.1 hc
    obtain ⟨hndpre, hndpost, hndboth⟩ := List.nodup_append.1 hnd
    have hnexta : l.next head2 = a := by
      rw [List.head?_append, ha] at hn
      exact (Option.some.inj hn).symm
    have hprevz : l.prev item = z := (hseam z hz item hitem).2
    have hitema : item ≠ a := (hndboth a hamem item hitemmem).symm
    have hpre2 : ∀ y ∈ pre, y ≠ head2 ∧ y ≠ item ∧ y ≠ head1 := fun y hy =>
      ⟨hndboth y hy head2 (by simp), hndboth y hy item hitemmem, hne1 y (List.mem_append_left _ hy)⟩
    have hpost1 : ∀ y ∈ post ++ [head2], y ≠ head1 ∧ y ≠ a ∧ y ≠ z := fun y hy =>
      ⟨hne1 y (List.mem_append_right pre hy), (hndboth a hamem y hy).symm,
        (hndboth z hzmem y hy).symm⟩
    have hnext := rlistCutBefore_next hnexta hprevz hfirst hitema hheads (hpre2 z hzmem).2.2
    have hprev := rlistCutBefore_prev hnexta hprevz hfirst hitema
    have hitem1 : item ≠ head1 := (hpost1 item hitemmem).1
    refine ⟨IsRing.of_ends ?_ ha hz ⟨?_, ?_⟩ ⟨?_, ?_⟩ ?_, ⟨?_, ?_⟩, ?_⟩
    · exact List.nodup_cons.2 ⟨fun hmem => (hpre2 head1 hmem).2.2 rfl, hndpre⟩
    · rw [hnext, if_neg hheads, if_pos rfl]
    · rw [hprev, if_neg hitema.symm, if_neg (hpre2 a hamem).2.2, if_pos rfl]
    · rw [hnext, if_neg (hpre2 z hzmem).1, if_neg (hpre2 z hzmem).2.2, if_pos rfl]
    · rw [hprev, if_neg hitem1.symm, if_pos rfl]
    · refine Links.keep_between hcpre hndpre ha hz (fun y hy hyz => ?_) (fun y hy hya => ?_)
      · rw [hnext, if_neg (hpre2 y hy).1, if_neg (hpre2 y hy).2.2, if_neg hyz]
      · rw [hprev, if_neg (hpre2 y hy).2.1, if_neg (hpre2 y hy).2.2, if_neg hya]
    · have hnd2 := hr2.nodup
      refine hnd2.sublist (List.Sublist.cons_cons head2 (List.sublist_append_right pre post))
    · -- the head and what is left behind it
      have hjoined : (rlistCutBefore l head1 head2 item).Joined head2 item := by
        refine ⟨?_, ?_⟩
        · rw [hnext, if_pos rfl]
        · rw [hprev, if_pos rfl]
      have hkeep : List.IsChain (rlistCutBefore l head1 head2 item).Joined (post ++ [head2]) := by
        refine Links.keep_between hcpost hndpost hitem List.getLast?_concat (fun y hy hyh => ?_)
          (fun y hy hyi => ?_)
        · rw [hnext, if_neg hyh, if_neg (hpost1 y hy).1, if_neg (hpost1 y hy).2.2]
        · rw [hprev, if_neg hyi, if_neg (hpost1 y hy).1, if_neg (hpost1 y hy).2.1]
      have hall := IsRing.chain_glue (.singleton head2) hkeep rfl hitem hjoined
      exact hall
    · intro y hy1 hy2
      have hyh1 : y ≠ head1 := fun he => hy1 (he ▸ List.mem_cons_self)
      have hyx : ∀ w ∈ pre ++ (post ++ [head2]), y ≠ w := by
        rintro w hw rfl
        apply hy2
        simp only [List.mem_append, List.mem_cons, List.not_mem_nil, or_false] at hw ⊢
        tauto
      have hyitem : y ≠ item := hyx item (List.mem_append_right pre hitemmem)
      refine ⟨?_, ?_⟩
      · rw [hnext, if_neg (hyx head2 (by simp)), if_neg hyh1,
          if_neg (hyx z (List.mem_append_left _ hzmem))]
      · rw [hprev, if_neg hyitem, if_neg hyh1, if_neg (hyx a (List.mem_append_left _ hamem))]

/-! ### `rlist_swap` -/

section Swap

variable {rhs lhs head other : ν} {xs : List ν} {l' : Links ν}

/-- The head has the fields of another one, which holds the list. -/
structure TakenOver {ν : Type} (l : Links ν) (head other : ν) (xs : List ν) : Prop where
  nodup : (head :: xs).Nodup
  chain : List.IsChain l.Joined xs
  empty : xs = [] → l.next head = other
  ends : ∀ a z, xs.head? = some a → xs.getLast? = some z → l.next head = a ∧ l.prev head = z
  other : other ∉ xs

omit [DecidableEq ν] in
theorem IsRing.takenOver (hr : IsRing l other xs) (hhead : head ∉ xs)
    (hnext : l'.next head = l.next other) (hprev : l'.prev head = l.prev other)
    (hsame : ∀ y ∈ xs, l.SameAt l' y) : TakenOver l' head other xs where
  nodup := List.nodup_cons.2 ⟨hhead, hr.nodup_tail⟩
  chain := by
    refine Links.keep_chain
      (List.IsChain.left_of_append (List.isChain_of_isChain_cons (List.cons_append ▸ hr.path)))
      (fun y hy => (hsame y (List.dropLast_subset _ hy)).1)
      (fun y hy => (hsame y (List.mem_of_mem_tail hy)).2)
  empty := by
    rintro rfl
    rw [hnext, hr.next_head]
    rfl
  ends := by
    intro a z ha hz
    obtain ⟨⟨hna, -⟩, ⟨-, hpz⟩, -⟩ := hr.ends ha hz
    exact ⟨hnext.trans hna, hprev.trans hpz⟩
  other := hr.head_not_mem

omit [DecidableEq ν] in
theorem TakenOver.congr (h : TakenOver l head other xs) (hsame : ∀ y ∈ head :: xs, l.SameAt l' y) :
    TakenOver l' head other xs where
  nodup := h.nodup
  chain := Links.keep_chain h.chain
    (fun y hy => (hsame y (List.mem_cons_of_mem head (List.dropLast_subset _ hy))).1)
    (fun y hy => (hsame y (List.mem_cons_of_mem head (List.mem_of_mem_tail hy))).2)
  empty hxs := (hsame head List.mem_cons_self).1.trans (h.empty hxs)
  ends a z ha hz := by
    obtain ⟨hna, hpz⟩ := h.ends a z ha hz
    obtain ⟨hn, hp⟩ := hsame head List.mem_cons_self
    exact ⟨hn.trans hna, hp.trans hpz⟩
  other := h.other

/-- Relinking makes the head the head of the list. -/
theorem rlistRelink_spec (h : TakenOver l head other xs) :
    IsRing (rlistRelink l head other) head xs ∧ ∀ y, y ∉ head :: xs →
      l.SameAt (rlistRelink l head other) y := by
  by_cases hxs : xs = []
  · have hempty := h.empty hxs
    subst hxs
    refine ⟨IsRing.nil_iff.2 ?_, fun y hy => ?_⟩
    · simp [Links.SelfLinked, rlistRelink, hempty]
    · have hyh : y ≠ head := fun he => hy (he ▸ List.mem_cons_self)
      simp [Links.SameAt, rlistRelink, hempty, hyh]
  · obtain ⟨a, z, ha, hz, hamem, hzmem⟩ := IsRing.exists_ends hxs
    obtain ⟨hna, hpz⟩ := h.ends a z ha hz
    obtain ⟨hhead, hnd⟩ := List.nodup_cons.1 h.nodup
    have haother : a ≠ other := fun he => h.other (he ▸ hamem)
    have hx : ∀ y ∈ xs, y ≠ head := fun y hy he => hhead (he ▸ hy)
    have hah : head ≠ a := (hx a hamem).symm
    have hnext : ∀ y, (rlistRelink l head other).next y = if y = z then head else l.next y := by
      intro y
      simp [rlistRelink, hna, haother, hah, hpz]
    have hprev : ∀ y, (rlistRelink l head other).prev y = if y = a then head else l.prev y := by
      intro y
      simp [rlistRelink, hna, haother]
    refine ⟨IsRing.of_ends h.nodup ha hz ⟨?_, ?_⟩ ⟨?_, ?_⟩ ?_, fun y hy => ⟨?_, ?_⟩⟩
    · rw [hnext, if_neg (hx z hzmem).symm, hna]
    · rw [hprev, if_pos rfl]
    · rw [hnext, if_pos rfl]
    · rw [hprev, if_neg hah, hpz]
    · refine Links.keep_between h.chain hnd ha hz (fun y _ hyz => ?_) (fun y _ hya => ?_)
      · rw [hnext, if_neg hyz]
      · rw [hprev, if_neg hya]
    · rw [hnext, if_neg fun he : y = z => hy (List.mem_cons_of_mem head (he ▸ hzmem))]
    · rw [hprev, if_neg fun he : y = a => hy (List.mem_cons_of_mem head (he ▸ hamem))]

/-- `rlist_swap` exchanges the two lists. -/
theorem rlistSwap_spec (hr1 : IsRing l rhs xs1) (hr2 : IsRing l lhs xs2)
    (hd : Apart rhs xs1 lhs xs2) :
    IsRing (rlistSwap l rhs lhs) lhs xs1 ∧ IsRing (rlistSwap l rhs lhs) rhs xs2 ∧
      ∀ y, y ∉ rhs :: xs1 → y ∉ lhs :: xs2 → l.SameAt (rlistSwap l rhs lhs) y := by
  have hheads : rhs ≠ lhs := fun he => hd rhs List.mem_cons_self (he ▸ List.mem_cons_self)
  have hx1 : ∀ y ∈ xs1, y ∉ lhs :: xs2 := fun y hy => hd y (List.mem_cons_of_mem rhs hy)
  have hx2 : ∀ y ∈ xs2, y ∉ rhs :: xs1 := fun y hy => hd.symm y (List.mem_cons_of_mem lhs hy)
  have hlhs : lhs ∉ rhs :: xs1 := hd.symm lhs List.mem_cons_self
  have hrhs : rhs ∉ lhs :: xs2 := hd rhs List.mem_cons_self
  -- the heap after the fields of the heads are exchanged
  obtain ⟨l1, hl1⟩ : ∃ l1, l1 =
      (((l.setNext rhs (l.next lhs)).setPrev rhs (l.prev lhs)).setNext lhs (l.next rhs)).setPrev
      lhs (l.prev rhs) := ⟨_, rfl⟩
  have hsame1 : ∀ y, y ≠ rhs → y ≠ lhs → l.SameAt l1 y := by
    intro y hyr hyl
    simp [hl1, Links.SameAt, hyr, hyl]
  have htaken1 : TakenOver l1 lhs rhs xs1 := by
    refine hr1.takenOver (fun hmem => hlhs (List.mem_cons_of_mem rhs hmem)) ?_ ?_ fun y hy =>
      hsame1 y ?_ ?_
    · simp [hl1]
    · simp [hl1]
    · exact fun he => hr1.head_not_mem (he ▸ hy)
    · exact fun he => hx1 y hy (he ▸ List.mem_cons_self)
  have htaken2 : TakenOver l1 rhs lhs xs2 := by
    refine hr2.takenOver (fun hmem => hrhs (List.mem_cons_of_mem lhs hmem)) ?_ ?_ fun y hy =>
      hsame1 y ?_ ?_
    · simp [hl1, hheads]
    · simp [hl1, hheads]
    · exact fun he => hx2 y hy (he ▸ List.mem_cons_self)
    · exact fun he => hr2.head_not_mem (he ▸ hy)
  obtain ⟨hring1, hsame2⟩ := rlistRelink_spec htaken1
  have hout2 : ∀ y ∈ rhs :: xs2, y ∉ lhs :: xs1 := by
    intro y hy hmem
    rcases List.mem_cons.1 hy with rfl | hy
    · rcases List.mem_cons.1 hmem with he | hmem
      · exact hheads he
      · exact hr1.head_not_mem hmem
    · rcases List.mem_cons.1 hmem with he | hmem
      · exact hr2.head_not_mem (he ▸ hy)
      · exact hx2 y hy (List.mem_cons_of_mem rhs hmem)
  obtain ⟨hring2, hsame3⟩ := rlistRelink_spec (htaken2.congr fun y hy => hsame2 y (hout2 y hy))
  have hswap : rlistSwap l rhs lhs = rlistRelink (rlistRelink l1 lhs rhs) rhs lhs := by
    rw [rlistSwap, hl1]
  rw [hswap]
  refine ⟨hring1.congr fun y hy => hsame3 y fun hmem => hout2 y hmem hy,
    hring2, fun y hy1 hy2 => ?_⟩
  have hyr : y ≠ rhs := fun he => hy1 (he ▸ List.mem_cons_self)
  have hyl : y ≠ lhs := fun he => hy2 (he ▸ List.mem_cons_self)
  have h1 := hsame1 y hyr hyl
  have h2 := hsame2 y (by simp only [List.mem_cons, not_or] at hy1 ⊢; exact ⟨hyl, hy1.2⟩)
  have h3 := hsame3 y (by simp only [List.mem_cons, not_or] at hy2 ⊢; exact ⟨hyr, hy2.2⟩)
  exact ⟨h3.1.trans (h2.1.trans h1.1), h3.2.trans (h2.2.trans h1.2)⟩

/-! A head is exchanged with itself. -/

theorem Links.setNext_same (h : l.next y = z) : l.setNext y z = l := by
  obtain ⟨next, prev⟩ := l
  simp only [Links.setNext, Links.mk.injEq, and_true]
  funext x
  split
  · next hx => rw [hx]; exact h.symm
  · rfl

theorem Links.setPrev_same (h : l.prev y = z) : l.setPrev y z = l := by
  obtain ⟨next, prev⟩ := l
  simp only [Links.setPrev, Links.mk.injEq, true_and]
  funext x
  split
  · next hx => rw [hx]; exact h.symm
  · rfl

omit [DecidableEq ν] in
theorem IsRing.prev_next_head (hr : IsRing l head xs) : l.prev (l.next head) = head := by
  cases xs with
  | nil =>
      obtain ⟨hn, hp⟩ := (List.isChain_cons_cons.1 hr.path).1
      rw [hn, hp]
  | cons x xs =>
      obtain ⟨hn, hp⟩ := (List.isChain_cons_cons.1 hr.path).1
      rw [hn, hp]

theorem rlistSwap_self (hr : IsRing l head xs) : rlistSwap l head head = l := by
  have hn : l.prev (l.next head) = head := hr.prev_next_head
  have hp : l.next (l.prev head) = head := hr.flip.prev_next_head
  have hrelink : rlistRelink l head head = l := by
    have hif : (if l.next head = head then l.setNext head head else l) = l := by
      split
      · next hself => exact Links.setNext_same hself
      · rfl
    rw [rlistRelink, hif, Links.setPrev_same hn, Links.setNext_same hp]
  rw [rlistSwap, Links.setNext_same rfl, Links.setPrev_same rfl, Links.setNext_same rfl,
    Links.setPrev_same rfl, hrelink, hrelink]

end Swap

end Two

end SmallAllocators
