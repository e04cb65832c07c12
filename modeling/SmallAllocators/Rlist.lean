/-
SmallAllocators.Rlist — the intrusive circular doubly linked list of
`include/small/rlist.h`, over an arbitrary type of nodes.

A `struct rlist` is a pair of pointers embedded in some object. Here a node
is a value of an arbitrary type `ν` (the address of the embedded struct),
and `Links ν` is the heap of all such pairs: `next n` and `prev n` are the
two fields of node `n`. Every function of the header is the same sequence
of field writes as in the source, so an operation on a node that is on no
list, or on a list whose links were overwritten, does here what it does
there.

`IsRing l h xs` says that the list with head `h` holds exactly the nodes
`xs`, in this order: the path `h, xs, h` is linked in both directions and
visits no node twice. The theorems give, for each operation, the sequence
that the head holds afterwards, and a frame rule: a list is untouched as
long as the fields of its own nodes are (`IsRing.congr`).
-/
import Mathlib.Data.List.Chain
import Mathlib.Data.List.Nodup
import Mathlib.Tactic.Common

namespace SmallAllocators

/-- The `struct rlist` pairs of a heap, one for each node. -/
structure Links (ν : Type) where
  next : ν → ν
  prev : ν → ν

namespace Links

variable {ν : Type} [DecidableEq ν]

/-- The assignment `n->next = v`. -/
def setNext (l : Links ν) (n v : ν) : Links ν :=
  { l with next := fun x => if x = n then v else l.next x }

/-- The assignment `n->prev = v`. -/
def setPrev (l : Links ν) (n v : ν) : Links ν :=
  { l with prev := fun x => if x = n then v else l.prev x }

@[simp] theorem next_setNext (l : Links ν) (n v x : ν) :
    (l.setNext n v).next x = if x = n then v else l.next x := rfl
@[simp] theorem prev_setNext (l : Links ν) (n v x : ν) :
    (l.setNext n v).prev x = l.prev x := rfl
@[simp] theorem next_setPrev (l : Links ν) (n v x : ν) :
    (l.setPrev n v).next x = l.next x := rfl
@[simp] theorem prev_setPrev (l : Links ν) (n v x : ν) :
    (l.setPrev n v).prev x = if x = n then v else l.prev x := rfl

end Links

variable {ν : Type} [DecidableEq ν]

/-! ## The functions of the header -/

def rlistCreate (l : Links ν) (list : ν) : Links ν :=
  (l.setNext list list).setPrev list list

def rlistAdd (l : Links ν) (head item : ν) : Links ν :=
  let l := l.setPrev item head
  let l := l.setNext item (l.next head)
  let l := l.setNext (l.prev item) item
  l.setPrev (l.next item) item

def rlistAddTail (l : Links ν) (head item : ν) : Links ν :=
  let l := l.setNext item head
  let l := l.setPrev item (l.prev head)
  let l := l.setNext (l.prev item) item
  l.setPrev (l.next item) item

def rlistDel (l : Links ν) (item : ν) : Links ν :=
  let l := l.setNext (l.prev item) (l.next item)
  let l := l.setPrev (l.next item) (l.prev item)
  rlistCreate l item

def rlistShift (l : Links ν) (head : ν) : ν × Links ν :=
  let shift := l.next head
  let l := l.setNext head (l.next shift)
  let l := l.setPrev (l.next shift) head
  let l := l.setPrev shift shift
  let l := l.setNext shift shift
  (shift, l)

def rlistEmpty (l : Links ν) (item : ν) : Bool :=
  l.next item = l.prev item && l.next item = item

/-- The nodes that `rlist_foreach` visits from `item` on, in at most `fuel` steps. -/
def rlistForeach (l : Links ν) (head : ν) : Nat → ν → Option (List ν)
  | 0, _ => none
  | fuel + 1, item =>
    if item = head then some []
    else (item :: ·) <$> rlistForeach l head fuel (l.next item)

/-! ## Rings -/

section Rings

variable {ν : Type}

/-- `a` and `b` are neighbours: each one's field names the other. -/
def Links.Joined (l : Links ν) (a b : ν) : Prop := l.next a = b ∧ l.prev b = a

/-- The list with head `h` holds exactly the nodes `xs`, in this order. -/
structure IsRing (l : Links ν) (h : ν) (xs : List ν) : Prop where
  nodup : (h :: xs).Nodup
  path : List.IsChain l.Joined (h :: xs ++ [h])

/-- The node is linked to itself, as `rlist_create` leaves it. -/
def Links.SelfLinked (l : Links ν) (n : ν) : Prop := l.next n = n ∧ l.prev n = n

/-- The two heaps hold the same pair of pointers in node `n`. -/
def Links.SameAt (l l' : Links ν) (n : ν) : Prop := l'.next n = l.next n ∧ l'.prev n = l.prev n

namespace IsRing

variable {l l' : Links ν} {h x : ν} {xs ys : List ν}

/-- A list depends only on the fields of its own nodes. -/
theorem congr (hr : IsRing l h xs) (hag : ∀ y ∈ h :: xs, l.SameAt l' y) : IsRing l' h xs := by
  refine ⟨hr.nodup, hr.path.imp_of_mem_imp ?_⟩
  have hmem : ∀ y ∈ h :: xs ++ [h], y ∈ h :: xs := by
    intro y hy
    simp only [List.cons_append, List.mem_cons, List.mem_append, List.not_mem_nil,
      or_false] at hy ⊢
    tauto
  rintro a b ha hb ⟨h1, h2⟩
  exact ⟨(hag a (hmem a ha)).1.trans h1, (hag b (hmem b hb)).2.trans h2⟩

theorem head_not_mem (hr : IsRing l h xs) : h ∉ xs := (List.nodup_cons.mp hr.nodup).1

theorem nodup_tail (hr : IsRing l h xs) : xs.Nodup := (List.nodup_cons.mp hr.nodup).2

theorem nil_iff : IsRing l h [] ↔ l.SelfLinked h := by
  constructor
  · rintro ⟨-, hp⟩
    exact (List.isChain_cons_cons.mp hp).1
  · intro hs
    exact ⟨by simp, List.isChain_cons_cons.mpr ⟨hs, .singleton _⟩⟩

theorem next_head (hr : IsRing l h xs) : l.next h = xs.headD h := by
  cases xs with
  | nil => exact (List.isChain_cons_cons.mp hr.path).1.1
  | cons y ys => exact (List.isChain_cons_cons.mp hr.path).1.1

/-- The two neighbours of a node inside the list. -/
theorem joined_of_split (hr : IsRing l h (xs ++ x :: ys)) :
    ∃ p ∈ h :: xs, ∃ n ∈ ys ++ [h], l.Joined p x ∧ l.Joined x n ∧
      (h :: xs).getLast? = some p ∧ (ys ++ [h]).head? = some n := by
  have hp := hr.path
  have hleft : ∃ p ∈ h :: xs, l.Joined p x ∧ (h :: xs).getLast? = some p := by
    rcases List.eq_nil_or_concat' xs with rfl | ⟨zs, z, rfl⟩
    · exact ⟨h, by simp, (List.isChain_cons_cons.mp hp).1, rfl⟩
    · rw [show h :: (zs ++ [z] ++ x :: ys) ++ [h] = (h :: zs) ++ z :: x :: (ys ++ [h]) by simp]
        at hp
      refine ⟨z, by simp, (List.isChain_append_cons_cons.mp hp).2.1, ?_⟩
      rw [← List.cons_append, List.getLast?_concat]
  have hright : ∃ n ∈ ys ++ [h], l.Joined x n ∧ (ys ++ [h]).head? = some n := by
    cases ys with
    | nil =>
        rw [show h :: (xs ++ [x]) ++ [h] = (h :: xs) ++ x :: h :: [] by simp] at hp
        exact ⟨h, by simp, (List.isChain_append_cons_cons.mp hp).2.1, rfl⟩
    | cons y ys =>
        rw [show h :: (xs ++ x :: y :: ys) ++ [h] = (h :: xs) ++ x :: y :: (ys ++ [h]) by simp]
          at hp
        exact ⟨y, by simp, (List.isChain_append_cons_cons.mp hp).2.1, rfl⟩
  obtain ⟨p, hpm, hpx, hpl⟩ := hleft
  obtain ⟨n, hnm, hxn, hnl⟩ := hright
  exact ⟨p, hpm, n, hnm, hpx, hxn, hpl, hnl⟩

/-- Gluing two linked paths at a new pair of neighbours. -/
theorem chain_glue {p n : ν} (h1 : List.IsChain l.Joined xs) (h2 : List.IsChain l.Joined ys)
    (hl : xs.getLast? = some p) (hf : ys.head? = some n) (hj : l.Joined p n) :
    List.IsChain l.Joined (xs ++ ys) := by
  rw [List.isChain_append]
  refine ⟨h1, h2, ?_⟩
  intro a ha b hb
  rw [hl, Option.mem_some_iff] at ha
  rw [hf, Option.mem_some_iff] at hb
  exact ha ▸ hb ▸ hj

end IsRing

end Rings

/-! ## What the operations do to a ring -/

section Operations

variable {l : Links ν} {h x : ν} {xs ys : List ν}

theorem rlistCreate_ring (l : Links ν) (h : ν) : IsRing (rlistCreate l h) h [] := by
  rw [IsRing.nil_iff]
  simp [rlistCreate, Links.SelfLinked]

theorem rlistCreate_same {y : ν} (hy : y ≠ h) : l.SameAt (rlistCreate l h) y := by
  simp [rlistCreate, Links.SameAt, hy]

/-- `rlist_empty` decides whether the head holds the empty sequence. -/
theorem rlistEmpty_iff (hr : IsRing l h xs) : rlistEmpty l h = true ↔ xs = [] := by
  have hn := hr.next_head
  cases xs with
  | nil =>
      have hs := IsRing.nil_iff.mp hr
      simp [rlistEmpty, hs.1, hs.2]
  | cons y ys =>
      have hne : y ≠ h := fun he => hr.head_not_mem (by simp [he])
      simp only [List.headD_cons] at hn
      simp [rlistEmpty, hn, hne]

/-! ### `rlist_add` and `rlist_add_tail` -/

theorem rlistAdd_next (l : Links ν) (h x y : ν) :
    (rlistAdd l h x).next y = if y = h then x else if y = x then l.next h else l.next y := by
  simp [rlistAdd]

theorem rlistAdd_prev (hx : x ≠ h) (y : ν) :
    (rlistAdd l h x).prev y = if y = l.next h then x else if y = x then h else l.prev y := by
  simp [rlistAdd, hx]

/-- `rlist_add` of a node that is not on the list puts it in front. -/
theorem rlistAdd_ring (hr : IsRing l h xs) (hx : x ∉ h :: xs) :
    IsRing (rlistAdd l h x) h (x :: xs) := by
  have hxh : x ≠ h := fun he => hx (by simp [he])
  refine ⟨?_, ?_⟩
  · have hnd := hr.nodup
    simp only [List.nodup_cons, List.mem_cons, not_or] at hnd hx ⊢
    exact ⟨⟨Ne.symm hx.1, hnd.1⟩, hx.2, hnd.2⟩
  · -- the old path from the first node on is untouched; two new pairs precede it
    have hp := hr.path
    have hrest : List.IsChain (rlistAdd l h x).Joined (xs ++ [h]) := by
      have hc : List.IsChain l.Joined (xs ++ [h]) := List.isChain_of_isChain_cons hp
      have hmem : ∀ y ∈ xs ++ [h], y ≠ x := by
        rintro y hy rfl
        apply hx
        simpa [or_comm] using hy
      cases xs with
      | nil => exact .singleton _
      | cons z zs =>
          have hnh : l.next h = z := hr.next_head
          have hnd := hr.nodup
          refine hc.imp_of_mem_tail_imp ?_
          rintro a b ha hb ⟨h1, h2⟩
          have hane : a ≠ h := by
            rintro rfl
            -- `h` is last, so nothing in the tail follows it but `z`, which is first
            rw [hnh] at h1
            subst h1
            simp only [List.cons_append, List.tail_cons, List.mem_append, List.mem_singleton] at hb
            simp only [List.nodup_cons, List.mem_cons, not_or] at hnd
            rcases hb with hb | hb
            · exact hnd.2.1 hb
            · exact hnd.1.1 hb.symm
          have hbne : b ≠ z := by
            rintro rfl
            simp only [List.cons_append, List.tail_cons, List.mem_append, List.mem_singleton] at hb
            simp only [List.nodup_cons, List.mem_cons, not_or] at hnd
            rcases hb with hb | hb
            · exact hnd.2.1 hb
            · exact hnd.1.1 hb.symm
          refine ⟨?_, ?_⟩
          · rw [rlistAdd_next, if_neg hane, if_neg (hmem a ha), h1]
          · rw [rlistAdd_prev hxh, hnh, if_neg hbne, if_neg (hmem b (List.mem_of_mem_tail hb)), h2]
    have hfirst : (xs ++ [h]).head? = some (l.next h) := by
      rw [hr.next_head]; cases xs <;> simp
    have hhx : (rlistAdd l h x).Joined h x := by
      refine ⟨by rw [rlistAdd_next, if_pos rfl], ?_⟩
      have hne : x ≠ l.next h := by
        rw [hr.next_head]
        cases xs with
        | nil => exact hxh
        | cons z zs => intro he; exact hx (by simp at he; simp [he])
      rw [rlistAdd_prev hxh, if_neg hne, if_pos rfl]
    have hxn : (rlistAdd l h x).Joined x (l.next h) := by
      refine ⟨by rw [rlistAdd_next, if_neg hxh, if_pos rfl], ?_⟩
      rw [rlistAdd_prev hxh, if_pos rfl]
    have hpair : List.IsChain (rlistAdd l h x).Joined [h, x] := List.isChain_pair.mpr hhx
    simpa using IsRing.chain_glue hpair hrest rfl hfirst hxn

theorem rlistAdd_same (hr : IsRing l h xs) {y : ν} (hy : y ∉ h :: xs) (hyx : y ≠ x) (hx : x ≠ h) :
    l.SameAt (rlistAdd l h x) y := by
  have hyh : y ≠ h := fun he => hy (by simp [he])
  have hyn : y ≠ l.next h := by
    rw [hr.next_head]
    cases xs with
    | nil => exact hyh
    | cons z zs => intro he; exact hy (by simp at he; simp [he])
  exact ⟨by rw [rlistAdd_next, if_neg hyh, if_neg hyx],
    by rw [rlistAdd_prev hx, if_neg hyn, if_neg hyx]⟩

/-! ### `rlist_del` and `rlist_shift` -/

theorem rlistDel_next {p n : ν} (hp : l.Joined p x) (hn : l.Joined x n) (y : ν) :
    (rlistDel l x).next y = if y = x then x else if y = p then n else l.next y := by
  simp [rlistDel, rlistCreate, hp.2, hn.1]

theorem rlistDel_prev {p n : ν} (hp : l.Joined p x) (hpx : p ≠ x) (hn : l.Joined x n) (y : ν) :
    (rlistDel l x).prev y = if y = x then x else if y = n then p else l.prev y := by
  simp [rlistDel, rlistCreate, hp.2, hn.1, Ne.symm hpx]

/-- `rlist_del` takes its node out of the list it is on. -/
theorem rlistDel_ring (hr : IsRing l h (xs ++ x :: ys)) : IsRing (rlistDel l x) h (xs ++ ys) := by
  obtain ⟨p, hpm, n, hnm, hpx, hxn, hpl, hnl⟩ := hr.joined_of_split
  have hnd := hr.nodup
  have hxl : ∀ y ∈ h :: xs, y ≠ x := by
    rintro y hy rfl
    rw [← List.cons_append, List.nodup_append] at hnd
    exact hnd.2.2 y hy y (by simp) rfl
  have hxr : ∀ y ∈ ys ++ [h], y ≠ x := by
    rintro y hy rfl
    rw [← List.cons_append, List.nodup_append] at hnd
    rw [List.mem_append, List.mem_singleton] at hy
    rcases hy with hy | rfl
    · exact (List.nodup_cons.mp hnd.2.1).1 hy
    · exact hxl y (by simp) rfl
  have hpne : p ≠ x := hxl p hpm
  -- away from the node itself, only the pair of its neighbours changes
  have hkeep : ∀ zs : List ν, (∀ y ∈ zs, y ≠ x) → List.IsChain l.Joined zs →
      List.IsChain (rlistDel l x).Joined zs := by
    intro zs hzs hc
    refine hc.imp_of_mem_imp ?_
    rintro a b ha hb ⟨h1, h2⟩
    have hap : a ≠ p := by rintro rfl; exact hzs b hb (h1.symm.trans hpx.1)
    have hbn : b ≠ n := by rintro rfl; exact hzs a ha (h2.symm.trans hxn.2)
    exact ⟨by rw [rlistDel_next hpx hxn, if_neg (hzs a ha), if_neg hap, h1],
      by rw [rlistDel_prev hpx hpne hxn, if_neg (hzs b hb), if_neg hbn, h2]⟩
  have hpath := hr.path
  rw [show h :: (xs ++ x :: ys) ++ [h] = (h :: xs) ++ x :: (ys ++ [h]) by simp,
    List.isChain_append] at hpath
  refine ⟨?_, ?_⟩
  · refine List.Nodup.sublist ?_ hnd
    exact List.Sublist.cons_cons h ((List.Sublist.refl xs).append (List.sublist_cons_self x ys))
  · rw [show h :: (xs ++ ys) ++ [h] = (h :: xs) ++ (ys ++ [h]) by simp]
    refine IsRing.chain_glue (hkeep _ hxl hpath.1)
      (hkeep _ hxr (List.isChain_of_isChain_cons hpath.2.1)) hpl hnl ⟨?_, ?_⟩
    · rw [rlistDel_next hpx hxn, if_neg hpne, if_pos rfl]
    · rw [rlistDel_prev hpx hpne hxn, if_neg (hxr n hnm), if_pos rfl]

theorem rlistDel_erase (hr : IsRing l h xs) (hx : x ∈ xs) :
    IsRing (rlistDel l x) h (xs.erase x) := by
  obtain ⟨as, bs, rfl⟩ := List.append_of_mem hx
  have hxs : x ∉ as := fun hax => (List.nodup_append.mp hr.nodup_tail).2.2 x hax x (by simp) rfl
  rw [List.erase_append_right _ hxs, List.erase_cons_head]
  exact rlistDel_ring hr

theorem rlistDel_selfLinked (l : Links ν) (x : ν) : (rlistDel l x).SelfLinked x := by
  simp [rlistDel, rlistCreate, Links.SelfLinked]

theorem rlistDel_same (hr : IsRing l h xs) (hx : x ∈ xs) {y : ν} (hy : y ∉ h :: xs) :
    l.SameAt (rlistDel l x) y := by
  obtain ⟨as, bs, rfl⟩ := List.append_of_mem hx
  obtain ⟨p, hpm, n, hnm, hpx, hxn, -, -⟩ := hr.joined_of_split
  have hyx : y ≠ x := by rintro rfl; exact hy (by simp)
  have hyp : y ≠ p := by
    rintro rfl
    apply hy
    rw [List.mem_cons] at hpm ⊢
    exact hpm.imp_right (List.mem_append_left _)
  have hyn : y ≠ n := by
    rintro rfl
    apply hy
    rw [List.mem_append, List.mem_singleton] at hnm
    rcases hnm with hnm | hnm <;> simp [hnm]
  have hpne : p ≠ x := by
    rintro rfl
    have hnd := hr.nodup
    rw [← List.cons_append, List.nodup_append] at hnd
    exact hnd.2.2 p hpm p (by simp) rfl
  exact ⟨by rw [rlistDel_next hpx hxn, if_neg hyx, if_neg hyp],
    by rw [rlistDel_prev hpx hpne hxn, if_neg hyx, if_neg hyn]⟩

/-- Deleting a node that is linked to itself changes nothing. -/
theorem rlistDel_of_selfLinked (hs : l.SelfLinked x) : rlistDel l x = l := by
  obtain ⟨next, prev⟩ := l
  simp only [Links.SelfLinked] at hs
  simp only [rlistDel, rlistCreate, Links.setNext, Links.setPrev, hs.1, hs.2, if_true,
    Links.mk.injEq]
  constructor <;> funext y <;> split <;> simp_all

/-- `rlist_shift` of a non-empty list deletes its first node. -/
theorem rlistShift_eq (hr : IsRing l h (x :: xs)) : rlistShift l h = (x, rlistDel l x) := by
  have hnx : l.next h = x := hr.next_head
  have hpx : l.prev x = h := (List.isChain_cons_cons.mp hr.path).1.2
  have hne : x ≠ h := fun he => hr.head_not_mem (by simp [he])
  simp [rlistShift, rlistDel, rlistCreate, hnx, hpx, hne, Links.setNext, Links.setPrev]

theorem rlistForeach_of_chain (fuel : Nat) (hc : List.IsChain l.Joined (xs ++ [h])) (hh : h ∉ xs)
    (hf : xs.length < fuel) : rlistForeach l h fuel (xs.headD h) = some xs := by
  induction xs generalizing fuel with
  | nil =>
      obtain ⟨fuel, rfl⟩ := Nat.exists_eq_add_one_of_ne_zero (show fuel ≠ 0 by simp at hf; omega)
      simp [rlistForeach]
  | cons y ys ih =>
      obtain ⟨fuel, rfl⟩ := Nat.exists_eq_add_one_of_ne_zero (show fuel ≠ 0 by omega)
      have hyh : y ≠ h := fun he => hh (by simp [he])
      have hnext : l.next y = ys.headD h := by
        cases ys with
        | nil => exact (List.isChain_cons_cons.mp hc).1.1
        | cons z zs => exact (List.isChain_cons_cons.mp hc).1.1
      have hrec := ih fuel (List.IsChain.tail hc) (fun hm => hh (by simp [hm]))
        (by simpa using hf)
      rw [List.headD_cons, rlistForeach, if_neg hyh, hnext, hrec]
      rfl

/-- A walk that ends does not need all of its fuel. -/
theorem rlistForeach_mono {fuel fuel' : Nat} {item : ν} (hle : fuel ≤ fuel')
    (hw : rlistForeach l h fuel item = some xs) :
    rlistForeach l h fuel' item = some xs := by
  induction fuel generalizing fuel' item xs with
  | zero => cases hw
  | succ fuel ih =>
      obtain ⟨fuel', rfl⟩ := Nat.exists_eq_add_one_of_ne_zero (show fuel' ≠ 0 by omega)
      rw [rlistForeach] at hw ⊢
      split at hw
      · rw [if_pos (by assumption)]
        exact hw
      · rw [if_neg (by assumption)]
        obtain ⟨ys, hys, hcons⟩ := Option.map_eq_some_iff.1 hw
        exact Option.map_eq_some_iff.2 ⟨ys, ih (by omega) hys, hcons⟩

/-- `rlist_foreach` visits the nodes of the list in order, and ends. -/
theorem rlistForeach_eq (fuel : Nat) (hr : IsRing l h xs) (hf : xs.length < fuel) :
    rlistForeach l h fuel (l.next h) = some xs := by
  rw [hr.next_head]
  exact rlistForeach_of_chain fuel (List.IsChain.tail hr.path) hr.head_not_mem hf

/-- A walk that ends has visited the nodes of the list. -/
theorem rlistForeach_ring {fuel : Nat} {ys : List ν} (hr : IsRing l h xs)
    (hw : rlistForeach l h fuel (l.next h) = some ys) :
    ys = xs := by
  have h1 := rlistForeach_mono (Nat.le_max_left fuel (xs.length + 1)) hw
  have h2 := rlistForeach_eq (max fuel (xs.length + 1)) hr (by omega)
  exact Option.some.inj (h1.symm.trans h2)

end Operations

end SmallAllocators
