/-
SmallAllocators.Rlist.Heads — the lists of a heap as sequences, and the
operations of `include/small/rlist.h` as operations on sequences.

`HeadsOk l S` says that each head `h` of the map `S` holds the sequence
`S h` and that no two heads share a node. `rlist_refines` is the refinement:
an operation keeps `HeadsOk`, with the map that its effect on sequences
gives. What the operation does to the one or two lists that it is called for
is in `Rlist` and `Rlist.Between`; here it is carried to the other lists of
the heap (`HeadsOk.change`).
-/
import Mathlib.Logic.Function.Basic
import SmallAllocators.Rlist.Between

namespace SmallAllocators

variable {ν : Type} [DecidableEq ν]

/-! ## The heap as a whole -/

/-- The sequences that the heads of a heap hold. -/
abbrev Heads (ν : Type) := ν → Option (List ν)

/-- Each head holds its sequence, and no two heads share a node. -/
structure HeadsOk {ν : Type} (l : Links ν) (S : Heads ν) : Prop where
  ring : ∀ h xs, S h = some xs → IsRing l h xs
  apart : ∀ h xs h' xs', S h = some xs → S h' = some xs' → h ≠ h' → Apart h xs h' xs'

/-- The operations of the header on the lists of a heap. -/
inductive RlistOp (ν : Type) where
  | create (list : ν)
  | add (head item : ν)
  | addTail (head item : ν)
  | del (item : ν)
  | shift (head : ν)
  | shiftTail (head : ν)
  | move (to' item : ν)
  | moveTail (to' item : ν)
  | swap (rhs lhs : ν)
  | splice (head1 head2 : ν)
  | spliceTail (head1 head2 : ν)
  | cutBefore (head1 head2 item : ν)

namespace RlistOp

/-- The node that the operation returns, if it returns one, and the heap. -/
def exec (l : Links ν) : RlistOp ν → Option ν × Links ν
  | create list => (none, rlistCreate l list)
  | add head item => (none, rlistAdd l head item)
  | addTail head item => (none, rlistAddTail l head item)
  | del item => (none, rlistDel l item)
  | shift head => ((rlistShift l head).1, (rlistShift l head).2)
  | shiftTail head => ((rlistShiftTail l head).1, (rlistShiftTail l head).2)
  | move to' item => (none, rlistMove l to' item)
  | moveTail to' item => (none, rlistMoveTail l to' item)
  | swap rhs lhs => (none, rlistSwap l rhs lhs)
  | splice head1 head2 => (none, rlistSplice l head1 head2)
  | spliceTail head1 head2 => (none, rlistSpliceTail l head1 head2)
  | cutBefore head1 head2 item => (none, rlistCutBefore l head1 head2 item)

end RlistOp

namespace Heads

/-- No head holds the node, and it is no head. -/
def Unlinked {ν : Type} (S : Heads ν) (item : ν) : Prop := ∀ h xs, S h = some xs → item ∉ h :: xs

/-- The item is taken out of the list that it is on. -/
def erase (S : Heads ν) (item : ν) : Heads ν := fun h => (S h).map fun xs => xs.erase item

/-- A head gets another sequence. -/
def modify (S : Heads ν) (head : ν) (f : List ν → List ν) : Heads ν :=
  Function.update S head ((S head).map f)

/-- The sequence of a head. -/
def seq {ν : Type} (S : Heads ν) (head : ν) : List ν := (S head).getD []

end Heads

namespace RlistOp

/-- The effect on the sequences. -/
def effect (S : Heads ν) : RlistOp ν → Heads ν
  | create list => Function.update S list (some [])
  | add head item => S.modify head (item :: ·)
  | addTail head item => S.modify head (· ++ [item])
  | del item => S.erase item
  | shift head => S.modify head List.tail
  | shiftTail head => S.modify head List.dropLast
  | move to' item => (S.erase item).modify to' (item :: ·)
  | moveTail to' item => (S.erase item).modify to' (· ++ [item])
  | swap rhs lhs => Function.update (Function.update S rhs (S lhs)) lhs (S rhs)
  | splice head1 head2 => (S.modify head1 (S.seq head2 ++ ·)).modify head2 fun _ => []
  | spliceTail head1 head2 => (S.modify head1 (· ++ S.seq head2)).modify head2 fun _ => []
  | cutBefore head1 head2 item =>
    (S.modify head1 fun _ => (S.seq head2).takeWhile (· ≠ item)).modify head2 fun xs =>
      xs.dropWhile (· ≠ item)

/-- The node that is returned. -/
def answer (S : Heads ν) : RlistOp ν → Option ν
  | shift head => (S.seq head).head?
  | shiftTail head => (S.seq head).getLast?
  | _ => none

/-- An item to add is unlinked, one to delete or to move is on a list, and operations on two lists
get two. -/
def Allowed (S : Heads ν) : RlistOp ν → Prop
  | create list => S.Unlinked list
  | add head item => S head ≠ none ∧ S.Unlinked item
  | addTail head item => S head ≠ none ∧ S.Unlinked item
  | del item => ∃ h xs, S h = some xs ∧ item ∈ xs
  | shift head => ∃ xs, S head = some xs ∧ xs ≠ []
  | shiftTail head => ∃ xs, S head = some xs ∧ xs ≠ []
  | move to' item => S to' ≠ none ∧ ∃ h xs, S h = some xs ∧ item ∈ xs
  | moveTail to' item => S to' ≠ none ∧ ∃ h xs, S h = some xs ∧ item ∈ xs
  | swap rhs lhs => S rhs ≠ none ∧ S lhs ≠ none
  | splice head1 head2 => head1 ≠ head2 ∧ S head1 ≠ none ∧ S head2 ≠ none
  | spliceTail head1 head2 => head1 ≠ head2 ∧ S head1 ≠ none ∧ S head2 ≠ none
  | cutBefore head1 head2 item => head1 ≠ head2 ∧ S head1 ≠ none ∧ ∃ xs, S head2 = some xs ∧
      item ∈ head2 :: xs

end RlistOp

/-! ## Changes of one or two lists -/

section Changes

variable {l l' : Links ν} {S S' : Heads ν} {head head1 head2 item h y : ν}
    {xs ys xs1 xs2 ys1 ys2 : List ν}

omit [DecidableEq ν] in
/-- The lists of the touched heads are new, made of their nodes and of unlinked ones; the fields of
all other nodes stay. -/
theorem HeadsOk.change (hok : HeadsOk l S) (touched : List ν)
    (hothers : ∀ h, h ∉ touched → S' h = S h)
    (hring : ∀ h ∈ touched, ∀ xs, S' h = some xs → IsRing l' h xs)
    (hnodes : ∀ h ∈ touched, ∀ xs, S' h = some xs → ∀ y ∈ h :: xs, S.Unlinked y ∨
      ∃ h' ∈ touched, ∃ xs', S h' = some xs' ∧ y ∈ h' :: xs')
    (hapart : ∀ h ∈ touched, ∀ h' ∈ touched, ∀ xs xs', S' h = some xs → S' h' = some xs' →
      h ≠ h' → Apart h xs h' xs')
    (hsame : ∀ y, ¬ S.Unlinked y → (∀ h ∈ touched, ∀ xs, S h = some xs → y ∉ h :: xs) →
      l.SameAt l' y) :
    HeadsOk l' S' := by
  -- a touched head and one that is not
  have hmixed : ∀ h ∈ touched, ∀ h' ∉ touched, ∀ xs xs', S' h = some xs → S' h' = some xs' →
      Apart h xs h' xs' := by
    intro h hh h' hh' xs xs' hS hS' y hy hy'
    rw [hothers h' hh'] at hS'
    rcases hnodes h hh xs hS y hy with hfree | ⟨k, hk, zs, hSk, hyk⟩
    · exact hfree h' xs' hS' hy'
    · exact hok.apart k zs h' xs' hSk hS' (fun he => hh' (he ▸ hk)) y hyk hy'
  refine ⟨fun h xs hS => ?_, fun h xs h' xs' hS hS' hne => ?_⟩
  · by_cases hh : h ∈ touched
    · exact hring h hh xs hS
    · rw [hothers h hh] at hS
      refine (hok.ring h xs hS).congr fun y hy => hsame y (fun hfree => hfree h xs hS hy) ?_
      intro k hk zs hSk hyk
      exact hok.apart k zs h xs hSk hS (fun he => hh (he ▸ hk)) y hyk hy
  · by_cases hh : h ∈ touched
    · by_cases hh' : h' ∈ touched
      · exact hapart h hh h' hh' xs xs' hS hS' hne
      · exact hmixed h hh h' hh' xs xs' hS hS'
    · by_cases hh' : h' ∈ touched
      · exact (hmixed h' hh' h hh xs' xs hS' hS).symm
      · rw [hothers h hh] at hS
        rw [hothers h' hh'] at hS'
        exact hok.apart h xs h' xs' hS hS' hne

/-- One list changes. -/
theorem HeadsOk.one (hok : HeadsOk l S) (hS : S head = some xs) (hring : IsRing l' head ys)
    (hnodes : ∀ y ∈ ys, y ∈ xs ∨ S.Unlinked y)
    (hsame : ∀ y, y ∉ head :: xs → ¬ S.Unlinked y → l.SameAt l' y) :
    HeadsOk l' (Function.update S head (some ys)) := by
  refine hok.change [head]
    (fun h hh => Function.update_of_ne (fun he => hh (List.mem_singleton.2 he)) _ _) ?_ ?_ ?_ ?_
  · intro h hh zs hS'
    obtain rfl := List.mem_singleton.1 hh
    rw [Function.update_self, Option.some.injEq] at hS'
    exact hS' ▸ hring
  · intro h hh zs hS' y hy
    obtain rfl := List.mem_singleton.1 hh
    rw [Function.update_self, Option.some.injEq] at hS'
    subst hS'
    rcases List.mem_cons.1 hy with rfl | hy
    · exact .inr ⟨y, hh, xs, hS, List.mem_cons_self⟩
    · rcases hnodes y hy with hmem | hfree
      · exact .inr ⟨h, hh, xs, hS, List.mem_cons_of_mem h hmem⟩
      · exact .inl hfree
  · intro h hh h' hh' _ _ _ _ hne
    exact absurd ((List.mem_singleton.1 hh).trans (List.mem_singleton.1 hh').symm) hne
  · intro y hy hout
    exact hsame y (hout head (List.mem_singleton_self head) xs hS) hy

/-- Two lists change. -/
theorem HeadsOk.two (hok : HeadsOk l S) (hne : head1 ≠ head2) (hS1 : S head1 = some xs1)
    (hS2 : S head2 = some xs2) (hring1 : IsRing l' head1 ys1) (hring2 : IsRing l' head2 ys2)
    (hnodes1 : ∀ y ∈ ys1, y ∈ xs1 ∨ y ∈ xs2) (hnodes2 : ∀ y ∈ ys2, y ∈ xs1 ∨ y ∈ xs2)
    (hdisj : ∀ y ∈ ys1, y ∉ ys2)
    (hsame : ∀ y, y ∉ head1 :: xs1 → y ∉ head2 :: xs2 → l.SameAt l' y) :
    HeadsOk l' (Function.update (Function.update S head1 (some ys1)) head2 (some ys2)) := by
  have hd := hok.apart head1 xs1 head2 xs2 hS1 hS2 hne
  have hr1 := hok.ring head1 xs1 hS1
  have hr2 := hok.ring head2 xs2 hS2
  -- the heads are on neither list
  have hhead : ∀ y, y ∈ xs1 ∨ y ∈ xs2 → y ≠ head1 ∧ y ≠ head2 := by
    intro y hy
    rcases hy with hy | hy
    · exact ⟨fun he => hr1.head_not_mem (he ▸ hy), fun he =>
        hd y (List.mem_cons_of_mem _ hy) (he ▸ List.mem_cons_self)⟩
    · exact ⟨fun he => hd y (he ▸ List.mem_cons_self) (List.mem_cons_of_mem _ hy), fun he =>
        hr2.head_not_mem (he ▸ hy)⟩
  have hapart : Apart head1 ys1 head2 ys2 := by
    intro y hy1 hy2
    rcases List.mem_cons.1 hy1 with rfl | hy1
    · rcases List.mem_cons.1 hy2 with he | hy2
      · exact hne he
      · exact (hhead y (hnodes2 y hy2)).1 rfl
    · rcases List.mem_cons.1 hy2 with rfl | hy2
      · exact (hhead y (hnodes1 y hy1)).2 rfl
      · exact hdisj y hy1 hy2
  have hlook1 : Function.update (Function.update S head1 (some ys1)) head2 (some ys2) head1 =
      some ys1 := by
    rw [Function.update_of_ne hne, Function.update_self]
  have hlook2 : Function.update (Function.update S head1 (some ys1)) head2 (some ys2) head2 =
      some ys2 :=
    Function.update_self _ _ _
  have hmem : ∀ y, y ∈ xs1 ∨ y ∈ xs2 → ∃ h' ∈ [head1, head2], ∃ xs', S h' = some xs' ∧
      y ∈ h' :: xs' := by
    rintro y (hy | hy)
    · exact ⟨head1, List.mem_cons_self, xs1, hS1, List.mem_cons_of_mem _ hy⟩
    · exact ⟨head2, List.mem_cons_of_mem _ List.mem_cons_self, xs2, hS2, List.mem_cons_of_mem _ hy⟩
  have hpair : ∀ {h}, h ∈ [head1, head2] → h = head1 ∨ h = head2 := fun hh => by simpa using hh
  refine hok.change [head1, head2] (fun h hh => ?_) ?_ ?_ ?_ ?_
  · rw [List.mem_cons, List.mem_singleton, not_or] at hh
    rw [Function.update_of_ne hh.2, Function.update_of_ne hh.1]
  · intro h hh zs hS'
    rcases hpair hh with rfl | rfl
    · rw [hlook1, Option.some.injEq] at hS'
      exact hS' ▸ hring1
    · rw [hlook2, Option.some.injEq] at hS'
      exact hS' ▸ hring2
  · intro h hh zs hS' y hy
    rcases hpair hh with rfl | rfl
    · rw [hlook1, Option.some.injEq] at hS'
      subst hS'
      rcases List.mem_cons.1 hy with rfl | hy
      · exact .inr ⟨y, hh, xs1, hS1, List.mem_cons_self⟩
      · exact .inr (hmem y (hnodes1 y hy))
    · rw [hlook2, Option.some.injEq] at hS'
      subst hS'
      rcases List.mem_cons.1 hy with rfl | hy
      · exact .inr ⟨y, hh, xs2, hS2, List.mem_cons_self⟩
      · exact .inr (hmem y (hnodes2 y hy))
  · intro h hh h' hh' zs zs' hS hS' hne'
    rcases hpair hh with rfl | rfl
    · rcases hpair hh' with rfl | rfl
      · exact absurd rfl hne'
      · rw [hlook1, Option.some.injEq] at hS
        rw [hlook2, Option.some.injEq] at hS'
        exact hS ▸ hS' ▸ hapart
    · rcases hpair hh' with rfl | rfl
      · rw [hlook2, Option.some.injEq] at hS
        rw [hlook1, Option.some.injEq] at hS'
        exact hS ▸ hS' ▸ hapart.symm
      · exact absurd rfl hne'
  · intro y _ hout
    exact hsame y (hout head1 List.mem_cons_self xs1 hS1)
      (hout head2 (List.mem_cons_of_mem _ List.mem_cons_self) xs2 hS2)

/-! ## The refinement -/

omit [DecidableEq ν] in
theorem Heads.exists_of_ne (h : S head ≠ none) : ∃ xs, S head = some xs :=
  Option.ne_none_iff_exists'.1 h

theorem Heads.modify_eq (hS : S head = some xs) (f : List ν → List ν) :
    S.modify head f = Function.update S head (some (f xs)) := by
  rw [Heads.modify, hS, Option.map_some]

omit [DecidableEq ν] in
theorem Heads.seq_eq (hS : S head = some xs) : S.seq head = xs := by
  rw [Heads.seq, hS, Option.getD_some]

/-- Only the list with the item changes. -/
theorem HeadsOk.erase_eq (hok : HeadsOk l S) (hS : S h = some xs) (hitem : item ∈ xs) :
    S.erase item = Function.update S h (some (xs.erase item)) := by
  funext k
  by_cases hk : k = h
  · rw [hk, Function.update_self, Heads.erase, hS, Option.map_some]
  · rw [Function.update_of_ne hk, Heads.erase]
    cases hSk : S k with
    | none => rfl
    | some zs =>
        have hout : item ∉ zs := fun hmem =>
          hok.apart h xs k zs hS hSk (fun he => hk he.symm) item (List.mem_cons_of_mem h hitem)
            (List.mem_cons_of_mem k hmem)
        rw [Option.map_some, List.erase_of_not_mem hout]

theorem HeadsOk.add (hok : HeadsOk l S) (hS : S head = some xs) (hitem : S.Unlinked item) :
    HeadsOk (rlistAdd l head item) (S.modify head (item :: ·)) := by
  rw [Heads.modify_eq hS]
  have hr := hok.ring head xs hS
  have hout := hitem head xs hS
  refine hok.one hS (rlistAdd_ring hr hout) ?_ ?_
  · intro y hy
    rcases List.mem_cons.1 hy with rfl | hy
    · exact .inr hitem
    · exact .inl hy
  · intro y hy hlinked
    exact rlistAdd_same hr hy (fun he => hlinked (he ▸ hitem)) fun he =>
      hout (he ▸ List.mem_cons_self)

theorem HeadsOk.addTail (hok : HeadsOk l S) (hS : S head = some xs) (hitem : S.Unlinked item) :
    HeadsOk (rlistAddTail l head item) (S.modify head (· ++ [item])) := by
  rw [Heads.modify_eq hS]
  have hr := hok.ring head xs hS
  have hout := hitem head xs hS
  refine hok.one hS (rlistAddTail_ring hr hout) ?_ ?_
  · intro y hy
    rcases List.mem_append.1 hy with hy | hy
    · exact .inl hy
    · exact .inr (List.mem_singleton.1 hy ▸ hitem)
  · intro y hy hlinked
    exact rlistAddTail_same hr hout hy fun he => hlinked (he ▸ hitem)

theorem HeadsOk.del (hok : HeadsOk l S) (hS : S h = some xs) (hitem : item ∈ xs) :
    HeadsOk (rlistDel l item) (S.erase item) := by
  rw [hok.erase_eq hS hitem]
  have hr := hok.ring h xs hS
  exact hok.one hS (rlistDel_erase hr hitem) (fun y hy => .inl (List.mem_of_mem_erase hy))
    fun y hy _ => rlistDel_same hr hitem hy

omit [DecidableEq ν] in
/-- An item of a list is no head. -/
theorem HeadsOk.ne_head (hok : HeadsOk l S) (hS : S h = some xs) (hitem : item ∈ xs)
    (hS' : S head = some ys) :
    item ≠ head := by
  rintro rfl
  by_cases he : h = item
  · subst he
    exact (hok.ring h xs hS).head_not_mem hitem
  · exact hok.apart h xs item ys hS hS' he item (List.mem_cons_of_mem h hitem) List.mem_cons_self

/-- An item that was deleted is on no list. -/
theorem HeadsOk.unlinked (hok : HeadsOk l S) (hS : S h = some xs) (hitem : item ∈ xs) :
    (S.erase item).Unlinked item := by
  intro k zs hSk hmem
  rw [hok.erase_eq hS hitem] at hSk
  by_cases hk : k = h
  · subst hk
    rw [Function.update_self, Option.some.injEq] at hSk
    subst hSk
    rcases List.mem_cons.1 hmem with he | hmem
    · exact hok.ne_head hS hitem hS he
    · exact ((hok.ring k xs hS).nodup_tail.not_mem_erase) hmem
  · rw [Function.update_of_ne hk] at hSk
    exact hok.apart h xs k zs hS hSk (fun he => hk he.symm) item (List.mem_cons_of_mem h hitem) hmem

/-- The heads of the heap stay heads. -/
theorem Heads.erase_ne_none (hS : S head ≠ none) (item : ν) : S.erase item head ≠ none := by
  obtain ⟨xs, hS⟩ := Heads.exists_of_ne hS
  rw [Heads.erase, hS, Option.map_some]
  exact Option.some_ne_none _

theorem HeadsOk.create (hok : HeadsOk l S) (hlist : S.Unlinked head) :
    HeadsOk (rlistCreate l head) (Function.update S head (some [])) := by
  refine hok.change [head]
    (fun h hh => Function.update_of_ne (fun he => hh (List.mem_singleton.2 he)) _ _) ?_ ?_ ?_ ?_
  · intro h hh zs hS'
    obtain rfl := List.mem_singleton.1 hh
    rw [Function.update_self, Option.some.injEq] at hS'
    exact hS' ▸ rlistCreate_ring l h
  · intro h hh zs hS' y hy
    obtain rfl := List.mem_singleton.1 hh
    rw [Function.update_self, Option.some.injEq] at hS'
    subst hS'
    exact .inl (List.mem_singleton.1 hy ▸ hlist)
  · intro h hh h' hh' _ _ _ _ hne
    exact absurd ((List.mem_singleton.1 hh).trans (List.mem_singleton.1 hh').symm) hne
  · intro y hy _
    exact rlistCreate_same fun he => hy (he ▸ hlist)

theorem HeadsOk.shift (hok : HeadsOk l S) (hS : S head = some (item :: xs)) :
    (rlistShift l head).1 = item ∧ HeadsOk (rlistShift l head).2 (S.modify head List.tail) := by
  rw [rlistShift_eq (hok.ring head _ hS)]
  have hdel := hok.del hS List.mem_cons_self
  rw [hok.erase_eq hS List.mem_cons_self, List.erase_cons_head] at hdel
  exact ⟨rfl, by rwa [Heads.modify_eq hS]⟩

theorem HeadsOk.shiftTail (hok : HeadsOk l S) (hS : S head = some (xs ++ [item])) :
    (rlistShiftTail l head).1 = item ∧
      HeadsOk (rlistShiftTail l head).2 (S.modify head List.dropLast) := by
  have hr := hok.ring head _ hS
  have hmem : item ∈ xs ++ [item] := List.mem_append_right xs (List.mem_singleton_self item)
  have hout : item ∉ xs := fun hitem =>
    (List.nodup_append.1 hr.nodup_tail).2.2 item hitem item (List.mem_singleton_self item) rfl
  rw [rlistShiftTail_eq hr]
  have hdel := hok.del hS hmem
  rw [hok.erase_eq hS hmem, List.erase_append_right _ hout, List.erase_cons_head,
    List.append_nil] at hdel
  refine ⟨rfl, ?_⟩
  rwa [Heads.modify_eq hS, List.dropLast_concat]

theorem HeadsOk.swap (hok : HeadsOk l S) (hS1 : S head1 = some xs1) (hS2 : S head2 = some xs2) :
    HeadsOk (rlistSwap l head1 head2)
      (Function.update (Function.update S head1 (S head2)) head2 (S head1)) := by
  by_cases hne : head1 = head2
  · -- a list is exchanged with itself
    subst hne
    rw [Function.update_idem, Function.update_eq_self, rlistSwap_self (hok.ring head1 xs1 hS1)]
    exact hok
  · have hd := hok.apart head1 xs1 head2 xs2 hS1 hS2 hne
    obtain ⟨hring1, hring2, hsame⟩ :=
      rlistSwap_spec (hok.ring head1 xs1 hS1) (hok.ring head2 xs2 hS2) hd
    rw [hS1, hS2]
    exact hok.two hne hS1 hS2 hring2 hring1 (fun y hy => .inr hy) (fun y hy => .inl hy)
      (fun y hy2 hy1 =>
        hd y (List.mem_cons_of_mem head1 hy1) (List.mem_cons_of_mem head2 hy2)) hsame

theorem HeadsOk.splice (hok : HeadsOk l S) (hne : head1 ≠ head2) (hS1 : S head1 = some xs1)
    (hS2 : S head2 = some xs2) :
    HeadsOk (rlistSplice l head1 head2) ((S.modify head1 (S.seq head2 ++ ·)).modify head2 fun _ =>
        []) := by
  have hd := hok.apart head1 xs1 head2 xs2 hS1 hS2 hne
  obtain ⟨hring1, hring2, hsame⟩ :=
    rlistSplice_spec (hok.ring head1 xs1 hS1) (hok.ring head2 xs2 hS2) hd
  have hS2' : S.modify head1 (S.seq head2 ++ ·) head2 = some xs2 := by
    rw [Heads.modify_eq hS1, Function.update_of_ne hne.symm, hS2]
  rw [Heads.modify_eq hS2', Heads.modify_eq hS1, Heads.seq_eq hS2]
  exact hok.two hne hS1 hS2 hring1 hring2 (fun y hy => (List.mem_append.1 hy).symm)
    (fun y hy => absurd hy List.not_mem_nil) (fun y _ => List.not_mem_nil) hsame

theorem HeadsOk.spliceTail (hok : HeadsOk l S) (hne : head1 ≠ head2) (hS1 : S head1 = some xs1)
    (hS2 : S head2 = some xs2) :
    HeadsOk (rlistSpliceTail l head1 head2)
      ((S.modify head1 (· ++ S.seq head2)).modify head2 fun _ => []) := by
  have hd := hok.apart head1 xs1 head2 xs2 hS1 hS2 hne
  obtain ⟨hring1, hring2, hsame⟩ :=
    rlistSpliceTail_spec (hok.ring head1 xs1 hS1) (hok.ring head2 xs2 hS2) hd
  have hS2' : S.modify head1 (· ++ S.seq head2) head2 = some xs2 := by
    rw [Heads.modify_eq hS1, Function.update_of_ne hne.symm, hS2]
  rw [Heads.modify_eq hS2', Heads.modify_eq hS1, Heads.seq_eq hS2]
  exact hok.two hne hS1 hS2 hring1 hring2 (fun y hy => List.mem_append.1 hy)
    (fun y hy => absurd hy List.not_mem_nil) (fun y _ => List.not_mem_nil) hsame

/-- The item of a cut is the first of the nodes that stay. -/
theorem head?_dropWhile_ne (hitem : item ∈ head :: xs) (hhead : head ∉ xs) :
    (xs.dropWhile (· ≠ item) ++ [head]).head? = some item := by
  induction xs with
  | nil => simpa [eq_comm] using hitem
  | cons x xs ih =>
      rw [List.dropWhile_cons]
      by_cases hx : x = item
      · simp [hx]
      · rw [if_pos (by simpa using hx)]
        refine ih ?_ fun hmem => hhead (List.mem_cons_of_mem x hmem)
        simp only [List.mem_cons] at hitem ⊢
        exact hitem.imp_right fun h => h.resolve_left fun he => hx he.symm

theorem HeadsOk.cutBefore (hok : HeadsOk l S) (hne : head1 ≠ head2) (hS1 : S head1 = some xs1)
    (hS2 : S head2 = some xs2) (hitem : item ∈ head2 :: xs2) :
    HeadsOk (rlistCutBefore l head1 head2 item)
      ((S.modify head1 fun _ => (S.seq head2).takeWhile (· ≠ item)).modify head2 fun xs =>
        xs.dropWhile (· ≠ item)) := by
  have hd := hok.apart head1 xs1 head2 xs2 hS1 hS2 hne
  have hr2 := hok.ring head2 xs2 hS2
  have hfirst := head?_dropWhile_ne hitem hr2.head_not_mem
  have hsplit : xs2.takeWhile (· ≠ item) ++ xs2.dropWhile (· ≠ item) = xs2 :=
    List.takeWhile_append_dropWhile
  have hS2' : S.modify head1 (fun _ => (S.seq head2).takeWhile (· ≠ item)) head2 = some xs2 := by
    rw [Heads.modify_eq hS1, Function.update_of_ne hne.symm, hS2]
  rw [Heads.modify_eq hS2', Heads.modify_eq hS1, Heads.seq_eq hS2]
  generalize xs2.takeWhile (· ≠ item) = pre at hsplit hfirst
  generalize xs2.dropWhile (· ≠ item) = post at hsplit hfirst
  subst hsplit
  obtain ⟨hring1, hring2, hsame⟩ := rlistCutBefore_spec (hok.ring head1 xs1 hS1) hr2 hd hfirst
  have hnd := List.nodup_append.1 hr2.nodup_tail
  exact hok.two hne hS1 hS2 hring1 hring2 (fun y hy => .inr (List.mem_append_left post hy))
    (fun y hy => .inr (List.mem_append_right pre hy)) (fun y hy hy' => hnd.2.2 y hy y hy' rfl) hsame

theorem RlistOp.exec_ok (hok : HeadsOk l S) (op : RlistOp ν) (hop : op.Allowed S) :
    (op.exec l).1 = op.answer S ∧ HeadsOk (op.exec l).2 (op.effect S) := by
  cases op with
  | create list => exact ⟨rfl, hok.create hop⟩
  | add head item =>
      obtain ⟨xs, hS⟩ := Heads.exists_of_ne hop.1
      exact ⟨rfl, hok.add hS hop.2⟩
  | addTail head item =>
      obtain ⟨xs, hS⟩ := Heads.exists_of_ne hop.1
      exact ⟨rfl, hok.addTail hS hop.2⟩
  | del item =>
      obtain ⟨h, xs, hS, hitem⟩ := hop
      exact ⟨rfl, hok.del hS hitem⟩
  | shift head =>
      obtain ⟨xs, hS, hne⟩ := hop
      obtain ⟨item, rest, rfl⟩ := List.exists_cons_of_ne_nil hne
      obtain ⟨hanswer, hok'⟩ := hok.shift hS
      refine ⟨?_, hok'⟩
      rw [RlistOp.exec, RlistOp.answer, hanswer, Heads.seq_eq hS, List.head?_cons]
  | shiftTail head =>
      obtain ⟨xs, hS, hne⟩ := hop
      obtain ⟨rest, item, rfl⟩ := (List.eq_nil_or_concat' xs).resolve_left hne
      obtain ⟨hanswer, hok'⟩ := hok.shiftTail hS
      refine ⟨?_, hok'⟩
      rw [RlistOp.exec, RlistOp.answer, hanswer, Heads.seq_eq hS, List.getLast?_concat]
  | move to' item =>
      obtain ⟨hto, h, xs, hS, hitem⟩ := hop
      obtain ⟨ys, hS'⟩ := Heads.exists_of_ne (Heads.erase_ne_none hto item)
      exact ⟨rfl, (hok.del hS hitem).add hS' (hok.unlinked hS hitem)⟩
  | moveTail to' item =>
      obtain ⟨hto, h, xs, hS, hitem⟩ := hop
      obtain ⟨zs, hto'⟩ := Heads.exists_of_ne hto
      obtain ⟨ys, hS'⟩ := Heads.exists_of_ne (Heads.erase_ne_none hto item)
      refine ⟨rfl, ?_⟩
      rw [RlistOp.exec, rlistMoveTail_eq (hok.ne_head hS hitem hto')]
      exact (hok.del hS hitem).addTail hS' (hok.unlinked hS hitem)
  | swap rhs lhs =>
      obtain ⟨xs1, hS1⟩ := Heads.exists_of_ne hop.1
      obtain ⟨xs2, hS2⟩ := Heads.exists_of_ne hop.2
      exact ⟨rfl, hok.swap hS1 hS2⟩
  | splice head1 head2 =>
      obtain ⟨hne, h1, h2⟩ := hop
      obtain ⟨xs1, hS1⟩ := Heads.exists_of_ne h1
      obtain ⟨xs2, hS2⟩ := Heads.exists_of_ne h2
      exact ⟨rfl, hok.splice hne hS1 hS2⟩
  | spliceTail head1 head2 =>
      obtain ⟨hne, h1, h2⟩ := hop
      obtain ⟨xs1, hS1⟩ := Heads.exists_of_ne h1
      obtain ⟨xs2, hS2⟩ := Heads.exists_of_ne h2
      exact ⟨rfl, hok.spliceTail hne hS1 hS2⟩
  | cutBefore head1 head2 item =>
      obtain ⟨hne, h1, xs2, hS2, hitem⟩ := hop
      obtain ⟨xs1, hS1⟩ := Heads.exists_of_ne h1
      exact ⟨rfl, hok.cutBefore hne hS1 hS2 hitem⟩

end Changes

/-- **The refinement**: in a heap where each head holds a sequence and no two heads share a node, an
operation returns what it returns on sequences, and leaves a heap in which the heads hold the
sequences that it makes of them; and `rlist_empty` tells which are empty, before and after. -/
theorem rlist_refines {l : Links ν} {S : Heads ν} (hok : HeadsOk l S) (op : RlistOp ν)
    (hop : op.Allowed S) :
    (op.exec l).1 = op.answer S ∧ HeadsOk (op.exec l).2 (op.effect S) ∧
      (∀ h xs, S h = some xs → (rlistEmpty l h = true ↔ xs = [])) ∧
      ∀ h xs, op.effect S h = some xs → (rlistEmpty (op.exec l).2 h = true ↔ xs = []) := by
  obtain ⟨hanswer, hok'⟩ := RlistOp.exec_ok hok op hop
  exact ⟨hanswer, hok', fun h xs hS => rlistEmpty_iff (hok.ring h xs hS), fun h xs hS =>
    rlistEmpty_iff (hok'.ring h xs hS)⟩

/-- A heap with the heads 0 and 1; the items 2 and 3 are on the lists of these. -/
def twoHeads : Links Nat := rlistAdd (rlistAdd { next := id, prev := id } 0 2) 1 3

def twoSequences : Heads Nat
  | 0 => some [2]
  | 1 => some [3]
  | _ => none

theorem twoHeads_ok : HeadsOk twoHeads twoSequences where
  ring := by
    rintro (_ | _ | h) xs ⟨⟩
    · exact ⟨by decide, by simp [twoHeads, rlistAdd, Links.Joined]⟩
    · exact ⟨by decide, by simp [twoHeads, rlistAdd, Links.Joined]⟩
  apart := by
    rintro (_ | _ | h) xs (_ | _ | h') xs' ⟨⟩ ⟨⟩ hne
    · exact absurd rfl hne
    · simp [Apart]
    · simp [Apart]
    · exact absurd rfl hne

/-- The second list is put in front of the first. -/
theorem rlist_refines_splice :
    HeadsOk (rlistSplice twoHeads 0 1) ((RlistOp.splice 0 1).effect twoSequences) ∧
    (RlistOp.splice 0 1).effect twoSequences 0 = some [3, 2] ∧
    rlistEmpty (rlistSplice twoHeads 0 1) 1 = true := by
  have hop : (RlistOp.splice 0 1).Allowed twoSequences := ⟨by decide, by decide, by decide⟩
  obtain ⟨-, hok, -, hempty⟩ := rlist_refines twoHeads_ok (.splice 0 1) hop
  exact ⟨hok, rfl, (hempty 1 [] rfl).2 rfl⟩

end SmallAllocators
