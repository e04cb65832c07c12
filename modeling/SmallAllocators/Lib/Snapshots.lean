/-
SmallAllocators.Lib.Snapshots — versions of a tree that share nodes.

A tree keeps numbered items below its nodes. A version has the first `count`
items, and an address for each position that has an item. Versions are listed
newest first. `Sharing` says how versions may share nodes: an address stands
for one position only, versions between two that share a node share it too,
and below a shared node a newer version has at least the items of an older
one. These are the facts that make copy on write work when a version is
compared with its neighbours only.
-/
import Mathlib.Data.List.Basic
import Mathlib.Tactic.Common

namespace SmallAllocators

/-- Positions of nodes, with the items that lie below them. -/
structure TreeLayout (π : Type) where
  below : π → Nat → Prop
  first : π → Nat
  below_first : ∀ p, below p (first p)
  first_le : ∀ p id, below p id → first p ≤ id

/-- A version of the tree. -/
structure Snapshot (π : Type) where
  count : Nat
  addr : π → Nat

namespace Snapshot

variable {π : Type} (T : TreeLayout π)

/-- The version has an item below the position. -/
def Covers (s : Snapshot π) (p : π) : Prop := T.first p < s.count

/-- The two versions have the same node at the position. -/
structure Shares (s t : Snapshot π) (p : π) : Prop where
  left : s.Covers T p
  right : t.Covers T p
  eq : s.addr p = t.addr p

/-- The two versions are the same where they have items. -/
structure Agrees (s t : Snapshot π) : Prop where
  count : t.count = s.count
  addr : ∀ p, s.Covers T p → t.addr p = s.addr p

/-- How the versions of a list share nodes. -/
structure Sharing (L : List (Snapshot π)) : Prop where
  inj : ∀ s ∈ L, ∀ t ∈ L, ∀ p q, s.Covers T p → t.Covers T q → s.addr p = t.addr q → p = q
  between : ∀ s t u, List.Sublist [s, t, u] L → ∀ p, s.Shares T u p → s.Shares T t p
  grows : ∀ s t, List.Sublist [s, t] L → ∀ p, s.Shares T t p → ∀ id, T.below p id → id < t.count →
    id < s.count

variable {T} {s t u : Snapshot π} {L L' : List (Snapshot π)} {p : π}

theorem Covers.below {id : Nat} (hb : T.below p id) (hlt : id < s.count) : s.Covers T p :=
  Nat.lt_of_le_of_lt (T.first_le p id hb) hlt

theorem Shares.symm (h : s.Shares T t p) : t.Shares T s p := ⟨h.right, h.left, h.eq.symm⟩

theorem Shares.trans (h : s.Shares T t p) (h' : t.Shares T u p) : s.Shares T u p :=
  ⟨h.left, h'.right, h.eq.trans h'.eq⟩

/-- Some of the versions. -/
theorem Sharing.sublist (h : Sharing T L) (hL : L'.Sublist L) : Sharing T L' where
  inj s hs t ht := h.inj s (hL.subset hs) t (hL.subset ht)
  between s t u hstu := h.between s t u (hstu.trans hL)
  grows s t hst := h.grows s t (hst.trans hL)

/-- A version with nothing in it. -/
theorem Sharing.empty (hs : s.count = 0) : Sharing T [s] where
  inj t ht _ _ p _ hp := by
    rw [List.mem_singleton.1 ht, Covers, hs] at hp
    omega
  between _ _ _ hsub := by
    have := hsub.length_le
    simp at this
  grows _ _ hsub := by
    have := hsub.length_le
    simp at this

/-- The newest version, twice. -/
theorem Sharing.dup (h : Sharing T (s :: L)) : Sharing T (s :: s :: L) where
  inj t ht u hu := h.inj t (by simpa using ht) u (by simpa using hu)
  between t u v hsub p hp := by
    cases hsub with
    | cons _ hsub => exact h.between t u v hsub p hp
    | cons_cons _ hsub =>
        cases hsub with
        | cons _ hsub => exact h.between s u v (hsub.cons_cons s) p hp
        | cons_cons _ _ => exact ⟨hp.left, hp.left, rfl⟩
  grows t u hsub p hp id hb hlt := by
    cases hsub with
    | cons _ hsub => exact h.grows t u hsub p hp id hb hlt
    | cons_cons _ hsub =>
        cases hsub with
        | cons _ hsub => exact h.grows s u (hsub.cons_cons s) p hp id hb hlt
        | cons_cons _ _ => exact hlt

/-- A node that the newest version does not share with the next one, it shares with none. -/
theorem Sharing.private_of_next (h : Sharing T (s :: t :: L)) (hp : ¬ s.Shares T t p) :
    ∀ u ∈ t :: L, ¬ s.Shares T u p := by
  intro u hu hshare
  rcases List.mem_cons.1 hu with rfl | hu
  · exact hp hshare
  · exact hp (h.between s t u (((List.singleton_sublist.2 hu).cons_cons t).cons_cons s) p hshare)

/-- A node that a version shares with none of its neighbours, it shares with none. -/
theorem Sharing.private_of_neighbours {A B : List (Snapshot π)} (h : Sharing T (A ++ s :: t :: B))
    (hp : ¬ s.Shares T t p) (hn : ∀ u ∈ B.head?, ¬ t.Shares T u p) :
    (∀ u ∈ A ++ [s], ¬ u.Shares T t p) ∧ ∀ u ∈ B, ¬ t.Shares T u p := by
  constructor
  · intro u hu hshare
    rcases List.mem_append.1 hu with hu | hu
    · have hsub : List.Sublist [u, s, t] (A ++ s :: t :: B) :=
        (List.singleton_sublist.2 hu).append (((List.nil_sublist B).cons_cons t).cons_cons s)
      exact hp ((h.between u s t hsub p hshare).symm.trans hshare)
    · rw [List.mem_singleton.1 hu] at hshare
      exact hp hshare
  · intro u hu hshare
    cases B with
    | nil => cases hu
    | cons v B =>
        rcases List.mem_cons.1 hu with rfl | hu
        · exact hn u rfl hshare
        · have hsub : List.Sublist [t, v, u] (A ++ s :: t :: v :: B) :=
            List.Sublist.trans (((List.singleton_sublist.2 hu).cons_cons v).cons_cons t)
              ((List.sublist_cons_self s _).trans (List.sublist_append_right A _))
          exact hn v rfl (h.between t v u hsub p hshare)

/-- A new newest version in the place of the old one: each of its nodes is a node of the old one
or a new one. -/
theorem Sharing.update (h : Sharing T (s :: L))
    (hinj : ∀ p q, t.Covers T p → t.Covers T q → t.addr p = t.addr q → p = q)
    (hold : ∀ p, t.Covers T p → (s.Covers T p ∧ t.addr p = s.addr p) ∨
      ∀ u ∈ L, ∀ q, u.Covers T q → t.addr p ≠ u.addr q)
    (hgrow : ∀ u ∈ L, ∀ p, s.Shares T u p → t.Shares T u p → ∀ id, T.below p id → id < u.count →
      id < t.count) :
    Sharing T (t :: L) := by
  have hshare : ∀ u ∈ L, ∀ p, t.Shares T u p → s.Shares T u p := by
    intro u hu p hp
    rcases hold p hp.left with ⟨hs, heq⟩ | hnew
    · exact ⟨hs, hp.right, heq.symm.trans hp.eq⟩
    · exact absurd hp.eq (hnew u hu p hp.right)
  have hcross : ∀ u ∈ L, ∀ p q, t.Covers T p → u.Covers T q → t.addr p = u.addr q → p = q := by
    intro u hu p q hp hq heq
    rcases hold p hp with ⟨hs, he⟩ | hnew
    · exact h.inj s List.mem_cons_self u (List.mem_cons_of_mem _ hu) p q hs hq (he.symm.trans heq)
    · exact absurd heq (hnew u hu q hq)
  constructor
  case inj =>
    intro u hu v hv p q hp hq heq
    rcases List.mem_cons.1 hu with rfl | hu' <;> rcases List.mem_cons.1 hv with rfl | hv'
    · exact hinj p q hp hq heq
    · exact hcross v hv' p q hp hq heq
    · exact (hcross u hu' q p hq hp heq.symm).symm
    · exact h.inj u (List.mem_cons_of_mem _ hu') v (List.mem_cons_of_mem _ hv') p q hp hq heq
  case between =>
    intro u v w hsub p hp
    cases hsub with
    | cons _ hsub => exact h.between u v w (hsub.cons s) p hp
    | cons_cons _ hsub =>
        have hw : w ∈ L := hsub.subset (by simp)
        have hold' := h.between s v w (hsub.cons_cons s) p (hshare w hw p hp)
        exact ⟨hp.left, hold'.right, hp.eq.trans ((hshare w hw p hp).eq.symm.trans hold'.eq)⟩
  case grows =>
    intro u v hsub p hp id hb hlt
    cases hsub with
    | cons _ hsub => exact h.grows u v (hsub.cons s) p hp id hb hlt
    | cons_cons _ hsub =>
        have hv : v ∈ L := hsub.subset (by simp)
        exact hgrow v hv p (hshare v hv p hp) hp id hb hlt

/-- Versions that agree share nodes in the same way. -/
theorem Sharing.congr {ι : Type} {vs : List ι} {f g : ι → Snapshot π} (h : Sharing T (vs.map f))
    (hfg : ∀ v ∈ vs, (f v).Agrees T (g v)) : Sharing T (vs.map g) := by
  have hcovers : ∀ v ∈ vs, ∀ p, (g v).Covers T p ↔ (f v).Covers T p := by
    intro v hv p
    rw [Covers, Covers, (hfg v hv).count]
  have hshares : ∀ v ∈ vs, ∀ w ∈ vs, ∀ p, (g v).Shares T (g w) p ↔ (f v).Shares T (f w) p := by
    intro v hv w hw p
    constructor
    · intro hp
      have h1 := (hcovers v hv p).1 hp.left
      have h2 := (hcovers w hw p).1 hp.right
      exact ⟨h1, h2, by rw [← (hfg v hv).addr p h1, ← (hfg w hw).addr p h2, hp.eq]⟩
    · intro hp
      exact ⟨(hcovers v hv p).2 hp.left, (hcovers w hw p).2 hp.right,
        by rw [(hfg v hv).addr p hp.left, (hfg w hw).addr p hp.right, hp.eq]⟩
  constructor
  case inj =>
    intro s hs t ht p q hp hq heq
    obtain ⟨v, hv, rfl⟩ := List.mem_map.1 hs
    obtain ⟨w, hw, rfl⟩ := List.mem_map.1 ht
    have h1 := (hcovers v hv p).1 hp
    have h2 := (hcovers w hw q).1 hq
    rw [(hfg v hv).addr p h1, (hfg w hw).addr q h2] at heq
    exact h.inj _ (List.mem_map_of_mem hv) _ (List.mem_map_of_mem hw) p q h1 h2 heq
  case between =>
    intro s t u hsub p hp
    obtain ⟨l, hl, heq⟩ := List.sublist_map_iff.1 hsub
    obtain ⟨v, l₁, rfl, rfl, heq₁⟩ := List.map_eq_cons_iff.1 heq.symm
    obtain ⟨w, l₂, rfl, rfl, heq₂⟩ := List.map_eq_cons_iff.1 heq₁
    obtain ⟨x, l₃, rfl, rfl, heq₃⟩ := List.map_eq_cons_iff.1 heq₂
    obtain rfl := List.map_eq_nil_iff.1 heq₃
    have hv : v ∈ vs := hl.subset (by simp)
    have hw : w ∈ vs := hl.subset (by simp)
    have hx : x ∈ vs := hl.subset (by simp)
    exact (hshares v hv w hw p).2 (h.between _ _ _ (hl.map f) p ((hshares v hv x hx p).1 hp))
  case grows =>
    intro s t hsub p hp id hb hlt
    obtain ⟨l, hl, heq⟩ := List.sublist_map_iff.1 hsub
    obtain ⟨v, l₁, rfl, rfl, heq₁⟩ := List.map_eq_cons_iff.1 heq.symm
    obtain ⟨w, l₂, rfl, rfl, heq₂⟩ := List.map_eq_cons_iff.1 heq₁
    obtain rfl := List.map_eq_nil_iff.1 heq₂
    have hv : v ∈ vs := hl.subset (by simp)
    have hw : w ∈ vs := hl.subset (by simp)
    rw [(hfg w hw).count] at hlt
    rw [(hfg v hv).count]
    exact h.grows _ _ (hl.map f) p ((hshares v hv w hw p).1 hp) id hb hlt

/-- Versions behind the newest one that agree. -/
theorem Sharing.congr_tail {ι : Type} {vs : List ι} {f g : ι → Snapshot π}
    (h : Sharing T (s :: vs.map f)) (hfg : ∀ v ∈ vs, (f v).Agrees T (g v)) :
    Sharing T (s :: vs.map g) := by
  -- the newest version has the index `none`
  have hf : s :: vs.map f = (none :: vs.map some).map (Option.elim · s f) := by simp
  have hg : s :: vs.map g = (none :: vs.map some).map (Option.elim · s g) := by simp
  rw [hf] at h
  rw [hg]
  refine h.congr fun v hv => ?_
  cases v with
  | none => exact ⟨rfl, fun _ _ => rfl⟩
  | some v =>
      have hv' : v ∈ vs := by simpa using hv
      exact hfg v hv'

end Snapshot

end SmallAllocators
