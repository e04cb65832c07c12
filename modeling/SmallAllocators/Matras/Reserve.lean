/-
SmallAllocators.Matras.Reserve — extents for touches to come.

The reserved extents are a list that is threaded through them. To reserve
more puts fresh extents in front of it and changes nothing else.
-/
import SmallAllocators.Matras.Alloc

namespace SmallAllocators

variable {m m' : Matras} {rs rs' : List Nat} {n x count : Nat}

/-- The list behind a pointer. -/
def reservedList (slots : Nat → Nat → Nat) : Nat → Nat → List Nat
  | _, 0 => []
  | ptr, n + 1 => ptr :: reservedList slots (slots ptr 0) n

/-- The extents that are reserved. -/
def Matras.reserved (m : Matras) : List Nat :=
  reservedList m.slots m.allocator.reservedExtents m.allocator.numReservedExtents

theorem ReservedChain.eq {slots : Nat → Nat → Nat} {ptr : Nat} (h : ReservedChain slots ptr rs) :
    reservedList slots ptr rs.length = rs := by
  induction rs generalizing ptr with
  | nil => rfl
  | cons a rs ih =>
      obtain ⟨rfl, h⟩ := h
      rw [List.length_cons, reservedList, ih h]

theorem Matras.Inv.reserved_eq (hi : m.Inv rs) : m.reserved = rs := by
  rw [Matras.reserved, hi.alloc.size, hi.alloc.chain.eq]

/-- Some extents became reserved ones. -/
structure Matras.Stocked (m : Matras) (rs : List Nat) (m' : Matras) (rs' : List Nat) : Prop where
  blocks : m.SameBlocks m'
  inv : m'.Inv rs'
  owns : ∀ x, m'.Owns rs' x ↔ m.Owns rs x
  counts : m.Counts 0 0 m'

namespace Matras.Stocked

theorem refl (hi : m.Inv rs) : m.Stocked rs m rs :=
  ⟨.of_sameTree (.refl m), hi, fun _ => Iff.rfl, .same rfl rfl rfl⟩

theorem trans {m₂ : Matras} {rs₂ : List Nat} (h : m.Stocked rs m' rs')
    (h' : m'.Stocked rs' m₂ rs₂) : m.Stocked rs m₂ rs₂ :=
  ⟨h.blocks.trans h'.blocks, h'.inv, fun x => (h'.owns x).trans (h.owns x), by
    simpa using h.counts.trans h'.counts⟩

end Matras.Stocked

/-- A fresh extent in front of the list. -/
theorem Matras.Inv.reserve (hi : m.Inv rs) {ext : Nat} (hcall : m.allocator.call.1 = some ext) :
    m.Stocked rs ((m.setAllocator m.allocator.call.2).reserve ext) (ext :: rs) := by
  obtain ⟨hok, hall, hnew, hptr, hsize⟩ := hi.alloc.call
  have hfresh : ext ∉ m.allocator.allocated := hnew ext hcall
  have hnot : ¬ m.Reached ext := by
    rintro ⟨v, hv, p, hp, he⟩
    exact hfresh (he ▸ (hi.owned v hv p hp).1)
  have htree : m.SameTree (m.setAllocator m.allocator.call.2) := ⟨rfl, rfl, rfl, rfl, rfl⟩
  have hunread : (m.setAllocator m.allocator.call.2).Unread ext 0 :=
    (Matras.Unread.of_not_reached hnot).of_sameTree htree
  have hslot := hunread.sameBlocks m.allocator.reservedExtents
  have hblocks : m.SameBlocks ((m.setAllocator m.allocator.call.2).reserve ext) := by
    have h := (Matras.SameBlocks.of_sameTree htree).trans hslot
    refine ⟨h.config, h.views, h.count, h.bytes, fun v hv p hp => ?_, fun p hp => ?_⟩
    · rw [← h.kept v hv p hp]
      unfold Matras.reserve
      rw [show (m.setAllocator m.allocator.call.2).allocator.reservedExtents =
        m.allocator.reservedExtents from hptr]
      cases p <;> rfl
    · rw [← h.head p hp]
      unfold Matras.reserve
      rw [show (m.setAllocator m.allocator.call.2).allocator.reservedExtents =
        m.allocator.reservedExtents from hptr]
      cases p <;> rfl
  have hmem : ∀ x, x ∈ m.allocator.call.2.allocated ↔ x ∈ m.allocator.allocated ∨ x = ext := by
    intro x
    rw [hall, hcall, Option.some.injEq]
    exact or_congr Iff.rfl eq_comm
  have hext : ext ∉ rs := fun h => hfresh (hi.alloc.reserved ext h)
  have howns : ∀ x, ((m.setAllocator m.allocator.call.2).reserve ext).Owns (ext :: rs) x ↔
      m.Owns rs x := by
    intro x
    show (x ∈ m.allocator.call.2.allocated ∧ x ∉ ext :: rs) ↔ x ∈ m.allocator.allocated ∧ x ∉ rs
    rw [hmem, List.mem_cons]
    constructor
    · rintro ⟨h | h, hx⟩
      · exact ⟨h, fun h' => hx (Or.inr h')⟩
      · exact absurd (Or.inl h) hx
    · rintro ⟨h, hx⟩
      refine ⟨Or.inl h, ?_⟩
      rintro (rfl | h')
      · exact hfresh h
      · exact hx h'
  refine ⟨hblocks, ?_, howns, .same rfl rfl ?_⟩
  · refine hblocks.inv hi (fun v hv p hp => (howns _).2 (hi.owned v hv p hp)) ?_
    constructor
    case nodup => exact hok.nodup
    case chain =>
      refine ⟨rfl, ?_⟩
      have hself : ((m.setAllocator m.allocator.call.2).reserve ext).slots ext 0 =
          m.allocator.reservedExtents := by
        show (if ext = ext ∧ 0 = 0 then m.allocator.call.2.reservedExtents else _) = _
        rw [if_pos ⟨rfl, rfl⟩, hptr]
      rw [hself]
      refine hi.alloc.chain.congr fun x hx => ?_
      funext j
      refine if_neg ?_
      rintro ⟨rfl, -⟩
      exact hext hx
    case size =>
      show m.allocator.call.2.numReservedExtents + 1 = _
      rw [hok.size]
      rfl
    case reserved =>
      intro x hx
      rcases List.mem_cons.1 hx with rfl | hx
      · exact (hmem x).2 (Or.inr rfl)
      · exact hok.reserved x hx
    case reservedNodup => exact List.nodup_cons.2 ⟨hext, hi.alloc.reservedNodup⟩
    case fresh => exact hok.fresh
    case distinct => exact hok.distinct
  · rw [hcall, Option.isSome_some, if_pos rfl] at hsize
    have hsize' : (m.allocator.call.2.allocated.length : Int) -
        m.allocator.call.2.numReservedExtents = m.allocator.size + 1 := hsize
    show ((m.allocator.call.2.allocated.length : Int)) -
      ((m.allocator.call.2.numReservedExtents + 1 : Nat) : Int) = _
    omega

theorem reserveLoop_spec {fuel : Nat} :
    ∀ {m : Matras} {rs : List Nat}, m.Inv rs → count ≤ m.allocator.numReservedExtents + fuel →
    ∃ m' rs', (reserveLoop count fuel m).2 = m' ∧ m.Stocked rs m' rs' ∧
      ((reserveLoop count fuel m).1 = true → count ≤ m'.allocator.numReservedExtents) := by
  induction fuel with
  | zero => exact fun hi hle => ⟨_, _, rfl, .refl hi, fun _ => hle⟩
  | succ fuel ih =>
      intro m rs hi hle
      rw [reserveLoop]
      split
      · cases hcall : m.allocator.call.1 with
        | none =>
            have heq : m.allocator.call = (none, m.allocator.call.2) := by rw [← hcall]
            rw [heq]
            obtain ⟨hok, hall, -, -, hsize⟩ := hi.alloc.call
            have htree : m.SameTree (m.setAllocator m.allocator.call.2) := ⟨rfl, rfl, rfl, rfl, rfl⟩
            have howns : ∀ x, (m.setAllocator m.allocator.call.2).Owns rs x ↔ m.Owns rs x := by
              intro x
              show (x ∈ m.allocator.call.2.allocated ∧ x ∉ rs) ↔ _
              rw [hall, hcall]
              simp [Matras.Owns]
            refine ⟨_, rs, rfl, ⟨.of_sameTree htree,
              htree.inv hi (fun v hv p hp => (howns _).2 (hi.owned v hv p hp)) hok, howns,
              .same rfl rfl ?_⟩, fun h => absurd h Bool.false_ne_true⟩
            simpa [Matras.setAllocator, hcall] using hsize
        | some ext =>
            have heq : m.allocator.call = (some ext, m.allocator.call.2) := by rw [← hcall]
            rw [heq]
            have hst := hi.reserve hcall
            have hnum :
                ((m.setAllocator m.allocator.call.2).reserve ext).allocator.numReservedExtents =
                  m.allocator.numReservedExtents + 1 := by
              have h1 := hst.inv.alloc.size
              rw [h1, List.length_cons, hi.alloc.size]
            obtain ⟨m', rs', h1, h2, h3⟩ := ih hst.inv (by rw [hnum]; omega)
            exact ⟨m', rs', h1, hst.trans h2, h3⟩
      · next hge => exact ⟨m, rs, rfl, .refl hi, fun _ => Nat.le_of_not_lt hge⟩

/-- `matras_allocator_reserve`. -/
theorem matrasAllocatorReserve_spec (hi : m.Inv rs) (count : Nat) :
    ∃ m' rs', (matrasAllocatorReserve m count).2 = m' ∧ m.Stocked rs m' rs' ∧
      ((matrasAllocatorReserve m count).1 = true → count ≤ m'.allocator.numReservedExtents) :=
  reserveLoop_spec hi (by omega)

/-- `matras_touch_reserve`. -/
theorem matrasTouchReserve_spec (hi : m.Inv rs) (hcount : 2 * count + 1 ≤ intMax) :
    ∃ ok m' rs', matrasTouchReserve m count = some (ok, m') ∧ m.Stocked rs m' rs' ∧
      (ok = true → count = 0 ∨ m.views = [] ∨
        (∃ prev views, m.views = prev :: views ∧ prev.blockCount = 0) ∨
        ∃ prev views, m.views = prev :: views ∧
          count * 2 + (if m.head.root = prev.root then 1 else 0) ≤
          m'.allocator.numReservedExtents) := by
  unfold matrasTouchReserve
  by_cases hzero : count = 0
  · rw [if_pos hzero]
    exact ⟨true, m, rs, rfl, .refl hi, fun _ => Or.inl hzero⟩
  · rw [if_neg hzero]
    cases hviews : m.views with
    | nil => exact ⟨true, m, rs, rfl, .refl hi, fun _ => Or.inr (Or.inl rfl)⟩
    | cons prev views =>
        by_cases hempty : prev.blockCount = 0
        · refine ⟨true, m, rs, by simp [hempty],
            .refl hi, fun _ => Or.inr (Or.inr (Or.inl ⟨prev, views, rfl, hempty⟩))⟩
        · have hle : count * 2 + (if m.head.root = prev.root then 1 else 0) ≤ intMax := by
            split <;> omega
          obtain ⟨m', rs', heq, hst, hok⟩ := matrasAllocatorReserve_spec hi
            (count * 2 + (if m.head.root = prev.root then 1 else 0))
          refine ⟨(matrasAllocatorReserve m
              (count * 2 + (if m.head.root = prev.root then 1 else 0))).1, m', rs', ?_, hst,
            fun h => Or.inr (Or.inr (Or.inr ⟨prev, views, rfl, hok h⟩))⟩
          simp only [hempty, if_false, guard, hle, if_true, Option.pure_def, Option.bind_eq_bind,
            Option.bind_some, ← heq]

end SmallAllocators
