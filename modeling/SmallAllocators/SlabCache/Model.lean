/-
SmallAllocators.SlabCache.Model — the buddy system of `small/slab_cache.c`
and `include/small/slab_cache.h`.

The memory that the cache reads and writes is a heap of `struct slab`
headers, one cell for each address: `slab a` holds the fields `size`,
`magic`, `order` and `in_use` of the header at `a`, and the two embedded
`struct rlist` links are kept in two `Links` heaps. A cell exists at every
address, also where no slab starts: what stands there is whatever a client
left behind, and `slab_put_with_order` reads it if it computes such an
address.

The arena is the outside world. What `slab_map` and `malloc` return is an
argument of the operations (`none` stands for `NULL`); the cache records
the slabs it got from the arena and the slabs it gave back. The quota and
`malloc` behind `slab_get_large` are one answer.

An operation returns `none` when an `assert` of the source fails.
`NULL` is a result like any other.
-/
import SmallAllocators.Rlist
import SmallAllocators.Util

namespace SmallAllocators

def slabMagic : Nat := 0xeec0ffee

/-- `slab_sizeof()`: two list links, a `size_t`, a `uint32_t` and two `uint8_t`, rounded up. -/
def slabSizeof : Nat := 48

/-- `ORDER_MAX`. -/
def orderMaxLimit : Nat := 16

/-- The fields of `struct slab` that are not list links. -/
structure Slab where
  size : Nat
  magic : Nat
  order : Nat
  inUse : Nat
deriving DecidableEq, Repr

/-- What a debug build leaves in a poisoned header: every byte is `'P'`. -/
def Slab.poisoned : Slab :=
  { size := 0x5050505050505050, magic := 0x50505050, order := 0x50, inUse := 0x50 }

/-- The places of `struct rlist` values: the list heads in `struct slab_cache`, and one in each
slab header. -/
inductive SlabNode where
  | allocated
  | orders (k : Nat)
  | slab (a : Nat)
deriving DecidableEq, Repr

structure SmallStats where
  used : Nat
  total : Nat
deriving DecidableEq, Repr

/-- The constants that `slab_cache_create` computes from the slab size of the arena. They are
consistent: slabs of the largest order are whole arena slabs. -/
structure Geometry where
  /-- `cache->arena->slab_size` -/
  slabSize : Nat
  order0Size : Nat
  order0SizeLb : Nat
  orderMax : Nat
  order0Size_eq : order0Size = 2 ^ order0SizeLb
  slabSize_eq : slabSize = 2 ^ (orderMax + order0SizeLb)
  slabSize_lt : slabSize < 2 ^ 32
  orderMax_lt : orderMax < orderMaxLimit

/-- The mutable part of `struct slab_cache`, the slab headers, and the calls made to the arena. -/
structure SlabCache where
  slab : Nat → Slab
  nextInCache : Links SlabNode
  nextInList : Links SlabNode
  /-- `cache->allocated.stats` -/
  allocated : SmallStats
  /-- `cache->orders[k].stats` -/
  orders : Nat → SmallStats
  /-- The slabs `slab_map` returned, latest first. -/
  maps : List Nat
  /-- The slabs given to `slab_unmap`, latest first. -/
  unmaps : List Nat

/-! ## `slab_cache_create` -/

/-- `small_lb`: the binary logarithm. -/
def smallLb (size : Nat) : Nat := Nat.log2 size

/-- The `order_max` of `slab_cache_create`. -/
def createOrderMax (slabSize minOrder0Size : Nat) : Nat :=
  let orderMax := smallLb (slabSize / minOrder0Size)
  if orderMax > orderMaxLimit - 1 then orderMaxLimit - 1 else orderMax

theorem createOrderMax_le {n m : Nat} : createOrderMax (2 ^ n) (2 ^ m) ≤ n := by
  have h : smallLb (2 ^ n / 2 ^ m) ≤ n := by
    unfold smallLb
    by_cases hm : m ≤ n
    · rw [Nat.pow_div hm (by omega), Nat.log2_two_pow]
      omega
    · rw [Nat.div_eq_of_lt (Nat.pow_lt_pow_right (by omega) (by omega))]
      simp
  simp only [createOrderMax]
  split
  · simp only [orderMaxLimit] at *; omega
  · exact h

/-- The constants `slab_cache_create` computes for an arena with slabs of `2 ^ n` bytes, when the
smallest slab is to have at least `2 ^ m` bytes (`SLAB_MIN_ORDER0_SIZE`). -/
def Geometry.create (n m : Nat) (hn : n < 32) : Geometry where
  slabSize := 2 ^ n
  orderMax := createOrderMax (2 ^ n) (2 ^ m)
  order0Size := 2 ^ n >>> createOrderMax (2 ^ n) (2 ^ m)
  order0SizeLb := smallLb (2 ^ n >>> createOrderMax (2 ^ n) (2 ^ m))
  order0Size_eq := by
    rw [Nat.shiftRight_eq_div_pow, Nat.pow_div createOrderMax_le (by omega), smallLb,
      Nat.log2_two_pow]
  slabSize_eq := by
    rw [Nat.shiftRight_eq_div_pow, Nat.pow_div createOrderMax_le (by omega), smallLb,
      Nat.log2_two_pow]
    congr 1
    have := createOrderMax_le (n := n) (m := m)
    omega
  slabSize_lt := Nat.pow_lt_pow_right (by omega) hn
  orderMax_lt := by
    simp only [createOrderMax]
    split <;> simp only [orderMaxLimit] at * <;> omega

/-- `slab_list_create` on the list of allocated slabs and on `orders[0 .. orderMax]`. -/
def createLists (l : Links SlabNode) : Nat → Links SlabNode
  | 0 => rlistCreate l (.orders 0)
  | k + 1 => rlistCreate (createLists l k) (.orders (k + 1))

/-- The cache after `slab_cache_create`, in a memory with arbitrary contents. -/
def slabCacheCreate (g : Geometry) (slab : Nat → Slab) (inCache inList : Links SlabNode) :
    SlabCache where
  slab := slab
  nextInCache := rlistCreate inCache .allocated
  nextInList := createLists inList g.orderMax
  allocated := { used := 0, total := 0 }
  orders := fun _ => { used := 0, total := 0 }
  maps := []
  unmaps := []

/-! ## Sizes and orders -/

/-- `slab_order_size`, less its `assert(order <= order_max)`: callers that could violate it have
the assertion as a `guard`. -/
def Geometry.slabOrderSize (g : Geometry) (order : Nat) : Nat := 1 <<< (order + g.order0SizeLb)

/-- `slab_order`; `32 - clz(x)` is `log2 x + 1` for a positive 32-bit `x`. -/
def Geometry.slabOrder (g : Geometry) (size : Nat) : Nat :=
  if size ≤ g.order0Size then 0
  else if size > g.slabSize then g.orderMax + 1
  else Nat.log2 (size % 2 ^ 32 - 1) + 1 - g.order0SizeLb

/-- `slab_real_size`. -/
def Geometry.slabRealSize (g : Geometry) (size : Nat) : Nat :=
  let size := (size + slabSizeof) % sizeMax
  let order := g.slabOrder size
  if order = g.orderMax + 1 then size else g.slabOrderSize order

/-- `slab_capacity`. -/
def Slab.capacity (s : Slab) : Nat := s.size - slabSizeof

/-! ## Helpers -/

section Helpers

variable (g : Geometry) (c : SlabCache)

/-- A store to the header at `a`. -/
def SlabCache.setSlab (a : Nat) (s : Slab) : SlabCache :=
  { c with slab := fun x => if x = a then s else c.slab x }

/-- Adjust `cache->orders[k].stats`. -/
def SlabCache.setOrder (k : Nat) (s : SmallStats) : SlabCache :=
  { c with orders := fun j => if j = k then s else c.orders j }

/-- `orders[k].stats.total += size`. -/
def SlabCache.addTotal (k size : Nat) : SlabCache :=
  c.setOrder k { c.orders k with total := (c.orders k).total + size }

/-- `orders[k].stats.total -= size`. -/
def SlabCache.subTotal (k size : Nat) : SlabCache :=
  c.setOrder k { c.orders k with total := (c.orders k).total - size }

/-- `slab_list_add(&cache->orders[k], slab, next_in_list)`. -/
def SlabCache.ordersAdd (k a : Nat) : SlabCache :=
  { c with nextInList := rlistAdd c.nextInList (.orders k) (.slab a) }.addTotal k (c.slab a).size

/-- `slab_list_del(&cache->orders[k], slab, next_in_list)`. -/
def SlabCache.ordersDel (k a : Nat) : SlabCache :=
  { c with nextInList := rlistDel c.nextInList (.slab a) }.subTotal k (c.slab a).size

/-- `slab_list_add(&cache->allocated, slab, next_in_cache)`. -/
def SlabCache.allocatedAdd (a : Nat) : SlabCache :=
  { c with
    nextInCache := rlistAdd c.nextInCache .allocated (.slab a)
    allocated := { c.allocated with total := c.allocated.total + (c.slab a).size } }

/-- `slab_list_del(&cache->allocated, slab, next_in_cache)`. -/
def SlabCache.allocatedDel (a : Nat) : SlabCache :=
  { c with
    nextInCache := rlistDel c.nextInCache (.slab a)
    allocated := { c.allocated with total := c.allocated.total - (c.slab a).size } }

/-- `slab_assert`, less the thread check. -/
def slabAssert (a : Nat) : Option Unit := do
  let s := c.slab a
  guard (s.magic = slabMagic)
  guard (s.order ≤ g.orderMax + 1)
  if s.order ≤ g.orderMax then
    let size := g.slabOrderSize s.order
    guard (s.size = size)
    guard (a % size = 0)

def slabSetFree (a : Nat) : Option SlabCache := do
  let s := c.slab a
  guard (s.inUse = s.order + 1)
  let c := { c with allocated := { c.allocated with used := c.allocated.used - s.size } }
  let c := c.setOrder s.order { c.orders s.order with used := (c.orders s.order).used - s.size }
  some (c.setSlab a { s with inUse := 0 })

def slabSetUsed (a : Nat) : SlabCache :=
  let s := c.slab a
  let c := { c with allocated := { c.allocated with used := c.allocated.used + s.size } }
  let c := c.setOrder s.order { c.orders s.order with used := (c.orders s.order).used + s.size }
  c.setSlab a { s with inUse := 1 + s.order }

def slabIsFree (a : Nat) : Bool := (c.slab a).inUse = 0

/-- `slab_poison` of a debug build: `memset` over the data of the slab, so over every header that
could be read there. -/
def slabPoison (a : Nat) : SlabCache :=
  let hit : Nat → Bool := fun x => a + slabSizeof ≤ x && x < a + (c.slab a).size
  let junk : Links SlabNode → Links SlabNode := fun l =>
    { next := fun n => match n with
        | .slab x => if hit x then .slab 0x5050505050505050 else l.next n
        | n => l.next n
      prev := fun n => match n with
        | .slab x => if hit x then .slab 0x5050505050505050 else l.prev n
        | n => l.prev n }
  { c with
    slab := fun x => if hit x then Slab.poisoned else c.slab x
    nextInCache := junk c.nextInCache
    nextInList := junk c.nextInList }

def slabCreate (a order size : Nat) : SlabCache :=
  c.setSlab a { magic := slabMagic, order := order, inUse := 0, size := size }

/-- `slab_buddy`; the inner `none` is `NULL`. -/
def slabBuddy (a : Nat) : Option (Option Nat) := do
  guard ((c.slab a).order ≤ g.orderMax)
  if (c.slab a).order = g.orderMax then some none
  else some (some (a ^^^ g.slabOrderSize (c.slab a).order))

def slabSplit (a : Nat) : Option (Nat × SlabCache) := do
  guard ((c.slab a).order > 0)
  let newOrder := (c.slab a).order - 1
  guard (newOrder ≤ g.orderMax)
  let newSize := g.slabOrderSize newOrder
  let c := slabCreate c a newOrder newSize
  -- `a` is not of the largest order any more, so the buddy is never `NULL`
  match ← slabBuddy g c a with
  | none => none
  | some buddy =>
    let c := slabCreate c buddy newOrder newSize
    let c := c.ordersAdd (c.slab buddy).order buddy
    some (a, c)

def slabMerge (a buddy : Nat) : Option (Nat × SlabCache) := do
  guard ((← slabBuddy g c a) = some buddy)
  let merged := if a > buddy then buddy else a
  let c := c.ordersDel (c.slab buddy).order buddy
  let c := c.setSlab merged { c.slab merged with order := (c.slab merged).order + 1 }
  guard ((c.slab merged).order ≤ g.orderMax)
  let c := c.setSlab merged { c.slab merged with size := g.slabOrderSize (c.slab merged).order }
  some (merged, c)

end Helpers

/-! ## `slab_get` -/

section Get

variable (g : Geometry)

/-- `slab_map`: the answer of the arena, recorded. -/
def slabMap (c : SlabCache) (answer : Option Nat) : Option Nat × SlabCache :=
  match answer with
  | none => (none, c)
  | some a => (some a, { c with maps := a :: c.maps })

/-- The search loop of `slab_get_with_order`: the first list from `orders[k]` on that is not
empty, `n` lists before the last. The last one is filled from the arena when it is empty. -/
def slabFindList (answer : Option Nat) : Nat → Nat → SlabCache → Option Nat × SlabCache
  | 0, k, c =>
    if rlistEmpty c.nextInList (.orders k) then
      match slabMap c answer with
      | (none, c) => (none, c)
      | (some a, c) =>
        let c := slabCreate c a g.orderMax g.slabSize
        let c := slabPoison c a
        let c := c.allocatedAdd a
        let c := c.ordersAdd k a
        (some k, c)
    else (some k, c)
  | n + 1, k, c =>
    if rlistEmpty c.nextInList (.orders k) then slabFindList answer n (k + 1) c
    else (some k, c)

/-- The `do`/`while` loop that splits a slab down to `order`; it makes `fuel` rounds at most. -/
def slabSplitLoop (order : Nat) : Nat → SlabCache → Nat → Option (Nat × SlabCache)
  | 0, _, _ => none
  | fuel + 1, c, a => do
    let (a, c) ← slabSplit g c a
    if (c.slab a).order ≠ order then slabSplitLoop order fuel c a
    else some (a, c)

/-- The address of the slab whose `next_in_list` is the given node. -/
def slabOfNode : SlabNode → Option Nat
  | .slab a => some a
  | _ => none

/-- The branch of `slab_get_with_order` that gets a slab of the right order from the slab `a`,
shifted from `orders[k]`. -/
def slabFitOrder (order k : Nat) (c : SlabCache) (a : Nat) : Option (Nat × SlabCache) :=
  if (c.slab a).order ≠ order then do
    -- the size of this slab is not billed to `k`, to prevent double accounting
    let c := c.subTotal k (c.slab a).size
    let (a, c) ← slabSplitLoop g order (g.orderMax + 1) c a
    some (a, c.addTotal (c.slab a).order (c.slab a).size)
  else some (a, c)

def slabGetWithOrder (c : SlabCache) (order : Nat) (answer : Option Nat) :
    Option (Option Nat × SlabCache) := do
  guard (order ≤ g.orderMax)
  match slabFindList g answer (g.orderMax - order) order c with
  | (none, c) => some (none, c)
  | (some k, c) =>
    let (node, links) := rlistShift c.nextInList (.orders k)
    let a ← slabOfNode node
    let (a, c) ← slabFitOrder g order k { c with nextInList := links } a
    let c := slabSetUsed c a
    slabAssert g c a
    some (some a, c)

/-- `slab_get_large`. The answer is what the quota and `malloc` give together. -/
def slabGetLarge (c : SlabCache) (size : Nat) (answer : Option Nat) : Option Nat × SlabCache :=
  let size := (size + slabSizeof) % sizeMax
  match answer with
  | none => (none, c)
  | some a =>
    let c := slabCreate c a (g.orderMax + 1) size
    let c := c.allocatedAdd a
    (some a, { c with allocated := { c.allocated with used := c.allocated.used + size } })

def slabGet (c : SlabCache) (size : Nat) (answer : Option Nat) :
    Option (Option Nat × SlabCache) := do
  let order := g.slabOrder ((size + slabSizeof) % sizeMax)
  let (r, c) ←
    if order = g.orderMax + 1 then some (slabGetLarge g c size answer)
    else slabGetWithOrder g c order answer
  match r with
  | none => some (none, c)
  | some a =>
    guard ((c.slab a).size = g.slabRealSize size)
    some (some a, c)

end Get

/-! ## `slab_put` -/

section Put

variable (g : Geometry)

/-- The test that guards both the merge branch and its loop. -/
def canMerge (c : SlabCache) (a : Nat) : Option Nat → Bool
  | none => false
  | some buddy => (c.slab buddy).order = (c.slab a).order && slabIsFree c buddy

/-- The `do`/`while` loop that merges a slab with its buddies; it makes `fuel` rounds at most. -/
def slabMergeLoop : Nat → SlabCache → Nat → Nat → Option (Nat × SlabCache)
  | 0, _, _, _ => none
  | fuel + 1, c, a, buddy => do
    let (a, c) ← slabMerge g c a buddy
    match ← slabBuddy g c a with
    | none => some (a, c)
    | some buddy =>
      if canMerge c a (some buddy) then slabMergeLoop fuel c a buddy
      else some (a, c)

/-- The branch of `slab_put_with_order` that merges the freed slab `a` with its buddies. -/
def slabMergeBuddies (c : SlabCache) (a : Nat) : Option (Nat × SlabCache) := do
  match ← slabBuddy g c a with
  | none => some (a, c)
  | some buddy =>
    if canMerge c a (some buddy) then do
      let c := c.subTotal (c.slab a).order (c.slab a).size
      let (a, c) ← slabMergeLoop g (g.orderMax + 1) c a buddy
      some (a, c.addTotal (c.slab a).order (c.slab a).size)
    else some (a, c)

/-- `slab_unmap`, recorded. -/
def slabUnmap (c : SlabCache) (a : Nat) : SlabCache := { c with unmaps := a :: c.unmaps }

/-- The end of `slab_put_with_order`: the slab goes to the arena if it is a whole arena slab and
the cache has another free one, else on its free list. -/
def slabPutBack (c : SlabCache) (a : Nat) : Option SlabCache :=
  if (c.slab a).order = g.orderMax ∧ !rlistEmpty c.nextInList (.orders (c.slab a).order) then do
    guard ((c.slab a).size = g.slabSize)
    let c := c.allocatedDel a
    let c := c.subTotal (c.slab a).order (c.slab a).size
    some (slabUnmap c a)
  else
    some { c with nextInList := rlistAdd c.nextInList (.orders (c.slab a).order) (.slab a) }

def slabPutWithOrder (c : SlabCache) (a : Nat) : Option SlabCache := do
  slabAssert g c a
  guard ((c.slab a).order ≤ g.orderMax)
  let c ← slabSetFree c a
  let (a, c) ← slabMergeBuddies g c a
  slabPutBack g (slabPoison c a) a

def slabPutLarge (c : SlabCache) (a : Nat) : Option SlabCache := do
  slabAssert g c a
  guard ((c.slab a).order = g.orderMax + 1)
  let slabSize := (c.slab a).size
  let c := c.allocatedDel a
  let c := { c with allocated := { c.allocated with used := c.allocated.used - slabSize } }
  some (slabPoison c a)

def slabPut (c : SlabCache) (a : Nat) : Option SlabCache :=
  if (c.slab a).order ≤ g.orderMax then slabPutWithOrder g c a else slabPutLarge g c a

end Put

/-- `slab_cache_used`. -/
def slabCacheUsed (c : SlabCache) : Nat := c.allocated.used

/-! ## `slab_cache_check` -/

section Check

variable (g : Geometry) (c : SlabCache)

/-- The local variables of `slab_cache_check`. -/
structure CheckState where
  total : Nat
  used : Nat
  ordered : Nat
  huge : Nat
  dontPanic : Bool

/-- The body of the loop over the allocated slabs. -/
def checkSlab (st : CheckState) (a : Nat) : Option CheckState :=
  let s := c.slab a
  let st := { st with dontPanic := st.dontPanic && s.magic = slabMagic }
  if s.order = g.orderMax + 1 then
    some { st with huge := st.huge + s.size, used := st.used + s.size, total := st.total + s.size }
  else do
    guard (s.order ≤ g.orderMax)
    -- the slab may have been split, so its own size is not the size of the arena slab
    some { st with
      dontPanic := st.dontPanic && s.size = g.slabOrderSize s.order
      total := st.total + g.slabOrderSize g.orderMax }

/-- The body of the loop over `orders`; the variable `order` is a `uint8_t` that gets a size. -/
def checkOrder (st : CheckState) (k : Nat) : Option CheckState := do
  let order := g.slabOrderSize k % 256
  guard (order ≤ g.orderMax)
  some { st with
    ordered := st.ordered + (c.orders k).total
    used := st.used + (c.orders k).used
    dontPanic := st.dontPanic && (c.orders k).total % g.slabOrderSize order = 0 &&
      (c.orders k).used % g.slabOrderSize order = 0 }

/-- `slab_cache_check`: `some false` is `abort()`. The list is walked in at most `fuel` steps. -/
def slabCacheCheck (fuel : Nat) : Option Bool := do
  let nodes ← rlistForeach c.nextInCache .allocated fuel (c.nextInCache.next .allocated)
  let slabs ← nodes.mapM slabOfNode
  let st : CheckState := { total := 0, used := 0, ordered := 0, huge := 0, dontPanic := true }
  let st ← slabs.foldlM (checkSlab g c) st
  let st := { st with dontPanic := st.dontPanic && st.total = c.allocated.total }
  let st ← (List.range (g.orderMax + 1)).foldlM (checkOrder g c) st
  some (st.dontPanic && st.ordered + st.huge = st.total && st.used = c.allocated.used)

end Check

end SmallAllocators
