import FluxOs.Kernel.Mem
import FluxOs.Lib.LinkedLists

/-!
# The free list in memory

What a write to one header does to the others, and the edits of the free list: `memRemoveFromFreeList`
unlinks a node and `memAddToFreeList` inserts one at its place, as `LinkedLists` does abstractly.
-/

namespace FluxOs

open ByteMemory LinkedLists

/-- Two headers do not overlap. -/
def Separate (p q : UInt64) : Prop :=
  p.toNat + memBlockBytes.toNat ≤ q.toNat ∨ q.toNat + memBlockBytes.toNat ≤ p.toNat

/-- The addresses of headers that do not overlap; none is `NULL`. -/
structure Apart (A : List UInt64) : Prop where
  ne_zero : ∀ p ∈ A, p ≠ 0
  separate : ∀ p ∈ A, ∀ q ∈ A, p ≠ q → Separate p q

/-- A header without the links of the free list. -/
def MemBlock.unlinked (b : MemBlock) : MemBlock := { b with next := 0, prev := 0 }

theorem MemBlock.unlinked_next (b : MemBlock) (y : UInt64) :
    MemBlock.unlinked { b with next := y } = b.unlinked := rfl

theorem MemBlock.unlinked_prev (b : MemBlock) (x : UInt64) :
    MemBlock.unlinked { b with prev := x } = b.unlinked := rfl

namespace MemHeap

variable {h h' h'' : MemHeap} {A B k l : List UInt64} {p q x y a : UInt64} {f : MemBlock → MemBlock}

/-! ## Headers -/

@[simp] theorem block_modifyBlock_self : (h.modifyBlock p f).block p = f (h.block p) := by
  unfold block modifyBlock
  rw [← MemBlock.length_encode, read_write, MemBlock.decode_encode]
  rfl

theorem block_modifyBlock_of_separate (hpq : Separate p q) :
    (h.modifyBlock p f).block q = h.block q := by
  unfold block modifyBlock
  rw [read_write_of_disjoint]
  rw [MemBlock.length_encode]
  exact hpq.symm

theorem block_modifyBlock (hA : Apart A) (hp : p ∈ A) (hq : q ∈ A) :
    (h.modifyBlock p f).block q = if q = p then f (h.block q) else h.block q := by
  split_ifs with hqp
  · rw [hqp, block_modifyBlock_self]
  · exact block_modifyBlock_of_separate (hA.separate p hp q hq (Ne.symm hqp))

/-- Headers do not see other variables. -/
theorem block_congr {h' : MemHeap} (hmem : h'.mem = h.mem) : h'.block q = h.block q := by
  unfold block
  rw [hmem]

/-! ## Links -/

/-- The next node of the free list, the first one for `NULL`. -/
def nextOf (h : MemHeap) (p : UInt64) : UInt64 := if p = 0 then h.freeList else (h.block p).next

/-- The previous node of the free list. -/
def prevOf (h : MemHeap) (p : UInt64) : UInt64 := (h.block p).prev

/-- The nodes of the free list. -/
def FreeListIs (h : MemHeap) (l : List UInt64) : Prop := Linked 0 h.nextOf h.prevOf l

/-- Store the successor of a node, or the first node for `NULL`. -/
def setNext (h : MemHeap) (x y : UInt64) : MemHeap :=
  if x ≠ 0 then h.modifyBlock x fun b => { b with next := y } else { h with freeList := y }

/-- Store the predecessor of a node, if it is one. -/
def setPrev (h : MemHeap) (y x : UInt64) : MemHeap :=
  if y ≠ 0 then h.modifyBlock y fun b => { b with prev := x } else h

theorem block_setNext (hA : Apart A) (hx : x ∈ 0 :: A) (hq : q ∈ A) :
    (h.setNext x y).block q = if q = x then { h.block q with next := y } else h.block q := by
  unfold setNext
  by_cases hx0 : x = 0
  · rw [if_neg (not_not.2 hx0), if_neg (hx0 ▸ hA.ne_zero q hq)]
    rfl
  · rw [if_pos hx0]
    exact block_modifyBlock hA (List.mem_of_ne_of_mem hx0 hx) hq

theorem block_setPrev (hA : Apart A) (hy : y ∈ 0 :: A) (hq : q ∈ A) :
    (h.setPrev y x).block q = if q = y then { h.block q with prev := x } else h.block q := by
  unfold setPrev
  by_cases hy0 : y = 0
  · rw [if_neg (not_not.2 hy0), if_neg (hy0 ▸ hA.ne_zero q hq)]
  · rw [if_pos hy0]
    exact block_modifyBlock hA (List.mem_of_ne_of_mem hy0 hy) hq

@[simp] theorem freeList_modifyBlock : (h.modifyBlock p f).freeList = h.freeList := rfl

theorem freeList_setNext : (h.setNext x y).freeList = if x = 0 then y else h.freeList := by
  unfold setNext
  by_cases hx0 : x = 0
  · simp [hx0]
  · simp [hx0]

@[simp] theorem freeList_setPrev : (h.setPrev y x).freeList = h.freeList := by
  unfold setPrev
  split_ifs <;> rfl

theorem nextOf_setNext {u : UInt64} (hA : Apart A) (hx : x ∈ 0 :: A) (hu : u ∈ 0 :: A) :
    (h.setNext x y).nextOf u = Function.update h.nextOf x y u := by
  unfold nextOf
  by_cases hu0 : u = 0
  · rw [if_pos hu0, freeList_setNext, Function.update_apply]
    simp only [hu0, eq_comm (a := x), if_true]
  · rw [if_neg hu0, block_setNext hA hx (List.mem_of_ne_of_mem hu0 hu), Function.update_apply]
    split_ifs <;> rfl

theorem prevOf_setNext {u : UInt64} (hA : Apart A) (hx : x ∈ 0 :: A) (hu : u ∈ A) :
    (h.setNext x y).prevOf u = h.prevOf u := by
  unfold prevOf
  rw [block_setNext hA hx hu]
  split_ifs <;> rfl

theorem nextOf_setPrev {u : UInt64} (hA : Apart A) (hy : y ∈ 0 :: A) (hu : u ∈ 0 :: A) :
    (h.setPrev y x).nextOf u = h.nextOf u := by
  unfold nextOf
  by_cases hu0 : u = 0
  · rw [if_pos hu0, if_pos hu0, freeList_setPrev]
  · rw [if_neg hu0, if_neg hu0, block_setPrev hA hy (List.mem_of_ne_of_mem hu0 hu)]
    split_ifs <;> rfl

theorem prevOf_setPrev {u : UInt64} (hA : Apart A) (hy : y ∈ 0 :: A) (hu : u ∈ A) :
    (h.setPrev y x).prevOf u = Function.update h.prevOf y x u := by
  unfold prevOf
  rw [block_setPrev hA hy hu, Function.update_apply]
  split_ifs <;> rfl

theorem unlinked_setNext (hA : Apart A) (hx : x ∈ 0 :: A) (hq : q ∈ A) :
    ((h.setNext x y).block q).unlinked = (h.block q).unlinked := by
  rw [block_setNext hA hx hq]
  split_ifs
  · exact MemBlock.unlinked_next ..
  · rfl

theorem unlinked_setPrev (hA : Apart A) (hy : y ∈ 0 :: A) (hq : q ∈ A) :
    ((h.setPrev y x).block q).unlinked = (h.block q).unlinked := by
  rw [block_setPrev hA hy hq]
  split_ifs
  · exact MemBlock.unlinked_prev ..
  · rfl

/-- A write to the links leaves the rest of all headers. -/
theorem unlinked_modifyBlock (hA : Apart A) (ha : a ∈ A) (hq : q ∈ A)
    (hf : ∀ b, (f b).unlinked = b.unlinked) :
    ((h.modifyBlock a f).block q).unlinked = (h.block q).unlinked := by
  rw [block_modifyBlock hA ha hq]
  split_ifs
  · exact hf _
  · rfl

/-- A write to another header leaves the links of a node. -/
theorem nextOf_modifyBlock {u : UInt64} (hA : Apart A) (ha : a ∈ A) (hu : u ∈ 0 :: A) (hua : u ≠ a) :
    (h.modifyBlock a f).nextOf u = h.nextOf u := by
  unfold nextOf
  by_cases hu0 : u = 0
  · rw [if_pos hu0, if_pos hu0, freeList_modifyBlock]
  · rw [if_neg hu0, if_neg hu0, block_modifyBlock hA ha (List.mem_of_ne_of_mem hu0 hu), if_neg hua]

theorem prevOf_modifyBlock {u : UInt64} (hA : Apart A) (ha : a ∈ A) (hu : u ∈ A) (hua : u ≠ a) :
    (h.modifyBlock a f).prevOf u = h.prevOf u := by
  unfold prevOf
  rw [block_modifyBlock hA ha hu, if_neg hua]

/-- A list in which no node's links have changed is the same list. -/
theorem FreeListIs.congr {h' : MemHeap} (hlist : h.FreeListIs l)
    (hnext : ∀ u ∈ 0 :: l, h'.nextOf u = h.nextOf u) (hprev : ∀ u ∈ l, h'.prevOf u = h.prevOf u) :
    h'.FreeListIs l :=
  Linked.congr hlist hnext hprev

/-- A write to a header that keeps its links keeps the list. -/
theorem FreeListIs.modifyBlock (hlist : h.FreeListIs l) (hA : Apart A) (ha : a ∈ A) (hl : ∀ p ∈ l, p ∈ A)
    (hnext : ∀ b, (f b).next = b.next) (hprev : ∀ b, (f b).prev = b.prev) :
    (h.modifyBlock a f).FreeListIs l := by
  refine hlist.congr (fun u hu => ?_) (fun u hu => ?_)
  · unfold nextOf
    rcases List.mem_cons.1 hu with rfl | hu
    · rw [if_pos rfl, if_pos rfl, freeList_modifyBlock]
    · rw [if_neg (hA.ne_zero u (hl u hu)), if_neg (hA.ne_zero u (hl u hu)),
        block_modifyBlock hA ha (hl u hu)]
      split_ifs
      · exact hnext _
      · rfl
  · unfold prevOf
    rw [block_modifyBlock hA ha (hl u hu)]
    split_ifs
    · exact hprev _
    · rfl

/-! ## Writes to headers -/

/-- Only bytes of the headers at `A` are written, and the memory map stays. -/
structure WritesIn (A : List UInt64) (h h' : MemHeap) : Prop where
  mem i : (∀ p ∈ A, i < p.toNat ∨ p.toNat + memBlockBytes.toNat ≤ i) → h'.mem i = h.mem i
  memMap : h'.memMap = h.memMap

namespace WritesIn

theorem refl (A : List UInt64) (h : MemHeap) : WritesIn A h h := ⟨fun _ _ => rfl, rfl⟩

theorem trans (hw : WritesIn A h h') (hw' : WritesIn A h' h'') : WritesIn A h h'' :=
  ⟨fun i hi => (hw'.mem i hi).trans (hw.mem i hi), hw'.memMap.trans hw.memMap⟩

theorem mono (hw : WritesIn A h h') (hAB : A ⊆ B) : WritesIn B h h' :=
  ⟨fun i hi => hw.mem i fun p hp => hi p (hAB hp), hw.memMap⟩

theorem modifyBlock (hw : WritesIn A h h') (hp : p ∈ A) : WritesIn A h (h'.modifyBlock p f) := by
  refine ⟨fun i hi => ?_, hw.memMap⟩
  have hout : (h'.modifyBlock p f).mem i = h'.mem i := by
    refine write_of_outside ?_
    rw [MemBlock.length_encode]
    exact hi p hp
  exact hout.trans (hw.mem i hi)

theorem setNext (hw : WritesIn A h h') (hx : x ∈ 0 :: A) : WritesIn A h (h'.setNext x y) := by
  unfold MemHeap.setNext
  split_ifs with hx0
  · exact hw.modifyBlock (List.mem_of_ne_of_mem hx0 hx)
  · exact ⟨hw.mem, hw.memMap⟩

theorem setPrev (hw : WritesIn A h h') (hy : y ∈ 0 :: A) : WritesIn A h (h'.setPrev y x) := by
  unfold MemHeap.setPrev
  split_ifs with hy0
  · exact hw.modifyBlock (List.mem_of_ne_of_mem hy0 hy)
  · exact hw

end WritesIn

/-! ## Removing a node -/

theorem memRemoveFromFreeList_eq (hA : Apart A) (ha : a ∈ A) (hx : h.prevOf a ∈ 0 :: A)
    (hxa : h.prevOf a ≠ a) :
    h.memRemoveFromFreeList a =
      ((h.setNext (h.prevOf a) (h.block a).next).setPrev (h.block a).next (h.prevOf a)).modifyBlock a
        fun b => { b with next := 0, prev := 0 } := by
  have hblock : (h.setNext (h.prevOf a) (h.block a).next).block a = h.block a := by
    rw [block_setNext hA hx ha, if_neg hxa.symm]
  have heq : h.memRemoveFromFreeList a =
      ((h.setNext (h.prevOf a) (h.block a).next).setPrev
        ((h.setNext (h.prevOf a) (h.block a).next).block a).next
        ((h.setNext (h.prevOf a) (h.block a).next).block a).prev).modifyBlock a
          fun b => { b with next := 0, prev := 0 } := rfl
  rw [heq, hblock]
  rfl

/-- The links of a node lead to other nodes, or nowhere. -/
theorem links_of_node (hA : Apart A) (hl : ∀ p ∈ k ++ a :: l, p ∈ A) (hn : (k ++ a :: l).Nodup)
    (hlist : h.FreeListIs (k ++ a :: l)) :
    h.prevOf a ∈ 0 :: A ∧ h.nextOf a ∈ 0 :: A ∧ h.prevOf a ≠ a := by
  have ha : a ∈ A := hl a (by simp)
  have hx : h.prevOf a = k.getLastD 0 := Linked.prev_node hlist (hA.ne_zero a ha)
  have hy : h.nextOf a = l.headD 0 := Linked.next_node hlist
  have hkA : k ⊆ A := fun p hp => hl p (List.mem_append_left _ hp)
  have hlA : l ⊆ A := fun p hp => hl p (List.mem_append_right _ (List.mem_cons_of_mem _ hp))
  have hka : a ∉ k := fun hmem => (List.nodup_middle.1 hn).notMem (List.mem_append_left _ hmem)
  refine ⟨hx ▸ List.cons_subset_cons 0 hkA (getLastD_mem 0 k), hy ▸ List.cons_subset_cons 0 hlA (headD_mem 0 l), ?_⟩
  rw [hx]
  intro hlast
  rcases List.mem_cons.1 (hlast ▸ getLastD_mem 0 k) with h0 | hmem
  · exact hA.ne_zero a ha h0
  · exact hka hmem

/-- The free list loses the node, and no header changes besides its links. -/
theorem freeListIs_remove (hA : Apart A) (hl : ∀ p ∈ k ++ a :: l, p ∈ A) (hn : (k ++ a :: l).Nodup)
    (hlist : h.FreeListIs (k ++ a :: l)) :
    (h.memRemoveFromFreeList a).FreeListIs (k ++ l) ∧
      (∀ q ∈ A, ((h.memRemoveFromFreeList a).block q).unlinked = (h.block q).unlinked) ∧
      WritesIn (k ++ a :: l) h (h.memRemoveFromFreeList a) := by
  have ha : a ∈ A := hl a (by simp)
  have hn0 : (0 :: (k ++ a :: l)).Nodup :=
    List.nodup_cons.2 ⟨fun h0 => hA.ne_zero 0 (hl 0 h0) rfl, hn⟩
  have hx : h.prevOf a = k.getLastD 0 := Linked.prev_node hlist (hA.ne_zero a ha)
  have hnext : (h.block a).next = h.nextOf a := by rw [nextOf, if_neg (hA.ne_zero a ha)]
  have hy : h.nextOf a = l.headD 0 := Linked.next_node hlist
  have hkA : k ⊆ A := fun p hp => hl p (List.mem_append_left _ hp)
  have hlA : l ⊆ A := fun p hp => hl p (List.mem_append_right _ (List.mem_cons_of_mem _ hp))
  obtain ⟨hxA, hyA, hxa⟩ := links_of_node hA hl hn hlist
  have hparts : (0 :: k).Nodup ∧ (a :: l).Nodup ∧ ∀ u ∈ 0 :: k, ∀ v ∈ a :: l, u ≠ v := by
    rwa [← List.cons_append, List.nodup_append] at hn0
  have hdisj (u : UInt64) (hu : u ∈ 0 :: (k ++ l)) : u ≠ a := by
    rw [← List.cons_append, List.mem_append] at hu
    rcases hu with hu | hu
    · exact hparts.2.2 u hu a List.mem_cons_self
    · intro hua
      exact (List.nodup_cons.1 hparts.2.1).1 (hua ▸ hu)
  have hsub : ∀ u ∈ 0 :: (k ++ l), u ∈ 0 :: A :=
    fun u hu => List.cons_subset_cons 0 (List.append_subset.2 ⟨hkA, hlA⟩) hu
  rw [memRemoveFromFreeList_eq hA ha hxA hxa, hnext]
  refine ⟨?_, ?_, ?_⟩
  · refine Linked.congr (hlist.unlink hn0) (fun u hu => ?_) (fun u hu => ?_)
    · rw [nextOf_modifyBlock hA ha (hsub u hu) (hdisj u hu), nextOf_setPrev hA hyA (hsub u hu),
        nextOf_setNext hA hxA (hsub u hu)]
    · have hu0 := List.mem_cons_of_mem 0 hu
      have huA : u ∈ A := List.append_subset.2 ⟨hkA, hlA⟩ hu
      rw [prevOf_modifyBlock hA ha huA (hdisj u hu0), prevOf_setPrev hA hyA huA, Function.update_apply,
        Function.update_apply, prevOf_setNext hA hxA huA]
  · intro q hq
    rw [unlinked_modifyBlock hA ha hq, unlinked_setPrev hA hyA hq, unlinked_setNext hA hxA hq]
    exact fun _ => rfl
  · rw [hx, hy]
    have hk : 0 :: k ⊆ 0 :: (k ++ a :: l) := List.cons_subset_cons 0 (List.subset_append_left ..)
    have hl : 0 :: l ⊆ 0 :: (k ++ a :: l) :=
      List.cons_subset_cons 0 fun p hp => List.mem_append_right _ (List.mem_cons_of_mem _ hp)
    exact (((WritesIn.refl _ h).setNext (hk (getLastD_mem 0 k))).setPrev
      (hl (headD_mem 0 l))).modifyBlock (by simp)

/-! ## Inserting a node -/

/-- The loop over the nodes below the new one stops between the two parts of the list. -/
theorem insertionPoint_eq {m : List UInt64} {fuel : Nat} (hlist : h.FreeListIs (k ++ m ++ l))
    (hk : ∀ p ∈ m, p ≠ 0 ∧ p < a) (hl : ∀ p ∈ l, ¬ p < a) (hfuel : m.length < fuel) :
    h.insertionPoint a fuel (k.getLastD 0) ((m ++ l).headD 0) =
      some ((k ++ m).getLastD 0, l.headD 0) := by
  obtain ⟨fuel, rfl⟩ : ∃ j, fuel = j + 1 := ⟨fuel - 1, by omega⟩
  induction m generalizing k fuel with
  | nil =>
    have hstop : ¬(l.headD 0 ≠ 0 ∧ l.headD 0 < a) := by
      rintro ⟨h0, hlt⟩
      rcases headD_eq_or_mem 0 l with hnull | hmem
      · exact h0 hnull
      · exact hl _ hmem hlt
    rw [insertionPoint, List.nil_append, if_neg hstop, List.append_nil]
  | cons b m ih =>
    have hb := hk b List.mem_cons_self
    have hnext : (h.block b).next = (m ++ l).headD 0 := by
      have hb' : h.FreeListIs (k ++ b :: (m ++ l)) := by simpa using hlist
      have := Linked.next_node hb'
      rwa [nextOf, if_neg hb.1] at this
    rw [insertionPoint, List.cons_append, List.headD_cons, if_pos hb, hnext]
    obtain ⟨fuel, rfl⟩ : ∃ j, fuel = j + 1 := ⟨fuel - 1, by simp at hfuel; omega⟩
    have := ih (k := k ++ [b]) (by simpa using hlist) (fun p hp => hk p (List.mem_cons_of_mem _ hp)) fuel
      (by simp at hfuel; omega)
    simpa using this

/-- The header that `mem_add_to_free_list` starts from. -/
def clearedForList (b : MemBlock) : MemBlock := { b with flags := memBlockFree, next := 0, prev := 0 }

/-- Link the node `a` between `x` and `y`, as `mem_add_to_free_list` does. -/
def linkBetween (h : MemHeap) (x a y : UInt64) : MemHeap :=
  (if x ≠ 0 then
    (h.modifyBlock x fun p => { p with next := a }).modifyBlock a fun b => { b with prev := x }
  else { h with freeList := a }).modifyBlock a (fun b => { b with next := y }) |>.setPrev y a

theorem linkBetween_eq (ha : a ≠ 0) : h.linkBetween x a y =
    (((h.setNext x a).setPrev (if x = 0 then 0 else a) x).setNext a y).setPrev y a := by
  unfold linkBetween setNext setPrev
  by_cases hx : x = 0
  · simp [hx, ha]
  · simp [hx, ha]

theorem memAddToFreeList_of_nil (hnil : h.freeList = 0) :
    h.memAddToFreeList a = some { h.modifyBlock a clearedForList with freeList := a } := by
  have h0 : (h.modifyBlock a clearedForList).freeList = 0 := hnil
  rw [memAddToFreeList]
  exact if_pos h0

theorem memAddToFreeList_of_point (hcons : h.freeList ≠ 0)
    (hpoint : (h.modifyBlock a clearedForList).insertionPoint a walkFuel 0 h.freeList = some (x, y)) :
    h.memAddToFreeList a = some ((h.modifyBlock a clearedForList).linkBetween x a y) := by
  have h0 : (h.modifyBlock a clearedForList).freeList ≠ 0 := hcons
  rw [memAddToFreeList]
  refine (if_neg h0).trans ?_
  have hpoint' : (h.modifyBlock a clearedForList).insertionPoint a walkFuel 0
      (h.modifyBlock a clearedForList).freeList = some (x, y) := hpoint
  exact congrArg (fun o : Option (UInt64 × UInt64) => o.bind fun point =>
    some ((h.modifyBlock a clearedForList).linkBetween point.1 a point.2)) hpoint'

/-- The node whose back link is set first is the new one, or none. -/
theorem ite_zero_mem (ha : a ∈ A) : (if x = 0 then 0 else a) ∈ 0 :: A := by
  split_ifs
  · exact List.mem_cons_self
  · exact List.mem_cons_of_mem _ ha

theorem writesIn_linkBetween (hx : x ∈ 0 :: A) (ha : a ∈ A) (hy : y ∈ 0 :: A) (ha0 : a ≠ 0) :
    WritesIn A h (h.linkBetween x a y) := by
  rw [linkBetween_eq ha0]
  have ha' : a ∈ 0 :: A := List.mem_cons_of_mem _ ha
  exact ((((WritesIn.refl A h).setNext hx).setPrev (ite_zero_mem ha)).setNext ha').setPrev hy

theorem nextOf_linkBetween {u : UInt64} (hA : Apart A) (ha : a ∈ A) (hx : x ∈ 0 :: A) (hy : y ∈ 0 :: A)
    (hu : u ∈ 0 :: A) :
    (h.linkBetween x a y).nextOf u = Function.update (Function.update h.nextOf x a) a y u := by
  have ha' : a ∈ 0 :: A := List.mem_cons_of_mem _ ha
  have hw : (if x = 0 then 0 else a) ∈ 0 :: A := ite_zero_mem ha
  rw [linkBetween_eq (hA.ne_zero a ha), nextOf_setPrev hA hy hu, nextOf_setNext hA ha' hu,
    Function.update_apply, Function.update_apply, nextOf_setPrev hA hw hu, nextOf_setNext hA hx hu]

theorem prevOf_linkBetween {u : UInt64} (hA : Apart A) (ha : a ∈ A) (hx : x ∈ 0 :: A) (hy : y ∈ 0 :: A)
    (hya : y ≠ a) (hcleared : h.prevOf a = 0) (hu : u ∈ A) :
    (h.linkBetween x a y).prevOf u = Function.update (Function.update h.prevOf y a) a x u := by
  have ha' : a ∈ 0 :: A := List.mem_cons_of_mem _ ha
  have hw : (if x = 0 then 0 else a) ∈ 0 :: A := ite_zero_mem ha
  rw [linkBetween_eq (hA.ne_zero a ha), prevOf_setPrev hA hy hu, Function.update_apply,
    prevOf_setNext hA ha' hu, prevOf_setPrev hA hw hu, Function.update_apply, prevOf_setNext hA hx hu,
    Function.update_apply, Function.update_apply]
  by_cases hua : u = a
  · rw [if_pos hua, if_neg (hua ▸ hya.symm), hua]
    by_cases hx0 : x = 0
    · rw [if_pos hx0, if_neg (hA.ne_zero a ha), hcleared, hx0]
    · rw [if_neg hx0, if_pos rfl]
  · have huw : u ≠ if x = 0 then 0 else a := by
      split_ifs
      · exact hA.ne_zero u hu
      · exact hua
    rw [if_neg hua, if_neg huw]

theorem unlinked_linkBetween (hA : Apart A) (ha : a ∈ A) (hx : x ∈ 0 :: A) (hy : y ∈ 0 :: A)
    (hq : q ∈ A) : ((h.linkBetween x a y).block q).unlinked = (h.block q).unlinked := by
  have ha' : a ∈ 0 :: A := List.mem_cons_of_mem _ ha
  have hw : (if x = 0 then 0 else a) ∈ 0 :: A := ite_zero_mem ha
  rw [linkBetween_eq (hA.ne_zero a ha), unlinked_setPrev hA hy hq, unlinked_setNext hA ha' hq,
    unlinked_setPrev hA hw hq, unlinked_setNext hA hx hq]

/-- Clearing the header of a node that is not on the list keeps the list. -/
theorem freeListIs_cleared (hA : Apart A) (hl : ∀ p ∈ k ++ a :: l, p ∈ A) (hn : (k ++ a :: l).Nodup)
    (hlist : h.FreeListIs (k ++ l)) : (h.modifyBlock a clearedForList).FreeListIs (k ++ l) := by
  have ha : a ∈ A := hl a (by simp)
  have hsub : k ++ l ⊆ A := fun p hp => hl p ((List.mem_append.1 hp).elim (List.mem_append_left _)
    fun hp => List.mem_append_right _ (List.mem_cons_of_mem _ hp))
  have hother (u : UInt64) (hu : u ∈ k ++ l) : u ≠ a := fun hua => (List.nodup_middle.1 hn).notMem (hua ▸ hu)
  refine hlist.congr (fun u hu => nextOf_modifyBlock hA ha (List.cons_subset_cons 0 hsub hu) ?_) fun u hu =>
    prevOf_modifyBlock hA ha (hsub hu) (hother u hu)
  rcases List.mem_cons.1 hu with rfl | hu
  · exact (hA.ne_zero a ha).symm
  · exact hother u hu

/-- The node comes on an empty list, or it is linked between the two parts of the list. -/
theorem memAddToFreeList_cases (hA : Apart A) (hl : ∀ p ∈ k ++ a :: l, p ∈ A) (hn : (k ++ a :: l).Nodup)
    (hbelow : ∀ p ∈ k, p < a) (habove : ∀ p ∈ l, ¬p < a) (hfuel : k.length < walkFuel)
    (hlist : h.FreeListIs (k ++ l)) :
    (h.memAddToFreeList a = some { h.modifyBlock a clearedForList with freeList := a } ∧ k = [] ∧ l = []) ∨
      h.memAddToFreeList a =
        some ((h.modifyBlock a clearedForList).linkBetween (k.getLastD 0) a (l.headD 0)) := by
  have hkA : k ⊆ A := fun p hp => hl p (List.mem_append_left _ hp)
  have hlA : l ⊆ A := fun p hp => hl p (List.mem_append_right _ (List.mem_cons_of_mem _ hp))
  have hlist0 := freeListIs_cleared hA hl hn hlist
  have hfirst : h.freeList = (k ++ l).headD 0 := ((linked_append (k := [])).1 hlist0).2.1.1
  by_cases hnil : h.freeList = 0
  · left
    have hkl : k ++ l = [] := by
      rcases hkl : k ++ l with _ | ⟨p, m⟩
      · rfl
      · have hp : p ∈ A := List.append_subset.2 ⟨hkA, hlA⟩ (hkl ▸ List.mem_cons_self)
        rw [hkl, hnil] at hfirst
        exact absurd hfirst.symm (hA.ne_zero p hp)
    exact ⟨memAddToFreeList_of_nil hnil, List.append_eq_nil_iff.1 hkl⟩
  · right
    refine memAddToFreeList_of_point hnil ?_
    rw [hfirst]
    exact insertionPoint_eq (k := []) hlist0 (fun p hp => ⟨hA.ne_zero p (hkA hp), hbelow p hp⟩) habove hfuel

/-- The free list gains the node at its place, and the header of the node is marked free. -/
theorem freeListIs_add (hA : Apart A) (hl : ∀ p ∈ k ++ a :: l, p ∈ A) (hn : (k ++ a :: l).Nodup)
    (hbelow : ∀ p ∈ k, p < a) (habove : ∀ p ∈ l, ¬p < a) (hfuel : k.length < walkFuel)
    (hlist : h.FreeListIs (k ++ l)) :
    ∃ h', h.memAddToFreeList a = some h' ∧ h'.FreeListIs (k ++ a :: l) ∧
      (∀ q ∈ A, (h'.block q).unlinked = ((h.modifyBlock a clearedForList).block q).unlinked) ∧
      WritesIn (k ++ a :: l) h h' := by
  have ha : a ∈ A := hl a (by simp)
  have hn0 : (0 :: (k ++ a :: l)).Nodup :=
    List.nodup_cons.2 ⟨fun h0 => hA.ne_zero 0 (hl 0 h0) rfl, hn⟩
  have hkA : k ⊆ A := fun p hp => hl p (List.mem_append_left _ hp)
  have hlA : l ⊆ A := fun p hp => hl p (List.mem_append_right _ (List.mem_cons_of_mem _ hp))
  have hxA : k.getLastD 0 ∈ 0 :: A := List.cons_subset_cons 0 hkA (getLastD_mem 0 k)
  have hyA : l.headD 0 ∈ 0 :: A := List.cons_subset_cons 0 hlA (headD_mem 0 l)
  have hlist0 := freeListIs_cleared hA hl hn hlist
  have hcleared : (h.modifyBlock a clearedForList).prevOf a = 0 := by
    rw [prevOf, block_modifyBlock_self]
    rfl
  rcases memAddToFreeList_cases hA hl hn hbelow habove hfuel hlist with ⟨hadd, rfl, rfl⟩ | hadd
  · have hcleared' : WritesIn ([] ++ a :: []) h (h.modifyBlock a clearedForList) :=
      (WritesIn.refl _ h).modifyBlock (by simp)
    refine ⟨_, hadd, ⟨rfl, fun _ => ?_, ?_, fun h0 => absurd rfl h0, trivial⟩,
      fun q _ => congrArg MemBlock.unlinked (block_congr rfl), hcleared'.mem, hcleared'.memMap⟩
    · exact (congrArg MemBlock.prev (block_congr rfl)).trans hcleared
    · rw [nextOf, if_neg (hA.ne_zero a ha)]
      refine (congrArg MemBlock.next (block_congr (h := h.modifyBlock a clearedForList) rfl)).trans ?_
      rw [block_modifyBlock_self]
      rfl
  · have hya : l.headD 0 ≠ a := by
      rcases headD_eq_or_mem 0 l with hnull | hmem
      · rw [hnull]
        exact (hA.ne_zero a ha).symm
      · intro hla
        exact (List.nodup_middle.1 hn).notMem (List.mem_append_right _ (hla ▸ hmem))
    refine ⟨_, hadd,
      Linked.congr (hlist0.insert hn0) (fun u hu => ?_) (fun u hu => ?_),
      fun q hq => unlinked_linkBetween hA ha hxA hyA hq, ?_⟩
    · exact nextOf_linkBetween hA ha hxA hyA (List.cons_subset_cons 0 hl hu)
    · exact prevOf_linkBetween hA ha hxA hyA hya hcleared (hl u hu)
    · have hk : 0 :: k ⊆ 0 :: (k ++ a :: l) := List.cons_subset_cons 0 (List.subset_append_left ..)
      have hl : 0 :: l ⊆ 0 :: (k ++ a :: l) :=
        List.cons_subset_cons 0 fun p hp => List.mem_append_right _ (List.mem_cons_of_mem _ hp)
      have hlink : WritesIn (k ++ a :: l) (h.modifyBlock a clearedForList)
          ((h.modifyBlock a clearedForList).linkBetween (k.getLastD 0) a (l.headD 0)) :=
        writesIn_linkBetween (hk (getLastD_mem 0 k)) (by simp) (hl (headD_mem 0 l)) (hA.ne_zero a ha)
      exact ((WritesIn.refl _ h).modifyBlock (by simp)).trans hlink

end MemHeap

end FluxOs
