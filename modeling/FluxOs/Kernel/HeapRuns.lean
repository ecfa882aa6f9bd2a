import FluxOs.Kernel.HeapInvariant

/-!
# Runs of the kernel heap

The states that any sequence of calls and client writes leads to, the invariant in all of them, and
what an allocation guarantees in such a state.
-/

namespace FluxOs

open ByteMemory LinkedLists Tilings MemHeap

/-- Clients write bytes inside their live blocks, and anything outside the heap. -/
def ClientWrites (place : HeapPlace) (h : MemHeap) (live : List UInt64) (mem' : Memory) : Prop :=
  ∀ i, place.base.toNat ≤ i → i < place.base.toNat + fluxHeapSize.toNat →
    (∀ p ∈ live, i < p.toNat ∨ p.toNat + (h.block (memBlockFromPtr p)).size.toNat ≤ i) →
    mem' i = h.mem i

/-- The states of the heap, with the pointers returned and not yet freed. -/
inductive HeapReachable (place : HeapPlace) : MemHeap → List UInt64 → Prop
  | init (h : MemHeap) : HeapReachable place (h.fluxMemInit place) []
  | alloc {h h' : MemHeap} {live : List UInt64} {size q : UInt64} {type pid : UInt32} :
      HeapReachable place h live → h.fluxAlloc size type pid = some (q, h') →
        HeapReachable place h' (liveAfterAlloc live q)
  | free {h h' : MemHeap} {live : List UInt64} {p : UInt64} :
      HeapReachable place h live → p = 0 ∨ p ∈ live → h.fluxFree p = some h' →
        HeapReachable place h' (live.erase p)
  | realloc {h h' : MemHeap} {live : List UInt64} {p size q : UInt64} {type pid : UInt32} :
      HeapReachable place h live → p = 0 ∨ p ∈ live → h.fluxRealloc p size type pid = some (q, h') →
        HeapReachable place h' (liveAfterRealloc live p size q)
  | write {h : MemHeap} {live : List UInt64} {mem' : Memory} :
      HeapReachable place h live → ClientWrites place h live mem' →
        HeapReachable place { h with mem := mem' } live

/-- Free all pointers of a list. -/
def freeAll : List UInt64 → MemHeap → Option MemHeap
  | [], h => some h
  | p :: ps, h => (h.fluxFree p).bind (freeAll ps)

variable {place : HeapPlace} {h h' : MemHeap} {bs : List Block} {live : List UInt64} {b : Block}

namespace HeapShape

/-- A client writes to no header. -/
theorem headers_of_write {mem' : Memory} (hs : HeapShape place h bs live) (hw : ClientWrites place h live mem')
    (i : Nat) (hi : ∃ c ∈ bs, c.addr.toNat ≤ i ∧ i < c.payload) : mem' i = h.mem i := by
  obtain ⟨c, hc, h₁, h₂⟩ := hi
  refine hw i ?_ ?_ fun p hp => ?_
  · have := (hs.layout.tiles.bounds hc).1
    unfold Block.start at this
    omega
  · have := (hs.layout.tiles.bounds hc).2
    have := c.start_add_le_stop
    unfold Block.start Block.payload at *
    omega
  · obtain ⟨k, b, l, rfl, -, rfl⟩ := hs.exists_used hp
    have hb : b ∈ k ++ b :: l := by simp
    have hout := hs.layout.tiles.header_outside hb hc
    have hstop : b.stop = b.payload + b.size.toNat := rfl
    rw [hs.layout.tiles.toNat_ptr hb, b.ptr_sub, (hs.layout.holds b hb).size]
    unfold Block.payload at h₂
    omega

theorem write {mem' : Memory} (hs : HeapShape place h bs live) (hw : ClientWrites place h live mem') :
    HeapShape place { h with mem := mem' } bs live :=
  hs.of_bytes rfl fun i hi => hs.headers_of_write hw i hi

theorem zero_notMem (hs : HeapShape place h bs live) : (0 : UInt64) ∉ live := by
  intro h0
  obtain ⟨k, b, l, rfl, -, hptr⟩ := hs.exists_used h0
  exact hs.layout.tiles.ptr_ne_zero (by simp) hptr

theorem free_keeps {p : UInt64} (hs : HeapShape place h bs live) (hp : p = 0 ∨ p ∈ live) :
    ∃ h' bs', h.fluxFree p = some h' ∧ HeapShape place h' bs' (live.erase p) := by
  rcases hp with rfl | hp
  · refine ⟨h, bs, ?_, ?_⟩
    · rw [fluxFree, if_pos rfl]
      rfl
    · rwa [List.erase_of_not_mem hs.zero_notMem]
  · obtain ⟨h', bs', hfree, hs', -⟩ := fluxFree_spec hs hp
    exact ⟨h', bs', hfree, hs'⟩

/-- With nothing allocated there is one free block. -/
theorem eq_initialBlock (hs : HeapShape place h bs []) : bs = [initialBlock place] := by
  have hall : ∀ b ∈ bs, b.free = true := by
    intro b hb
    cases hfree : b.free with
    | true => rfl
    | false => exact absurd (hs.live.symm.subset (mem_usedPtrs.2 ⟨b, hb, hfree, rfl⟩)) List.not_mem_nil
  have ht := hs.layout.tiles
  rcases bs with _ | ⟨b, _ | ⟨c, l⟩⟩
  · exact absurd ht (Nat.ne_of_lt (Nat.lt_add_of_pos_right (by decide)))
  · obtain ⟨hstart, hstop⟩ := ht
    have hb := hall b (by simp)
    obtain ⟨addr, size, free⟩ := b
    have haddr : addr = place.base := UInt64.toNat_inj.1 hstart
    have hsize : size = fluxHeapSize - memBlockBytes := by
      refine UInt64.toNat_inj.1 ?_
      have hsub : (fluxHeapSize - memBlockBytes).toNat = fluxHeapSize.toNat - memBlockBytes.toNat := rfl
      unfold Tiles Block.stop at hstop
      rw [haddr] at hstop
      dsimp only at hstop
      omega
    rw [haddr, hsize, show free = true from hb]
    rfl
  · exact absurd ⟨hall b (by simp), hall c (by simp)⟩ ((noAdjacentFree_cons.1 hs.apart).1 c l rfl)

/-- Freeing what is allocated, in any order, restores the one free block. -/
theorem freeAll_spec {order : List UInt64} (hs : HeapShape place h bs live) (horder : order.Perm live) :
    ∃ h', freeAll order h = some h' ∧ HeapShape place h' [initialBlock place] [] := by
  induction order generalizing h bs live with
  | nil =>
    rw [List.nil_perm.1 horder] at hs
    exact ⟨h, rfl, hs.eq_initialBlock ▸ hs⟩
  | cons p order ih =>
    obtain ⟨h₁, bs₁, hfree, hs₁, -⟩ := fluxFree_spec hs (horder.subset List.mem_cons_self)
    have horder₁ : order.Perm (live.erase p) := by
      have := horder.erase p
      rwa [List.erase_cons_head] at this
    obtain ⟨h', hall, hs'⟩ := ih hs₁ horder₁
    refine ⟨h', ?_, hs'⟩
    rw [freeAll, hfree]
    exact hall

end HeapShape

/-- The invariant holds in every reachable state. -/
theorem HeapReachable.shape (hr : HeapReachable place h live) : ∃ bs, HeapShape place h bs live := by
  induction hr with
  | init h => exact ⟨_, fluxMemInit_shape⟩
  | alloc _ halloc ih =>
    obtain ⟨bs, hs⟩ := ih
    obtain ⟨q, h', bs', hq, hs'⟩ := fluxAlloc_keeps _ _ _ hs
    rw [hq] at halloc
    cases halloc
    exact ⟨bs', hs'⟩
  | free _ hp hfree ih =>
    obtain ⟨bs, hs⟩ := ih
    obtain ⟨h', bs', hq, hs'⟩ := hs.free_keeps hp
    rw [hq] at hfree
    cases hfree
    exact ⟨bs', hs'⟩
  | realloc _ hp hrealloc ih =>
    obtain ⟨bs, hs⟩ := ih
    obtain ⟨q, h', bs', hq, hs'⟩ := fluxRealloc_keeps _ _ _ hs hp
    rw [hq] at hrealloc
    cases hrealloc
    exact ⟨bs', hs'⟩
  | write _ hw ih =>
    obtain ⟨bs, hs⟩ := ih
    exact ⟨bs, hs.write hw⟩

/-- The blocks of a reachable heap: they tile it, the free ones form the sorted free list, and no two of
these are side by side.  All calls return, and freeing all allocations leaves the initial block. -/
theorem kernelHeap_sound (hr : HeapReachable place h live) :
    ∃ bs, HeapShape place h bs live ∧ (freeAddrs bs).Pairwise (· < ·) ∧
      (∀ size type pid, (h.fluxAlloc size type pid).isSome) ∧
      (∀ p, p = 0 ∨ p ∈ live → (h.fluxFree p).isSome) ∧
      (∀ p size type pid, p = 0 ∨ p ∈ live → (h.fluxRealloc p size type pid).isSome) ∧
      ∀ order : List UInt64, order.Perm live →
        ∃ h', freeAll order h = some h' ∧ HeapShape place h' [initialBlock place] [] := by
  obtain ⟨bs, hs⟩ := hr.shape
  refine ⟨bs, hs, hs.layout.tiles.sorted.sublist freeAddrs_sublist, fun size type pid => ?_, fun p hp => ?_,
    fun p size type pid hp => ?_, fun order horder => hs.freeAll_spec horder⟩
  · obtain ⟨q, h', bs', halloc, -⟩ := fluxAlloc_keeps size type pid hs
    rw [halloc]
    rfl
  · obtain ⟨h', bs', hfree, -⟩ := hs.free_keeps hp
    rw [hfree]
    rfl
  · obtain ⟨q, h', bs', hrealloc, -⟩ := fluxRealloc_keeps size type pid hs hp
    rw [hrealloc]
    rfl

/-- A heap at address 4096 of a memory of zeros. -/
def heapPlace : HeapPlace := ⟨4096, by decide, by decide, by decide⟩

def bootHeap : MemHeap :=
  fluxMemInit ⟨fun _ => 0, 0, 0, 0, 0, 0, 0, 0, List.replicate fluxMemMaxMapEntries ⟨0, 0, 0, 0, 0, false⟩, 0⟩
    heapPlace

theorem bootHeap_reachable : HeapReachable heapPlace bootHeap [] := .init _

/-- Two allocations, of which the first is moved to a larger block, and a free that joins the blocks of both. -/
theorem kernelHeap_sound_calls : ∃ h, HeapReachable heapPlace h [4392] ∧
    (h.freeList, (h.block 4096).size, (h.block 4096).next) = (4096, 216, 4600) ∧
      ∃ bs, HeapShape heapPlace h bs [4392] ∧ (freeAddrs bs).Pairwise (· < ·) ∧
        ∃ h', freeAll [4392] h = some h' ∧ HeapShape heapPlace h' [initialBlock heapPlace] [] := by
  have hrun : ((bootHeap.fluxAlloc 100 fluxMemKernel 0).bind fun r₁ =>
      (r₁.2.fluxAlloc 50 fluxMemKernel 0).bind fun r₂ =>
        (r₂.2.fluxRealloc r₁.1 200 fluxMemKernel 0).bind fun r₃ => (r₃.2.fluxFree r₂.1).map fun h =>
          ((r₁.1, r₂.1, r₃.1), h.freeList, (h.block 4096).size, (h.block 4096).next)) =
      some ((4136, 4288, 4392), 4096, 216, 4600) := by decide +kernel
  obtain ⟨⟨p, h₁⟩, h₁_eq, hrun⟩ := Option.bind_eq_some_iff.1 hrun
  obtain ⟨⟨q, h₂⟩, h₂_eq, hrun⟩ := Option.bind_eq_some_iff.1 hrun
  obtain ⟨⟨r, h₃⟩, h₃_eq, hrun⟩ := Option.bind_eq_some_iff.1 hrun
  obtain ⟨h, h_eq, hrun⟩ := Option.map_eq_some_iff.1 hrun
  obtain ⟨hpointers, hblock⟩ := Prod.mk.inj hrun
  cases hpointers
  have hfirst : HeapReachable heapPlace h₁ [4136] := bootHeap_reachable.alloc h₁_eq
  have hsecond : HeapReachable heapPlace h₂ [4288, 4136] := hfirst.alloc h₂_eq
  have hmoved : HeapReachable heapPlace h₃ [4392, 4288] := hsecond.realloc (.inr (by simp)) h₃_eq
  have hreach : HeapReachable heapPlace h [4392] := hmoved.free (.inr (by simp)) h_eq
  obtain ⟨bs, hshape, hsorted, -, -, -, hall⟩ := kernelHeap_sound hreach
  exact ⟨h, hreach, hblock, bs, hshape, hsorted, hall [4392] (List.Perm.refl _)⟩

/-! ## What an allocation guarantees -/

/-- The bytes of two intervals are different. -/
def BytesApart (a m b n : Nat) : Prop := a + m ≤ b ∨ b + n ≤ a

/-- What a client may expect of an allocation of `size` bytes that returned `q`: zeros inside one block,
apart from all other allocations and all headers; on failure, nothing has changed. -/
def AllocSound (place : HeapPlace) (h h' : MemHeap) (live : List UInt64) (size q : UInt64) : Prop :=
  if q = 0 then
    h'.mem = h.mem ∧ h'.freeList = h.freeList ∧ h'.memMap = h.memMap ∧ h'.memMapCount = h.memMapCount
  else ∃ bs, h'.Layout place bs ∧
    (∃ b ∈ bs, b.payload ≤ q.toNat ∧ q.toNat + size.toNat ≤ b.stop) ∧
    (∀ i, q.toNat ≤ i → i < q.toNat + size.toNat → h'.mem i = 0) ∧
    (∀ p ∈ live, BytesApart q.toNat size.toNat p.toNat (h'.block (memBlockFromPtr p)).size.toNat) ∧
    ∀ c ∈ bs, BytesApart q.toNat size.toNat c.addr.toNat memBlockBytes.toNat

/-- An allocation that fails is sound. -/
theorem allocSound_failed {size : UInt64} :
    AllocSound place h { h with allocFailures := h.allocFailures + 1 } live size 0 :=
  (if_pos rfl).mpr ⟨rfl, rfl, rfl, rfl⟩

theorem and_not_low (x : UInt64) : (x &&& ~~~(15 : UInt64)).toNat = x.toNat / 16 * 16 := by
  have hmask : ∀ i : Fin 64, (18446744073709551600#64)[i.val] = decide (4 ≤ i.val) := by decide
  have hshift : x &&& ~~~(15 : UInt64) = (x >>> 4) <<< 4 := by
    rw [← UInt64.toBitVec_inj]
    ext i hi
    have := hmask ⟨i, hi⟩
    simp at this ⊢
    grind
  have := x.toNat_lt
  rw [hshift, UInt64.toNat_shiftLeft, UInt64.toNat_shiftRight, Nat.shiftLeft_eq, Nat.shiftRight_eq_div_pow]
  show x.toNat / 16 * 16 % 18446744073709551616 = _
  omega

/-- Aligning up wraps. -/
theorem toNat_memAlignUp (x : UInt64) :
    (memAlignUp x fluxMemAlign).toNat = (x.toNat + 15) % UInt64.size / 16 * 16 := by
  have hsub : x + fluxMemAlign - 1 = x + 15 := by
    rw [fluxMemAlign]
    grind
  rw [memAlignUp, hsub]
  refine (and_not_low _).trans ?_
  rw [UInt64.toNat_add]
  rfl

/-- A size is not more than its aligned size unless the sum wraps. -/
theorem le_memAlignUp {x : UInt64} (hx : x.toNat + 15 < UInt64.size) :
    x.toNat ≤ (memAlignUp x fluxMemAlign).toNat := by
  rw [toNat_memAlignUp, Nat.mod_eq_of_lt hx]
  omega

theorem memAlignUp_eq_zero {x : UInt64} (hx : ¬x.toNat + 15 < UInt64.size) :
    memAlignUp x fluxMemAlign = 0 := by
  refine UInt64.toNat_inj.1 ?_
  have hlt := x.toNat_lt
  have hsize : UInt64.size = 18446744073709551616 := rfl
  rw [toNat_memAlignUp, hsize]
  rw [hsize] at hx
  show _ = 0
  omega

variable {size : UInt64} {type pid : UInt32}

/-- With nothing on the free list an allocation fails. -/
theorem fluxAlloc_of_empty (hsize : size ≠ 0) (hempty : h.freeList = 0) :
    h.fluxAlloc size type pid = some (0, { h with allocFailures := h.allocFailures + 1 }) := by
  refine fluxAlloc_of_none hsize ?_
  rw [memFindFreeBlock, hempty]
  rfl

namespace HeapShape

/-- A block that holds the aligned size is a sound allocation. -/
theorem allocSound (hs : HeapShape place h' bs (b.ptr :: live)) (hb : b ∈ bs)
    (hx : size.toNat + 15 < UInt64.size) (hroom : memAlignUp size fluxMemAlign ≤ b.size)
    (hzero : ∀ i, b.payload ≤ i → i < b.payload + (memAlignUp size fluxMemAlign).toNat → h'.mem i = 0) :
    AllocSound place h h' live size b.ptr := by
  have ht := hs.layout.tiles
  have hle := le_memAlignUp hx
  have hle' := UInt64.le_iff_toNat_le.1 hroom
  have hstop : b.stop = b.payload + b.size.toNat := rfl
  have hstart : b.start ≤ b.payload := Nat.le_add_right ..
  rw [AllocSound, if_neg (ht.ptr_ne_zero hb), ht.toNat_ptr hb]
  refine ⟨bs, hs.layout, ⟨b, hb, Nat.le_refl _, by omega⟩, fun i h₁ h₂ => hzero i h₁ (by omega),
    fun p hp => ?_, fun c hc => ?_⟩
  · obtain ⟨k, c, l, rfl, -, rfl⟩ := hs.exists_used (List.mem_cons_of_mem _ hp)
    have hc : c ∈ k ++ c :: l := by simp
    have hbc : b ≠ c := fun h => (List.nodup_cons.1 (nodup_live hs)).1 (h ▸ hp)
    have hcstop : c.stop = c.payload + c.size.toNat := rfl
    have hcstart : c.start ≤ c.payload := Nat.le_add_right ..
    rw [ht.toNat_ptr hc, c.ptr_sub, (hs.layout.holds c hc).size]
    unfold BytesApart
    rcases ht.disjoint hb hc hbc with h | h <;> omega
  · unfold BytesApart
    rcases ht.header_outside hb hc with h | h <;> omega

/-- A size that wraps to 0 is given a block that is too small. -/
theorem not_allocSound (type pid : UInt32) (hs : HeapShape place h bs live) (hx : ¬size.toNat + 15 < UInt64.size)
    (hfree : h.freeList ≠ 0) :
    ∃ q h', h.fluxAlloc size type pid = some (q, h') ∧ q ≠ 0 ∧ ¬AllocSound place h h' live size q := by
  have hsize : size ≠ 0 := by
    rintro rfl
    exact hx (by decide)
  obtain ⟨b, hb, hbfree⟩ : ∃ b ∈ bs, b.free = true := by
    rw [freeListIs_first hs.list] at hfree
    obtain ⟨b, hb, hbfree, -⟩ := mem_freeAddrs.1 ((headD_eq_or_mem 0 _).resolve_left hfree)
    exact ⟨b, hb, hbfree⟩
  rcases fluxAlloc_spec type pid hs hsize with
    ⟨-, -, hnone⟩ | ⟨h', bs', c, halloc, hc, -, -, hs', -⟩
  · have hlt := hnone b hb hbfree
    rw [memAlignUp_eq_zero hx] at hlt
    exact absurd hlt UInt64.not_lt_zero
  · have hc0 := hs'.layout.tiles.ptr_ne_zero hc
    refine ⟨c.ptr, h', halloc, hc0, fun hsound => ?_⟩
    rw [AllocSound, if_neg hc0] at hsound
    obtain ⟨bs₂, hlay₂, ⟨d, hd, -, hend⟩, -⟩ := hsound
    have hbound := (hlay₂.tiles.bounds hd).2
    have hfits := place.fits
    have hptr := hs'.layout.tiles.toNat_ptr hc
    have : memBlockBytes.toNat = 40 := rfl
    unfold Block.payload at hptr
    omega

end HeapShape

/-- In a reachable state an allocation guarantees what it should unless aligning up its size wraps and there
is a free block. -/
theorem fluxAlloc_sound_iff (hr : HeapReachable place h live) (hsize : size ≠ 0) :
    ∃ q h', h.fluxAlloc size type pid = some (q, h') ∧
      (AllocSound place h h' live size q ↔ size.toNat + 15 < UInt64.size ∨ h.freeList = 0) := by
  obtain ⟨bs, hs⟩ := hr.shape
  by_cases hempty : h.freeList = 0
  · exact ⟨0, _, fluxAlloc_of_empty hsize hempty, iff_of_true allocSound_failed (.inr hempty)⟩
  by_cases hx : size.toNat + 15 < UInt64.size
  · rcases fluxAlloc_spec type pid hs hsize with
      ⟨hnone, -⟩ | ⟨h', bs', b, halloc, hb, -, hroom, hs', hzero, -⟩
    · exact ⟨0, _, hnone, iff_of_true allocSound_failed (.inl hx)⟩
    · exact ⟨b.ptr, h', halloc, iff_of_true (hs'.allocSound hb hx hroom hzero) (.inl hx)⟩
  · obtain ⟨q, h', halloc, -, hnot⟩ := hs.not_allocSound type pid hx hempty
    exact ⟨q, h', halloc, iff_of_false hnot (not_or.2 ⟨hx, hempty⟩)⟩

theorem fluxAlloc_sound_iff_boot : ∃ q h', bootHeap.fluxAlloc 100 fluxMemKernel fluxPidKernel = some (q, h') ∧
    (AllocSound heapPlace bootHeap h' [] 100 q ↔
      (100 : UInt64).toNat + 15 < UInt64.size ∨ bootHeap.freeList = 0) :=
  fluxAlloc_sound_iff bootHeap_reachable (by decide)

/-- The largest size wraps: the pointer returned is not to a block of that size. -/
theorem allocMax_not_sound : ∃ q h',
    bootHeap.fluxAlloc 0xFFFFFFFFFFFFFFFF fluxMemKernel fluxPidKernel = some (q, h') ∧ q ≠ 0 ∧
      ¬AllocSound heapPlace bootHeap h' [] 0xFFFFFFFFFFFFFFFF q := by
  have hs : HeapShape heapPlace bootHeap [initialBlock heapPlace] [] := fluxMemInit_shape
  refine hs.not_allocSound _ _ (by decide) ?_
  rw [freeListIs_first hs.list]
  decide

end FluxOs
