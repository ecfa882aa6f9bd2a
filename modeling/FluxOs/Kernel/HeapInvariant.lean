import FluxOs.Kernel.Blocks

/-!
# The invariant of the kernel heap

In every state that clients can reach, the blocks tile the heap, the free list is made of the free
blocks in the order of their addresses, no two of them are side by side, and the blocks in use are the
allocations not yet freed.
-/

namespace FluxOs

open ByteMemory LinkedLists Tilings

/-- The heap of `bs`, in which `live` are the pointers that clients hold. -/
structure HeapShape (place : HeapPlace) (h : MemHeap) (bs : List Block) (live : List UInt64) : Prop where
  layout : h.Layout place bs
  list : h.FreeListIs (freeAddrs bs)
  apart : NoAdjacentFree bs
  live : live.Perm (usedPtrs bs)

/-- All of the heap as one free block. -/
def initialBlock (place : HeapPlace) : Block where
  addr := place.base
  size := fluxHeapSize - memBlockBytes
  free := true

/-- The same block with the other use. -/
def Block.inUse (b : Block) : Block := { b with free := false }

def Block.freed (b : Block) : Block := { b with free := true }

section Bytes

variable {place : HeapPlace} {bs k l : List Block} {b c : Block}

/-- The header of a block is outside the payload of every block. -/
theorem TilesHeap.header_outside (ht : TilesHeap place bs) (hb : b ∈ bs) (hc : c ∈ bs) :
    c.addr.toNat + memBlockBytes.toNat ≤ b.payload ∨ b.stop ≤ c.addr.toNat := by
  by_cases hbc : b = c
  · exact .inl (Nat.le_of_eq (hbc ▸ rfl))
  · rcases ht.disjoint hb hc hbc with h | h
    · exact .inr h
    · have := c.start_add_le_stop
      have : b.start ≤ b.payload := Nat.le_add_right ..
      unfold Block.start at *
      omega

theorem TilesHeap.toNat_ptr (ht : TilesHeap place bs) (hb : b ∈ bs) : b.ptr.toNat = b.payload := by
  have hstop := (ht.bounds hb).2
  have hfits := place.fits
  unfold Block.stop at hstop
  exact toNat_add_of_lt (by omega)

theorem TilesHeap.ptr_ne_zero (ht : TilesHeap place bs) (hb : b ∈ bs) : b.ptr ≠ 0 := by
  intro h0
  have hptr := ht.toNat_ptr hb
  rw [h0] at hptr
  have : memBlockBytes.toNat = 40 := rfl
  have : (0 : UInt64).toNat = 0 := rfl
  unfold Block.payload at hptr
  omega

end Bytes

namespace HeapShape

variable {place : HeapPlace} {h h' : MemHeap} {bs k l : List Block} {live : List UInt64} {b : Block}

/-- The shape is about the headers and the first free block. -/
theorem congr (hs : HeapShape place h bs live) (hfirst : h'.freeList = h.freeList)
    (hsame : ∀ b ∈ bs, h'.block b.addr = h.block b.addr) : HeapShape place h' bs live where
  layout := hs.layout.congr fun q hq => by
    obtain ⟨b, hb, rfl⟩ := List.mem_map.1 hq
    rw [hsame b hb]
  list := MemHeap.freeListIs_congr_block hs.list
    (fun q hq => hs.layout.tiles.apart.ne_zero q (freeAddrs_subset hq)) hfirst fun q hq => by
      obtain ⟨b, hb, -, rfl⟩ := mem_freeAddrs.1 hq
      exact hsame b hb
  apart := hs.apart
  live := hs.live

/-- Bytes in the payloads may change. -/
theorem of_bytes (hs : HeapShape place h bs live) (hfirst : h'.freeList = h.freeList)
    (hmem : ∀ i, (∃ b ∈ bs, b.addr.toNat ≤ i ∧ i < b.payload) → h'.mem i = h.mem i) :
    HeapShape place h' bs live :=
  hs.congr hfirst fun b hb => MemHeap.block_congr_bytes fun i h₁ h₂ => hmem i ⟨b, hb, h₁, h₂⟩

/-- Bytes in one payload may change. -/
theorem of_payload (hs : HeapShape place h bs live) (hb : b ∈ bs) (hfirst : h'.freeList = h.freeList)
    (hmem : ∀ i, i < b.payload ∨ b.stop ≤ i → h'.mem i = h.mem i) : HeapShape place h' bs live := by
  refine hs.of_bytes hfirst fun i ⟨c, hc, h₁, h₂⟩ => hmem i ?_
  unfold Block.payload at h₂
  rcases hs.layout.tiles.header_outside hb hc with h | h <;> omega

theorem copy_into {src n : Nat} (hs : HeapShape place h bs live) (hb : b ∈ bs) (hn : n ≤ b.size.toNat) :
    HeapShape place { h with mem := copy h.mem b.ptr.toNat src n } bs live := by
  refine hs.of_payload hb rfl fun i hi => ?_
  refine copy_of_outside ?_
  have hstop : b.stop = b.payload + b.size.toNat := rfl
  rw [hs.layout.tiles.toNat_ptr hb]
  omega

/-- The block of a live pointer. -/
theorem exists_used {p : UInt64} (hs : HeapShape place h bs live) (hp : p ∈ live) :
    ∃ k b l, bs = k ++ b :: l ∧ b.free = false ∧ b.ptr = p := by
  obtain ⟨b, hb, hused, hptr⟩ := mem_usedPtrs.1 (hs.live.subset hp)
  obtain ⟨k, l, rfl⟩ := List.append_of_mem hb
  exact ⟨k, b, l, rfl, hused, hptr⟩

/-- The header of a block in use passes the checks of `flux_free`. -/
theorem flags_of_used (hs : HeapShape place h bs live) (hb : b ∈ bs) (hused : b.free = false) :
    (h.block b.addr).flags &&& memBlockUsed ≠ 0 := by
  rw [(hs.layout.holds b hb).flags]
  intro h0
  rw [b.flags_and_used.1 h0] at hused
  exact Bool.noConfusion hused

end HeapShape

namespace MemHeap

variable {place : HeapPlace} {h h' : MemHeap} {bs k l : List Block} {live : List UInt64} {b b' : Block}

/-- A header is changed to that of another block of the same place. -/
theorem layout_setHeader {f : MemBlock → MemBlock} (hlay : Layout place h (k ++ b :: l))
    (haddr : b'.addr = b.addr) (hsize : b'.size = b.size)
    (hmagic' : (f (h.block b.addr)).magic = memBlockMagic) (hsize' : (f (h.block b.addr)).size = b.size)
    (hflags' : (f (h.block b.addr)).flags = b'.flags) :
    Layout place (h.modifyBlock b.addr f) (k ++ b' :: l) := by
  have hA := hlay.tiles.apart
  have hbA : b.addr ∈ (k ++ b :: l).map Block.addr := by simp
  refine ⟨?_, fun x hx => ?_⟩
  · have hcells : ∀ x y, Tiles Block.start Block.stop x [b] y → Tiles Block.start Block.stop x [b'] y := by
      rintro x y ⟨hx, hy⟩
      refine ⟨?_, ?_⟩
      · rw [Block.start, haddr]
        exact hx
      · unfold Tiles Block.stop at hy ⊢
        rw [haddr, hsize]
        exact hy
    simpa using Tiles.replace (k := k) (m := [b]) (l := l) (by simpa using hlay.tiles) hcells
  · have hkept (y : Block) (hy : y ∈ k ++ l) : (h.modifyBlock b.addr f).Holds y := by
      have hybs : y ∈ k ++ b :: l := by
        rcases List.mem_append.1 hy with hy | hy <;> simp [hy]
      refine (hlay.holds y hybs).congr ?_
      rw [block_modifyBlock hA hbA (List.mem_map_of_mem hybs), if_neg (hlay.tiles.addr_ne hy)]
    rcases List.mem_append.1 hx with hx | hx
    · exact hkept x (List.mem_append_left _ hx)
    rcases List.mem_cons.1 hx with rfl | hx
    · refine ⟨?_, ?_, ?_⟩ <;> rw [haddr, block_modifyBlock_self]
      · exact hmagic'
      · rw [hsize, hsize']
      · exact hflags'
    · exact hkept x (List.mem_append_right _ hx)

/-! ## The memory map is not in the heap -/

@[simp] theorem mem_memMapAdd {base size : UInt64} {type pid : UInt32} :
    (h.memMapAdd base size type pid).mem = h.mem := by
  unfold memMapAdd
  split <;> rfl

@[simp] theorem freeList_memMapAdd {base size : UInt64} {type pid : UInt32} :
    (h.memMapAdd base size type pid).freeList = h.freeList := by
  unfold memMapAdd
  split <;> rfl

@[simp] theorem mem_memMapRemove {base : UInt64} : (h.memMapRemove base).mem = h.mem := by
  unfold memMapRemove
  split <;> rfl

@[simp] theorem freeList_memMapRemove {base : UInt64} : (h.memMapRemove base).freeList = h.freeList := by
  unfold memMapRemove
  split <;> rfl

/-- The active entries of the memory map for an address. -/
def mapEntries (h : MemHeap) (p : UInt64) : List MemMapEntry :=
  h.memMap.filter fun entry => entry.active && entry.base = p

theorem mapEntries_congr (hmap : h'.memMap = h.memMap) (p : UInt64) : h'.mapEntries p = h.mapEntries p := by
  rw [mapEntries, mapEntries, hmap]

/-- An entry that is not selected may be replaced by another one. -/
theorem filter_set_of_not {α : Type} {P : α → Bool} {m : List α} {i : Nat} {x : α} (hnew : P x = false)
    (hold : ∀ y, m[i]? = some y → P y = false) : (m.set i x).filter P = m.filter P := by
  induction m generalizing i with
  | nil => rfl
  | cons y m ih =>
    cases i with
    | zero => rw [List.set_cons_zero, List.filter_cons_of_neg (Bool.eq_false_iff.1 hnew),
        List.filter_cons_of_neg (Bool.eq_false_iff.1 (hold y rfl))]
    | succ i => rw [List.set_cons_succ, List.filter_cons, List.filter_cons, ih hold]

theorem mapEntries_memMapAdd {base size p : UInt64} {type pid : UInt32} (hp : p ≠ base) :
    (h.memMapAdd base size type pid).mapEntries p = h.mapEntries p := by
  unfold memMapAdd
  split
  · rfl
  · rename_i i hi
    refine filter_set_of_not (by simp [hp.symm]) fun y hy => ?_
    obtain ⟨hlt, hfree, -⟩ := List.findIdx?_eq_some_iff_getElem.1 hi
    rw [List.getElem?_eq_getElem hlt] at hy
    cases hy
    simp_all

theorem mapEntries_memMapRemove {base p : UInt64} (hp : p ≠ base) :
    (h.memMapRemove base).mapEntries p = h.mapEntries p := by
  unfold memMapRemove
  split
  · rfl
  · rename_i i hi
    obtain ⟨hlt, hbase, -⟩ := List.findIdx?_eq_some_iff_getElem.1 hi
    rw [List.getElem_take, Bool.and_eq_true, decide_eq_true_iff] at hbase
    have hlt' : i < h.memMap.length := by
      rw [List.length_take] at hlt
      omega
    show (h.memMap.modify i fun entry => { entry with active := false }).filter _ = _
    rw [List.modify_eq_set_getElem?, List.getElem?_eq_getElem hlt']
    refine filter_set_of_not rfl fun y hy => ?_
    rw [List.getElem?_eq_getElem hlt'] at hy
    cases hy
    simp [hbase.2, hp.symm]

/-- Nothing changes but bytes of free blocks and of the block at `p`, and the entries of the memory map
for `p`. -/
structure ChangesBlock (bs : List Block) (p : UInt64) (h h' : MemHeap) : Prop where
  mem i : (∀ b ∈ bs, b.free = true ∨ b.ptr = p → i < b.start ∨ b.stop ≤ i) → h'.mem i = h.mem i
  entries q : q ≠ p → h'.mapEntries q = h.mapEntries q

/-! ## Initialisation -/

theorem initialBlock_stop : (initialBlock place).stop = place.base.toNat + fluxHeapSize.toNat := by
  have hsize : (fluxHeapSize - memBlockBytes).toNat = fluxHeapSize.toNat - memBlockBytes.toNat := rfl
  have h40 : memBlockBytes.toNat = 40 := rfl
  have hheap : fluxHeapSize.toNat = 16777216 := rfl
  show place.base.toNat + memBlockBytes.toNat + (fluxHeapSize - memBlockBytes).toNat = _
  omega

/-- `flux_mem_init` makes one free block of the heap. -/
theorem fluxMemInit_shape : HeapShape place (h.fluxMemInit place) [initialBlock place] [] := by
  obtain ⟨h₀, hinit⟩ : ∃ h₀ : MemHeap, h.fluxMemInit place =
      { h₀.modifyBlock place.base (fun _ => remainderHeader (fluxHeapSize - memBlockBytes)) with
        freeList := place.base }.memMapAdd place.base fluxHeapSize fluxMemKernel fluxPidKernel :=
    ⟨_, rfl⟩
  have hblock : (h.fluxMemInit place).block place.base =
      remainderHeader (fluxHeapSize - memBlockBytes) := by
    rw [hinit, block_congr mem_memMapAdd]
    have hheader : (h₀.modifyBlock place.base fun _ =>
        remainderHeader (fluxHeapSize - memBlockBytes)).block place.base =
        remainderHeader (fluxHeapSize - memBlockBytes) := block_modifyBlock_self
    refine Eq.trans ?_ hheader
    exact block_congr rfl
  have hfirst : (h.fluxMemInit place).freeList = place.base := by
    rw [hinit, freeList_memMapAdd]
  have hbase : place.base ≠ 0 := by
    intro h0
    have := place.pos
    rw [h0] at this
    exact Nat.lt_irrefl _ this
  refine ⟨⟨⟨rfl, initialBlock_stop⟩, ?_⟩, ⟨?_, fun _ => ?_, ?_, fun h0 => absurd rfl h0, trivial⟩,
    List.isChain_singleton _, List.Perm.refl _⟩
  · intro b hb
    rw [List.mem_singleton.1 hb]
    exact ⟨congrArg MemBlock.magic hblock, congrArg MemBlock.size hblock, congrArg MemBlock.flags hblock⟩
  · rw [nextOf, if_pos rfl, hfirst]
    rfl
  · exact congrArg MemBlock.prev hblock
  · refine (if_neg hbase).trans ?_
    exact congrArg MemBlock.next hblock

/-! ## Allocation -/

/-- The header of an allocated block. -/
def markUsed (type pid : UInt32) (b : MemBlock) : MemBlock :=
  { b with magic := memBlockMagic, flags := memBlockUsed, type, ownerPid := pid }

variable {size p : UInt64} {type pid : UInt32}

theorem fluxAlloc_of_none (hsize : size ≠ 0)
    (hfind : h.memFindFreeBlock (memAlignUp size fluxMemAlign) = some 0) :
    h.fluxAlloc size type pid = some (0, { h with allocFailures := h.allocFailures + 1 }) := by
  rw [fluxAlloc, if_neg hsize]
  dsimp only
  rw [hfind]
  rfl

theorem fluxAlloc_of_some (type pid : UInt32) {h₁ : MemHeap} (hsize : size ≠ 0)
    (hfind : h.memFindFreeBlock (memAlignUp size fluxMemAlign) = some p) (hp : p ≠ 0)
    (hsplit : (h.memRemoveFromFreeList p).memSplitBlock p (memAlignUp size fluxMemAlign) = some h₁) :
    ∃ h', h.fluxAlloc size type pid = some (memPtrFromBlock p, h') ∧ h'.freeList = h₁.freeList ∧
      h'.mem = fill (h₁.modifyBlock p (markUsed type pid)).mem (memPtrFromBlock p).toNat
        (memAlignUp size fluxMemAlign).toNat 0 ∧
      ∀ q, q ≠ memPtrFromBlock p → h'.mapEntries q = h₁.mapEntries q := by
  rw [fluxAlloc, if_neg hsize]
  dsimp only
  rw [hfind, Option.bind_eq_bind, Option.bind_some, if_neg hp, hsplit]
  refine ⟨_, rfl, freeList_memMapAdd, ?_, fun q hq => (mapEntries_memMapAdd hq).trans rfl⟩
  dsimp only
  rw [mem_memMapAdd]
  rfl

/-- The two parts of the list around a block in use are on their own. -/
theorem noAdjacentFree_of_used (hb : b.free = false) (hk : NoAdjacentFree k) (hl : NoAdjacentFree l) :
    NoAdjacentFree (k ++ b :: l) := by
  have hused (c : Block) : ¬(b.free = true ∧ c.free = true) := by simp [hb]
  have hused' (c : Block) : ¬(c.free = true ∧ b.free = true) := by simp [hb]
  refine List.isChain_append.2 ⟨hk, noAdjacentFree_cons.2 ⟨fun c _ _ => hused c, hl⟩, fun c _ d hd => ?_⟩
  rw [List.head?_cons, Option.mem_some] at hd
  rw [← hd]
  exact hused' c

theorem noAdjacentFree_parts (h : NoAdjacentFree (k ++ l)) : NoAdjacentFree k ∧ NoAdjacentFree l :=
  ⟨List.IsChain.left_of_append h, List.IsChain.right_of_append h⟩

/-- The heap after a free block was taken off the list, cut to `b'` and marked, and `n` bytes of it cleared. -/
theorem shape_of_taken {h₁ : MemHeap} {rest : List Block} {n : Nat}
    (hs : HeapShape place h (k ++ b :: l) live) (hfree : b.free = true)
    (hrest : rest = [] ∨ ∃ c, rest = [c] ∧ c.free = true)
    (hlay : Layout place h₁ (k ++ b' :: (rest ++ l)))
    (hlist : h₁.FreeListIs (freeAddrs k ++ freeAddrs (rest ++ l))) (hn : n ≤ b'.size.toNat)
    (hfirst : h'.freeList = h₁.freeList)
    (hmem : h'.mem = fill (h₁.modifyBlock b'.addr (markUsed type pid)).mem b'.ptr.toNat n 0) :
    HeapShape place h' (k ++ b'.inUse :: (rest ++ l)) (b'.ptr :: live) := by
  have hm : ∀ p ∈ freeAddrs k ++ freeAddrs (rest ++ l), p ∈ (k ++ b' :: (rest ++ l)).map Block.addr := by
    intro p hp
    rw [List.map_append, List.map_cons]
    rcases List.mem_append.1 hp with hp | hp
    · exact List.mem_append_left _ (freeAddrs_subset hp)
    · exact List.mem_append_right _ (List.mem_cons_of_mem _ (freeAddrs_subset hp))
  have hlay₂ : Layout place (h₁.modifyBlock b'.addr (markUsed type pid)) (k ++ b'.inUse :: (rest ++ l)) :=
    layout_setHeader hlay rfl rfl rfl (hlay.holds b' (by simp)).size rfl
  have hlist₂ : (h₁.modifyBlock b'.addr (markUsed type pid)).FreeListIs
      (freeAddrs k ++ freeAddrs (rest ++ l)) :=
    hlist.modifyBlock hlay.tiles.apart (by simp) hm (fun _ => rfl) fun _ => rfl
  have hbs : b'.inUse ∈ k ++ b'.inUse :: (rest ++ l) := by simp
  have hrestused : usedPtrs rest = [] := by
    rcases hrest with rfl | ⟨c, rfl, hc⟩
    · rfl
    · exact usedPtrs_cons_of_free hc
  obtain ⟨hapartk, hapartl⟩ := noAdjacentFree_parts hs.apart
  have hapartr : NoAdjacentFree (rest ++ l) := by
    rw [noAdjacentFree_cons] at hapartl
    rcases hrest with rfl | ⟨c, rfl, hc⟩
    · exact hapartl.2
    · refine noAdjacentFree_cons.2 ⟨fun d l' hd hcd => hapartl.1 d l' hd ⟨hfree, hcd.2⟩, hapartl.2⟩
  have hs₂ : HeapShape place (h₁.modifyBlock b'.addr (markUsed type pid))
      (k ++ b'.inUse :: (rest ++ l)) (b'.ptr :: live) := by
    refine ⟨hlay₂, ?_, noAdjacentFree_of_used rfl hapartk hapartr, ?_⟩
    · rw [freeAddrs_append, freeAddrs_cons_of_used rfl]
      exact hlist₂
    · have hlive := hs.live
      rw [usedPtrs_append, usedPtrs_cons_of_free hfree] at hlive
      rw [usedPtrs_append, usedPtrs_cons_of_used rfl, usedPtrs_append, hrestused, List.nil_append]
      exact (hlive.cons _).trans List.perm_middle.symm
  have hpayload : b'.ptr.toNat = b'.inUse.payload := hlay₂.tiles.toNat_ptr (b := b'.inUse) hbs
  refine hs₂.of_payload hbs (hfirst.trans rfl) fun i hi => ?_
  have hstop : b'.inUse.stop = b'.inUse.payload + b'.size.toNat := rfl
  rw [hmem, hpayload, fill_of_outside (by omega)]

/-- The block that an allocation of `size` bytes takes, and what its header says afterwards. -/
structure TakesBlock (h h' : MemHeap) (size : UInt64) (type pid : UInt32) (b : Block) : Prop where
  find : h.memFindFreeBlock (memAlignUp size fluxMemAlign) = some b.addr
  size : b.size = splitSize (h.block b.addr).size (memAlignUp size fluxMemAlign)
  type : (h'.block b.addr).type = type
  owner : (h'.block b.addr).ownerPid = pid

/-- The search finds a smallest free block that is large enough, or there is none. -/
theorem memFindFreeBlock_cases (n : UInt64) (hs : HeapShape place h bs live) :
    (h.memFindFreeBlock n = some 0 ∧ ∀ b ∈ bs, b.free = true → b.size < n) ∨
      ∃ b ∈ bs, h.memFindFreeBlock n = some b.addr ∧ b.free = true ∧ n ≤ b.size ∧
        ∀ c ∈ bs, c.free = true → n ≤ c.size → b.size ≤ c.size := by
  have hA := hs.layout.tiles.apart
  have hfuel : (freeAddrs bs).length < walkFuel :=
    Nat.lt_of_le_of_lt length_freeAddrs_le hs.layout.tiles.length_lt
  obtain ⟨p, hfind, hin, -, hall⟩ := findFrom_spec n 0 (k := []) (m := freeAddrs bs) hs.list
    (fun p hp => hA.ne_zero p (freeAddrs_subset hp)) hfuel
  rw [← freeListIs_first hs.list] at hfind
  have hfits (b : Block) (hb : b ∈ bs) (hfree : b.free = true) : h.FitsIn n b.addr ↔ n ≤ b.size := by
    have hold := hs.layout.holds b hb
    rw [FitsIn, hold.flags, hold.size]
    exact and_iff_right (b.flags_and_free.2 hfree)
  rcases hin with rfl | ⟨hp, hfit⟩
  · refine .inl ⟨hfind, fun b hb hfree => UInt64.not_le.1 fun hle => ?_⟩
    exact (hall b.addr (mem_freeAddrs.2 ⟨b, hb, hfree, rfl⟩) ((hfits b hb hfree).2 hle)).1 rfl
  · obtain ⟨b, hb, hfree, rfl⟩ := mem_freeAddrs.1 hp
    refine .inr ⟨b, hb, hfind, hfree, (hfits b hb hfree).1 hfit, fun c hc hcfree hle => ?_⟩
    have hleast := (hall c.addr (mem_freeAddrs.2 ⟨c, hc, hcfree, rfl⟩) ((hfits c hc hcfree).2 hle)).2
    rwa [(hs.layout.holds b hb).size, (hs.layout.holds c hc).size] at hleast

/-- An allocation finds no block and changes the count of failures only, or it takes a block that is large
enough for the aligned size and clears it. -/
theorem fluxAlloc_spec (type pid : UInt32) (hs : HeapShape place h bs live) (hsize : size ≠ 0) :
    (h.fluxAlloc size type pid = some (0, { h with allocFailures := h.allocFailures + 1 }) ∧
      h.memFindFreeBlock (memAlignUp size fluxMemAlign) = some 0 ∧
      ∀ b ∈ bs, b.free = true → b.size < memAlignUp size fluxMemAlign) ∨
    ∃ h' bs' b, h.fluxAlloc size type pid = some (b.ptr, h') ∧ b ∈ bs' ∧ b.free = false ∧
      memAlignUp size fluxMemAlign ≤ b.size ∧ HeapShape place h' bs' (b.ptr :: live) ∧
      (∀ i, b.payload ≤ i → i < b.payload + (memAlignUp size fluxMemAlign).toNat → h'.mem i = 0) ∧
      ChangesBlock bs b.ptr h h' ∧ TakesBlock h h' size type pid b := by
  have hA := hs.layout.tiles.apart
  rcases memFindFreeBlock_cases (memAlignUp size fluxMemAlign) hs with
    ⟨hfind, hnone⟩ | ⟨b, hb, hfind, hfree, hneeded, -⟩
  · exact .inl ⟨fluxAlloc_of_none hsize hfind, hfind, hnone⟩
  · have hp : b.addr ∈ freeAddrs bs := mem_freeAddrs.2 ⟨b, hb, hfree, rfl⟩
    obtain ⟨k, l, rfl⟩ := List.append_of_mem hb
    have hlist := hs.list
    rw [freeAddrs_append, freeAddrs_cons_of_free hfree] at hlist
    obtain ⟨hlist₀, hsame, hwrites₀⟩ := remove_spec hs.layout.tiles freeAddrs_sublist freeAddrs_sublist hlist
    obtain ⟨h₁, b', rest, hsplit, haddr, hfree', hroom, hrest, hlay₁, hlist₁, hstop, hwrites₁, hcut⟩ :=
      memSplitBlock_spec (hs.layout.congr hsame) hfree hlist₀ hneeded
    obtain ⟨h', halloc, hfirst, hmem, hentries⟩ := fluxAlloc_of_some type pid hsize hfind
      (hA.ne_zero _ (freeAddrs_subset hp)) hsplit
    rw [← haddr] at hmem halloc hentries
    have hroom' : (memAlignUp size fluxMemAlign).toNat ≤ b'.size.toNat := UInt64.le_iff_toNat_le.1 hroom
    have hs' : HeapShape place h' (k ++ b'.inUse :: (rest ++ l)) (b'.ptr :: live) :=
      shape_of_taken hs hfree hrest hlay₁ hlist₁ hroom' hfirst hmem
    have hbs : b'.inUse ∈ k ++ b'.inUse :: (rest ++ l) := by simp
    have hpayload : (memPtrFromBlock b'.addr).toNat = b'.inUse.payload :=
      hs'.layout.tiles.toNat_ptr (b := b'.inUse) hbs
    refine .inr ⟨h', _, b'.inUse, halloc, hbs, rfl, hroom, hs', fun i h₁ h₂ => ?_,
      ⟨fun i hi => ?_, fun q hq => ?_⟩, ?_⟩
    · rw [hmem, hpayload]
      exact fill_of_inside h₁ h₂
    · have hib := hi b (by simp) (.inl hfree)
      have hstart : b.start = b'.addr.toNat := (congrArg UInt64.toNat haddr).symm
      have hstop' : b'.inUse.stop = b'.inUse.payload + b'.size.toNat := rfl
      have hpay : b'.inUse.payload = b'.addr.toNat + memBlockBytes.toNat := rfl
      have hstop'' : b'.inUse.stop = b'.stop := rfl
      have hfreed : WritesFree (k ++ b :: l) h h₁ := by
        refine WritesFree.trans (hwrites₀.writesFree ?_) hwrites₁ fun _ h => h
        rw [freeAddrs_append, freeAddrs_cons_of_free hfree]
        exact List.Subset.refl _
      rw [hmem, hpayload, fill_of_outside (by omega)]
      refine (((WritesIn.refl [b'.addr] h₁).modifyBlock (by simp)).mem i fun p hp => ?_).trans
        (hfreed.mem i fun c hc hcfree => hi c hc (.inl hcfree))
      rw [List.mem_singleton.1 hp]
      omega
    · exact (hentries q hq).trans (mapEntries_congr (hwrites₁.memMap.trans hwrites₀.memMap) q)
    · have hheader : h'.block b'.addr = markUsed type pid (h₁.block b'.addr) := by
        refine Eq.trans ?_ block_modifyBlock_self
        refine block_congr_bytes fun i h₁ h₂ => ?_
        rw [hmem, hpayload]
        exact fill_of_outside (.inl h₂)
      refine ⟨?_, ?_, congrArg MemBlock.type hheader, congrArg MemBlock.ownerPid hheader⟩
      · exact hfind.trans (congrArg some haddr.symm)
      · rw [show b'.inUse.addr = b.addr from haddr, (hs.layout.holds b hb).size]
        exact hcut

/-! ## Release -/

theorem fluxFree_eq {a : UInt64} (hp : p ≠ 0) (ha : memBlockFromPtr p = a)
    (hmagic : (h.block a).magic = memBlockMagic) (hused : (h.block a).flags &&& memBlockUsed ≠ 0) :
    ∃ h₀ : MemHeap, h₀.mem = h.mem ∧ h₀.freeList = h.freeList ∧
      (∀ q, q ≠ p → h₀.mapEntries q = h.mapEntries q) ∧
      h.fluxFree p = ((h₀.modifyBlock a fun b => { b with ownerPid := fluxPidInvalid }).memAddToFreeList
        a).bind memCoalesce := by
  rw [fluxFree, if_neg hp]
  dsimp only
  rw [ha, if_neg (not_not.2 hmagic), if_neg hused]
  refine ⟨_, ?_, ?_, ?_, rfl⟩
  · exact mem_memMapRemove
  · exact freeList_memMapRemove
  · exact fun q hq => mapEntries_memMapRemove hq

/-- The header of a released block, which has no owner. -/
def disowned (b : MemBlock) : MemBlock := { b with ownerPid := fluxPidInvalid }

/-- What a release has done before the free blocks are merged: the header of the block has lost its owner, and
the block is on the list. -/
theorem fluxFree_added (hs : HeapShape place h (k ++ b :: l) live) (hused : b.free = false) :
    ∃ h₀ h₂ : MemHeap, h₀.mem = h.mem ∧ (∀ q, q ≠ b.ptr → h₀.mapEntries q = h.mapEntries q) ∧
      (h₀.modifyBlock b.addr disowned).FreeListIs (freeAddrs k ++ freeAddrs l) ∧
      (h₀.modifyBlock b.addr disowned).memAddToFreeList b.addr = some h₂ ∧ h.fluxFree b.ptr = h₂.memCoalesce ∧
      Layout place h₂ (k ++ b.freed :: l) ∧ h₂.FreeListIs (freeAddrs (k ++ b.freed :: l)) ∧
      WritesFree (k ++ b.freed :: l) h₀ h₂ := by
  have hbs : b ∈ k ++ b :: l := by simp
  have hold := hs.layout.holds b hbs
  obtain ⟨h₀, hmem₀, hfirst₀, hentries₀, hfree⟩ := fluxFree_eq (hs.layout.tiles.ptr_ne_zero hbs) b.ptr_sub hold.magic
    (hs.flags_of_used hbs hused)
  have hs₀ : HeapShape place h₀ (k ++ b :: l) live := hs.congr hfirst₀ fun c _ => block_congr hmem₀
  have hlist₀ := hs₀.list
  rw [freeAddrs_append, freeAddrs_cons_of_used hused] at hlist₀
  have hbA : b.addr ∈ (k ++ b :: l).map Block.addr := List.mem_map_of_mem hbs
  have hm : ∀ p ∈ freeAddrs k ++ freeAddrs l, p ∈ (k ++ b :: l).map Block.addr := by
    intro p hp
    rw [List.map_append, List.map_cons]
    rcases List.mem_append.1 hp with hp | hp
    · exact List.mem_append_left _ (freeAddrs_subset hp)
    · exact List.mem_append_right _ (List.mem_cons_of_mem _ (freeAddrs_subset hp))
  have hold₀ := hs₀.layout.holds b hbs
  have hlay₁ : Layout place (h₀.modifyBlock b.addr disowned) (k ++ b :: l) :=
    layout_setHeader hs₀.layout rfl rfl hold₀.magic hold₀.size hold₀.flags
  have hlist₁ : (h₀.modifyBlock b.addr disowned).FreeListIs (freeAddrs k ++ freeAddrs l) :=
    hlist₀.modifyBlock hs₀.layout.tiles.apart hbA hm (fun _ => rfl) fun _ => rfl
  obtain ⟨h₂, hadd, hlist₂, hsame, hwrites₂⟩ := add_spec hlay₁.tiles freeAddrs_sublist freeAddrs_sublist hlist₁
  have hold₁ := hlay₁.holds b hbs
  have hlayc : Layout place ((h₀.modifyBlock b.addr disowned).modifyBlock b.addr clearedForList)
      (k ++ b.freed :: l) := layout_setHeader hlay₁ rfl rfl hold₁.magic hold₁.size rfl
  have hlay₂ : Layout place h₂ (k ++ b.freed :: l) := by
    refine hlayc.congr fun q hq => hsame q ?_
    simpa [Block.freed] using hq
  have hfreed : freeAddrs (k ++ b.freed :: l) = freeAddrs k ++ b.addr :: freeAddrs l := by
    rw [freeAddrs_append, freeAddrs_cons_of_free rfl]
    rfl
  have hnodes : freeAddrs k ++ b.addr :: freeAddrs l ⊆ freeAddrs (k ++ b.freed :: l) :=
    fun q hq => hfreed ▸ hq
  have hheader : WritesFree (k ++ b.freed :: l) h₀ (h₀.modifyBlock b.addr disowned) :=
    ((WritesIn.refl (freeAddrs k ++ b.addr :: freeAddrs l) h₀).modifyBlock (by simp)).writesFree hnodes
  refine ⟨h₀, h₂, hmem₀, hentries₀, hlist₁, hadd, ?_, hlay₂, hfreed ▸ hlist₂,
    hheader.trans (hwrites₂.writesFree hnodes) fun _ h => h⟩
  rw [hfree]
  exact congrArg (fun r => Option.bind r memCoalesce) hadd

/-- A release makes the block free and merges it with its neighbours. -/
theorem fluxFree_spec (hs : HeapShape place h bs live) (hp : p ∈ live) :
    ∃ h' bs', h.fluxFree p = some h' ∧ HeapShape place h' bs' (live.erase p) ∧
      ChangesBlock bs p h h' := by
  obtain ⟨k, b, l, rfl, hused, rfl⟩ := hs.exists_used hp
  obtain ⟨h₀, h₂, hmem₀, hentries₀, -, -, hfree, hlay₂, hlist₂, hwrites₂⟩ := fluxFree_added hs hused
  obtain ⟨h', bs', hloop, hlay', hlist', hapart, hused', hwrites'⟩ :=
    coalesceLoop_spec hlay₂ hlist₂ hlay₂.tiles.length_lt
  refine ⟨h', bs', hfree.trans hloop, ⟨hlay', hlist', hapart, ?_⟩, fun i hi => ?_, fun q hq => ?_⟩
  · have hlive := hs.live
    rw [usedPtrs_append, usedPtrs_cons_of_used hused] at hlive
    rw [hused', usedPtrs_append, usedPtrs_cons_of_free rfl]
    have herase := (hlive.trans List.perm_middle).erase b.ptr
    rwa [List.erase_cons_head] at herase
  · have hib := hi b (by simp) (.inr rfl)
    have hall : WritesFree (k ++ b.freed :: l) h₀ h' := hwrites₂.trans hwrites' fun _ h => h
    refine (hall.mem i fun c hc hcfree => ?_).trans (congrFun hmem₀ i)
    rcases List.mem_append.1 hc with hc | hc
    · exact hi c (List.mem_append_left _ hc) (.inl hcfree)
    rcases List.mem_cons.1 hc with rfl | hc
    · exact hib
    · exact hi c (List.mem_append_right _ (List.mem_cons_of_mem _ hc)) (.inl hcfree)
  · exact (mapEntries_congr (hwrites'.memMap.trans hwrites₂.memMap) q).trans (hentries₀ q hq)

/-! ## Reallocation -/

/-- The live pointers after an allocation that returned `q`. -/
def liveAfterAlloc (live : List UInt64) (q : UInt64) : List UInt64 := if q = 0 then live else q :: live

/-- The live pointers after a reallocation of `p` to `size` bytes that returned `q`. -/
def liveAfterRealloc (live : List UInt64) (p size q : UInt64) : List UInt64 :=
  if p = 0 then liveAfterAlloc live q
  else if size = 0 then live.erase p
  else if q = 0 then live
  else q :: live.erase p

theorem fluxAlloc_keeps (size : UInt64) (type pid : UInt32) (hs : HeapShape place h bs live) :
    ∃ q h' bs', h.fluxAlloc size type pid = some (q, h') ∧
      HeapShape place h' bs' (liveAfterAlloc live q) := by
  by_cases hsize : size = 0
  · refine ⟨0, h, bs, ?_, hs⟩
    rw [fluxAlloc, if_pos hsize]
    rfl
  · rcases fluxAlloc_spec type pid hs hsize with ⟨hnone, -⟩ | ⟨h', bs', b, halloc, hb, -, -, hs', -⟩
    · exact ⟨0, _, bs, hnone, hs.congr rfl fun c _ => block_congr rfl⟩
    · refine ⟨b.ptr, h', bs', halloc, ?_⟩
      rw [liveAfterAlloc, if_neg (hs'.layout.tiles.ptr_ne_zero hb)]
      exact hs'

theorem fluxRealloc_of_used {a : UInt64} (hp : p ≠ 0) (hsize : size ≠ 0) (ha : memBlockFromPtr p = a)
    (hmagic : (h.block a).magic = memBlockMagic) (hused : (h.block a).flags &&& memBlockUsed ≠ 0) :
    h.fluxRealloc p size type pid =
      if (h.block a).size ≥ memAlignUp size fluxMemAlign then
        some (p, h.modifyBlock a fun b => { b with type })
      else (h.fluxAlloc size type pid).bind fun r =>
        if r.1 = 0 then some (0, r.2)
        else (fluxFree { r.2 with
          mem := copy r.2.mem r.1.toNat p.toNat
            (min (r.2.block a).size (r.2.block (memBlockFromPtr r.1)).size).toNat } p).bind
          fun h => some (r.1, h) := by
  rw [fluxRealloc, if_neg hp, if_neg hsize]
  dsimp only
  rw [ha, if_neg (not_or.2 ⟨not_not.2 hmagic, hused⟩)]
  rfl

theorem nodup_live (hs : HeapShape place h bs live) : live.Nodup := by
  refine hs.live.nodup_iff.2 ?_
  have haddr : ((bs.filter fun b => !b.free).map Block.addr).Nodup :=
    hs.layout.tiles.nodup.sublist (List.filter_sublist.map _)
  refine List.Nodup.of_map memBlockFromPtr ?_
  rw [usedPtrs, List.map_map]
  rwa [show memBlockFromPtr ∘ Block.ptr = Block.addr from funext Block.ptr_sub]

theorem toNat_min_le (x y : UInt64) : (min x y).toNat ≤ y.toNat := by
  show (if x ≤ y then x else y).toNat ≤ y.toNat
  split_ifs with hxy
  · exact UInt64.le_iff_toNat_le.1 hxy
  · exact Nat.le_refl _

/-- A reallocation keeps the block, moves it or leaves it alone. -/
theorem fluxRealloc_keeps (size : UInt64) (type pid : UInt32) (hs : HeapShape place h bs live)
    (hp : p = 0 ∨ p ∈ live) :
    ∃ q h' bs', h.fluxRealloc p size type pid = some (q, h') ∧
      HeapShape place h' bs' (liveAfterRealloc live p size q) := by
  unfold liveAfterRealloc
  by_cases hp0 : p = 0
  · simp only [if_pos hp0]
    rw [fluxRealloc, if_pos hp0]
    exact fluxAlloc_keeps size type pid hs
  have hlive := hp.resolve_left hp0
  simp only [if_neg hp0]
  by_cases hsize : size = 0
  · obtain ⟨h', bs', hfree, hs', -⟩ := fluxFree_spec hs hlive
    refine ⟨0, h', bs', ?_, ?_⟩
    · rw [fluxRealloc, if_neg hp0, if_pos hsize, hfree]
      rfl
    · rw [if_pos hsize]
      exact hs'
  simp only [if_neg hsize]
  obtain ⟨k, b, l, rfl, hused, rfl⟩ := hs.exists_used hlive
  have hbs : b ∈ k ++ b :: l := by simp
  have hold := hs.layout.holds b hbs
  rw [fluxRealloc_of_used hp0 hsize b.ptr_sub hold.magic (hs.flags_of_used hbs hused)]
  by_cases hroom : (h.block b.addr).size ≥ memAlignUp size fluxMemAlign
  · -- the block is large enough
    refine ⟨b.ptr, _, k ++ b :: l, if_pos hroom, ?_, ?_, hs.apart, ?_⟩
    · exact layout_setHeader hs.layout rfl rfl hold.magic hold.size hold.flags
    · exact hs.list.modifyBlock hs.layout.tiles.apart (List.mem_map_of_mem hbs)
        (fun q hq => freeAddrs_subset hq) (fun _ => rfl) fun _ => rfl
    · rw [if_neg hp0]
      exact (List.perm_cons_erase hlive).symm.trans hs.live
  rw [if_neg hroom]
  rcases fluxAlloc_spec type pid hs hsize with
    ⟨hnone, -⟩ | ⟨h₁, bs₁, nb, halloc, hnb, -, -, hs₁, -⟩
  · refine ⟨0, { h with allocFailures := h.allocFailures + 1 }, k ++ b :: l, ?_, ?_⟩
    · rw [hnone]
      rfl
    · rw [if_pos rfl]
      exact hs.congr rfl fun c _ => block_congr rfl
  · -- the contents move to the new block
    have hnb0 := hs₁.layout.tiles.ptr_ne_zero hnb
    have hnbp : nb.ptr ≠ b.ptr := fun h => (List.nodup_cons.1 (nodup_live hs₁)).1 (h ▸ hlive)
    have hcopy : HeapShape place { h₁ with
        mem := copy h₁.mem nb.ptr.toNat b.ptr.toNat
          (min (h₁.block b.addr).size (h₁.block (memBlockFromPtr nb.ptr)).size).toNat } bs₁
        (nb.ptr :: live) := by
      refine hs₁.copy_into hnb ?_
      rw [nb.ptr_sub, (hs₁.layout.holds nb hnb).size]
      exact toNat_min_le ..
    obtain ⟨h', bs', hfree, hs', -⟩ := fluxFree_spec hcopy (List.mem_cons_of_mem _ hlive)
    refine ⟨nb.ptr, h', bs', ?_, ?_⟩
    · rw [halloc, Option.bind_some, if_neg hnb0, hfree]
      rfl
    · rw [if_neg hnb0]
      rwa [List.erase_cons_tail (by simpa using hnbp)] at hs'

end MemHeap

end FluxOs
