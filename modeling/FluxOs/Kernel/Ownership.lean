import FluxOs.Kernel.HeapRuns

/-!
# Blocks and their owners

The blocks of a heap as its headers tell them, and what an allocation, a release and a client's write leave
of the blocks in use: those of other owners keep their header, their contents and their entries in the memory
map.
-/

namespace FluxOs

open ByteMemory LinkedLists Tilings

namespace MemHeap

variable {place : HeapPlace} {h h' h'' : MemHeap} {bs bs' : List Block} {live live' : List UInt64}
  {b c : Block} {p q : UInt64} {pid : UInt32}

/-! ## The blocks of a heap -/

/-- The blocks from the header at `a` to the end `e`. -/
def blocksFrom (h : MemHeap) (e : Nat) : Nat → UInt64 → List Block
  | 0, _ => []
  | fuel + 1, a =>
    if a.toNat < e then
      let b : Block := ⟨a, (h.block a).size, (h.block a).flags &&& memBlockFree ≠ 0⟩
      b :: blocksFrom h e fuel (a + memBlockBytes + b.size)
    else []

/-- The blocks of the heap, from its first header on. -/
def heapBlocks (place : HeapPlace) (h : MemHeap) : List Block :=
  h.blocksFrom (place.base.toNat + fluxHeapSize.toNat) walkFuel place.base

theorem blocksFrom_eq {e fuel : Nat} {a : UInt64} (hsize : e < UInt64.size)
    (ht : Tiles Block.start Block.stop a.toNat bs e) (hholds : ∀ b ∈ bs, h.Holds b) (hfuel : bs.length < fuel) :
    h.blocksFrom e fuel a = bs := by
  induction bs generalizing fuel a with
  | nil =>
    have hae : a.toNat = e := ht
    cases fuel with
    | zero => rfl
    | succ fuel => rw [blocksFrom, if_neg (Nat.not_lt.2 (Nat.le_of_eq hae.symm))]
  | cons b bs ih =>
    obtain ⟨hstart, ht⟩ := ht
    have haddr : b.addr = a := UInt64.toNat_inj.1 hstart
    have hhold := hholds b List.mem_cons_self
    have hle := ht.le Block.start_le_stop
    have hbs := b.start_add_le_stop
    have h40 : memBlockBytes.toNat = 40 := rfl
    cases fuel with
    | zero => exact absurd hfuel (Nat.not_lt_zero _)
    | succ fuel =>
      have hb : (⟨a, (h.block a).size, (h.block a).flags &&& memBlockFree ≠ 0⟩ : Block) = b := by
        have hflags : ((h.block a).flags &&& memBlockFree ≠ 0 : Bool) = b.free := by
          rw [← haddr, hhold.flags, Bool.eq_iff_iff, decide_eq_true_iff]
          exact b.flags_and_free
        rw [hflags, ← haddr, hhold.size]
      have hnext : (a + memBlockBytes + b.size).toNat = b.stop := by
        have hstop : b.stop = b.addr.toNat + memBlockBytes.toNat + b.size.toNat := rfl
        have hhead : (a + memBlockBytes).toNat = a.toNat + memBlockBytes.toNat := by
          refine toNat_add_of_lt ?_
          rw [← haddr]
          omega
        rw [toNat_add_of_lt (by rw [hhead, ← haddr]; omega), hhead, ← haddr, hstop]
      rw [blocksFrom, if_pos (by omega)]
      dsimp only
      rw [hb]
      refine congrArg (b :: ·) (ih ?_ (fun c hc => hholds c (List.mem_cons_of_mem _ hc)) ?_)
      · rw [← haddr, hhold.size, haddr, hnext]
        exact ht
      · exact Nat.lt_of_succ_lt_succ hfuel

theorem Layout.heapBlocks_eq (hlay : Layout place h bs) : h.heapBlocks place = bs :=
  blocksFrom_eq place.fits hlay.tiles hlay.holds hlay.tiles.length_lt

/-- The blocks of the heap are as the allocator needs them. -/
def HeapOk (place : HeapPlace) (h : MemHeap) : Prop := ∃ bs live, HeapShape place h bs live

theorem HeapOk.shape (hok : HeapOk place h) : ∃ live, HeapShape place h (h.heapBlocks place) live := by
  obtain ⟨bs, live, hs⟩ := hok
  refine ⟨live, ?_⟩
  rw [hs.layout.heapBlocks_eq]
  exact hs

/-! ## Owners -/

/-- The block is in use, and its header names the owner. -/
def OwnedBy (h : MemHeap) (pid : UInt32) (b : Block) : Prop :=
  b.free = false ∧ (h.block b.addr).ownerPid = pid

/-- The block is in use by another owner. -/
def OwnedByOther (h : MemHeap) (pid : UInt32) (b : Block) : Prop :=
  b.free = false ∧ (h.block b.addr).ownerPid ≠ pid

instance : Decidable (h.OwnedBy pid b) := inferInstanceAs (Decidable (_ ∧ _))

instance : Decidable (h.OwnedByOther pid b) := inferInstanceAs (Decidable (_ ∧ _))

/-- A block stays, with its header, its contents and its entries in the memory map. -/
structure KeepsBlock (place : HeapPlace) (b : Block) (h h' : MemHeap) : Prop where
  stays : b ∈ h'.heapBlocks place
  bytes i : b.start ≤ i → i < b.stop → h'.mem i = h.mem i
  entries : h'.mapEntries b.ptr = h.mapEntries b.ptr

namespace KeepsBlock

theorem refl (hb : b ∈ h.heapBlocks place) : KeepsBlock place b h h := ⟨hb, fun _ _ _ => rfl, rfl⟩

theorem trans (hk : KeepsBlock place b h h') (hk' : KeepsBlock place b h' h'') : KeepsBlock place b h h'' :=
  ⟨hk'.stays, fun i h₁ h₂ => (hk'.bytes i h₁ h₂).trans (hk.bytes i h₁ h₂), hk'.entries.trans hk.entries⟩

theorem header (hk : KeepsBlock place b h h') : h'.block b.addr = h.block b.addr := by
  have := b.start_add_le_stop
  exact block_congr_bytes fun i h₁ h₂ => hk.bytes i h₁ (by unfold Block.start at this; omega)

theorem ownedBy (hk : KeepsBlock place b h h') : h'.OwnedBy pid b ↔ h.OwnedBy pid b := by
  rw [OwnedBy, OwnedBy, hk.header]

theorem ownedByOther (hk : KeepsBlock place b h h') : h'.OwnedByOther pid b ↔ h.OwnedByOther pid b := by
  rw [OwnedByOther, OwnedByOther, hk.header]

end KeepsBlock

/-! ## What stays -/

/-- A block in use whose bytes stay is one of the blocks afterwards if its pointer is still live. -/
theorem mem_of_bytes (hs : HeapShape place h bs live) (hs' : HeapShape place h' bs' live')
    (hc : c ∈ bs) (hused : c.free = false) (hlive : c.ptr ∈ live')
    (hbytes : ∀ i, c.start ≤ i → i < c.stop → h'.mem i = h.mem i) : c ∈ bs' := by
  obtain ⟨k, d, l, rfl, hd, hptr⟩ := hs'.exists_used hlive
  have hdbs : d ∈ k ++ d :: l := by simp
  have haddr : d.addr = c.addr := by rw [← d.ptr_sub, hptr, c.ptr_sub]
  have hheader : h'.block c.addr = h.block c.addr := by
    have := c.start_add_le_stop
    exact block_congr_bytes fun i h₁ h₂ => hbytes i h₁ (by unfold Block.start at this; omega)
  have hsize : d.size = c.size := by
    rw [← (hs'.layout.holds d hdbs).size, haddr, hheader, (hs.layout.holds c hc).size]
  have hdc : d = c := by
    obtain ⟨addr, size, free⟩ := d
    obtain ⟨addr', size', free'⟩ := c
    subst haddr hsize hd hused
    rfl
  rw [← hdc]
  exact hdbs

/-- A block in use stays when only another one and the free ones change. -/
theorem keepsBlock_of_changes (hs : HeapShape place h bs live) (hs' : HeapShape place h' bs' live')
    (hch : ChangesBlock bs p h h') (hc : c ∈ bs) (hused : c.free = false) (hcp : c.ptr ≠ p)
    (hlive : c.ptr ∈ live') : KeepsBlock place c h h' := by
  have hbytes (i : Nat) (h₁ : c.start ≤ i) (h₂ : i < c.stop) : h'.mem i = h.mem i := by
    refine hch.mem i fun b hb hbfree => ?_
    have hbc : b ≠ c := by
      rintro rfl
      rcases hbfree with hfree | hptr
      · rw [hused] at hfree
        exact Bool.noConfusion hfree
      · exact hcp hptr
    rcases hs.layout.tiles.disjoint hb hc hbc with hd | hd <;> omega
  refine ⟨?_, hbytes, hch.entries _ hcp⟩
  rw [hs'.layout.heapBlocks_eq]
  exact mem_of_bytes hs hs' hc hused hlive hbytes

/-- An allocation keeps all blocks in use; the new one, if any, is none of them. -/
theorem HeapOk.alloc {size : UInt64} {type : UInt32} (hok : HeapOk place h)
    (halloc : h.fluxAlloc size type pid = some (q, h')) : HeapOk place h' ∧
      (∀ b ∈ h.heapBlocks place, b.free = false → KeepsBlock place b h h') ∧
      (q ≠ 0 → ∃ c ∈ h'.heapBlocks place, c.ptr = q ∧ c.free = false ∧ memAlignUp size fluxMemAlign ≤ c.size ∧
        ∀ b ∈ h.heapBlocks place, b.free = false → b ≠ c) := by
  obtain ⟨live, hs⟩ := hok.shape
  by_cases hsize : size = 0
  · rw [fluxAlloc, if_pos hsize] at halloc
    cases halloc
    exact ⟨hok, fun b hb _ => KeepsBlock.refl hb, fun h0 => absurd rfl h0⟩
  · rcases fluxAlloc_spec type pid hs hsize with ⟨hnone, -⟩ | ⟨h₁, bs', c, hsome, hc, hcused, hroom, hs', -, hch, -⟩
    · rw [hnone] at halloc
      cases halloc
      have hs' : HeapShape place { h with allocFailures := h.allocFailures + 1 } _ live :=
        hs.congr rfl fun c _ => block_congr rfl
      refine ⟨⟨_, _, hs'⟩, fun b hb _ => ⟨?_, fun _ _ _ => rfl, rfl⟩, fun h0 => absurd rfl h0⟩
      rw [hs'.layout.heapBlocks_eq]
      exact hb
    · rw [hsome] at halloc
      cases halloc
      have hnew (b : Block) (hb : b ∈ h.heapBlocks place) (hused : b.free = false) :
          b.ptr ∈ live ∧ b.ptr ≠ c.ptr := by
        have hlive : b.ptr ∈ live := hs.live.mem_iff.2 (mem_usedPtrs.2 ⟨b, hb, hused, rfl⟩)
        exact ⟨hlive, fun heq => (List.nodup_cons.1 (nodup_live hs')).1 (heq ▸ hlive)⟩
      refine ⟨⟨_, _, hs'⟩, fun b hb hused => ?_, fun _ => ⟨c, ?_, rfl, hcused, hroom, fun b hb hused hbc => ?_⟩⟩
      · exact keepsBlock_of_changes hs hs' hch hb hused (hnew b hb hused).2
          (List.mem_cons_of_mem _ (hnew b hb hused).1)
      · rw [hs'.layout.heapBlocks_eq]
        exact hc
      · exact (hnew b hb hused).2 (congrArg Block.ptr hbc)

/-- A release keeps all other blocks in use. -/
theorem HeapOk.free (hok : HeapOk place h) (hb : b ∈ h.heapBlocks place) (hused : b.free = false)
    (hfree : h.fluxFree b.ptr = some h') : HeapOk place h' ∧
      ∀ c ∈ h.heapBlocks place, c.free = false → c ≠ b → KeepsBlock place c h h' := by
  obtain ⟨live, hs⟩ := hok.shape
  have hlive (c : Block) (hc : c ∈ h.heapBlocks place) (hcused : c.free = false) : c.ptr ∈ live :=
    hs.live.mem_iff.2 (mem_usedPtrs.2 ⟨c, hc, hcused, rfl⟩)
  obtain ⟨h₁, bs', hsome, hs', hch⟩ := fluxFree_spec hs (hlive b hb hused)
  rw [hsome] at hfree
  cases hfree
  refine ⟨⟨_, _, hs'⟩, fun c hc hcused hcb => ?_⟩
  have hptr : c.ptr ≠ b.ptr := by
    intro heq
    have haddr : c.addr = b.addr := by rw [← c.ptr_sub, heq, b.ptr_sub]
    have hdisj := hs.layout.tiles.disjoint hc hb hcb
    have := b.start_add_le_stop
    have := c.start_add_le_stop
    have h40 : memBlockBytes.toNat = 40 := rfl
    unfold Block.start at *
    rw [haddr] at *
    omega
  exact keepsBlock_of_changes hs hs' hch hc hcused hptr ((List.mem_erase_of_ne hptr).2 (hlive c hc hcused))

/-- The checks of `flux_free` reject the pointer. -/
def IgnoresFree (h : MemHeap) (p : UInt64) : Prop :=
  p = 0 ∨ (h.block (memBlockFromPtr p)).magic ≠ memBlockMagic ∨
    (h.block (memBlockFromPtr p)).flags &&& memBlockUsed = 0

theorem IgnoresFree.fluxFree_eq (hp : h.IgnoresFree p) : h.fluxFree p = some h := by
  rw [fluxFree]
  by_cases hp0 : p = 0
  · rw [if_pos hp0]
    rfl
  · rw [if_neg hp0]
    dsimp only
    by_cases hmagic : (h.block (memBlockFromPtr p)).magic ≠ memBlockMagic
    · rw [if_pos hmagic]
      rfl
    · rw [if_neg hmagic, if_pos ((hp.resolve_left hp0).resolve_left hmagic)]
      rfl

/-! ## Writes of a client -/

/-- The byte is outside the heap, or in the contents of one of the blocks `mine`. -/
def ByteIn (place : HeapPlace) (h : MemHeap) (mine : Block → Prop) (i : Nat) : Prop :=
  i < place.base.toNat ∨ place.base.toNat + fluxHeapSize.toNat ≤ i ∨
    ∃ b ∈ h.heapBlocks place, mine b ∧ b.payload ≤ i ∧ i < b.stop

/-- A write to such bytes keeps the blocks and their headers, and all of the other blocks. -/
theorem HeapOk.write {mem' : Memory} {mine : Block → Prop} (hok : HeapOk place h)
    (hmem : ∀ i, ¬h.ByteIn place mine i → mem' i = h.mem i) : HeapOk place { h with mem := mem' } ∧
      (∀ b ∈ h.heapBlocks place, b ∈ ({ h with mem := mem' } : MemHeap).heapBlocks place ∧
        ({ h with mem := mem' } : MemHeap).block b.addr = h.block b.addr) ∧
      ∀ b ∈ h.heapBlocks place, ¬mine b → KeepsBlock place b h { h with mem := mem' } := by
  obtain ⟨live, hs⟩ := hok.shape
  have ht := hs.layout.tiles
  -- no byte of a header, and none of another block, is written
  have hkept (c : Block) (hc : c ∈ h.heapBlocks place) (i : Nat) (h₁ : c.start ≤ i) (h₂ : i < c.stop)
      (hout : i < c.payload ∨ ¬mine c) : mem' i = h.mem i := by
    refine hmem i ?_
    have hbounds := ht.bounds hc
    rintro (hi | hi | ⟨b, hb, hmine, h₃, h₄⟩)
    · omega
    · omega
    · have hbstart : b.start ≤ b.payload := Nat.le_add_right ..
      by_cases hbc : b = c
      · subst hbc
        rcases hout with hout | hout
        · omega
        · exact hout hmine
      · rcases ht.disjoint hb hc hbc with hd | hd <;> omega
  have hheader (c : Block) (hc : c ∈ h.heapBlocks place) :
      ({ h with mem := mem' } : MemHeap).block c.addr = h.block c.addr := by
    have := c.start_add_le_stop
    exact block_congr_bytes fun i h₁ h₂ => hkept c hc i h₁ (by unfold Block.start at this; omega) (.inl h₂)
  have hs' : HeapShape place { h with mem := mem' } (h.heapBlocks place) live := hs.congr rfl hheader
  have hstays (c : Block) (hc : c ∈ h.heapBlocks place) :
      c ∈ ({ h with mem := mem' } : MemHeap).heapBlocks place := by
    rw [hs'.layout.heapBlocks_eq]
    exact hc
  exact ⟨⟨_, _, hs'⟩, fun c hc => ⟨hstays c hc, hheader c hc⟩, fun c hc hother =>
    ⟨hstays c hc, fun i h₁ h₂ => hkept c hc i h₁ h₂ (.inr hother), rfl⟩⟩

/-- The blocks are in the bytes. -/
theorem HeapOk.congr (hok : HeapOk place h) (hmem : h'.mem = h.mem) (hfirst : h'.freeList = h.freeList) :
    HeapOk place h' ∧ h'.heapBlocks place = h.heapBlocks place := by
  obtain ⟨live, hs⟩ := hok.shape
  have hs' := hs.congr hfirst fun _ _ => block_congr hmem
  exact ⟨⟨_, _, hs'⟩, hs'.layout.heapBlocks_eq⟩

end MemHeap

end FluxOs
