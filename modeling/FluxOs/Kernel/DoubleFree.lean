import FluxOs.Kernel.MagicWords

/-!
# Double frees

A pointer that was freed and not returned since points behind a header that is no longer one, or behind that of
a free block, whatever happened to these bytes in the meantime.  `flux_free` of it changes nothing.
-/

namespace FluxOs

open ByteMemory LinkedLists Tilings Actions MemHeap HeapState

variable {place : HeapPlace} {h h' : MemHeap} {bs : List Block} {live : List UInt64} {p q size : UInt64}
  {type pid : UInt32}

/-! ## The magic value stays in the headers -/

theorem memAlignUp_mod (size : UInt64) : (memAlignUp size fluxMemAlign).toNat % 8 = 0 := by
  rw [toNat_memAlignUp]
  omega

theorem magicAtHeaders_init : MagicAtHeaders place (h.fluxMemInit place) := by
  obtain ⟨h₀, hinit, hmem₀⟩ : ∃ h₀ : MemHeap, h.fluxMemInit place =
      { h₀.modifyBlock place.base (fun _ => remainderHeader (fluxHeapSize - memBlockBytes)) with
        freeList := place.base }.memMapAdd place.base fluxHeapSize fluxMemKernel fluxPidKernel ∧
      h₀.mem = fill h.mem place.base.toNat fluxHeapSize.toNat 0 := ⟨_, rfl, rfl⟩
  have hbase : place.base.toNat % 16 = 0 := place.aligned
  have hzero : MagicIn place [] h₀ := by
    refine ⟨fun a ha => absurd ha List.not_mem_nil, fun i h₁ h₂ h8 hword => ?_⟩
    have hread : read h₀.mem i 4 = read (fun _ => 0) i 4 := by
      rw [hmem₀]
      have hheap : fluxHeapSize.toNat = 16777216 := rfl
      exact read_congr fun j hj₁ hj₂ => fill_of_inside (by omega) (by omega)
    have hbytes : read (fun _ => 0) i 4 = [0, 0, 0, 0] := rfl
    rw [word, hread, hbytes] at hword
    exact absurd hword (by decide)
  have hfirst : MagicIn place [place.base] h₀ := by
    refine hzero.mono (List.nil_subset _) fun a ha => ?_
    rw [List.mem_singleton.1 ha]
    omega
  have hsize : (fluxHeapSize - memBlockBytes).toUInt32 ≠ memBlockMagic := toUInt32_ne_magic (by decide)
  have hany : fluxMemAny ≠ memBlockMagic := by decide
  have hm := hfirst.modifyBlock (f := fun _ => remainderHeader (fluxHeapSize - memBlockBytes))
    (List.mem_singleton_self _) ⟨hsize, hany, zero_ne_magic, zero_ne_magic⟩
  rw [magicAtHeaders_iff fluxMemInit_shape.layout]
  refine hm.congr ?_
  rw [hinit, mem_memMapAdd]

theorem magicAtHeaders_alloc (hplace : place.NoMagic) (hs : HeapShape place h bs live) (hm : MagicAtHeaders place h)
    (htype : type ≠ memBlockMagic) (halloc : h.fluxAlloc size type pid = some (q, h')) :
    MagicAtHeaders place h' := by
  by_cases hsize : size = 0
  · rw [fluxAlloc, if_pos hsize] at halloc
    cases halloc
    exact hm
  rcases memFindFreeBlock_cases (memAlignUp size fluxMemAlign) hs with
    ⟨hfind, -⟩ | ⟨b, hb, hfind, hfree, hneeded, -⟩
  · rw [fluxAlloc_of_none hsize hfind] at halloc
    cases halloc
    have hs' : HeapShape place { h with allocFailures := h.allocFailures + 1 } bs live :=
      hs.congr rfl fun c _ => block_congr rfl
    rw [magicAtHeaders_iff hs.layout] at hm
    rw [magicAtHeaders_iff hs'.layout]
    exact hm.congr rfl
  rw [magicAtHeaders_iff hs.layout] at hm
  obtain ⟨k, l, rfl⟩ := List.append_of_mem hb
  have ht := hs.layout.tiles
  have hlist := hs.list
  rw [freeAddrs_append, freeAddrs_cons_of_free hfree] at hlist
  have hnodes := sublist_nodes (b := b) (freeAddrs_sublist (k := k)) (freeAddrs_sublist (k := l))
  obtain ⟨hlist₀, hsame, -⟩ := remove_spec ht freeAddrs_sublist freeAddrs_sublist hlist
  have hm₀ := hm.remove hplace (headers_of_tiles ht) hnodes.subset (ht.nodup.sublist hnodes) hlist
  have hlay₀ := hs.layout.congr hsame
  have hb0 := ht.apart.ne_zero b.addr (by simp)
  -- the block is cut, or it is taken as a whole
  obtain ⟨h₁, b', rest, hsplit, haddr, hrest, hlay₁, hlist₁, hroom, hm₁⟩ : ∃ h₁ b' rest,
      (h.memRemoveFromFreeList b.addr).memSplitBlock b.addr (memAlignUp size fluxMemAlign) = some h₁ ∧
      b'.addr = b.addr ∧ (rest = [] ∨ ∃ c, rest = [c] ∧ c.free = true) ∧
      Layout place h₁ (k ++ b' :: (rest ++ l)) ∧ h₁.FreeListIs (freeAddrs k ++ freeAddrs (rest ++ l)) ∧
      memAlignUp size fluxMemAlign ≤ b'.size ∧ MagicIn place ((k ++ b' :: (rest ++ l)).map Block.addr) h₁ := by
    by_cases hroom : b.size - memAlignUp size fluxMemAlign ≥ memBlockBytes + fluxMemAlign
    · obtain ⟨h₁, hsplit, hlay₁, hlist₁, -⟩ := memSplitBlock_split hlay₀ hfree hlist₀ hneeded hroom
      exact ⟨h₁, b.front (memAlignUp size fluxMemAlign), [b.remainder (memAlignUp size fluxMemAlign)], hsplit, rfl,
        .inr ⟨_, rfl, rfl⟩, hlay₁, hlist₁, UInt64.le_refl _,
          hm₀.split hplace hlay₀ hlist₀ hneeded hroom (memAlignUp_mod size) hsplit⟩
    · exact ⟨_, b, [], memSplitBlock_of_full (hlay₀.holds b hb).size hroom, rfl, .inl rfl, hlay₀, hlist₀, hneeded,
        hm₀⟩
  obtain ⟨h'', halloc', hfirst, hmem, -⟩ := fluxAlloc_of_some type pid hsize hfind hb0 hsplit
  rw [halloc] at halloc'
  obtain ⟨-, rfl⟩ := Prod.mk.inj (Option.some.inj halloc')
  rw [← haddr] at hmem
  have hs' : HeapShape place h' (k ++ b'.inUse :: (rest ++ l)) (b'.ptr :: live) :=
    shape_of_taken hs hfree hrest hlay₁ hlist₁ (UInt64.le_iff_toNat_le.1 hroom) hfirst hmem
  have hb' : b'.addr ∈ (k ++ b' :: (rest ++ l)).map Block.addr := by simp
  have hold := hm₁.noMagic (headers_of_tiles hlay₁.tiles) hb'
  have hmarked := hm₁.modifyBlock (f := markUsed type pid) hb' ⟨hold.size, htype, hold.next, hold.prev⟩
  have hptr : b'.ptr.toNat = b'.addr.toNat + 40 := hlay₁.tiles.toNat_ptr (b := b') (by simp)
  have hb8 := hm₁.aligned b'.addr hb'
  have hfilled := hmarked.fill (s := b'.ptr.toNat) (by omega) (memAlignUp_mod size)
  rw [magicAtHeaders_iff hs'.layout]
  have haddrs : (k ++ b'.inUse :: (rest ++ l)).map Block.addr = (k ++ b' :: (rest ++ l)).map Block.addr := by
    simp [Block.inUse]
  rw [haddrs]
  exact hfilled.congr hmem

theorem magicAtHeaders_free (hplace : place.NoMagic) (hs : HeapShape place h bs live) (hm : MagicAtHeaders place h)
    (hp : p ∈ live) (hfree : h.fluxFree p = some h') : MagicAtHeaders place h' := by
  rw [magicAtHeaders_iff hs.layout] at hm
  obtain ⟨k, b, l, rfl, hused, rfl⟩ := hs.exists_used hp
  obtain ⟨h₀, h₂, hmem₀, -, hlist₁, hadd, hfree', hlay₂, hlist₂, -⟩ := fluxFree_added hs hused
  have hm₀ := hm.congr hmem₀
  have ht := hs.layout.tiles
  have hb : b.addr ∈ (k ++ b :: l).map Block.addr := by simp
  have hold := hm₀.noMagic (headers_of_tiles ht) hb
  have hm₁ := hm₀.modifyBlock (f := disowned) hb ⟨hold.size, hold.type, hold.next, hold.prev⟩
  have hm₂ := hm₁.add hplace ht freeAddrs_sublist freeAddrs_sublist hlist₁ hadd
  have haddrs : (k ++ b.freed :: l).map Block.addr = (k ++ b :: l).map Block.addr := by
    simp [Block.freed]
  rw [← haddrs] at hm₂
  obtain ⟨h₃, bs', hloop, hlay', hm'⟩ := hm₂.memCoalesce hplace hlay₂ hlist₂
  rw [hfree', hloop] at hfree
  cases hfree
  exact (magicAtHeaders_iff hlay').2 hm'

/-- The allocation at `p` gets another type. -/
theorem magicAtHeaders_retype (hs : HeapShape place h bs live) (hm : MagicAtHeaders place h) (hp : p ∈ live)
    (htype : type ≠ memBlockMagic) :
    MagicAtHeaders place (h.modifyBlock (memBlockFromPtr p) fun b => { b with type }) := by
  rw [magicAtHeaders_iff hs.layout] at hm
  obtain ⟨k, b, l, rfl, hused, rfl⟩ := hs.exists_used hp
  have hb : b.addr ∈ (k ++ b :: l).map Block.addr := by simp
  have hbold := hs.layout.holds b (by simp)
  have hold := hm.noMagic (headers_of_tiles hs.layout.tiles) hb
  have hlay' : Layout place (h.modifyBlock b.addr fun b => { b with type }) (k ++ b :: l) :=
    layout_setHeader hs.layout rfl rfl hbold.magic hbold.size hbold.flags
  rw [b.ptr_sub, magicAtHeaders_iff hlay']
  exact hm.modifyBlock hb ⟨hold.size, htype, hold.next, hold.prev⟩

/-- The contents of an allocation are copied to another one. -/
theorem magicAtHeaders_copyOver (hs : HeapShape place h bs live) (hm : MagicAtHeaders place h) (hp : p ∈ live)
    (hq : q ∈ live) : MagicAtHeaders place (h.copyOver p q) := by
  rw [magicAtHeaders_iff hs.layout] at hm
  obtain ⟨b, hb, -, rfl, -, hbsize⟩ := hs.block_of_live hp
  obtain ⟨c, hc, -, rfl, -, hcsize⟩ := hs.block_of_live hq
  have ht := hs.layout.tiles
  have hn : (min (h.header b.ptr).size (h.header c.ptr).size).toNat = min b.size.toNat c.size.toNat := by
    rw [hbsize, hcsize, toNat_min]
  have hs' : HeapShape place (h.copyOver b.ptr c.ptr) bs live := by
    refine hs.copy_into hc ?_
    rw [hn]
    exact Nat.min_le_right ..
  rw [magicAtHeaders_iff hs'.layout]
  have hbptr := ht.toNat_ptr hb
  have hcptr := ht.toNat_ptr hc
  have hb8 := hm.aligned b.addr (List.mem_map_of_mem hb)
  have hc8 := hm.aligned c.addr (List.mem_map_of_mem hc)
  have hbstop : b.payload + b.size.toNat = b.stop := rfl
  have hcstop : c.payload + c.size.toNat = c.stop := rfl
  have hbstop8 := hm.stop_aligned ht hb
  have hcstop8 := hm.stop_aligned ht hc
  obtain ⟨hbase, hend⟩ := ht.bounds hb
  have hstart : b.start ≤ b.payload := Nat.le_add_right ..
  have hbpay : b.payload = b.addr.toNat + 40 := rfl
  have hcpay : c.payload = c.addr.toNat + 40 := rfl
  refine hm.copy (by omega) (by omega) (by omega) (by omega) (by omega) fun a ha => ?_
  obtain ⟨d, hd, rfl⟩ := List.mem_map.1 ha
  have h40 : memBlockBytes.toNat = 40 := rfl
  rcases ht.header_outside hb hd with hout | hout <;> omega

theorem magicAtHeaders_realloc (hplace : place.NoMagic) (hs : HeapShape place h bs live) (hm : MagicAtHeaders place h)
    (hp : p ∈ live) (htype : type ≠ memBlockMagic) (hrealloc : h.fluxRealloc p size type pid = some (q, h')) :
    MagicAtHeaders place h' := by
  by_cases hsize : size = 0
  · have hp0 : p ≠ 0 := fun h => hs.zero_notMem (h ▸ hp)
    rw [fluxRealloc, if_neg hp0, if_pos hsize] at hrealloc
    obtain ⟨h₁, hfree, hrealloc⟩ := Option.bind_eq_some_iff.1 hrealloc
    cases hrealloc
    exact magicAtHeaders_free hplace hs hm hp hfree
  rw [hs.fluxRealloc_eq hp hsize] at hrealloc
  by_cases hfits : h.Fits p size
  · rw [if_pos hfits] at hrealloc
    cases hrealloc
    exact magicAtHeaders_retype hs hm hp htype
  · rw [if_neg hfits] at hrealloc
    obtain ⟨⟨q', h₁⟩, halloc, hrest⟩ := Option.bind_eq_some_iff.1 hrealloc
    dsimp only at hrest
    have hm₁ := magicAtHeaders_alloc hplace hs hm htype halloc
    split_ifs at hrest with hq
    · cases hrest
      exact hm₁
    · obtain ⟨h₂, hfree, hrest⟩ := Option.bind_eq_some_iff.1 hrest
      cases hrest
      obtain ⟨q'', h₃, bs₁, halloc', hs₁⟩ := fluxAlloc_keeps size type pid hs
      rw [halloc] at halloc'
      obtain ⟨rfl, rfl⟩ := Prod.mk.inj (Option.some.inj halloc')
      rw [liveAfterAlloc, if_neg hq] at hs₁
      have hp₁ := List.mem_cons_of_mem q hp
      have hm₂ := magicAtHeaders_copyOver hs₁ hm₁ hp₁ List.mem_cons_self
      obtain ⟨bs₂, hs₂⟩ :=
        (copyOver_effect (s := ⟨h₁, q :: live⟩) (p := p) ⟨bs₁, hs₁⟩ (q := q) List.mem_cons_self).shaped
      exact magicAtHeaders_free hplace hs₂ hm₂ hp₁ hfree

/-- No word of a live block becomes the magic value. -/
def StoresNoMagic (s : HeapState) (mem : Memory) : Prop :=
  ∀ p ∈ s.live, ∀ i, p.toNat ≤ i → i + 4 ≤ p.toNat + (s.heap.header p).size.toNat →
    word { s.heap with mem } i = memBlockMagic → s.heap.word i = memBlockMagic

theorem magicAtHeaders_write {mem : Memory} (hs : HeapShape place h bs live) (hm : MagicAtHeaders place h)
    (hw : ClientWrites place h live mem) (hstores : StoresNoMagic ⟨h, live⟩ mem) :
    MagicAtHeaders place { h with mem } := by
  rw [magicAtHeaders_iff hs.layout] at hm
  rw [magicAtHeaders_iff (hs.write hw).layout]
  have ht := hs.layout.tiles
  refine ⟨hm.aligned, fun i h₁ h₂ h8 hword => ?_⟩
  by_cases hin : ∃ p ∈ live, p.toNat ≤ i ∧ i < p.toNat + (h.header p).size.toNat
  · obtain ⟨p, hp, hpi, hip⟩ := hin
    obtain ⟨b, hb, -, rfl, -, hsize⟩ := hs.block_of_live hp
    have hptr := ht.toNat_ptr hb
    have hstop : b.payload + b.size.toNat = b.stop := rfl
    have hstop8 := hm.stop_aligned ht hb
    rw [hsize] at hip
    refine hm.only i h₁ h₂ h8 (hstores b.ptr hp i hpi ?_ hword)
    rw [hsize]
    omega
  · have hsame : word { h with mem } i = h.word i := by
      refine word_congr fun j hj₁ hj₂ => hw j (by omega) ?_ fun p hp => ?_
      · have hbase : place.base.toNat % 16 = 0 := place.aligned
        have hheap : fluxHeapSize.toNat = 16777216 := rfl
        omega
      · by_contra hinside
        obtain ⟨b, hb, -, rfl, -, hsize⟩ := hs.block_of_live hp
        have hptr := ht.toNat_ptr hb
        have hpay : b.payload = b.addr.toNat + 40 := rfl
        have hstop : b.payload + b.size.toNat = b.stop := rfl
        have hb8 := hm.aligned b.addr (List.mem_map_of_mem hb)
        have hstop8 := hm.stop_aligned ht hb
        have hheader : (h.block (memBlockFromPtr b.ptr)).size = b.size := hsize
        rw [hheader] at hinside
        refine hin ⟨b.ptr, hp, ?_, ?_⟩
        · omega
        · rw [hsize]
          omega
    exact hm.only i h₁ h₂ h8 (hsame ▸ hword)

/-! ## Freed pointers -/

/-- Where the header of a block can be: at a multiple of 8 in the heap. -/
def HeaderPlace (place : HeapPlace) (p : UInt64) : Prop :=
  place.base.toNat ≤ (memBlockFromPtr p).toNat ∧
    (memBlockFromPtr p).toNat < place.base.toNat + fluxHeapSize.toNat ∧ (memBlockFromPtr p).toNat % 8 = 0

theorem headerPlace_of_live (hs : HeapShape place h bs live) (hm : MagicAtHeaders place h) (hp : p ∈ live) :
    HeaderPlace place p := by
  rw [magicAtHeaders_iff hs.layout] at hm
  obtain ⟨b, hb, -, rfl, -, -⟩ := hs.block_of_live hp
  obtain ⟨hbase, hend⟩ := hs.layout.tiles.bounds hb
  have hle := b.start_add_le_stop
  have h40 : memBlockBytes.toNat = 40 := rfl
  have hstart : b.start = b.addr.toNat := rfl
  rw [HeaderPlace, b.ptr_sub]
  exact ⟨hbase, by omega, hm.aligned b.addr (List.mem_map_of_mem hb)⟩

/-- A pointer that is not live is not behind the header of a block in use. -/
theorem ignoresFree_of_not_live (hs : HeapShape place h bs live) (hm : MagicAtHeaders place h)
    (hp : HeaderPlace place p) (hnot : p ∉ live) : h.IgnoresFree p := by
  rw [magicAtHeaders_iff hs.layout] at hm
  obtain ⟨h₁, h₂, h8⟩ := hp
  right
  by_cases hmagic : (h.block (memBlockFromPtr p)).magic = memBlockMagic
  · right
    obtain ⟨a, ha, haddr⟩ := hm.only _ h₁ h₂ h8 (magic_block.symm.trans hmagic)
    obtain ⟨b, hb, rfl⟩ := List.mem_map.1 ha
    have haddr : b.addr = memBlockFromPtr p := UInt64.toNat_inj.1 haddr
    have hfree : b.free = true := by
      by_contra hused
      refine hnot (hs.live.mem_iff.2 (mem_usedPtrs.2 ⟨b, hb, by simpa using hused, ?_⟩))
      rw [Block.ptr, haddr]
      exact UInt64.sub_add_cancel ..
    rw [← haddr, (hs.layout.holds b hb).flags]
    exact b.flags_and_used.2 hfree
  · exact .inl hmagic

/-- The heap, with the pointers that were freed and have not been returned since. -/
structure FreedState where
  state : HeapState
  freed : List UInt64

namespace FreedState

variable (place) in
/-- One call.  A pointer that is not held any more has been freed, and one that is held again was returned. -/
def step (c : HeapCall) (s : FreedState) : Option FreedState :=
  (HeapState.step place c s.state).map fun t =>
    ⟨t, (s.state.live ++ s.freed).filter fun p => p ∉ t.live⟩

variable (place) in
/-- Calls of clients, which may pass pointers that they freed before.  They write to what they hold only, and
never use the magic value. -/
def Allowed : HeapCall → FreedState → Prop
  | .init, _ => True
  | .alloc _ type _, _ => type ≠ memBlockMagic
  | .free p, s => p = 0 ∨ p ∈ s.state.live ∨ p ∈ s.freed
  | .realloc p _ type _, s => type ≠ memBlockMagic ∧ (p = 0 ∨ p ∈ s.state.live ∨ p ∈ s.freed)
  | .write mem, s => ClientWrites place s.state.heap s.state.live mem ∧ StoresNoMagic s.state mem

/-- The heap as `flux_mem_init` leaves it; nothing was freed. -/
def start (place : HeapPlace) (h : MemHeap) : FreedState := ⟨⟨h.fluxMemInit place, []⟩, []⟩

variable (place) in
/-- The blocks tile the heap, the magic value is in their headers only, and freed pointers are not held. -/
structure Sound (s : FreedState) : Prop where
  shaped : Shaped place s.state
  magic : MagicAtHeaders place s.state.heap
  freed p : p ∈ s.freed → p ∉ s.state.live ∧ HeaderPlace place p

variable {s t : FreedState} {c : HeapCall}

theorem Sound.ignoresFree (hs : Sound place s) (hp : p = 0 ∨ p ∈ s.freed) : s.state.heap.IgnoresFree p := by
  rcases hp with rfl | hp
  · exact .inl rfl
  · obtain ⟨bs, hshape⟩ := hs.shaped
    obtain ⟨hnot, hheader⟩ := hs.freed p hp
    exact ignoresFree_of_not_live hshape hs.magic hheader hnot

theorem sound_start : Sound place (start place h) :=
  ⟨⟨_, fluxMemInit_shape⟩, magicAtHeaders_init, fun _ hp => absurd hp List.not_mem_nil⟩

/-- Passing a freed pointer is harmless. -/
theorem Sound.legal (hs : Sound place s) (hallowed : Allowed place c s) : Legal place c s.state := by
  have hpointer (p : UInt64) (hp : p = 0 ∨ p ∈ s.state.live ∨ p ∈ s.freed) :
      p ∈ s.state.live ∨ s.state.heap.IgnoresFree p := by
    rcases hp with hp | hp | hp
    · exact .inr (hs.ignoresFree (.inl hp))
    · exact .inl hp
    · exact .inr (hs.ignoresFree (.inr hp))
  cases c with
  | init => trivial
  | alloc size type pid => trivial
  | free p => exact hpointer p hallowed
  | realloc p size type pid => exact hpointer p hallowed.2
  | write mem => exact hallowed.1

/-- A call keeps the magic value in the headers. -/
theorem Sound.magic_step (hplace : place.NoMagic) (hs : Sound place s) (hallowed : Allowed place c s) {u : HeapState}
    (hu : HeapState.step place c s.state = some u) : MagicAtHeaders place u.heap := by
  obtain ⟨bs, hshape⟩ := hs.shaped
  have hm := hs.magic
  cases c with
  | init =>
    cases hu
    exact magicAtHeaders_init
  | alloc size type pid =>
    obtain ⟨⟨q, h'⟩, halloc, rfl⟩ := Option.map_eq_some_iff.1 hu
    exact magicAtHeaders_alloc hplace hshape hm hallowed halloc
  | free p =>
    obtain ⟨h', hfree, rfl⟩ := Option.map_eq_some_iff.1 hu
    rcases hs.legal hallowed with hp | hp
    · exact magicAtHeaders_free hplace hshape hm hp hfree
    · rw [hp.fluxFree_eq] at hfree
      cases hfree
      exact hm
  | realloc p size type pid =>
    obtain ⟨⟨q, h'⟩, hrealloc, rfl⟩ := Option.map_eq_some_iff.1 hu
    by_cases hp0 : p = 0
    · rw [fluxRealloc, if_pos hp0] at hrealloc
      exact magicAtHeaders_alloc hplace hshape hm hallowed.1 hrealloc
    · rcases hs.legal hallowed with hp | hp
      · exact magicAtHeaders_realloc hplace hshape hm hp hallowed.1 hrealloc
      · rw [IgnoresFree.fluxRealloc_eq hp hp0] at hrealloc
        cases hrealloc
        exact hm
  | write mem =>
    cases hu
    exact magicAtHeaders_write hshape hm hallowed.1 hallowed.2

theorem sound_step (hplace : place.NoMagic) (c : HeapCall) (s t : FreedState) (hallowed : Allowed place c s)
    (hs : Sound place s) (ht : step place c s = some t) : Sound place t := by
  obtain ⟨u, hu, rfl⟩ := Option.map_eq_some_iff.1 ht
  refine ⟨shaped_step place c s.state u (hs.legal hallowed) hs.shaped hu, hs.magic_step hplace hallowed hu,
    fun p hp => ?_⟩
  obtain ⟨hold, hnot⟩ := List.mem_filter.1 hp
  refine ⟨of_decide_eq_true hnot, ?_⟩
  rcases List.mem_append.1 hold with hlive | hfreed
  · obtain ⟨bs, hshape⟩ := hs.shaped
    exact headerPlace_of_live hshape hs.magic hlive
  · exact (hs.freed p hfreed).2

/-- In every state that clients can reach, freeing a pointer once more changes nothing. -/
theorem doubleFree_harmless (hplace : place.NoMagic) (hrun : Reaches (step place) (Allowed place) (start place h) s)
    (hp : p ∈ s.freed) : s.state.heap.fluxFree p = some s.state.heap :=
  ((hrun.invariant (sound_step hplace) sound_start).ignoresFree (.inr hp)).fluxFree_eq

theorem heapPlace_noMagic : heapPlace.NoMagic := by
  intro a _ hend hmagic
  have hlow := congrArg UInt32.toNat hmagic
  rw [UInt64.toNat_toUInt32] at hlow
  have hvalue : memBlockMagic.toNat = 1179407704 := rfl
  have hstop : heapPlace.base.toNat + fluxHeapSize.toNat = 16781312 := rfl
  omega

/-- An allocation of 100 bytes that is freed once, and then once more. -/
theorem doubleFree_harmless_boot : ∃ s p, Reaches (step heapPlace) (Allowed heapPlace) (start heapPlace bootHeap) s ∧
    p ∈ s.freed ∧ s.state.heap.fluxFree p = some s.state.heap := by
  have hs : HeapShape heapPlace (bootHeap.fluxMemInit heapPlace) [initialBlock heapPlace] [] := fluxMemInit_shape
  rcases fluxAlloc_spec fluxMemKernel fluxPidKernel hs (by decide : (100 : UInt64) ≠ 0) with
    ⟨-, -, hnone⟩ | ⟨h₁, bs, b, halloc, hb, -, -, hs₁, -⟩
  · exact absurd (hnone (initialBlock heapPlace) (by simp) rfl) (by decide)
  obtain ⟨h₂, bs₂, hfree, -, -⟩ := fluxFree_spec hs₁ List.mem_cons_self
  have halloced : HeapState.step heapPlace (.alloc 100 fluxMemKernel fluxPidKernel)
      ⟨bootHeap.fluxMemInit heapPlace, []⟩ =
      some ⟨h₁, [b.ptr]⟩ := by
    rw [HeapState.step, halloc, Option.map_some, liveAfterAlloc, if_neg (hs₁.layout.tiles.ptr_ne_zero hb)]
  have hfreed : HeapState.step heapPlace (.free b.ptr) ⟨h₁, [b.ptr]⟩ = some ⟨h₂, []⟩ := by
    rw [HeapState.step, hfree, Option.map_some, List.erase_cons_head]
  have hfirst : step heapPlace (.alloc 100 fluxMemKernel fluxPidKernel) (start heapPlace bootHeap) =
      some ⟨⟨h₁, [b.ptr]⟩, []⟩ := by
    rw [step, start, halloced]
    rfl
  have hsecond : step heapPlace (.free b.ptr) ⟨⟨h₁, [b.ptr]⟩, []⟩ = some ⟨⟨h₂, []⟩, [b.ptr]⟩ := by
    rw [step, hfreed]
    simp
  have htype : Allowed heapPlace (.alloc 100 fluxMemKernel fluxPidKernel) (start heapPlace bootHeap) :=
    (by decide : fluxMemKernel ≠ memBlockMagic)
  have hheld : Allowed heapPlace (.free b.ptr) ⟨⟨h₁, [b.ptr]⟩, []⟩ := .inr (.inl (List.mem_singleton_self _))
  have hrun : Reaches (step heapPlace) (Allowed heapPlace) (start heapPlace bootHeap) ⟨⟨h₂, []⟩, [b.ptr]⟩ :=
    ((Reaches.refl _).tail htype hfirst).tail hheld hsecond
  exact ⟨_, b.ptr, hrun, List.mem_singleton_self _,
    doubleFree_harmless heapPlace_noMagic hrun (List.mem_singleton_self _)⟩

end FreedState

end FluxOs
