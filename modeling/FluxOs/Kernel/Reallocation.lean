import FluxOs.Kernel.HeapCalls

/-!
# What a reallocation guarantees

`flux_realloc` of a live block keeps it where it is when the block is large enough, and moves its contents to
a new block otherwise.  The new size is aligned up before it is compared with the size of the block, and
aligning up wraps.
-/

namespace FluxOs

open ByteMemory LinkedLists Tilings MemHeap HeapState

/-- The `n` bytes at `p` are at `q` afterwards. -/
def SameBytes (h h' : MemHeap) (p q : UInt64) (n : Nat) : Prop :=
  ∀ i < n, h'.mem (q.toNat + i) = h.mem (p.toNat + i)

/-- What a client may expect of `flux_realloc` of its block at `p` to `size` bytes that returned `q`: the
contents are in a block of that size, apart from all other allocations; on failure, the block is as it was. -/
def ReallocSound (place : HeapPlace) (h h' : MemHeap) (live : List UInt64) (p size q : UInt64) : Prop :=
  if q = 0 then
    Shaped place ⟨h', live⟩ ∧ h'.header p = h.header p ∧ SameBytes h h' p p (h.header p).size.toNat
  else
    Shaped place ⟨h', q :: live.erase p⟩ ∧ size.toNat ≤ (h'.header q).size.toNat ∧
      SameBytes h h' p q (min (h.header p).size.toNat size.toNat) ∧
      ∀ r ∈ live, r ≠ p → BytesApart q.toNat (h'.header q).size.toNat r.toNat (h'.header r).size.toNat

variable {place : HeapPlace} {h h' : MemHeap} {bs : List Block} {live : List UInt64} {p q size : UInt64}
  {type pid : UInt32}

theorem toNat_min (x y : UInt64) : (min x y).toNat = min x.toNat y.toNat := by
  show (if x ≤ y then x else y).toNat = _
  split_ifs with hxy
  · exact (Nat.min_eq_left (UInt64.le_iff_toNat_le.1 hxy)).symm
  · exact (Nat.min_eq_right (Nat.le_of_lt (UInt64.not_le.1 hxy))).symm

namespace HeapShape

/-- Two live blocks do not overlap. -/
theorem bytesApart (hs : HeapShape place h bs live) (hp : p ∈ live) (hq : q ∈ live) (hpq : p ≠ q) :
    BytesApart p.toNat (h.header p).size.toNat q.toNat (h.header q).size.toNat := by
  obtain ⟨b, hb, -, rfl, -, hbsize⟩ := hs.block_of_live hp
  obtain ⟨c, hc, -, rfl, -, hcsize⟩ := hs.block_of_live hq
  have ht := hs.layout.tiles
  have hbc : b ≠ c := fun h => hpq (h ▸ rfl)
  have hbstop : b.stop = b.payload + b.size.toNat := rfl
  have hcstop : c.stop = c.payload + c.size.toNat := rfl
  have hbstart : b.start ≤ b.payload := Nat.le_add_right ..
  have hcstart : c.start ≤ c.payload := Nat.le_add_right ..
  rw [hbsize, hcsize, ht.toNat_ptr hb, ht.toNat_ptr hc]
  unfold BytesApart
  rcases ht.disjoint hb hc hbc with h | h <;> omega

/-- A live block is not larger than the heap. -/
theorem size_le (hs : HeapShape place h bs live) (hp : p ∈ live) :
    (h.header p).size.toNat ≤ fluxHeapSize.toNat := by
  obtain ⟨b, hb, -, rfl, -, hsize⟩ := hs.block_of_live hp
  rw [hsize]
  exact hs.layout.tiles.size_le hb

/-- The blocks of the other live pointers are apart from the one that is returned. -/
theorem apart_of_returned (hs : HeapShape place h' bs (q :: live.erase p)) :
    ∀ r ∈ live, r ≠ p →
      BytesApart q.toNat (h'.header q).size.toNat r.toNat (h'.header r).size.toNat := by
  intro r hr hrp
  have hr' : r ∈ live.erase p := (List.mem_erase_of_ne hrp).2 hr
  refine hs.bytesApart List.mem_cons_self (List.mem_cons_of_mem _ hr') ?_
  rintro rfl
  exact (List.nodup_cons.1 (nodup_live hs)).1 hr'

/-- `flux_realloc` of a live pointer to a size other than 0. -/
theorem fluxRealloc_eq (hs : HeapShape place h bs live) (hp : p ∈ live) (hsize : size ≠ 0) :
    h.fluxRealloc p size type pid =
      if h.Fits p size then some (p, h.modifyBlock (memBlockFromPtr p) fun b => { b with type })
      else (h.fluxAlloc size type pid).bind fun r =>
        if r.1 = 0 then some (0, r.2)
        else ((r.2.copyOver p r.1).fluxFree p).bind fun h => some (r.1, h) := by
  have hp0 : p ≠ 0 := fun h => hs.zero_notMem (h ▸ hp)
  have hchecks := (not_or.1 (hs.not_ignoresFree hp)).2
  rw [not_or, not_not] at hchecks
  exact fluxRealloc_of_used hp0 hsize rfl hchecks.1 hchecks.2

/-- A block that is large enough stays, with its contents. -/
theorem fluxRealloc_fits (type pid : UInt32) (hs : HeapShape place h bs live) (hp : p ∈ live) (hsize : size ≠ 0)
    (hfits : h.Fits p size) :
    ∃ h', h.fluxRealloc p size type pid = some (p, h') ∧ Shaped place ⟨h', p :: live.erase p⟩ ∧
      (h'.header p).size = (h.header p).size ∧ SameBytes h h' p p (h.header p).size.toNat := by
  have heq : h.fluxRealloc p size type pid = _ := (hs.fluxRealloc_eq hp hsize).trans (if_pos hfits)
  rcases realloc_effect (s := ⟨h, live⟩) ⟨bs, hs⟩ hp hsize heq with ⟨-, -, hr⟩ | ⟨hnot, -⟩ | ⟨hnot, -⟩
  · have hheader := congrArg MemBlock.size hr.header
    refine ⟨_, heq, hr.shaped, hheader, fun i hi => ?_⟩
    obtain ⟨b, hb, -, rfl, -, -⟩ := hs.block_of_live hp
    refine write_of_outside (.inr ?_)
    rw [MemBlock.length_encode, b.ptr_sub, hs.layout.tiles.toNat_ptr hb]
    unfold Block.payload
    omega
  · exact absurd hfits hnot
  · exact absurd hfits hnot

/-- Otherwise the contents move to a block that holds the aligned size, or no such block is found. -/
theorem fluxRealloc_moves (type pid : UInt32) (hs : HeapShape place h bs live) (hp : p ∈ live) (hsize : size ≠ 0)
    (hfits : ¬h.Fits p size) :
    h.fluxRealloc p size type pid = some (0, { h with allocFailures := h.allocFailures + 1 }) ∨
    ∃ q h', h.fluxRealloc p size type pid = some (q, h') ∧ q ≠ 0 ∧ Shaped place ⟨h', q :: live.erase p⟩ ∧
      memAlignUp size fluxMemAlign ≤ (h'.header q).size ∧
      SameBytes h h' p q (min (h.header p).size.toNat (h'.header q).size.toNat) := by
  have heq : h.fluxRealloc p size type pid = _ := (hs.fluxRealloc_eq hp hsize).trans (if_neg hfits)
  rcases fluxAlloc_spec type pid hs hsize with
    ⟨hnone, -⟩ | ⟨h₁, bs₁, c, halloc, hc, hcused, hroom, hs₁, -, hch, -⟩
  · left
    rw [heq, hnone]
    rfl
  · right
    obtain ⟨b, hb, hbused, rfl, -, hbsize⟩ := hs.block_of_live hp
    have hc0 := hs₁.layout.tiles.ptr_ne_zero hc
    have hcb : c.ptr ≠ b.ptr := fun h => (List.nodup_cons.1 (nodup_live hs₁)).1 (h ▸ hp)
    -- the allocation keeps the old block, and the copy writes to the new one only
    have hkept : KeepsBlock place b h h₁ :=
      keepsBlock_of_changes hs hs₁ hch hb hbused hcb.symm (List.mem_cons_of_mem _ hp)
    have hb₁ : b ∈ bs₁ := hs₁.layout.heapBlocks_eq ▸ hkept.stays
    have hcheader : h₁.header c.ptr = h₁.block c.addr := by rw [header, c.ptr_sub]
    have hcsize : (h₁.header c.ptr).size = c.size := hcheader ▸ (hs₁.layout.holds c hc).size
    have hbsize₁ : (h₁.header b.ptr).size = b.size := by
      rw [header, b.ptr_sub, hkept.header]
      exact (hs.layout.holds b hb).size
    have hcopy : HeapShape place (h₁.copyOver b.ptr c.ptr) bs₁ (c.ptr :: live) := by
      refine hs₁.copy_into hc ?_
      rw [hcsize]
      exact toNat_min_le ..
    -- the release keeps the new block
    obtain ⟨h', bs', hfree, hs', hch'⟩ := fluxFree_spec hcopy (List.mem_cons_of_mem _ hp)
    rw [List.erase_cons_tail (by simpa using hcb)] at hs'
    have hkept' : KeepsBlock place c (h₁.copyOver b.ptr c.ptr) h' :=
      keepsBlock_of_changes hcopy hs' hch' hc hcused hcb List.mem_cons_self
    have hcsize' : (h'.header c.ptr).size = c.size := by
      rw [header, c.ptr_sub, hkept'.header]
      exact (hcopy.layout.holds c hc).size
    refine ⟨c.ptr, h', ?_, hc0, ⟨bs', hs'⟩, hcsize' ▸ hroom, fun i hi => ?_⟩
    · rw [heq, halloc, Option.bind_some, if_neg hc0, hfree]
      rfl
    · rw [hbsize, hcsize'] at hi
      obtain ⟨hib, hic⟩ := Nat.lt_min.1 hi
      have hcptr := hs₁.layout.tiles.toNat_ptr hc
      have hbptr := hs.layout.tiles.toNat_ptr hb
      have hcstart : c.start ≤ c.payload := Nat.le_add_right ..
      have hbstart : b.start ≤ b.payload := Nat.le_add_right ..
      have hcstop : c.stop = c.payload + c.size.toNat := rfl
      have hbstop : b.stop = b.payload + b.size.toNat := rfl
      calc h'.mem (c.ptr.toNat + i) = (h₁.copyOver b.ptr c.ptr).mem (c.ptr.toNat + i) :=
            hkept'.bytes _ (by omega) (by omega)
        _ = h₁.mem (b.ptr.toNat + i) := by
            refine copy_of_inside ?_
            rw [hbsize₁, hcsize, toNat_min]
            exact hi
        _ = h.mem (b.ptr.toNat + i) := hkept.bytes _ (by omega) (by omega)

end HeapShape

/-- A size that wraps to 0 fits in every block. -/
theorem not_reallocSound (type pid : UInt32) (hs : HeapShape place h bs live) (hp : p ∈ live)
    (hx : ¬size.toNat + 15 < UInt64.size) :
    ∃ h', h.fluxRealloc p size type pid = some (p, h') ∧ ¬ReallocSound place h h' live p size p := by
  have hsize : size ≠ 0 := by
    rintro rfl
    exact hx (by decide)
  have hfits : h.Fits p size := by
    rw [Fits, memAlignUp_eq_zero hx]
    exact UInt64.zero_le
  have hp0 : p ≠ 0 := fun h => hs.zero_notMem (h ▸ hp)
  obtain ⟨h', hrealloc, -, hkept, -⟩ := hs.fluxRealloc_fits type pid hp hsize hfits
  refine ⟨h', hrealloc, fun hsound => ?_⟩
  rw [ReallocSound, if_neg hp0, hkept] at hsound
  have hle := hs.size_le hp
  have hheap : fluxHeapSize.toNat = 16777216 := rfl
  have hmax : UInt64.size = 18446744073709551616 := rfl
  omega

/-- In a reachable state a reallocation guarantees what it should unless aligning up its size wraps. -/
theorem fluxRealloc_sound_iff (hr : HeapReachable place h live) (hp : p ∈ live) (hsize : size ≠ 0) :
    ∃ q h', h.fluxRealloc p size type pid = some (q, h') ∧
      (ReallocSound place h h' live p size q ↔ size.toNat + 15 < UInt64.size) := by
  obtain ⟨bs, hs⟩ := hr.shape
  by_cases hx : size.toNat + 15 < UInt64.size
  · have hle := le_memAlignUp hx
    by_cases hfits : h.Fits p size
    · have hp0 : p ≠ 0 := fun h => hs.zero_notMem (h ▸ hp)
      obtain ⟨h', hrealloc, hshaped, hkept, hsame⟩ := hs.fluxRealloc_fits type pid hp hsize hfits
      refine ⟨p, h', hrealloc, iff_of_true ?_ hx⟩
      obtain ⟨bs', hs'⟩ := id hshaped
      have hroom := UInt64.le_iff_toNat_le.1 hfits
      rw [ReallocSound, if_neg hp0, hkept]
      refine ⟨hshaped, hle.trans hroom, fun i hi => hsame i (by omega), ?_⟩
      rw [← hkept]
      exact hs'.apart_of_returned
    · rcases hs.fluxRealloc_moves type pid hp hsize hfits with
        hnone | ⟨q, h', hrealloc, hq0, hshaped, hroom, hsame⟩
      · refine ⟨0, _, hnone, iff_of_true ((if_pos rfl).mpr ⟨?_, block_congr rfl, fun i _ => rfl⟩) hx⟩
        exact ⟨bs, hs.congr rfl fun c _ => block_congr rfl⟩
      · refine ⟨q, h', hrealloc, iff_of_true ?_ hx⟩
        obtain ⟨bs', hs'⟩ := id hshaped
        have hroom := UInt64.le_iff_toNat_le.1 hroom
        rw [ReallocSound, if_neg hq0]
        refine ⟨hshaped, hle.trans hroom, fun i hi => hsame i ?_, hs'.apart_of_returned⟩
        omega
  · obtain ⟨h', hrealloc, hnot⟩ := not_reallocSound type pid hs hp hx
    exact ⟨p, h', hrealloc, iff_of_false hnot hx⟩

/-- The first allocation of 100 bytes. -/
theorem bootHeap_fluxAlloc : ∃ p h, bootHeap.fluxAlloc 100 fluxMemKernel fluxPidKernel = some (p, h) ∧
    HeapReachable heapPlace h [p] := by
  have hs : HeapShape heapPlace bootHeap [initialBlock heapPlace] [] := fluxMemInit_shape
  rcases fluxAlloc_spec fluxMemKernel fluxPidKernel hs (by decide : (100 : UInt64) ≠ 0) with
    ⟨-, -, hnone⟩ | ⟨h, bs, b, halloc, hb, -, -, hs', -⟩
  · exact absurd (hnone (initialBlock heapPlace) (by simp) rfl) (by decide)
  · refine ⟨b.ptr, h, halloc, ?_⟩
    have hr := HeapReachable.alloc bootHeap_reachable halloc
    rwa [liveAfterAlloc, if_neg (hs'.layout.tiles.ptr_ne_zero hb)] at hr

theorem fluxRealloc_sound_iff_boot : ∃ p h, bootHeap.fluxAlloc 100 fluxMemKernel fluxPidKernel = some (p, h) ∧
    ∃ q h', h.fluxRealloc p 200 fluxMemKernel fluxPidKernel = some (q, h') ∧
      (ReallocSound heapPlace h h' [p] p 200 q ↔ (200 : UInt64).toNat + 15 < UInt64.size) := by
  obtain ⟨p, h, halloc, hr⟩ := bootHeap_fluxAlloc
  exact ⟨p, h, halloc, fluxRealloc_sound_iff hr List.mem_cons_self (by decide)⟩

/-- A reallocation of 100 bytes to the largest size returns the same block. -/
theorem reallocMax_not_sound : ∃ p h, bootHeap.fluxAlloc 100 fluxMemKernel fluxPidKernel = some (p, h) ∧
    ∃ h', h.fluxRealloc p 0xFFFFFFFFFFFFFFFF fluxMemKernel fluxPidKernel = some (p, h') ∧
      ¬ReallocSound heapPlace h h' [p] p 0xFFFFFFFFFFFFFFFF p := by
  obtain ⟨p, h, halloc, hr⟩ := bootHeap_fluxAlloc
  obtain ⟨bs, hs⟩ := hr.shape
  exact ⟨p, h, halloc, not_reallocSound _ _ hs List.mem_cons_self (by decide)⟩

end FluxOs
