import FluxOs.Kernel.Accounting
import FluxOs.Lib.Gaps

/-!
# The free space of the heap

What is left of the heap between the allocations that clients hold, whatever the blocks are: a byte is free if it is
in no header and no block of an allocation.  An allocation fails only if no free range is large enough for it, it
takes the front of a smallest gap that is, and the rest of that gap stays free unless it is too small for a block.
-/

namespace FluxOs

open Tilings Actions Gaps MemHeap HeapState

variable {place : HeapPlace} {h h' : MemHeap} {s : HeapState} {bs : List Block} {size q : UInt64} {type pid : UInt32}
  {a i m n : Nat}

/-- What an allocation of `size` bytes is given: its header, and its size aligned up. -/
def MemHeap.allocBytes (size : UInt64) : Nat := memBlockBytes.toNat + (memAlignUp size fluxMemAlign).toNat

namespace HeapState

/-- The first byte of the header of an allocation. -/
def headerStart (p : UInt64) : Nat := (memBlockFromPtr p).toNat

/-- The byte at `i` is one of the allocation at `p`, or of its header. -/
def Occupies (s : HeapState) (p : UInt64) (i : Nat) : Prop :=
  headerStart p ≤ i ∧ i < headerStart p + (memBlockBytes.toNat + (s.heap.header p).size.toNat)

/-- The byte at `i` is in the heap, and in no allocation. -/
def FreeByte (place : HeapPlace) (s : HeapState) (i : Nat) : Prop :=
  (place.base.toNat ≤ i ∧ i < place.base.toNat + fluxHeapSize.toNat) ∧ ∀ p ∈ s.live, ¬s.Occupies p i

end HeapState

theorem Block.start_lt_stop (b : Block) : b.start < b.stop := by
  have hle := b.start_add_le_stop
  have : memBlockBytes.toNat = 40 := rfl
  omega

namespace HeapShape

/-- An allocation and its header are a block in use. -/
theorem occupies_iff {b : Block} (hs : HeapShape place s.heap bs s.live) (hb : b ∈ bs) :
    s.Occupies b.ptr i ↔ b.start ≤ i ∧ i < b.stop := by
  rw [Occupies, headerStart, header, b.ptr_sub, (hs.layout.holds b hb).size, Block.start, Block.stop, Nat.add_assoc]

/-- The free bytes are those of the free blocks. -/
theorem freeByte_iff (hs : HeapShape place s.heap bs s.live) :
    FreeByte place s i ↔ Covered Block.start Block.stop Block.free bs i := by
  have ht := hs.layout.tiles
  constructor
  · rintro ⟨⟨hbase, hend⟩, hnone⟩
    obtain ⟨b, hb, hi⟩ := ht.exists_cell hbase hend
    cases hfree : b.free with
    | true => exact ⟨b, hb, hfree, hi⟩
    | false =>
      exact absurd ((hs.occupies_iff hb).2 hi)
        (hnone b.ptr (hs.live.symm.subset (mem_usedPtrs.2 ⟨b, hb, hfree, rfl⟩)))
  · rintro ⟨b, hb, hfree, hstart, hstop⟩
    obtain ⟨hbase, hend⟩ := ht.bounds hb
    refine ⟨⟨by omega, by omega⟩, fun p hp hin => ?_⟩
    obtain ⟨c, hc, hused, rfl, -⟩ := hs.block_of_live hp
    obtain ⟨hcstart, hcstop⟩ := (hs.occupies_iff hc).1 hin
    have hbc : b ≠ c := fun h => Bool.noConfusion (hfree.symm.trans (h ▸ hused))
    rcases ht.disjoint hb hc hbc with hbefore | hafter
    · omega
    · omega

theorem gap_iff (hs : HeapShape place s.heap bs s.live) :
    IsGap (FreeByte place s) a n ↔ ∃ b ∈ bs, b.free = true ∧ b.start = a ∧ b.stop = a + n := by
  rw [show FreeByte place s = Covered Block.start Block.stop Block.free bs from
    funext fun i => propext hs.freeByte_iff]
  exact gap_covered_iff Block.start_lt_stop hs.layout.tiles hs.apart

/-- A range of free bytes is in one free block. -/
theorem exists_free_of_within (hs : HeapShape place s.heap bs s.live) (hn : 0 < n)
    (hw : Within (FreeByte place s) a n) :
    ∃ b ∈ bs, b.free = true ∧ b.start ≤ a ∧ a + n ≤ b.stop :=
  exists_cell_of_covered Block.start_lt_stop hs.layout.tiles hs.apart (hw a (Nat.le_refl _) (by omega)).1.1 (by omega)
    fun i h₁ h₂ => hs.freeByte_iff.1 (hw i h₁ h₂)

end HeapShape

namespace HeapState

/-- What an allocation of `size` bytes at `q` does to the free space: it takes the front of a smallest gap that is
large enough, and all of it if the rest is less than a header and 16 bytes. -/
structure TakesGap (place : HeapPlace) (s t : HeapState) (size q : UInt64) (n : Nat) : Prop where
  gap : IsGap (FreeByte place s) (headerStart q) n
  room : allocBytes size ≤ n
  least : ∀ a m, IsGap (FreeByte place s) a m → allocBytes size ≤ m → n ≤ m
  left : ∀ a m, IsGap (FreeByte place t) a m ↔ IsGap (FreeByte place s) a m ∧ a ≠ headerStart q ∨
    allocBytes size + (memBlockBytes.toNat + fluxMemAlign.toNat) ≤ n ∧ a = headerStart q + allocBytes size ∧
      m = n - allocBytes size

/-- The free bytes after an allocation are those that it did not take. -/
theorem freeByte_of_allocates {t : HeapState} (ht : Allocates place s t size type pid q) :
    FreeByte place t i ↔ FreeByte place s i ∧ ¬t.Occupies q i := by
  have hkept (p : UInt64) (hp : p ∈ s.live) : t.Occupies p i ↔ s.Occupies p i := by
    rw [Occupies, Occupies, ht.kept p hp]
  unfold FreeByte
  rw [ht.live, List.forall_mem_cons, and_comm (a := ¬t.Occupies q i), ← and_assoc]
  exact and_congr_left fun _ => and_congr_right fun _ => forall₂_congr fun p hp => not_congr (hkept p hp)

/-- How much an allocation takes of a block of `n` bytes. -/
theorem splitSize_total {size needed : UInt64} (hneeded : needed ≤ size) :
    (splitSize size needed).toNat =
      if needed.toNat + (memBlockBytes.toNat + fluxMemAlign.toNat) ≤ size.toNat then needed.toNat
      else size.toNat := by
  have hsub : (size - needed).toNat = size.toNat - needed.toNat := UInt64.toNat_sub_of_le _ _ hneeded
  have hle := UInt64.le_iff_toNat_le.1 hneeded
  have hiff : size - needed ≥ memBlockBytes + fluxMemAlign ↔
      needed.toNat + (memBlockBytes.toNat + fluxMemAlign.toNat) ≤ size.toNat := by
    have hsum : (memBlockBytes + fluxMemAlign).toNat = memBlockBytes.toNat + fluxMemAlign.toNat := rfl
    rw [ge_iff_le, UInt64.le_iff_toNat_le, hsub, hsum]
    omega
  rw [splitSize, apply_ite UInt64.toNat]
  exact if_congr hiff rfl rfl

theorem takesGap_of_allocates {t : HeapState} (hs : Shaped place s) (ht : Allocates place s t size type pid q) :
    ∃ n, TakesGap place s t size q n := by
  obtain ⟨bs, hshape⟩ := hs
  rcases memFindFreeBlock_cases (memAlignUp size fluxMemAlign) hshape with
    ⟨hnone, -⟩ | ⟨b, hb, hfind, hfree, hroom, hleast⟩
  · exact absurd (Option.some.inj (ht.found.symm.trans hnone)) ht.found_ne
  have haddr : memBlockFromPtr q = b.addr := Option.some.inj (ht.found.symm.trans hfind)
  have hstart : headerStart q = b.start := congrArg UInt64.toNat haddr
  have hstop : b.stop = b.start + (memBlockBytes.toNat + b.size.toNat) := Nat.add_assoc ..
  have hle := UInt64.le_iff_toNat_le.1 hroom
  have hgap : IsGap (FreeByte place s) (headerStart q) (memBlockBytes.toNat + b.size.toNat) :=
    hshape.gap_iff.2 ⟨b, hb, hfree, hstart.symm, by omega⟩
  refine ⟨memBlockBytes.toNat + b.size.toNat, hgap, Nat.add_le_add_left hle _, fun a m hm hbytes => ?_, fun a m => ?_⟩
  · obtain ⟨c, hc, hcfree, rfl, hcstop⟩ := hshape.gap_iff.1 hm
    have hcsize : c.stop = c.start + (memBlockBytes.toNat + c.size.toNat) := Nat.add_assoc ..
    unfold allocBytes at hbytes
    have := UInt64.le_iff_toNat_le.1 (hleast c hc hcfree (UInt64.le_iff_toNat_le.2 (by omega)))
    omega
  · have hcut := ht.cut
    rw [haddr, (hshape.layout.holds b hb).size] at hcut
    have htotal := splitSize_total hroom
    rw [← hcut] at htotal
    have hheader : 0 < memBlockBytes.toNat := by decide
    have htaken : memBlockBytes.toNat + (t.heap.header q).size.toNat ≤ memBlockBytes.toNat + b.size.toNat := by
      split_ifs at htotal <;> omega
    rw [hgap.take_iff (fun i => freeByte_of_allocates ht) (by omega) htaken]
    refine or_congr_right ?_
    unfold allocBytes
    split_ifs at htotal with hrest
    · rw [htotal]
      exact and_congr_left fun _ => iff_of_true (by omega) (by omega)
    · exact iff_of_false (fun hrest' => by omega) fun hrest' => by omega

/-- In every state that calls of clients lead to, an allocation fails if and only if no range of free bytes is large
enough for it and its header; otherwise it takes the front of a smallest gap that is. -/
theorem fluxAlloc_bestFit (hrun : Reaches (step place) (Legal place) (initial place h) s) (hsize : size ≠ 0)
    (type pid : UInt32) :
    ∃ q h', s.heap.fluxAlloc size type pid = some (q, h') ∧
      (q = 0 ↔ ¬∃ a, Within (FreeByte place s) a (allocBytes size)) ∧
      (q ≠ 0 → ∃ n, TakesGap place s ⟨h', q :: s.live⟩ size q n) := by
  have hs : Shaped place s := hrun.invariant (shaped_step place) shaped_initial
  obtain ⟨bs, hshape⟩ := hs
  obtain ⟨q, h', bs', halloc, -⟩ := fluxAlloc_keeps size type pid hshape
  refine ⟨q, h', halloc, ?_⟩
  rcases alloc_effect ⟨bs, hshape⟩ halloc with ⟨rfl, hfail, -⟩ | ⟨hq, -, hallocates⟩
  · have hnone : ¬∃ a, Within (FreeByte place s) a (allocBytes size) := by
      rintro ⟨a, hw⟩
      have hpos : 0 < allocBytes size := Nat.add_pos_left (by decide) _
      obtain ⟨b, hb, hfree, hstart, hstop⟩ := hshape.exists_free_of_within hpos hw
      rcases memFindFreeBlock_cases (memAlignUp size fluxMemAlign) hshape with ⟨-, hsmall⟩ | ⟨c, hc, hfind, -⟩
      · have := UInt64.lt_iff_toNat_lt.1 (hsmall b hb hfree)
        unfold allocBytes Block.start Block.stop at *
        omega
      · have hfound := (hfail.resolve_left hsize).symm.trans hfind
        exact hshape.layout.tiles.apart.ne_zero _ (List.mem_map_of_mem hc) (Option.some.inj hfound).symm
    exact ⟨iff_of_true rfl hnone, fun hq => absurd rfl hq⟩
  · obtain ⟨n, htakes⟩ := takesGap_of_allocates ⟨bs, hshape⟩ hallocates
    have hsome : ∃ a, Within (FreeByte place s) a (allocBytes size) := by
      have hroom := htakes.room
      exact ⟨headerStart q, fun i h₁ h₂ => htakes.gap.within i h₁ (by omega)⟩
    exact ⟨iff_of_false hq (not_not.2 hsome), fun _ => ⟨n, htakes⟩⟩

theorem fluxAlloc_bestFit_boot : ∃ q h', (initial heapPlace bootHeap).heap.fluxAlloc 100 fluxMemKernel fluxPidKernel =
      some (q, h') ∧
    (q = 0 ↔ ¬∃ a, Within (FreeByte heapPlace (initial heapPlace bootHeap)) a (allocBytes 100)) ∧
      (q ≠ 0 → ∃ n, TakesGap heapPlace (initial heapPlace bootHeap) ⟨h', [q]⟩ 100 q n) :=
  fluxAlloc_bestFit (.refl _) (by decide) fluxMemKernel fluxPidKernel

end HeapState
end FluxOs
