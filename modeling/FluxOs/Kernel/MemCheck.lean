import FluxOs.Kernel.DoubleFree

/-!
# Checking pointers

`flux_mem_check` looks at what stands in front of a pointer.  As long as clients write to what they hold only and do
not use the magic value, this tells exactly whether a range starts at a pointer that is held and ends in its block,
also for pointers that were freed.
-/

namespace FluxOs

open Tilings Actions MemHeap HeapState

variable {place : HeapPlace} {h : MemHeap} {bs : List Block} {live : List UInt64} {p q size n : UInt64}

namespace MemHeap

/-- `flux_mem_check`. -/
def fluxMemCheck (place : HeapPlace) (h : MemHeap) (ptr size : UInt64) : Bool :=
  if ptr = 0 then false
  else
    let heapEnd := place.base + fluxHeapSize
    if ptr < place.base ∨ ptr ≥ heapEnd then false
    else if ptr + size > heapEnd then false
    else
      let block := h.block (memBlockFromPtr ptr)
      if block.magic ≠ memBlockMagic then false
      else if block.flags &&& memBlockUsed = 0 then false
      else if block.size < size then false
      else true

/-- The range lies in the heap, as far as the pointer comparisons see. -/
def InHeap (place : HeapPlace) (p size : UInt64) : Prop :=
  p ≠ 0 ∧ place.base ≤ p ∧ p < place.base + fluxHeapSize ∧ p + size ≤ place.base + fluxHeapSize

theorem fluxMemCheck_iff : h.fluxMemCheck place p size = true ↔
    InHeap place p size ∧ (h.header p).magic = memBlockMagic ∧ (h.header p).flags &&& memBlockUsed ≠ 0 ∧
      size ≤ (h.header p).size := by
  unfold fluxMemCheck InHeap header
  simp only [ge_iff_le, gt_iff_lt]
  split_ifs with h0 hstart hend hmagic hflags hsize
  · simp [h0]
  · refine iff_of_false id fun hin => ?_
    rcases hstart with hlow | hhigh
    · exact UInt64.not_lt.2 hin.1.2.1 hlow
    · exact UInt64.not_lt.2 hhigh hin.1.2.2.1
  · exact iff_of_false id fun hin => UInt64.not_lt.2 hin.1.2.2.2 hend
  · simp [hmagic]
  · simp [hflags]
  · exact iff_of_false id fun hin => UInt64.not_lt.2 hin.2.2.2 hsize
  · rw [not_or, UInt64.not_lt, UInt64.not_le] at hstart
    exact iff_of_true rfl
      ⟨⟨h0, hstart.1, hstart.2, UInt64.not_lt.1 hend⟩, not_not.1 hmagic, hflags, UInt64.not_lt.1 hsize⟩

/-- A pointer that passes is not one that `flux_free` ignores. -/
theorem not_ignoresFree_of_check (hcheck : h.fluxMemCheck place p size = true) : ¬h.IgnoresFree p := by
  obtain ⟨hin, hmagic, hflags, -⟩ := fluxMemCheck_iff.1 hcheck
  rintro (h0 | hno | hfree)
  · exact hin.1 h0
  · exact hno hmagic
  · exact hflags hfree

end MemHeap

/-- The bytes of a block are in the heap, and nothing wraps around. -/
theorem HeapShape.inHeap (hs : HeapShape place h bs live) (hp : p ∈ live) (hpos : 0 < size)
    (hsize : size ≤ (h.header p).size) : InHeap place p size ∧
      p.toNat + size.toNat ≤ place.base.toNat + fluxHeapSize.toNat := by
  obtain ⟨b, hb, -, rfl, -, hbsize⟩ := hs.block_of_live hp
  have ht := hs.layout.tiles
  obtain ⟨hbase, hend⟩ := ht.bounds hb
  have hptr : b.ptr.toNat = b.payload := ht.toNat_ptr hb
  have hstart : b.start ≤ b.payload := Nat.le_add_right ..
  have hstop : b.payload + b.size.toNat = b.stop := rfl
  rw [hbsize, UInt64.le_iff_toNat_le] at hsize
  have hfits : place.base.toNat + fluxHeapSize.toNat < 2 ^ 64 := place.fits
  have hheapEnd : (place.base + fluxHeapSize).toNat = place.base.toNat + fluxHeapSize.toNat := by
    rw [UInt64.toNat_add, Nat.mod_eq_of_lt hfits]
  have hposNat : 0 < size.toNat := UInt64.lt_iff_toNat_lt.1 hpos
  have hsum : (b.ptr + size).toNat = b.ptr.toNat + size.toNat := by
    rw [UInt64.toNat_add, Nat.mod_eq_of_lt (by omega)]
  refine ⟨⟨ht.ptr_ne_zero hb, ?_, ?_, ?_⟩, by omega⟩
  · rw [UInt64.le_iff_toNat_le]
    omega
  · rw [UInt64.lt_iff_toNat_lt, hheapEnd]
    omega
  · rw [UInt64.le_iff_toNat_le, hsum, hheapEnd]
    omega

/-- Behind a header of its own, the check tells what is held. -/
theorem HeapShape.fluxMemCheck_iff (hs : HeapShape place h bs live) (hm : MagicAtHeaders place h)
    (hp : HeaderPlace place p) (hpos : 0 < size) :
    h.fluxMemCheck place p size = true ↔ p ∈ live ∧ size ≤ (h.header p).size := by
  constructor
  · intro hcheck
    refine ⟨?_, (MemHeap.fluxMemCheck_iff.1 hcheck).2.2.2⟩
    by_contra hnot
    exact not_ignoresFree_of_check hcheck (ignoresFree_of_not_live hs hm hp hnot)
  · rintro ⟨hlive, hsize⟩
    obtain ⟨b, hb, hused, -, hheader, -⟩ := hs.block_of_live hlive
    refine MemHeap.fluxMemCheck_iff.2 ⟨(hs.inHeap hlive hpos hsize).1, ?_, ?_, hsize⟩
    · rw [hheader]
      exact (hs.layout.holds b hb).magic
    · rw [hheader]
      exact hs.flags_of_used hb hused

/-- Ranges in the blocks of two pointers do not overlap. -/
theorem HeapShape.ranges_disjoint (hs : HeapShape place h bs live) (hp : p ∈ live) (hq : q ∈ live) (hpq : p ≠ q)
    (hsize : size ≤ (h.header p).size) (hn : n ≤ (h.header q).size) :
    p.toNat + size.toNat ≤ q.toNat ∨ q.toNat + n.toNat ≤ p.toNat := by
  obtain ⟨b, hb, -, rfl, -, hbsize⟩ := hs.block_of_live hp
  obtain ⟨c, hc, -, rfl, -, hcsize⟩ := hs.block_of_live hq
  have ht := hs.layout.tiles
  have hne : b ≠ c := fun hbc => hpq (hbc ▸ rfl)
  rw [hbsize, UInt64.le_iff_toNat_le] at hsize
  rw [hcsize, UInt64.le_iff_toNat_le] at hn
  have hbptr : b.ptr.toNat = b.payload := ht.toNat_ptr hb
  have hcptr : c.ptr.toNat = c.payload := ht.toNat_ptr hc
  have hbstop : b.payload + b.size.toNat = b.stop := rfl
  have hcstop : c.payload + c.size.toNat = c.stop := rfl
  have hbstart : b.start ≤ b.payload := Nat.le_add_right ..
  have hcstart : c.start ≤ c.payload := Nat.le_add_right ..
  rcases ht.disjoint hb hc hne with hbefore | hafter
  · left
    omega
  · right
    omega

namespace FreedState

variable {s : FreedState}

/-- In every state that clients can reach, `flux_mem_check` accepts the ranges in what is held, from its start, and
nothing else; in particular no freed pointer.  What it accepts is in the heap, and apart from what it accepts
at another pointer. -/
theorem fluxMemCheck_exact (hplace : place.NoMagic) (hrun : Reaches (step place) (Allowed place) (start place h) s)
    (hp : HeaderPlace place p) (hpos : 0 < size) :
    (s.state.heap.fluxMemCheck place p size = true ↔
        p ∈ s.state.live ∧ size ≤ (s.state.heap.header p).size) ∧
      (s.state.heap.fluxMemCheck place p size = true → p ∉ s.freed ∧
        place.base.toNat ≤ p.toNat ∧ p.toNat + size.toNat ≤ place.base.toNat + fluxHeapSize.toNat ∧
        ∀ q n, HeaderPlace place q → 0 < n → s.state.heap.fluxMemCheck place q n = true → p ≠ q →
          p.toNat + size.toNat ≤ q.toNat ∨ q.toNat + n.toNat ≤ p.toNat) := by
  have hsound : Sound place s := hrun.invariant (sound_step hplace) sound_start
  obtain ⟨bs, hshape⟩ := hsound.shaped
  have hiff := hshape.fluxMemCheck_iff hsound.magic hp hpos
  refine ⟨hiff, fun hcheck => ?_⟩
  obtain ⟨hlive, hsize⟩ := hiff.1 hcheck
  obtain ⟨hin, hend⟩ := hshape.inHeap hlive hpos hsize
  refine ⟨fun hfreed => (hsound.freed p hfreed).1 hlive, UInt64.le_iff_toNat_le.1 hin.2.1, hend, ?_⟩
  intro q n hq hn hcheckq hpq
  obtain ⟨hliveq, hsizeq⟩ := (hshape.fluxMemCheck_iff hsound.magic hq hn).1 hcheckq
  exact hshape.ranges_disjoint hlive hliveq hpq hsize hsizeq

/-- The bytes of a fresh allocation pass. -/
theorem fluxMemCheck_exact_boot : ∃ s p, Reaches (step heapPlace) (Allowed heapPlace) (start heapPlace bootHeap) s ∧
    s.state.heap.fluxMemCheck heapPlace p 100 = true := by
  have hs : HeapShape heapPlace (bootHeap.fluxMemInit heapPlace) [initialBlock heapPlace] [] := fluxMemInit_shape
  rcases fluxAlloc_spec fluxMemKernel fluxPidKernel hs (by decide : (100 : UInt64) ≠ 0) with
    ⟨-, -, hnone⟩ | ⟨h₁, bs, b, halloc, hb, -, hroom, hs₁, -⟩
  · exact absurd (hnone (initialBlock heapPlace) (by simp) rfl) (by decide)
  have halloced : HeapState.step heapPlace (.alloc 100 fluxMemKernel fluxPidKernel)
      ⟨bootHeap.fluxMemInit heapPlace, []⟩ =
      some ⟨h₁, [b.ptr]⟩ := by
    rw [HeapState.step, halloc, Option.map_some, liveAfterAlloc, if_neg (hs₁.layout.tiles.ptr_ne_zero hb)]
  have hfirst : step heapPlace (.alloc 100 fluxMemKernel fluxPidKernel) (start heapPlace bootHeap) =
      some ⟨⟨h₁, [b.ptr]⟩, []⟩ := by
    rw [step, start, halloced]
    rfl
  have htype : Allowed heapPlace (.alloc 100 fluxMemKernel fluxPidKernel) (start heapPlace bootHeap) :=
    (by decide : fluxMemKernel ≠ memBlockMagic)
  have hrun : Reaches (step heapPlace) (Allowed heapPlace) (start heapPlace bootHeap) ⟨⟨h₁, [b.ptr]⟩, []⟩ :=
    (Reaches.refl _).tail htype hfirst
  have hsound : Sound heapPlace ⟨⟨h₁, [b.ptr]⟩, []⟩ :=
    hrun.invariant (sound_step heapPlace_noMagic) sound_start
  have hlive : b.ptr ∈ [b.ptr] := List.mem_singleton_self _
  have hheader := headerPlace_of_live hs₁ hsound.magic hlive
  have hsize : (100 : UInt64) ≤ (h₁.header b.ptr).size := by
    rw [header, b.ptr_sub, (hs₁.layout.holds b hb).size]
    exact UInt64.le_trans (by decide) hroom
  exact ⟨_, b.ptr, hrun,
    (fluxMemCheck_exact heapPlace_noMagic hrun hheader (by decide)).1.2 ⟨hlive, hsize⟩⟩

end FreedState
end FluxOs
