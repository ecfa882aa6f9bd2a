import FluxOs.Kernel.Accounting

/-!
# The alignment of allocations

`flux_alloc` promises pointers that are multiples of 16.  A pointer is 40 bytes behind the header of its block,
so it is one only if the header is 8 bytes behind a multiple of 16.  The first header is at a multiple of 16.
-/

namespace FluxOs

open ByteMemory LinkedLists Tilings Actions MemHeap HeapState HeapCall

/-- The pointers that clients hold are as `flux_alloc` promises. -/
def HeapState.PointersAligned (s : HeapState) : Prop := ∀ p ∈ s.live, p.toNat % fluxMemAlign.toNat = 0

/-- Every allocation that the call asks for is of 0 bytes, or of more than the heap can hold. -/
def HeapCall.AsksNothing (c : HeapCall) (s : HeapState) : Prop :=
  ∀ r, c.request s = some r → r.1 = 0 ∨ fluxHeapSize - memBlockBytes < memAlignUp r.1 fluxMemAlign

/-- The search finds no block, or one whose payload starts at a multiple of 16. -/
def MemHeap.FindsAligned (h : MemHeap) (size : UInt64) : Prop :=
  ∀ a, h.memFindFreeBlock (memAlignUp size fluxMemAlign) = some a → a = 0 ∨ a.toNat % 16 = 8

variable {place : HeapPlace} {h h' : MemHeap} {s t : HeapState} {c : HeapCall} {calls : List HeapCall}
  {q size : UInt64} {type pid : UInt32}

/-- The address of an allocation is 40 bytes behind its header. -/
theorem HeapState.Shaped.toNat_ptr (hs : Shaped place s) (hq : q ∈ s.live) :
    q.toNat = (memBlockFromPtr q).toNat + 40 := by
  obtain ⟨bs, hshape⟩ := hs
  obtain ⟨b, hb, -, rfl, -, -⟩ := hshape.block_of_live hq
  rw [b.ptr_sub]
  exact hshape.layout.tiles.toNat_ptr hb

/-- An allocation is aligned if and only if the block that the search finds is in the right place. -/
theorem fluxAlloc_aligned_iff (hs : Shaped place s) (hsize : size ≠ 0)
    (halloc : s.heap.fluxAlloc size type pid = some (q, h')) :
    q.toNat % fluxMemAlign.toNat = 0 ↔ s.heap.FindsAligned size := by
  have h16 : fluxMemAlign.toNat = 16 := rfl
  rw [h16]
  rcases alloc_effect hs halloc with ⟨rfl, hfail, -⟩ | ⟨-, -, htakes⟩
  · have hfind := hfail.resolve_left hsize
    refine iff_of_true rfl fun a ha => .inl ?_
    rw [hfind] at ha
    exact (Option.some.inj ha).symm
  · have hq : q ∈ q :: s.live := List.mem_cons_self
    have hptr := htakes.shaped.toNat_ptr hq
    constructor
    · intro haligned a ha
      rw [htakes.found] at ha
      rw [← Option.some.inj ha]
      right
      omega
    · intro hfinds
      have := (hfinds _ htakes.found).resolve_left htakes.found_ne
      omega

/-! ## Runs -/

/-- Nothing is allocated. -/
def HeapState.Unused (place : HeapPlace) (s : HeapState) : Prop := HeapShape place s.heap [initialBlock place] s.live

theorem HeapState.Unused.live_eq (hs : Unused place s) : s.live = [] := List.perm_nil.1 hs.live

theorem unused_of_shaped (hs : Shaped place s) (hlive : s.live = []) : Unused place s := by
  obtain ⟨bs, hshape⟩ := hs
  have hbs : bs = [initialBlock place] := by
    rw [hlive] at hshape
    exact hshape.eq_initialBlock
  rw [hbs] at hshape
  exact hshape

/-- The search finds the one free block of an unused heap if it is large enough. -/
theorem HeapState.Unused.find (hs : Unused place s) (n : UInt64) :
    (s.heap.memFindFreeBlock n = some 0 ∧ fluxHeapSize - memBlockBytes < n) ∨
      (s.heap.memFindFreeBlock n = some place.base ∧ n ≤ fluxHeapSize - memBlockBytes) := by
  rcases memFindFreeBlock_cases n hs with ⟨hfind, hnone⟩ | ⟨b, hb, hfind, -, hroom, -⟩
  · exact .inl ⟨hfind, hnone (initialBlock place) (by simp) rfl⟩
  · obtain rfl := List.mem_singleton.1 hb
    exact .inr ⟨hfind, hroom⟩

/-- A call that asks for nothing leaves an unused heap unused; any other call allocates the first block, whose
pointer is not aligned. -/
theorem HeapState.Unused.step_cases (hs : Unused place s) (hlegal : Legal place c s) (ht : step place c s = some t) :
    (Unused place t ∧ c.AsksNothing s) ∨ (¬PointersAligned t ∧ ¬c.AsksNothing s) := by
  have hshaped : Shaped place s := ⟨_, hs⟩
  have hnone (p : UInt64) : p ∉ s.live := by
    rw [hs.live_eq]
    exact List.not_mem_nil
  cases FluxOs.step_cases hshaped hlegal ht with
  | init =>
    exact .inl ⟨fluxMemInit_shape, fun r hr => by cases hr⟩
  | keeps hinit hrequest hretype hkeeps =>
    refine .inl ⟨unused_of_shaped hkeeps.shaped (hkeeps.live.trans hs.live_eq), fun r hr => ?_⟩
    refine (hrequest r hr).imp_right fun hfind => ?_
    rcases hs.find (memAlignUp r.1 fluxMemAlign) with ⟨-, hlarge⟩ | ⟨hfound, -⟩
    · exact hlarge
    · have hbase := Option.some.inj (hfind.symm.trans hfound)
      have hpos := place.pos
      rw [← hbase] at hpos
      exact absurd hpos (Nat.lt_irrefl 0)
  | @allocates _ _ _ size type pid q hinit hrequest hretype hsize hq hallocates =>
    refine .inr ⟨fun haligned => ?_, fun hasks => ?_⟩
    all_goals
      rcases hs.find (memAlignUp size fluxMemAlign) with ⟨hfind, -⟩ | ⟨hfound, hroom⟩
      · exact hallocates.found_ne (Option.some.inj (hallocates.found.symm.trans hfind))
    · have hmem : q ∈ t.live := by
        rw [hallocates.live]
        exact List.mem_cons_self
      have hptr := hallocates.shaped.toNat_ptr hmem
      have hbase : place.base.toNat % 16 = 0 := place.aligned
      have h16 : q.toNat % 16 = 0 := haligned q hmem
      rw [Option.some.inj (hallocates.found.symm.trans hfound)] at hptr
      omega
    · rcases hasks _ hrequest with h0 | hlarge
      · exact hsize h0
      · exact UInt64.not_lt.2 hroom hlarge
  | releases hinit hrequest hretype hreleases => exact absurd hreleases.held (hnone _)
  | retypes hinit hrequest hretype hretypes => exact absurd hretypes.held (hnone _)
  | moves hinit hrequest hretype hsize hq hmoves => exact absurd hmoves.held (hnone _)

theorem unused_initial : Unused place (initial place h) := fluxMemInit_shape

/-- In a run of clients all pointers returned are aligned if and only if none is returned.  In the states of all
runs an allocation is aligned exactly if the search finds no block, or one in the right place. -/
theorem allocations_aligned_iff (hlegal : MeetsAlong (step place) (Legal place) calls (initial place h)) :
    (HoldsAlong (step place) PointersAligned calls (initial place h) ↔
      MeetsAlong (step place) AsksNothing calls (initial place h)) ∧
    ∀ s, execute (step place) calls (initial place h) = some s → ∀ (size : UInt64) (type pid : UInt32) q h',
      size ≠ 0 → s.heap.fluxAlloc size type pid = some (q, h') →
        (q.toNat % fluxMemAlign.toNat = 0 ↔ s.heap.FindsAligned size) := by
  constructor
  · refine holdsAlong_iff_meetsAlong_of_kept (J := Unused place) ?_ ?_ hlegal unused_initial
      fun p hp => absurd hp List.not_mem_nil
    · intro c s t hc hs _ haligned ht
      rcases hs.step_cases hc ht with ⟨hunused, -⟩ | ⟨hnot, -⟩
      · exact hunused
      · exact absurd haligned hnot
    · intro c s t hc hs _ ht
      rcases hs.step_cases hc ht with ⟨hunused, hasks⟩ | ⟨hnot, hasks⟩
      · refine iff_of_true (fun p hp => ?_) hasks
        rw [hunused.live_eq] at hp
        exact absurd hp List.not_mem_nil
      · exact iff_of_false hnot hasks
  · intro s hrun size type pid q h' hsize halloc
    have hs : Shaped place s := hlegal.invariant (shaped_step place) shaped_initial hrun
    exact fluxAlloc_aligned_iff hs hsize halloc

theorem allocations_aligned_iff_boot :
    (HoldsAlong (step heapPlace) PointersAligned [.alloc 100 fluxMemKernel fluxPidKernel, .free 0]
        (initial heapPlace bootHeap) ↔
      MeetsAlong (step heapPlace) AsksNothing [.alloc 100 fluxMemKernel fluxPidKernel, .free 0]
        (initial heapPlace bootHeap)) ∧
    ∀ s, execute (step heapPlace) [.alloc 100 fluxMemKernel fluxPidKernel, .free 0] (initial heapPlace bootHeap) =
        some s → ∀ (size : UInt64) (type pid : UInt32) q h', size ≠ 0 →
          s.heap.fluxAlloc size type pid = some (q, h') →
            (q.toNat % fluxMemAlign.toNat = 0 ↔ s.heap.FindsAligned size) :=
  allocations_aligned_iff fun _ _ => ⟨trivial, fun _ _ => ⟨.inr (.inl rfl), trivial⟩⟩

/-- The first allocation of a new heap is 8 bytes behind a multiple of 16. -/
theorem firstAllocation_not_aligned : ∃ q h', bootHeap.fluxAlloc 100 fluxMemKernel fluxPidKernel = some (q, h') ∧
    q ≠ 0 ∧ q.toNat % fluxMemAlign.toNat ≠ 0 := by
  have hboot : HeapShape heapPlace bootHeap [initialBlock heapPlace] [] := fluxMemInit_shape
  have hunused : Unused heapPlace ⟨bootHeap, []⟩ := hboot
  rcases fluxAlloc_spec fluxMemKernel fluxPidKernel hboot (by decide : (100 : UInt64) ≠ 0) with
    ⟨-, -, hnone⟩ | ⟨h', bs, b, halloc, hb, -, -, hs, -, -, htakes⟩
  · exact absurd (hnone (initialBlock heapPlace) (by simp) rfl) (by decide)
  · have hfound : bootHeap.memFindFreeBlock (memAlignUp 100 fluxMemAlign) = some heapPlace.base := by
      rcases hunused.find (memAlignUp 100 fluxMemAlign) with ⟨-, hlarge⟩ | ⟨hfound, -⟩
      · exact absurd hlarge (by decide)
      · exact hfound
    have haddr : b.addr = heapPlace.base := Option.some.inj (htakes.find.symm.trans hfound)
    refine ⟨b.ptr, h', halloc, hs.layout.tiles.ptr_ne_zero hb, ?_⟩
    rw [Block.ptr, haddr]
    decide

end FluxOs
