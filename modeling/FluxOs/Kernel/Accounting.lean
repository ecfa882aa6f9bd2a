import FluxOs.Kernel.HeapCalls

/-!
# The accounting of the heap

`s_used_heap` should be the size of all blocks in use with their headers, and `s_free_heap` the rest.  An
allocation is charged for the size it asks for, a release gives back the size of the block, and the two differ
when a block is taken whole although it is larger.  The counters are right in all states of a run if and only
if no allocation of it takes such a block.
-/

namespace FluxOs

open ByteMemory LinkedLists Tilings Actions MemHeap HeapState

/-- The bytes of the blocks in use, with their headers. -/
def usedBytes (bs : List Block) : Nat :=
  ((bs.filter fun b => !b.free).map fun b => memBlockBytes.toNat + b.size.toNat).sum

namespace HeapState

/-- The counters say how much of the heap is in use and how much is free. -/
structure Accounted (place : HeapPlace) (s : HeapState) : Prop where
  used : s.heap.usedHeap.toNat = usedBytes (s.heap.heapBlocks place)
  total : s.heap.usedHeap.toNat + s.heap.freeHeap.toNat = fluxHeapSize.toNat

end HeapState

namespace MemHeap

/-- An allocation, if it succeeds, subtracts no more than is free. -/
def AllocNoWrap (h : MemHeap) (size : UInt64) (type pid : UInt32) : Prop :=
  ∀ q h', h.fluxAlloc size type pid = some (q, h') → q ≠ 0 → (chargeOf size).toNat ≤ h.freeHeap.toNat

/-- A release, if it is not rejected, subtracts no more than is used. -/
def FreeNoWrap (h : MemHeap) (p : UInt64) : Prop :=
  h.IgnoresFree p ∨ (h.creditOf p).toNat ≤ h.usedHeap.toNat

/-- The block found for an allocation of `size` bytes has the aligned size, or the rest of it can hold
another block. -/
def FitsExactly (h : MemHeap) (size : UInt64) : Prop :=
  size = 0 ∨ ∀ p, h.memFindFreeBlock (memAlignUp size fluxMemAlign) = some p → p ≠ 0 →
    (h.block p).size = memAlignUp size fluxMemAlign ∨
      memBlockBytes + fluxMemAlign ≤ (h.block p).size - memAlignUp size fluxMemAlign

end MemHeap

namespace HeapCall

/-- No update of a counter in the call wraps below zero. -/
def NoWrap : HeapCall → HeapState → Prop
  | .alloc size type pid, s => s.heap.AllocNoWrap size type pid
  | .free p, s => s.heap.FreeNoWrap p
  | .realloc p size type pid, s =>
    if p = 0 then s.heap.AllocNoWrap size type pid
    else if size = 0 then s.heap.FreeNoWrap p
    else s.heap.IgnoresFree p ∨ s.heap.Fits p size ∨ s.heap.AllocNoWrap size type pid ∧
      ∀ q h', s.heap.fluxAlloc size type pid = some (q, h') → q ≠ 0 → (h'.copyOver p q).FreeNoWrap p
  | _, _ => True

/-- The allocation that the call asks for, if any, fits its block exactly. -/
def Exact (c : HeapCall) (s : HeapState) : Prop := ∀ r, c.request s = some r → s.heap.FitsExactly r.1

end HeapCall

open HeapCall

section Bytes

variable {place : HeapPlace} {h : MemHeap} {bs : List Block} {live : List UInt64} {s t u : HeapState}
  {p q size : UInt64} {type pid : UInt32} {c : HeapCall}

/-- The bytes of the allocations, with their headers. -/
def MemHeap.liveBytes (h : MemHeap) (live : List UInt64) : Nat :=
  (live.map fun p => memBlockBytes.toNat + (h.header p).size.toNat).sum

theorem HeapShape.usedBytes_eq (hs : HeapShape place h bs live) : usedBytes bs = h.liveBytes live := by
  have hblocks : (bs.filter fun b => !b.free).map (fun b => memBlockBytes.toNat + b.size.toNat) =
      (usedPtrs bs).map fun p => memBlockBytes.toNat + (h.header p).size.toNat := by
    rw [usedPtrs, List.map_map]
    refine List.map_congr_left fun b hb => ?_
    rw [Function.comp_apply, header, b.ptr_sub, (hs.layout.holds b (List.mem_of_mem_filter hb)).size]
  rw [usedBytes, hblocks, liveBytes]
  exact (hs.live.map _).sum_nat.symm

/-- The blocks in use fit into the heap. -/
theorem HeapShape.liveBytes_le (hs : HeapShape place h bs live) : h.liveBytes live ≤ fluxHeapSize.toNat := by
  have hle := Tiles.sum_filter_le (fun b => !b.free) Block.start_le_stop hs.layout.tiles
  have hsizes : (bs.filter fun b => !b.free).map (fun b => b.stop - b.start) =
      (bs.filter fun b => !b.free).map fun b => memBlockBytes.toNat + b.size.toNat := by
    refine List.map_congr_left fun b _ => ?_
    unfold Block.stop Block.start
    omega
  rw [hsizes] at hle
  rw [← hs.usedBytes_eq, usedBytes]
  omega

theorem liveBytes_cons : h.liveBytes (p :: live) =
    memBlockBytes.toNat + (h.header p).size.toNat + h.liveBytes live := by
  rw [liveBytes, List.map_cons, List.sum_cons, liveBytes]

theorem liveBytes_of_mem (hp : p ∈ live) : h.liveBytes live =
    memBlockBytes.toNat + (h.header p).size.toNat + h.liveBytes (live.erase p) := by
  rw [← liveBytes_cons]
  exact ((List.perm_cons_erase hp).map _).sum_nat

theorem liveBytes_congr {h' : MemHeap} (hkept : ∀ p ∈ live, (h'.header p).size = (h.header p).size) :
    h'.liveBytes live = h.liveBytes live := by
  refine congrArg List.sum (List.map_congr_left fun p hp => ?_)
  rw [hkept p hp]

theorem HeapState.Shaped.used_iff (hs : Shaped place s) :
    s.heap.usedHeap.toNat = usedBytes (s.heap.heapBlocks place) ↔
      s.heap.usedHeap.toNat = s.heap.liveBytes s.live := by
  obtain ⟨bs, hshape⟩ := hs
  rw [hshape.layout.heapBlocks_eq, hshape.usedBytes_eq]

theorem HeapState.Shaped.liveBytes_le (hs : Shaped place s) : s.heap.liveBytes s.live ≤ fluxHeapSize.toNat := by
  obtain ⟨bs, hshape⟩ := hs
  exact hshape.liveBytes_le

/-! ## One call -/

theorem toNat_creditOf (hs : Shaped place s) (hp : p ∈ s.live) :
    (s.heap.creditOf p).toNat = memBlockBytes.toNat + (s.heap.header p).size.toNat := by
  have hle := hs.liveBytes_le
  rw [liveBytes_of_mem hp] at hle
  have hheap : fluxHeapSize.toNat < UInt64.size := by decide
  have hlt : memBlockBytes.toNat + (s.heap.header p).size.toNat < UInt64.size := by omega
  exact toNat_add_of_lt hlt

theorem Keeps.accounted (h : Keeps place s t) (hs : Shaped place s) (ha : Accounted place s) :
    Accounted place t := by
  refine ⟨h.shaped.used_iff.2 ?_, ?_⟩
  · rw [h.tables.usedHeap, h.live, liveBytes_congr fun p hp => congrArg MemBlock.size (h.kept p hp)]
    exact hs.used_iff.1 ha.used
  · rw [h.tables.usedHeap, h.tables.freeHeap]
    exact ha.total

theorem Retypes.accounted (h : Retypes place s t p type) (hs : Shaped place s) (ha : Accounted place s) :
    Accounted place t := by
  have hkept : ∀ q ∈ s.live, (t.heap.header q).size = (s.heap.header q).size := by
    intro q hq
    by_cases hqp : q = p
    · rw [hqp, h.header]
    · rw [h.kept q hq hqp]
  refine ⟨h.shaped.used_iff.2 ?_, ?_⟩
  · rw [h.tables.usedHeap, h.live, liveBytes_cons, ← liveBytes_of_mem h.held, liveBytes_congr hkept]
    exact hs.used_iff.1 ha.used
  · rw [h.tables.usedHeap, h.tables.freeHeap]
    exact ha.total

/-- The counters after an allocation; the block may be larger than what was charged. -/
theorem Allocates.counters (h : Allocates place s t size type pid q) (hs : Shaped place s)
    (ha : Accounted place s) :
    (chargeOf size).toNat = memBlockBytes.toNat + (memAlignUp size fluxMemAlign).toNat ∧
      (chargeOf size).toNat ≤ s.heap.freeHeap.toNat ∧
      t.heap.usedHeap.toNat = s.heap.usedHeap.toNat + (chargeOf size).toNat ∧
      t.heap.usedHeap.toNat + t.heap.freeHeap.toNat = fluxHeapSize.toNat ∧
      t.heap.liveBytes t.live =
        s.heap.usedHeap.toNat + memBlockBytes.toNat + (t.heap.header q).size.toNat := by
  have hused := hs.used_iff.1 ha.used
  have htotal := ha.total
  have hle := h.shaped.liveBytes_le
  have hroom := UInt64.le_iff_toNat_le.1 h.room
  have hlive : t.heap.liveBytes t.live =
      s.heap.usedHeap.toNat + memBlockBytes.toNat + (t.heap.header q).size.toNat := by
    rw [h.live, liveBytes_cons, liveBytes_congr fun p hp => congrArg MemBlock.size (h.kept p hp), hused]
    omega
  have hheap : fluxHeapSize.toNat < UInt64.size := by decide
  have hcharge : (chargeOf size).toNat = memBlockBytes.toNat + (memAlignUp size fluxMemAlign).toNat :=
    toNat_add_of_lt (by omega)
  have hfree : (chargeOf size).toNat ≤ s.heap.freeHeap.toNat := by omega
  refine ⟨hcharge, hfree, ?_, ?_, hlive⟩
  · rw [h.charges.usedHeap]
    exact toNat_add_of_lt (by omega)
  · rw [h.charges.usedHeap, h.charges.freeHeap, toNat_add_of_lt (by omega),
      UInt64.toNat_sub_of_le _ _ (UInt64.le_iff_toNat_le.2 hfree)]
    omega

/-- After an allocation the counters are right if and only if the block has the size charged for. -/
theorem Allocates.accounted_iff (h : Allocates place s t size type pid q) (hs : Shaped place s)
    (ha : Accounted place s) :
    Accounted place t ↔ (t.heap.header q).size = memAlignUp size fluxMemAlign := by
  obtain ⟨hcharge, -, hused, htotal, hlive⟩ := h.counters hs ha
  rw [← UInt64.toNat_inj]
  constructor
  · intro hat
    have := h.shaped.used_iff.1 hat.used
    omega
  · intro hsize
    refine ⟨h.shaped.used_iff.2 ?_, htotal⟩
    omega

/-- A release that wraps no counter keeps them right or wrong. -/
theorem Releases.accounted_iff (h : Releases place s t p) (hs : Shaped place s)
    (htotal : s.heap.usedHeap.toNat + s.heap.freeHeap.toNat = fluxHeapSize.toNat)
    (hle : (s.heap.creditOf p).toNat ≤ s.heap.usedHeap.toNat) :
    Accounted place t ↔ s.heap.usedHeap.toNat = s.heap.liveBytes s.live := by
  have hheap : fluxHeapSize.toNat < UInt64.size := by decide
  have hcredit := toNat_creditOf hs h.held
  have hused : t.heap.usedHeap.toNat = s.heap.usedHeap.toNat - (s.heap.creditOf p).toNat := by
    rw [h.credits.usedHeap, UInt64.toNat_sub_of_le _ _ (UInt64.le_iff_toNat_le.2 hle)]
  have hfree : t.heap.freeHeap.toNat = s.heap.freeHeap.toNat + (s.heap.creditOf p).toNat := by
    rw [h.credits.freeHeap]
    exact toNat_add_of_lt (by omega)
  have hlive : s.heap.liveBytes s.live = (s.heap.creditOf p).toNat + t.heap.liveBytes t.live := by
    rw [liveBytes_of_mem h.held, ← h.live, hcredit,
      liveBytes_congr fun q hq => congrArg MemBlock.size (h.kept q hq)]
  constructor
  · intro hat
    have := h.shaped.used_iff.1 hat.used
    omega
  · intro heq
    exact ⟨h.shaped.used_iff.2 (by omega), by omega⟩

/-- A block of the aligned size is what an exact fit leaves, and only that. -/
theorem Allocates.fitsExactly_iff (h : Allocates place s t size type pid q) (hsize : size ≠ 0) :
    s.heap.FitsExactly size ↔ (t.heap.header q).size = memAlignUp size fluxMemAlign := by
  have hfits : s.heap.FitsExactly size ↔
      (s.heap.block (memBlockFromPtr q)).size = memAlignUp size fluxMemAlign ∨
        memBlockBytes + fluxMemAlign ≤
          (s.heap.block (memBlockFromPtr q)).size - memAlignUp size fluxMemAlign := by
    constructor
    · intro hall
      exact (hall.resolve_left hsize) _ h.found h.found_ne
    · intro hcond
      refine .inr fun p hp _ => ?_
      rw [h.found] at hp
      cases hp
      exact hcond
  rw [hfits, h.cut, splitSize]
  split_ifs with hroom
  · exact iff_of_true (.inr hroom) rfl
  · exact or_iff_left hroom

theorem Moves.accounted_iff (h : Moves place s t p size type pid q) (hs : Shaped place s)
    (ha : Accounted place s) (hsize : size ≠ 0) : Accounted place t ↔ s.heap.FitsExactly size := by
  obtain ⟨held, u, -, halloc, hcopy, hrelease⟩ := h
  obtain ⟨-, -, hused, htotal, hlive⟩ := halloc.counters hs ha
  have hpu : p ∈ u.live := by
    rw [halloc.live]
    exact List.mem_cons_of_mem _ held
  have hcredit := toNat_creditOf hcopy.shaped (p := p) hpu
  have hheader : (u.heap.copyOver p q).header p = s.heap.header p :=
    (hcopy.kept p hpu).trans (halloc.kept p held)
  have hle : memBlockBytes.toNat + (s.heap.header p).size.toNat ≤ s.heap.usedHeap.toNat := by
    rw [hs.used_iff.1 ha.used, liveBytes_of_mem held]
    omega
  have htables := hcopy.tables
  rw [hrelease.accounted_iff hcopy.shaped, htables.usedHeap, halloc.fitsExactly_iff hsize,
    ← halloc.accounted_iff hs ha]
  · have hsame : (u.heap.copyOver p q).liveBytes u.live = u.heap.liveBytes u.live :=
      liveBytes_congr fun r hr => congrArg MemBlock.size (hcopy.kept r hr)
    show u.heap.usedHeap.toNat = (u.heap.copyOver p q).liveBytes u.live ↔ _
    rw [hsame]
    exact ⟨fun heq => ⟨halloc.shaped.used_iff.2 heq, htotal⟩, fun hau => halloc.shaped.used_iff.1 hau.used⟩
  · rw [htables.usedHeap, htables.freeHeap]
    exact htotal
  · rw [hcredit, hheader, htables.usedHeap, hused]
    omega

theorem accounted_init (h : MemHeap) : Accounted place ⟨h.fluxMemInit place, []⟩ := by
  have hs : HeapShape place (h.fluxMemInit place) [initialBlock place] [] := fluxMemInit_shape
  have hused : (h.fluxMemInit place).usedHeap = 0 := by simp [fluxMemInit, modifyBlock]
  have hfree : (h.fluxMemInit place).freeHeap = fluxHeapSize := by simp [fluxMemInit, modifyBlock]
  refine ⟨HeapState.Shaped.used_iff ⟨_, hs⟩ |>.2 ?_, ?_⟩
  · rw [hused]
    rfl
  · rw [hused, hfree]
    rfl

theorem exact_iff_of_request (hrequest : c.request s = some (size, type, pid)) :
    c.Exact s ↔ s.heap.FitsExactly size := by
  rw [HeapCall.Exact, hrequest]
  exact ⟨fun hall => hall _ rfl, fun h r hr => by cases hr; exact h⟩

theorem exact_of_request_none (hrequest : c.request s = none) : c.Exact s := by
  intro r hr
  rw [hrequest] at hr
  cases hr

/-- The counters stay right if and only if the call takes no block that is larger than what it asks for. -/
theorem accounted_step_iff (hlegal : Legal place c s) (hs : Shaped place s) (ha : Accounted place s)
    (ht : step place c s = some t) : Accounted place t ↔ c.Exact s := by
  cases step_cases hs hlegal ht with
  | init => exact iff_of_true (accounted_init s.heap) (exact_of_request_none rfl)
  | keeps _ hrequest _ h =>
    refine iff_of_true (h.accounted hs ha) fun r hr => ?_
    rcases hrequest r hr with hsize | hfail
    · exact .inl hsize
    · refine .inr fun p hp hp0 => ?_
      rw [hfail] at hp
      cases hp
      exact absurd rfl hp0
  | allocates _ hrequest _ hsize _ h =>
    rw [exact_iff_of_request hrequest, h.fitsExactly_iff hsize]
    exact h.accounted_iff hs ha
  | releases _ hrequest _ h =>
    refine iff_of_true ((h.accounted_iff hs ha.total ?_).2 (hs.used_iff.1 ha.used))
      (exact_of_request_none hrequest)
    rw [toNat_creditOf hs h.held, hs.used_iff.1 ha.used, liveBytes_of_mem h.held]
    omega
  | retypes _ hrequest _ h => exact iff_of_true (h.accounted hs ha) (exact_of_request_none hrequest)
  | moves _ hrequest _ hsize _ h =>
    rw [exact_iff_of_request hrequest]
    exact h.accounted_iff hs ha hsize

/-! ## Wrapping -/

theorem allocNoWrap (hs : Shaped place s) (ha : Accounted place s) (size : UInt64) (type pid : UInt32) :
    s.heap.AllocNoWrap size type pid := by
  intro q h' halloc hq
  rcases alloc_effect hs halloc with ⟨h0, -⟩ | ⟨-, -, h⟩
  · exact absurd h0 hq
  · exact (h.counters hs ha).2.1

theorem freeNoWrap (hs : Shaped place s) (ha : Accounted place s) (hp : p ∈ s.live ∨ s.heap.IgnoresFree p) :
    s.heap.FreeNoWrap p := by
  rcases hp with hp | hp
  · right
    rw [toNat_creditOf hs hp, hs.used_iff.1 ha.used, liveBytes_of_mem hp]
    omega
  · exact .inl hp

/-- While the counters are right, no update of them wraps. -/
theorem noWrap_of_accounted (hlegal : Legal place c s) (hs : Shaped place s) (ha : Accounted place s) :
    c.NoWrap s := by
  cases c with
  | init | write => trivial
  | alloc size type pid => exact allocNoWrap hs ha size type pid
  | free p => exact freeNoWrap hs ha hlegal
  | realloc p size type pid =>
    simp only [HeapCall.NoWrap]
    split_ifs with hp0 hsize
    · exact allocNoWrap hs ha size type pid
    · exact freeNoWrap hs ha hlegal
    · rcases hlegal with hp | hp
      · refine .inr (.inr ⟨allocNoWrap hs ha size type pid, fun q h' halloc hq => .inr ?_⟩)
        rcases alloc_effect hs halloc with ⟨h0, -⟩ | ⟨-, -, h⟩
        · exact absurd h0 hq
        · have hcopy : Keeps place ⟨h', q :: s.live⟩ ⟨h'.copyOver p q, q :: s.live⟩ :=
            copyOver_effect h.shaped (q := q) (by simp)
          have hpu : p ∈ q :: s.live := List.mem_cons_of_mem _ hp
          have hheader : (h'.copyOver p q).header p = s.heap.header p := (hcopy.kept p hpu).trans (h.kept p hp)
          have hused : h'.usedHeap.toNat = s.heap.usedHeap.toNat + _ := (h.counters hs ha).2.2.1
          rw [toNat_creditOf hcopy.shaped (p := p) hpu, hheader, hcopy.tables.usedHeap, hused,
            hs.used_iff.1 ha.used, liveBytes_of_mem hp]
          omega
      · exact .inl hp

/-! ## All runs -/

/-- The state after `flux_mem_init`. -/
def HeapState.initial (place : HeapPlace) (h : MemHeap) : HeapState := ⟨h.fluxMemInit place, []⟩

theorem shaped_initial : Shaped place (initial place h) := by
  refine ⟨[initialBlock place], ?_⟩
  exact fluxMemInit_shape

/-- In every run of clients the counters are right in all states and no update of them wraps, if and only if
every allocation of the run takes a block of exactly the size that it is charged for. -/
theorem heapAccounting_iff {calls : List HeapCall}
    (hlegal : MeetsAlong (step place) (Legal place) calls (initial place h)) :
    (HoldsAlong (step place) (Accounted place) calls (initial place h) ∧
        MeetsAlong (step place) NoWrap calls (initial place h)) ↔
      MeetsAlong (step place) Exact calls (initial place h) := by
  have hs : Shaped place (initial place h) := shaped_initial
  have hiff := holdsAlong_iff_meetsAlong (P := Accounted place) (C := Exact) (shaped_step place)
    (fun c s t hlegal hs ha ht => accounted_step_iff hlegal hs ha ht) hlegal hs (accounted_init h)
  constructor
  · intro hall
    exact hiff.1 hall.1
  · intro hexact
    have hall := hiff.2 hexact
    exact ⟨hall, hall.meetsAlong (shaped_step place) (fun c s hlegal hs ha => noWrap_of_accounted hlegal hs ha)
      hlegal hs⟩

end Bytes

theorem heapAccounting_iff_boot :
    (HoldsAlong (step heapPlace) (Accounted heapPlace)
        [.alloc 100 fluxMemKernel fluxPidKernel, .free 0] (initial heapPlace bootHeap) ∧
      MeetsAlong (step heapPlace) NoWrap
        [.alloc 100 fluxMemKernel fluxPidKernel, .free 0] (initial heapPlace bootHeap)) ↔
      MeetsAlong (step heapPlace) Exact
        [.alloc 100 fluxMemKernel fluxPidKernel, .free 0] (initial heapPlace bootHeap) :=
  heapAccounting_iff fun _ _ => ⟨trivial, fun _ _ => ⟨.inr (.inl rfl), trivial⟩⟩

/-- An allocation of all but 40 bytes of the one free block is charged for less than it gets, and its release
takes more from `s_used_heap` than is there. -/
theorem wholeBlock_drifts : ∃ s,
    execute (step heapPlace) [.alloc 16777136 fluxMemKernel fluxPidKernel] (initial heapPlace bootHeap) = some s ∧
      Legal heapPlace (.free 4136) s ∧ ¬Accounted heapPlace s ∧ ¬NoWrap (.free 4136) s := by
  have hrun : ((execute (step heapPlace) [.alloc 16777136 fluxMemKernel fluxPidKernel]
      (initial heapPlace bootHeap)).map fun s =>
        (s.live, decide (s.heap.IgnoresFree 4136), decide (s.heap.usedHeap < s.heap.creditOf 4136))) =
      some ([4136], false, true) := by
    decide +kernel
  obtain ⟨s, hs, hvalues⟩ := Option.map_eq_some_iff.1 hrun
  obtain ⟨hlive, hvalues⟩ := Prod.mk.inj hvalues
  obtain ⟨hchecked, hless⟩ := Prod.mk.inj hvalues
  have hp : 4136 ∈ s.live := by
    rw [hlive]
    exact List.mem_singleton_self _
  have hwraps : ¬s.heap.FreeNoWrap 4136 :=
    not_or.2 ⟨of_decide_eq_false hchecked, Nat.not_le.2 (UInt64.lt_iff_toNat_lt.1 (of_decide_eq_true hless))⟩
  have hshaped : Shaped heapPlace s := by
    obtain ⟨t, ht, hst⟩ := Option.bind_eq_some_iff.1 hs
    cases hst
    exact shaped_step heapPlace (.alloc 16777136 fluxMemKernel fluxPidKernel) _ _ trivial shaped_initial ht
  exact ⟨s, hs, .inl hp, fun ha => hwraps (freeNoWrap hshaped ha (.inl hp)), hwraps⟩

end FluxOs
