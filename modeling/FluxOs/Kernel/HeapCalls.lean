import FluxOs.Kernel.HeapTables
import FluxOs.Lib.Actions

/-!
# Calls of the allocator

The calls of the allocator as actions of one machine, whose state is the heap with the pointers that clients
hold.  A call that clients may make does one of a few things to the allocations, and this is all that the
accounting and the memory map depend on.
-/

namespace FluxOs

open ByteMemory LinkedLists Tilings Actions

/-- A call of a client, or a client's write. -/
inductive HeapCall
  | init
  | alloc (size : UInt64) (type pid : UInt32)
  | free (p : UInt64)
  | realloc (p size : UInt64) (type pid : UInt32)
  | write (mem : Memory)

/-- The heap, with the pointers that were returned and not yet freed. -/
structure HeapState where
  heap : MemHeap
  live : List UInt64

namespace MemHeap

/-- The header of an allocation. -/
def header (h : MemHeap) (p : UInt64) : MemBlock := h.block (memBlockFromPtr p)

/-- The `memcpy` of `flux_realloc` from `p` to `q`. -/
def copyOver (h : MemHeap) (p q : UInt64) : MemHeap :=
  { h with mem := copy h.mem q.toNat p.toNat (min (h.header p).size (h.header q).size).toNat }

/-- `flux_realloc` keeps the block: it is large enough for the new size. -/
def Fits (h : MemHeap) (p size : UInt64) : Prop := memAlignUp size fluxMemAlign ≤ (h.header p).size

end MemHeap

open MemHeap

namespace HeapState

variable (place : HeapPlace)

/-- One call. -/
def step : HeapCall → HeapState → Option HeapState
  | .init, s => some ⟨s.heap.fluxMemInit place, []⟩
  | .alloc size type pid, s =>
    (s.heap.fluxAlloc size type pid).map fun r => ⟨r.2, liveAfterAlloc s.live r.1⟩
  | .free p, s => (s.heap.fluxFree p).map fun heap => ⟨heap, s.live.erase p⟩
  | .realloc p size type pid, s =>
    (s.heap.fluxRealloc p size type pid).map fun r => ⟨r.2, liveAfterRealloc s.live p size r.1⟩
  | .write mem, s => some ⟨{ s.heap with mem }, s.live⟩

/-- Clients pass pointers that they hold or that are rejected, and write to what is theirs. -/
def Legal : HeapCall → HeapState → Prop
  | .free p, s | .realloc p _ _ _, s => p ∈ s.live ∨ s.heap.IgnoresFree p
  | .write mem, s => ClientWrites place s.heap s.live mem
  | _, _ => True

/-- The blocks in use are the pointers that clients hold. -/
def Shaped (s : HeapState) : Prop := ∃ bs, HeapShape place s.heap bs s.live

end HeapState

open HeapState

/-! ## What a call does -/

/-- An allocation of `size` bytes at `q`. -/
structure Allocates (place : HeapPlace) (s t : HeapState) (size : UInt64) (type pid : UInt32) (q : UInt64) :
    Prop where
  shaped : Shaped place t
  live : t.live = q :: s.live
  fresh : q ∉ s.live
  kept : ∀ p ∈ s.live, t.heap.header p = s.heap.header p
  found : s.heap.memFindFreeBlock (memAlignUp size fluxMemAlign) = some (memBlockFromPtr q)
  found_ne : memBlockFromPtr q ≠ 0
  cut : (t.heap.header q).size =
    splitSize (s.heap.block (memBlockFromPtr q)).size (memAlignUp size fluxMemAlign)
  room : memAlignUp size fluxMemAlign ≤ (t.heap.header q).size
  typed : (t.heap.header q).type = type
  owned : (t.heap.header q).ownerPid = pid
  charges : Charges s.heap t.heap size type pid q

/-- The release of the allocation at `p`. -/
structure Releases (place : HeapPlace) (s t : HeapState) (p : UInt64) : Prop where
  shaped : Shaped place t
  live : t.live = s.live.erase p
  held : p ∈ s.live
  kept : ∀ q ∈ t.live, t.heap.header q = s.heap.header q
  credits : Credits s.heap t.heap p

/-- Nothing changes that is about the allocations. -/
structure Keeps (place : HeapPlace) (s t : HeapState) : Prop where
  shaped : Shaped place t
  live : t.live = s.live
  kept : ∀ p ∈ s.live, t.heap.header p = s.heap.header p
  tables : SameTables s.heap t.heap

/-- The allocation at `p` gets another type. -/
structure Retypes (place : HeapPlace) (s t : HeapState) (p : UInt64) (type : UInt32) : Prop where
  shaped : Shaped place t
  live : t.live = p :: s.live.erase p
  held : p ∈ s.live
  kept : ∀ q ∈ s.live, q ≠ p → t.heap.header q = s.heap.header q
  header : t.heap.header p = { s.heap.header p with type }
  tables : SameTables s.heap t.heap

/-- A move of the allocation at `p` to `q`: it is allocated, copied and released. -/
structure Moves (place : HeapPlace) (s t : HeapState) (p size : UInt64) (type pid : UInt32) (q : UInt64) :
    Prop where
  held : p ∈ s.live
  middle : ∃ u : HeapState, s.heap.fluxAlloc size type pid = some (q, u.heap) ∧
    Allocates place s u size type pid q ∧ Keeps place u ⟨u.heap.copyOver p q, u.live⟩ ∧
    Releases place ⟨u.heap.copyOver p q, u.live⟩ t p

section Effects

variable {place : HeapPlace} {s t u : HeapState} {h h' : MemHeap} {bs : List Block} {live : List UInt64}
  {p q size : UInt64} {type pid : UInt32}

theorem Keeps.refl (hs : Shaped place s) : Keeps place s s := ⟨hs, rfl, fun _ _ => rfl, SameTables.refl _⟩

/-- The block of a live pointer. -/
theorem HeapShape.block_of_live (hs : HeapShape place h bs live) (hp : p ∈ live) :
    ∃ b ∈ bs, b.free = false ∧ b.ptr = p ∧ h.header p = h.block b.addr ∧ (h.header p).size = b.size := by
  obtain ⟨k, b, l, rfl, hused, rfl⟩ := hs.exists_used hp
  have hb : b ∈ k ++ b :: l := by simp
  refine ⟨b, hb, hused, rfl, ?_, ?_⟩
  · rw [header, b.ptr_sub]
  · rw [header, b.ptr_sub]
    exact (hs.layout.holds b hb).size

/-- The pointer of an allocation passes the checks of `flux_free`. -/
theorem HeapShape.not_ignoresFree (hs : HeapShape place h bs live) (hp : p ∈ live) : ¬h.IgnoresFree p := by
  obtain ⟨k, b, l, rfl, hused, rfl⟩ := hs.exists_used hp
  have hb : b ∈ k ++ b :: l := by simp
  rw [IgnoresFree, b.ptr_sub]
  rintro (h0 | hmagic | hflags)
  · exact hs.layout.tiles.ptr_ne_zero hb h0
  · exact hmagic (hs.layout.holds b hb).magic
  · exact hs.flags_of_used hb hused hflags

/-- Headers of live pointers are those of blocks in use that stay. -/
theorem header_eq_of_keepsBlock (hs : HeapShape place h bs live) (hp : p ∈ live)
    (hkept : ∀ b ∈ h.heapBlocks place, b.free = false → b.ptr = p → KeepsBlock place b h h') :
    h'.header p = h.header p := by
  obtain ⟨b, hb, hused, rfl, -, -⟩ := hs.block_of_live hp
  rw [header, header, b.ptr_sub]
  exact (hkept b (hs.layout.heapBlocks_eq ▸ hb) hused rfl).header

/-- An allocation takes a block, or it fails and changes nothing. -/
theorem alloc_effect (hs : Shaped place s) (halloc : s.heap.fluxAlloc size type pid = some (q, h')) :
    (q = 0 ∧ (size = 0 ∨ s.heap.memFindFreeBlock (memAlignUp size fluxMemAlign) = some 0) ∧
        Keeps place s ⟨h', s.live⟩) ∨
      (q ≠ 0 ∧ size ≠ 0 ∧ Allocates place s ⟨h', q :: s.live⟩ size type pid q) := by
  obtain ⟨bs, hshape⟩ := hs
  by_cases hsize : size = 0
  · rw [fluxAlloc, if_pos hsize] at halloc
    cases halloc
    exact .inl ⟨rfl, .inl hsize, Keeps.refl ⟨bs, hshape⟩⟩
  rcases fluxAlloc_spec type pid hshape hsize with
    ⟨hnone, hfind, -⟩ | ⟨h₁, bs', b, hsome, hb, -, hroom, hshape', -, -, htakes⟩
  · left
    rw [hnone] at halloc
    cases halloc
    refine ⟨rfl, .inr hfind, ⟨bs, hshape.congr rfl fun _ _ => block_congr rfl⟩, rfl,
      fun p _ => block_congr rfl, ⟨rfl, rfl, rfl, rfl⟩⟩
  · right
    rw [hsome] at halloc
    obtain ⟨rfl, rfl⟩ := Prod.mk.inj (Option.some.inj halloc)
    have hb0 := hshape'.layout.tiles.ptr_ne_zero hb
    have hok : HeapOk place s.heap := ⟨bs, _, hshape⟩
    obtain ⟨-, hkept, -⟩ := hok.alloc hsome
    have hheader : h₁.header b.ptr = h₁.block b.addr := by rw [header, b.ptr_sub]
    have hbsize := (hshape'.layout.holds b hb).size
    refine ⟨hb0, hsize, ⟨bs', hshape'⟩, rfl, (List.nodup_cons.1 (nodup_live hshape')).1, fun p hp => ?_,
      ?_, ?_, ?_, ?_, ?_, ?_, fluxAlloc_charges hsome hb0⟩
    · exact header_eq_of_keepsBlock hshape hp fun c hc hused _ => hkept c hc hused
    · rw [b.ptr_sub]
      exact htakes.find
    · rw [b.ptr_sub]
      exact hshape'.layout.tiles.apart.ne_zero _ (List.mem_map_of_mem hb)
    · rw [b.ptr_sub, hheader, hbsize]
      exact htakes.size
    · rw [hheader, hbsize]
      exact hroom
    · rw [hheader]
      exact htakes.type
    · rw [hheader]
      exact htakes.owner

/-- The release of a live pointer. -/
theorem free_effect (hs : Shaped place s) (hp : p ∈ s.live) (hfree : s.heap.fluxFree p = some h') :
    Releases place s ⟨h', s.live.erase p⟩ p := by
  obtain ⟨bs, hshape⟩ := hs
  obtain ⟨h₁, bs', hsome, hshape', -⟩ := fluxFree_spec hshape hp
  rw [hsome] at hfree
  cases hfree
  obtain ⟨b, hb, hused, hptr, -, -⟩ := hshape.block_of_live hp
  subst hptr
  have hok : HeapOk place s.heap := ⟨bs, _, hshape⟩
  obtain ⟨-, hkept⟩ := hok.free (hshape.layout.heapBlocks_eq ▸ hb) hused hsome
  refine ⟨⟨bs', hshape'⟩, rfl, hp, fun q hq => ?_, fluxFree_credits hsome (hshape.not_ignoresFree hp)⟩
  have hne : q ≠ b.ptr := fun h => (nodup_live hshape).not_mem_erase (h ▸ hq)
  refine header_eq_of_keepsBlock hshape (List.mem_of_mem_erase hq) fun c hc hcused hcq => ?_
  exact hkept c hc hcused fun h => hne (hcq ▸ h ▸ rfl)

/-- Bytes outside the headers may change. -/
theorem keeps_of_bytes {mem' : Memory} (hshape : HeapShape place s.heap bs s.live)
    (hmem : ∀ i, (∃ b ∈ bs, b.addr.toNat ≤ i ∧ i < b.payload) → mem' i = s.heap.mem i) :
    Keeps place s ⟨{ s.heap with mem := mem' }, s.live⟩ := by
  refine ⟨⟨bs, hshape.of_bytes rfl hmem⟩, rfl, fun p hp => ?_, ⟨rfl, rfl, rfl, rfl⟩⟩
  obtain ⟨b, hb, -, rfl, -, -⟩ := hshape.block_of_live hp
  rw [header, header, b.ptr_sub]
  exact block_congr_bytes fun i h₁ h₂ => hmem i ⟨b, hb, h₁, h₂⟩

theorem write_effect {mem' : Memory} (hs : Shaped place s) (hw : ClientWrites place s.heap s.live mem') :
    Keeps place s ⟨{ s.heap with mem := mem' }, s.live⟩ := by
  obtain ⟨bs, hshape⟩ := hs
  exact keeps_of_bytes hshape (hshape.headers_of_write hw)

/-- Bytes may be copied to an allocation that is large enough. -/
theorem copy_effect {n : Nat} (hs : Shaped place s) (hq : q ∈ s.live) (source : Nat)
    (hn : n ≤ (s.heap.header q).size.toNat) :
    Keeps place s ⟨{ s.heap with mem := copy s.heap.mem q.toNat source n }, s.live⟩ := by
  obtain ⟨bs, hshape⟩ := hs
  obtain ⟨b, hb, -, rfl, -, hsize⟩ := hshape.block_of_live hq
  rw [hsize] at hn
  refine keeps_of_bytes hshape fun i hi => copy_of_outside ?_
  obtain ⟨c, hc, h₁, h₂⟩ := hi
  have hstop : b.stop = b.payload + b.size.toNat := rfl
  have hout := hshape.layout.tiles.header_outside hb hc
  rw [hshape.layout.tiles.toNat_ptr hb]
  unfold Block.payload at h₂
  omega

theorem copyOver_effect (hs : Shaped place s) (hq : q ∈ s.live) :
    Keeps place s ⟨s.heap.copyOver p q, s.live⟩ := copy_effect hs hq p.toNat (toNat_min_le ..)

/-- `flux_realloc` of a live pointer to a size other than 0. -/
theorem realloc_effect (hs : Shaped place s) (hp : p ∈ s.live) (hsize : size ≠ 0)
    (hrealloc : s.heap.fluxRealloc p size type pid = some (q, h')) :
    (s.heap.Fits p size ∧ q = p ∧ Retypes place s ⟨h', q :: s.live.erase p⟩ p type) ∨
      (¬s.heap.Fits p size ∧ q = 0 ∧ s.heap.memFindFreeBlock (memAlignUp size fluxMemAlign) = some 0 ∧
        Keeps place s ⟨h', s.live⟩) ∨
      (¬s.heap.Fits p size ∧ q ≠ 0 ∧ Moves place s ⟨h', q :: s.live.erase p⟩ p size type pid q) := by
  obtain ⟨bs, hshape⟩ := hs
  obtain ⟨b, hb, hused, hptr, -, -⟩ := hshape.block_of_live hp
  have hold := hshape.layout.holds b hb
  have hp0 : p ≠ 0 := hptr ▸ hshape.layout.tiles.ptr_ne_zero hb
  have haddr : memBlockFromPtr p = b.addr := hptr ▸ b.ptr_sub
  rw [fluxRealloc_of_used hp0 hsize haddr hold.magic (hshape.flags_of_used hb hused)] at hrealloc
  have hfits : s.heap.Fits p size ↔ (s.heap.block b.addr).size ≥ memAlignUp size fluxMemAlign := by
    rw [Fits, header, haddr]
  by_cases hroom : (s.heap.block b.addr).size ≥ memAlignUp size fluxMemAlign
  · -- the block stays where it is
    left
    rw [if_pos hroom] at hrealloc
    obtain ⟨rfl, rfl⟩ := Prod.mk.inj (Option.some.inj hrealloc)
    have hbA : b.addr ∈ bs.map Block.addr := List.mem_map_of_mem hb
    obtain ⟨k, l, rfl⟩ := List.append_of_mem hb
    have hshape' : HeapShape place (s.heap.modifyBlock b.addr fun x => { x with type }) (k ++ b :: l)
        (p :: s.live.erase p) :=
      ⟨layout_setHeader hshape.layout rfl rfl hold.magic hold.size hold.flags,
        hshape.list.modifyBlock hshape.layout.tiles.apart hbA (fun r hr => freeAddrs_subset hr) (fun _ => rfl)
          fun _ => rfl, hshape.apart, (List.perm_cons_erase hp).symm.trans hshape.live⟩
    refine ⟨hfits.2 hroom, rfl, ⟨_, hshape'⟩, rfl, hp, fun r hr hrp => ?_, ?_, ⟨rfl, rfl, rfl, rfl⟩⟩
    · obtain ⟨c, hc, -, rfl, -, -⟩ := hshape.block_of_live hr
      have hcb : c.addr ≠ b.addr := fun h => hrp (by rw [← hptr, Block.ptr, Block.ptr, h])
      rw [header, header, c.ptr_sub, block_modifyBlock hshape.layout.tiles.apart hbA (List.mem_map_of_mem hc),
        if_neg hcb]
    · rw [header, header, haddr]
      exact block_modifyBlock_self (f := fun x => { x with type })
  · right
    rw [if_neg hroom] at hrealloc
    obtain ⟨⟨q', h₁⟩, halloc, hrest⟩ := Option.bind_eq_some_iff.1 hrealloc
    dsimp only at hrest
    rcases alloc_effect ⟨bs, hshape⟩ halloc with ⟨rfl, hfail, hkeeps⟩ | ⟨hq0, -, halloc'⟩
    · left
      rw [if_pos rfl] at hrest
      obtain ⟨rfl, rfl⟩ := Prod.mk.inj (Option.some.inj hrest)
      exact ⟨fun h => hroom (hfits.1 h), rfl, hfail.resolve_left hsize, hkeeps⟩
    · right
      rw [if_neg hq0, ← haddr] at hrest
      obtain ⟨h₂, hfree, hrest⟩ := Option.bind_eq_some_iff.1 hrest
      obtain ⟨rfl, rfl⟩ := Prod.mk.inj (Option.some.inj hrest)
      have hcopy : Keeps place ⟨h₁, q' :: s.live⟩ ⟨h₁.copyOver p q', q' :: s.live⟩ :=
        copyOver_effect halloc'.shaped (q := q') (by simp)
      have hrelease := free_effect hcopy.shaped (List.mem_cons_of_mem _ hp) hfree
      have hne : q' ≠ p := fun h => halloc'.fresh (h ▸ hp)
      rw [List.erase_cons_tail (by simpa using hne)] at hrelease
      exact ⟨fun h => hroom (hfits.1 h), hq0, hp, _, halloc, halloc', hcopy, hrelease⟩

end Effects

/-! ## What a call asks for -/

instance (h : MemHeap) (p : UInt64) : Decidable (h.IgnoresFree p) := inferInstanceAs (Decidable (_ ∨ _))

instance (h : MemHeap) (p size : UInt64) : Decidable (h.Fits p size) := inferInstanceAs (Decidable (_ ≤ _))

namespace HeapCall

/-- The size, the type and the owner of the allocation that a call asks for. -/
def request : HeapCall → HeapState → Option (UInt64 × UInt32 × UInt32)
  | .alloc size type pid, _ => some (size, type, pid)
  | .realloc p size type pid, s =>
    if p = 0 then some (size, type, pid)
    else if size = 0 ∨ s.heap.IgnoresFree p ∨ s.heap.Fits p size then none
    else some (size, type, pid)
  | _, _ => none

/-- The allocation that a call keeps in place, with its new type. -/
def retype : HeapCall → HeapState → Option (UInt64 × UInt32)
  | .realloc p size type _, s =>
    if p ≠ 0 ∧ size ≠ 0 ∧ ¬s.heap.IgnoresFree p ∧ s.heap.Fits p size then some (p, type) else none
  | _, _ => none

/-- What a legal call does. -/
inductive Effect (place : HeapPlace) : HeapCall → HeapState → HeapState → Prop
  | init (s : HeapState) : Effect place .init s ⟨s.heap.fluxMemInit place, []⟩
  | keeps {c : HeapCall} {s t : HeapState} (hinit : c ≠ .init)
      (hrequest : ∀ r, c.request s = some r →
        r.1 = 0 ∨ s.heap.memFindFreeBlock (memAlignUp r.1 fluxMemAlign) = some 0)
      (hretype : c.retype s = none) (h : Keeps place s t) : Effect place c s t
  | allocates {c : HeapCall} {s t : HeapState} {size : UInt64} {type pid : UInt32} {q : UInt64}
      (hinit : c ≠ .init) (hrequest : c.request s = some (size, type, pid)) (hretype : c.retype s = none)
      (hsize : size ≠ 0) (hq : q ≠ 0) (h : Allocates place s t size type pid q) : Effect place c s t
  | releases {c : HeapCall} {s t : HeapState} {p : UInt64} (hinit : c ≠ .init)
      (hrequest : c.request s = none) (hretype : c.retype s = none) (h : Releases place s t p) :
      Effect place c s t
  | retypes {c : HeapCall} {s t : HeapState} {p : UInt64} {type : UInt32} (hinit : c ≠ .init)
      (hrequest : c.request s = none) (hretype : c.retype s = some (p, type)) (h : Retypes place s t p type) :
      Effect place c s t
  | moves {c : HeapCall} {s t : HeapState} {p size : UInt64} {type pid : UInt32} {q : UInt64}
      (hinit : c ≠ .init) (hrequest : c.request s = some (size, type, pid)) (hretype : c.retype s = none)
      (hsize : size ≠ 0) (hq : q ≠ 0) (h : Moves place s t p size type pid q) : Effect place c s t

end HeapCall

open HeapCall

section Steps

variable {place : HeapPlace} {c : HeapCall} {s t : HeapState} {p : UInt64}

theorem Keeps.of_ignored (hs : Shaped place s) (hp : s.heap.IgnoresFree p) :
    p ∉ s.live ∧ Keeps place s ⟨s.heap, s.live.erase p⟩ := by
  obtain ⟨bs, hshape⟩ := hs
  have hp' : p ∉ s.live := fun h => hshape.not_ignoresFree h hp
  rw [List.erase_of_not_mem hp']
  exact ⟨hp', Keeps.refl ⟨bs, hshape⟩⟩

theorem IgnoresFree.fluxRealloc_eq {h : MemHeap} {size : UInt64} {type pid : UInt32} (hp : h.IgnoresFree p)
    (hp0 : p ≠ 0) : h.fluxRealloc p size type pid = some (0, h) := by
  have hcheck := hp.resolve_left hp0
  unfold fluxRealloc
  rw [if_neg hp0]
  by_cases hsize : size = 0
  · rw [if_pos hsize, hp.fluxFree_eq]
    rfl
  · rw [if_neg hsize]
    exact if_pos hcheck

/-- Everything that a legal call can do. -/
theorem step_cases (hs : Shaped place s) (hlegal : Legal place c s) (ht : step place c s = some t) :
    Effect place c s t := by
  cases c with
  | init =>
    cases ht
    exact .init s
  | alloc size type pid =>
    obtain ⟨⟨q, h'⟩, halloc, rfl⟩ := Option.map_eq_some_iff.1 ht
    rcases alloc_effect hs halloc with ⟨rfl, hfail, hkeeps⟩ | ⟨hq, hsize, halloc'⟩
    · refine .keeps HeapCall.noConfusion (fun r hr => ?_) rfl hkeeps
      cases hr
      exact hfail
    · refine .allocates HeapCall.noConfusion rfl rfl hsize hq ?_
      rw [liveAfterAlloc, if_neg hq]
      exact halloc'
  | free p =>
    obtain ⟨h', hfree, rfl⟩ := Option.map_eq_some_iff.1 ht
    rcases hlegal with hp | hp
    · exact .releases HeapCall.noConfusion rfl rfl (free_effect hs hp hfree)
    · rw [hp.fluxFree_eq] at hfree
      cases hfree
      exact .keeps HeapCall.noConfusion (fun r hr => by cases hr) rfl (Keeps.of_ignored hs hp).2
  | realloc p size type pid =>
    obtain ⟨⟨q, h'⟩, hrealloc, rfl⟩ := Option.map_eq_some_iff.1 ht
    have hreq : (HeapCall.realloc p size type pid).request s =
        if p = 0 then some (size, type, pid)
        else if size = 0 ∨ s.heap.IgnoresFree p ∨ s.heap.Fits p size then none
        else some (size, type, pid) := rfl
    have hret : (HeapCall.realloc p size type pid).retype s =
        if p ≠ 0 ∧ size ≠ 0 ∧ ¬s.heap.IgnoresFree p ∧ s.heap.Fits p size then some (p, type) else none := rfl
    by_cases hp0 : p = 0
    · -- a null pointer makes it an allocation
      subst hp0
      rw [if_pos rfl] at hreq
      rw [if_neg (by simp)] at hret
      rw [fluxRealloc, if_pos rfl] at hrealloc
      have hlive : liveAfterRealloc s.live 0 size q = liveAfterAlloc s.live q := if_pos rfl
      rw [hlive]
      rcases alloc_effect hs hrealloc with ⟨rfl, hfail, hkeeps⟩ | ⟨hq, hsize, halloc'⟩
      · refine .keeps HeapCall.noConfusion (fun r hr => ?_) hret hkeeps
        rw [hreq] at hr
        cases hr
        exact hfail
      · refine .allocates HeapCall.noConfusion hreq hret hsize hq ?_
        rw [liveAfterAlloc, if_neg hq]
        exact halloc'
    rw [if_neg hp0] at hreq
    have hlive : liveAfterRealloc s.live p size q =
        if size = 0 then s.live.erase p else if q = 0 then s.live else q :: s.live.erase p := if_neg hp0
    rcases hlegal with hp | hp
    · obtain ⟨bs, hshape⟩ := hs
      have hcheck := hshape.not_ignoresFree hp
      by_cases hsize : size = 0
      · -- a size of 0 makes it a release
        rw [if_pos (.inl hsize)] at hreq
        rw [if_neg fun h => h.2.1 hsize] at hret
        rw [fluxRealloc, if_neg hp0, if_pos hsize] at hrealloc
        obtain ⟨h₁, hfree, hrealloc⟩ := Option.bind_eq_some_iff.1 hrealloc
        obtain ⟨rfl, rfl⟩ := Prod.mk.inj (Option.some.inj hrealloc)
        rw [hlive, if_pos hsize]
        exact .releases HeapCall.noConfusion hreq hret (free_effect ⟨bs, hshape⟩ hp hfree)
      rw [if_neg hsize] at hlive
      rcases realloc_effect ⟨bs, hshape⟩ hp hsize hrealloc with
        ⟨hfits, rfl, h⟩ | ⟨hfits, rfl, hfail, h⟩ | ⟨hfits, hq, h⟩
      · rw [if_pos (.inr (.inr hfits))] at hreq
        rw [if_pos ⟨hp0, hsize, hcheck, hfits⟩] at hret
        rw [hlive, if_neg hp0]
        exact .retypes HeapCall.noConfusion hreq hret h
      · rw [if_neg (by simp [hsize, hcheck, hfits])] at hreq
        rw [if_neg fun h => hfits h.2.2.2] at hret
        rw [hlive, if_pos rfl]
        refine .keeps HeapCall.noConfusion (fun r hr => ?_) hret h
        rw [hreq] at hr
        cases hr
        exact .inr hfail
      · rw [if_neg (by simp [hsize, hcheck, hfits])] at hreq
        rw [if_neg fun h => hfits h.2.2.2] at hret
        rw [hlive, if_neg hq]
        exact .moves HeapCall.noConfusion hreq hret hsize hq h
    · rw [if_pos (.inr (.inl hp))] at hreq
      rw [if_neg fun h => h.2.2.1 hp] at hret
      rw [IgnoresFree.fluxRealloc_eq hp hp0] at hrealloc
      obtain ⟨rfl, rfl⟩ := Prod.mk.inj (Option.some.inj hrealloc)
      obtain ⟨hp', hkeeps⟩ := Keeps.of_ignored hs hp
      have hsame : liveAfterRealloc s.live p size 0 = s.live := by
        rw [hlive, List.erase_of_not_mem hp', if_pos rfl, ite_self]
      rw [hsame]
      refine .keeps HeapCall.noConfusion (fun r hr => ?_) hret (Keeps.refl hs)
      rw [hreq] at hr
      cases hr
  | write mem =>
    cases ht
    exact .keeps HeapCall.noConfusion (fun r hr => by cases hr) rfl (write_effect hs hlegal)

variable (place) in
theorem shaped_step (c : HeapCall) (s t : HeapState) (hlegal : Legal place c s) (hs : Shaped place s)
    (ht : step place c s = some t) : Shaped place t := by
  cases step_cases hs hlegal ht with
  | init => exact ⟨_, fluxMemInit_shape⟩
  | keeps _ _ _ h => exact h.shaped
  | allocates _ _ _ _ _ h => exact h.shaped
  | releases _ _ _ h => exact h.shaped
  | retypes _ _ _ h => exact h.shaped
  | moves _ _ _ _ _ h =>
    obtain ⟨-, u, -, -, -, hrelease⟩ := h
    exact hrelease.shaped

end Steps

end FluxOs
