import FluxOs.Kernel.HeapCalls
import FluxOs.Lib.Slots

/-!
# The memory map

Apart from the entry for the heap itself, the active entries of the memory map should be those of the live
allocations, with their addresses, types and owners.  An allocation is not recorded when the map is full, a
`flux_realloc` that keeps the block changes the type in the header only, and `flux_mem_init` leaves the entries
as they are; these are the only ways in which the map and the allocations come apart.
-/

namespace FluxOs

open ByteMemory LinkedLists Tilings Actions Slots MemHeap HeapState HeapCall

/-- What the map records about an allocation: its address, its type and its owner. -/
abbrev MapRecord : Type := UInt64 × UInt32 × UInt32

def MemMapEntry.record (entry : MemMapEntry) : MapRecord := (entry.base, entry.type, entry.ownerPid)

/-- What `flux_mem_init` records about the heap. -/
def heapRecord (place : HeapPlace) : MapRecord := (place.base, fluxMemKernel, fluxPidKernel)

namespace MemHeap

/-- The entries of the map that are active. -/
def activeEntries (h : MemHeap) : List MemMapEntry := contents MemMapEntry.active h.memMap

/-- The active entries other than that of the heap. -/
def records (place : HeapPlace) (h : MemHeap) : List MapRecord :=
  (h.activeEntries.map MemMapEntry.record).erase (heapRecord place)

/-- What the header of an allocation says about it. -/
def recordOf (h : MemHeap) (p : UInt64) : MapRecord := (p, (h.header p).type, (h.header p).ownerPid)

/-- The size of the map, and that no active entry lies beyond the ones that are searched. -/
structure MapShape (h : MemHeap) : Prop where
  length : h.memMap.length = fluxMemMaxMapEntries
  below i entry : h.memMap[i]? = some entry → entry.active = true → i < h.memMapCount.toNat

end MemHeap

namespace HeapState

/-- The active entries correspond to the live allocations. -/
def Mapped (place : HeapPlace) (s : HeapState) : Prop :=
  (s.heap.records place).Perm (s.live.map s.heap.recordOf)

/-- `flux_mem_init` has not been called yet. -/
structure Unready (s : HeapState) : Prop where
  freeList : s.heap.freeList = 0
  live : s.live = []

/-- What is needed of a state. -/
structure MapInv (place : HeapPlace) (s : HeapState) : Prop where
  shaped : Shaped place s ∨ Unready s
  shape : MapShape s.heap

end HeapState

namespace HeapCall

/-- The call keeps the map right: it resets an empty map; an allocation that finds a block also finds a free
entry; and a `flux_realloc` that keeps its block also keeps its type. -/
def Mappable : HeapCall → HeapState → Prop
  | .init, s => s.heap.activeEntries = []
  | c, s =>
    (∀ r, c.request s = some r → r.1 = 0 ∨ s.heap.memFindFreeBlock (memAlignUp r.1 fluxMemAlign) = some 0 ∨
      ∃ entry ∈ s.heap.memMap, entry.active = false) ∧
    ∀ r, c.retype s = some r → r.2 = (s.heap.header r.1).type

end HeapCall

section Map

variable {place : HeapPlace} {h h' : MemHeap} {s t u : HeapState} {p q base size : UInt64}
  {type pid ownerPid : UInt32} {c : HeapCall} {entry : MemMapEntry} {rest : List MapRecord}

/-! ## The operations of the map -/

theorem activeEntries_congr (hmap : h'.memMap = h.memMap) : h'.activeEntries = h.activeEntries := by
  rw [activeEntries, activeEntries, hmap]

theorem records_congr (hmap : h'.memMap = h.memMap) : h'.records place = h.records place := by
  rw [records, records, activeEntries_congr hmap]

theorem MemHeap.MapShape.congr (hs : MapShape h) (hmap : h'.memMap = h.memMap)
    (hcount : h'.memMapCount = h.memMapCount) : MapShape h' := by
  refine ⟨?_, fun i entry hi hactive => ?_⟩
  · rw [hmap]
    exact hs.length
  · rw [hmap] at hi
    rw [hcount]
    exact hs.below i entry hi hactive

/-- An entry that is recorded. -/
def newEntry (base size : UInt64) (type ownerPid : UInt32) : MemMapEntry :=
  { base, size, type, perms := fluxPermRwx, ownerPid, active := true }

theorem memMapAdd_of_full (hfull : ¬∃ entry ∈ h.memMap, entry.active = false) :
    h.memMapAdd base size type ownerPid = h := by
  have hnone : h.memMap.findIdx? (fun entry => !entry.active) = none := by
    rw [List.findIdx?_eq_none_iff]
    intro entry hentry
    simpa using fun hfree => hfull ⟨entry, hentry, hfree⟩
  rw [memMapAdd, hnone]

variable (base size type ownerPid) in
theorem memMapAdd_of_room (hroom : ∃ entry ∈ h.memMap, entry.active = false) : ∃ i old,
    h.memMap[i]? = some old ∧ old.active = false ∧
      (h.memMapAdd base size type ownerPid).memMap = h.memMap.set i (newEntry base size type ownerPid) ∧
      (h.memMapAdd base size type ownerPid).memMapCount =
        if i ≥ h.memMapCount.toNat then UInt32.ofNat (i + 1) else h.memMapCount := by
  cases hfind : h.memMap.findIdx? (fun entry => !entry.active) with
  | none =>
    obtain ⟨entry, hentry, hfree⟩ := hroom
    have := List.findIdx?_eq_none_iff.1 hfind entry hentry
    simp [hfree] at this
  | some i =>
    obtain ⟨old, hold, hfree⟩ := getElem?_of_findIdx? hfind
    refine ⟨i, old, hold, by simpa using hfree, ?_, ?_⟩
    · rw [memMapAdd, hfind]
      rfl
    · rw [memMapAdd, hfind]

variable (base size type ownerPid) in
theorem activeEntries_memMapAdd (hroom : ∃ entry ∈ h.memMap, entry.active = false) :
    (h.memMapAdd base size type ownerPid).activeEntries.Perm
      (newEntry base size type ownerPid :: h.activeEntries) := by
  obtain ⟨i, old, hold, hfree, hmap, -⟩ := memMapAdd_of_room base size type ownerPid hroom
  rw [activeEntries, hmap]
  exact contents_fill hold hfree rfl

theorem MemHeap.MapShape.memMapAdd (hs : MapShape h) : MapShape (h.memMapAdd base size type ownerPid) := by
  by_cases hroom : ∃ entry ∈ h.memMap, entry.active = false
  · obtain ⟨i, old, hold, hfree, hmap, hcount⟩ := memMapAdd_of_room base size type ownerPid hroom
    have hi : i < fluxMemMaxMapEntries := hs.length ▸ (List.getElem?_eq_some_iff.1 hold).1
    have hmax : fluxMemMaxMapEntries < UInt32.size := by decide
    have htoNat : (UInt32.ofNat (i + 1)).toNat = i + 1 := UInt32.toNat_ofNat_of_lt' (by omega)
    refine ⟨?_, fun j entry hj hactive => ?_⟩
    · rw [hmap, List.length_set]
      exact hs.length
    · rw [hcount]
      rw [hmap, List.getElem?_set] at hj
      split_ifs at hj with hij
      · subst hij
        split_ifs <;> omega
      · have := hs.below j entry hj hactive
        split_ifs <;> omega
  · rw [memMapAdd_of_full hroom]
    exact hs

/-- The search for an address finds an entry if an active one has it. -/
theorem findIdx?_of_mem (hs : MapShape h) (hmem : entry ∈ h.activeEntries) :
    ∃ i found, (h.memMap.take h.memMapCount.toNat).findIdx? (fun x => x.active && x.base = entry.base) = some i ∧
      h.memMap[i]? = some found ∧ found.active = true ∧ found.base = entry.base := by
  obtain ⟨hmem, hactive⟩ := mem_contents.1 hmem
  obtain ⟨j, hj⟩ := List.getElem?_of_mem hmem
  cases hfind : (h.memMap.take h.memMapCount.toNat).findIdx?
      (fun x => x.active && x.base = entry.base) with
  | none =>
    have htake : entry ∈ h.memMap.take h.memMapCount.toNat := by
      refine List.mem_of_getElem? (i := j) ?_
      rw [List.getElem?_take_of_lt (hs.below j entry hj hactive)]
      exact hj
    have := List.findIdx?_eq_none_iff.1 hfind entry htake
    simp [hactive] at this
  | some i =>
    obtain ⟨found, hi, htest⟩ := getElem?_of_findIdx? hfind
    obtain ⟨hused, hbase⟩ : found.active = true ∧ found.base = entry.base := by simpa using htest
    refine ⟨i, found, rfl, ?_, hused, hbase⟩
    rw [List.getElem?_take] at hi
    split_ifs at hi
    exact hi

/-- The first entry with an address is removed. -/
theorem memMapRemove_of_mem (hs : MapShape h) (hmem : entry ∈ h.activeEntries) :
    ∃ removed ∈ h.activeEntries, removed.base = entry.base ∧
      h.activeEntries.Perm (removed :: (h.memMapRemove entry.base).activeEntries) := by
  obtain ⟨i, removed, hfind, hi, hused, hbase⟩ := findIdx?_of_mem hs hmem
  refine ⟨removed, mem_contents.2 ⟨List.mem_of_getElem? hi, hused⟩, hbase, ?_⟩
  rw [memMapRemove, hfind]
  dsimp only [activeEntries]
  rw [modify_eq_set hi]
  exact contents_clear hi hused rfl

theorem MemHeap.MapShape.memMapRemove (hs : MapShape h) : MapShape (h.memMapRemove base) := by
  refine ⟨?_, fun j entry hj hactive => ?_⟩
  · rw [← hs.length]
    unfold MemHeap.memMapRemove
    split
    · rfl
    · exact List.length_modify ..
  · rw [memMapCount_memMapRemove]
    unfold MemHeap.memMapRemove at hj
    split at hj
    · exact hs.below j entry hj hactive
    · rename_i i _
      dsimp only at hj
      rw [List.getElem?_modify] at hj
      obtain ⟨old, hold, rfl⟩ := Option.map_eq_some_iff.1 hj
      split_ifs at hactive
      exact hs.below j old hold hactive

/-! ## The records of one call -/

theorem records_of_charges (hcharges : Charges h h' size type pid q) (hq : q ≠ place.base)
    (hroom : ∃ entry ∈ h.memMap, entry.active = false) :
    (h'.records place).Perm ((q, type, pid) :: h.records place) := by
  have hactive := (activeEntries_memMapAdd q (memAlignUp size fluxMemAlign) type pid hroom).map MemMapEntry.record
  rw [← activeEntries_congr hcharges.memMap] at hactive
  have hne : ¬((newEntry q (memAlignUp size fluxMemAlign) type pid).record == heapRecord place) = true := by
    rw [beq_iff_eq]
    exact fun heq => hq (congrArg Prod.fst heq)
  have herase := hactive.erase (heapRecord place)
  rw [List.map_cons, List.erase_cons_tail hne] at herase
  exact herase

theorem records_of_full (hcharges : Charges h h' size type pid q)
    (hfull : ¬∃ entry ∈ h.memMap, entry.active = false) : h'.records place = h.records place := by
  refine records_congr ?_
  rw [hcharges.memMap, memMapAdd_of_full hfull]

theorem mapShape_of_charges (hcharges : Charges h h' size type pid q) (hs : MapShape h) : MapShape h' :=
  hs.memMapAdd.congr hcharges.memMap hcharges.memMapCount

theorem mapShape_of_credits (hcredits : Credits h h' p) (hs : MapShape h) : MapShape h' :=
  hs.memMapRemove.congr hcredits.memMap hcredits.memMapCount

/-- A release removes the record of the allocation if no other record has the address. -/
theorem records_of_credits (hcredits : Credits h h' p) (hs : MapShape h) (hp : p ≠ place.base)
    (hrecords : (h.records place).Perm ((p, type, pid) :: rest)) (hrest : ∀ r ∈ rest, r.1 ≠ p) :
    (h'.records place).Perm rest := by
  have hmem : (p, type, pid) ∈ h.records place := hrecords.mem_iff.2 List.mem_cons_self
  obtain ⟨entry, hentry, hrecord⟩ := List.mem_map.1 (List.mem_of_mem_erase hmem)
  have hbase : entry.base = p := congrArg Prod.fst hrecord
  obtain ⟨removed, -, hremoved, hactive⟩ := memMapRemove_of_mem hs hentry
  rw [hbase] at hremoved hactive
  have hne : ¬(removed.record == heapRecord place) = true := by
    rw [beq_iff_eq]
    exact fun heq => hp (hremoved ▸ congrArg Prod.fst heq)
  have herase := (hactive.map MemMapEntry.record).erase (heapRecord place)
  rw [List.map_cons, List.erase_cons_tail hne, ← activeEntries_congr hcredits.memMap] at herase
  have hboth := herase.symm.trans hrecords
  have hr : removed.record ∈ (p, type, pid) :: rest := hboth.mem_iff.1 List.mem_cons_self
  rcases List.mem_cons.1 hr with heq | hr
  · rw [heq] at hboth
    exact hboth.cons_inv
  · exact absurd hremoved (hrest _ hr)

/-! ## One call -/

theorem HeapShape.live_ne_base {bs : List Block} {live : List UInt64} (hs : HeapShape place h bs live)
    (hp : p ∈ live) : p ≠ place.base := by
  obtain ⟨b, hb, -, rfl, -, -⟩ := hs.block_of_live hp
  intro heq
  have hle := (Tiles.bounds Block.start_le_stop hs.layout.tiles hb).1
  have hptr := congrArg UInt64.toNat heq
  rw [hs.layout.tiles.toNat_ptr hb] at hptr
  unfold Block.start at hle
  unfold Block.payload at hptr
  have : memBlockBytes.toNat = 40 := rfl
  omega

theorem HeapState.Shaped.live_ne_base (hs : Shaped place s) (hp : p ∈ s.live) : p ≠ place.base := by
  obtain ⟨bs, hshape⟩ := hs
  exact hshape.live_ne_base hp

theorem HeapState.Shaped.nodup (hs : Shaped place s) : s.live.Nodup := by
  obtain ⟨bs, hshape⟩ := hs
  exact nodup_live hshape

theorem map_recordOf_congr {live : List UInt64} (hkept : ∀ p ∈ live, h'.header p = h.header p) :
    live.map h'.recordOf = live.map h.recordOf := by
  refine List.map_congr_left fun p hp => ?_
  rw [recordOf, recordOf, hkept p hp]

/-- The records of live allocations, that of `p` first. -/
theorem map_recordOf_perm {live : List UInt64} (hp : p ∈ live) :
    (live.map h.recordOf).Perm (h.recordOf p :: (live.erase p).map h.recordOf) :=
  (List.perm_cons_erase hp).map h.recordOf

theorem recordOf_ne {live : List UInt64} (hnodup : live.Nodup) :
    ∀ r ∈ (live.erase p).map h.recordOf, r.1 ≠ p := by
  intro r hr
  obtain ⟨q, hq, rfl⟩ := List.mem_map.1 hr
  intro heq
  have heq : q = p := heq
  subst heq
  exact hnodup.not_mem_erase hq

theorem Keeps.mapped_iff (h : Keeps place s t) : Mapped place t ↔ Mapped place s := by
  rw [Mapped, Mapped, records_congr h.tables.memMap, h.live, map_recordOf_congr h.kept]

theorem Allocates.mapped_iff (h : Allocates place s t size type pid q) (hm : Mapped place s) :
    Mapped place t ↔ ∃ entry ∈ s.heap.memMap, entry.active = false := by
  have hq : q ≠ place.base := h.shaped.live_ne_base (h.live ▸ List.mem_cons_self)
  have hrecord : t.heap.recordOf q = (q, type, pid) := by rw [recordOf, h.typed, h.owned]
  have hlive : t.live.map t.heap.recordOf = (q, type, pid) :: s.live.map s.heap.recordOf := by
    rw [h.live, List.map_cons, hrecord, map_recordOf_congr h.kept]
  rw [Mapped, hlive]
  constructor
  · intro hperm
    by_contra hfull
    rw [records_of_full h.charges hfull] at hperm
    have := (hm.symm.trans hperm).length_eq
    rw [List.length_cons] at this
    omega
  · intro hroom
    exact (records_of_charges h.charges hq hroom).trans (hm.cons _)

theorem Releases.records_perm (h : Releases place s t p) (hs : Shaped place s) (hshape : MapShape s.heap)
    (hrecords : (s.heap.records place).Perm (s.heap.recordOf p :: rest)) (hrest : ∀ r ∈ rest, r.1 ≠ p) :
    (t.heap.records place).Perm rest :=
  records_of_credits h.credits hshape (hs.live_ne_base h.held) hrecords hrest

theorem Releases.mapped (h : Releases place s t p) (hs : Shaped place s) (hshape : MapShape s.heap)
    (hm : Mapped place s) : Mapped place t := by
  have hlive : t.live.map t.heap.recordOf = (s.live.erase p).map s.heap.recordOf := by
    rw [map_recordOf_congr h.kept, h.live]
  rw [Mapped, hlive]
  exact h.records_perm hs hshape (hm.trans (map_recordOf_perm h.held)) (recordOf_ne hs.nodup)

theorem Retypes.mapped_iff (h : Retypes place s t p type) (hs : Shaped place s) (hm : Mapped place s) :
    Mapped place t ↔ type = (s.heap.header p).type := by
  have hrecord : t.heap.recordOf p = (p, type, (s.heap.header p).ownerPid) := by rw [recordOf, h.header]
  have hkept : ∀ q ∈ s.live.erase p, t.heap.header q = s.heap.header q := by
    intro q hq
    refine h.kept q (List.mem_of_mem_erase hq) ?_
    rintro rfl
    exact hs.nodup.not_mem_erase hq
  have hlive : t.live.map t.heap.recordOf =
      (p, type, (s.heap.header p).ownerPid) :: (s.live.erase p).map s.heap.recordOf := by
    rw [h.live, List.map_cons, hrecord, map_recordOf_congr hkept]
  have hsperm : (s.heap.records place).Perm _ := hm.trans (map_recordOf_perm h.held)
  rw [Mapped, records_congr h.tables.memMap, hlive]
  constructor
  · intro hperm
    have hboth := hsperm.symm.trans hperm
    have hmem := hboth.mem_iff.1 List.mem_cons_self
    rcases List.mem_cons.1 hmem with heq | hmem
    · exact (congrArg (fun r => r.2.1) heq).symm
    · exact absurd rfl (recordOf_ne hs.nodup _ hmem)
  · rintro rfl
    exact hsperm

theorem Moves.mapped_iff (h : Moves place s t p size type pid q) (hs : Shaped place s)
    (hshape : MapShape s.heap) (hm : Mapped place s) :
    Mapped place t ↔ ∃ entry ∈ s.heap.memMap, entry.active = false := by
  obtain ⟨held, u, -, halloc, hcopy, hrelease⟩ := h
  have hushape : MapShape (u.heap.copyOver p q) :=
    (mapShape_of_charges halloc.charges hshape).congr hcopy.tables.memMap hcopy.tables.memMapCount
  constructor
  · intro hmt
    by_contra hfull
    -- the old record goes, and no new one comes
    have hperm : ((u.heap.copyOver p q).records place).Perm
        ((u.heap.copyOver p q).recordOf p :: (s.live.erase p).map s.heap.recordOf) := by
      have hheader : (u.heap.copyOver p q).recordOf p = s.heap.recordOf p := by
        rw [recordOf, recordOf, hcopy.kept p hrelease.held, halloc.kept p held]
      rw [hheader, records_congr hcopy.tables.memMap, records_of_full halloc.charges hfull]
      exact hm.trans (map_recordOf_perm held)
    have hrecords := hrelease.records_perm hcopy.shaped hushape hperm (recordOf_ne hs.nodup)
    have hlen := (hrecords.symm.trans hmt).length_eq
    have hlive : t.live = u.live.erase p := hrelease.live
    have hpu : p ∈ u.live := hrelease.held
    rw [List.length_map, List.length_map, hlive, List.length_erase_of_mem held, List.length_erase_of_mem hpu,
      halloc.live, List.length_cons] at hlen
    have := List.length_pos_of_mem held
    omega
  · intro hroom
    exact hrelease.mapped hcopy.shaped hushape (hcopy.mapped_iff.2 ((halloc.mapped_iff hm).2 hroom))

theorem memMap_fluxMemInit : (h.fluxMemInit place).memMap =
      (({ h with memMapCount := 0 } : MemHeap).memMapAdd place.base fluxHeapSize fluxMemKernel fluxPidKernel).memMap ∧
    (h.fluxMemInit place).memMapCount =
      (({ h with memMapCount := 0 } : MemHeap).memMapAdd place.base fluxHeapSize fluxMemKernel
        fluxPidKernel).memMapCount := by
  unfold fluxMemInit
  exact memMapAdd_congr rfl rfl

theorem mapped_init_iff (hshape : MapShape h) :
    Mapped place ⟨h.fluxMemInit place, []⟩ ↔ h.activeEntries = [] := by
  let h₀ : MemHeap := { h with memMapCount := 0 }
  have hrecords : (h.fluxMemInit place).records place =
      (h₀.memMapAdd place.base fluxHeapSize fluxMemKernel fluxPidKernel).records place :=
    records_congr memMap_fluxMemInit.1
  have hlen : h.memMap.length = 2048 := hshape.length
  rw [Mapped, List.map_nil, List.perm_nil, hrecords, records]
  by_cases hroom : ∃ entry ∈ h₀.memMap, entry.active = false
  · have hperm := ((activeEntries_memMapAdd place.base fluxHeapSize fluxMemKernel fluxPidKernel
      hroom).map MemMapEntry.record).erase (heapRecord place)
    rw [List.map_cons] at hperm
    have hperm := hperm.trans (.of_eq (List.erase_cons_head ..))
    rw [← List.perm_nil, List.Perm.congr_left hperm, List.perm_nil, List.map_eq_nil_iff]
    rfl
  · rw [memMapAdd_of_full hroom]
    have hfull : h.activeEntries = h.memMap := contents_of_full fun entry hentry => by
      by_contra hfree
      exact hroom ⟨entry, hentry, by simpa using hfree⟩
    have hne : h.activeEntries ≠ [] := by
      intro hnil
      rw [← hfull, hnil] at hlen
      cases hlen
    refine iff_of_false (fun hnil => ?_) hne
    have hnil : (h.activeEntries.map MemMapEntry.record).erase (heapRecord place) = [] := hnil
    have hle := List.le_length_erase (a := heapRecord place) (l := h.activeEntries.map MemMapEntry.record)
    rw [hnil, List.length_map, hfull, hlen] at hle
    exact absurd hle (by decide)

/-! ## All runs -/

/-- Before `flux_mem_init` nothing can be allocated, and no pointer can be passed. -/
theorem unready_step (hs : Unready s) (hlegal : Legal place c s) (hc : c ≠ .init)
    (ht : step place c s = some t) :
    Unready t ∧ t.heap.memMap = s.heap.memMap ∧ t.heap.memMapCount = s.heap.memMapCount ∧
      (∀ r, c.request s = some r →
        r.1 = 0 ∨ s.heap.memFindFreeBlock (memAlignUp r.1 fluxMemAlign) = some 0) ∧ c.retype s = none := by
  have hfind (needed : UInt64) : s.heap.memFindFreeBlock needed = some 0 := by
    rw [memFindFreeBlock, hs.freeList]
    rfl
  have halloc {size : UInt64} {type pid : UInt32} {q : UInt64} {h' : MemHeap}
      (halloc : s.heap.fluxAlloc size type pid = some (q, h')) :
      q = 0 ∧ h'.freeList = 0 ∧ h'.memMap = s.heap.memMap ∧ h'.memMapCount = s.heap.memMapCount := by
    by_cases hsize : size = 0
    · rw [fluxAlloc, if_pos hsize] at halloc
      obtain ⟨rfl, rfl⟩ := Prod.mk.inj (Option.some.inj halloc)
      exact ⟨rfl, hs.freeList, rfl, rfl⟩
    · rw [fluxAlloc_of_empty hsize hs.freeList] at halloc
      obtain ⟨rfl, rfl⟩ := Prod.mk.inj (Option.some.inj halloc)
      exact ⟨rfl, hs.freeList, rfl, rfl⟩
  have hignored {p : UInt64} (hp : p ∈ s.live ∨ s.heap.IgnoresFree p) : s.heap.IgnoresFree p := by
    refine hp.resolve_left fun hp => ?_
    rw [hs.live] at hp
    cases hp
  cases c with
  | init => exact absurd rfl hc
  | alloc size type pid =>
    obtain ⟨⟨q, h'⟩, hsome, rfl⟩ := Option.map_eq_some_iff.1 ht
    obtain ⟨rfl, hfree, hmap, hcount⟩ := halloc hsome
    exact ⟨⟨hfree, hs.live⟩, hmap, hcount, fun r _ => .inr (hfind _), rfl⟩
  | free p =>
    obtain ⟨h', hfree, rfl⟩ := Option.map_eq_some_iff.1 ht
    rw [(hignored hlegal).fluxFree_eq] at hfree
    cases hfree
    refine ⟨⟨hs.freeList, ?_⟩, rfl, rfl, fun r _ => .inr (hfind _), rfl⟩
    rw [hs.live]
    rfl
  | realloc p size type pid =>
    obtain ⟨⟨q, h'⟩, hsome, rfl⟩ := Option.map_eq_some_iff.1 ht
    have hp := hignored hlegal
    have hretype : (HeapCall.realloc p size type pid).retype s = none := if_neg fun h => h.2.2.1 hp
    by_cases hp0 : p = 0
    · subst hp0
      rw [fluxRealloc, if_pos rfl] at hsome
      obtain ⟨rfl, hfree, hmap, hcount⟩ := halloc hsome
      exact ⟨⟨hfree, hs.live⟩, hmap, hcount, fun r _ => .inr (hfind _), hretype⟩
    · rw [IgnoresFree.fluxRealloc_eq hp hp0] at hsome
      obtain ⟨rfl, rfl⟩ := Prod.mk.inj (Option.some.inj hsome)
      refine ⟨⟨hs.freeList, ?_⟩, rfl, rfl, fun r _ => .inr (hfind _), hretype⟩
      have hlive : liveAfterRealloc s.live p size 0 = if size = 0 then s.live.erase p else s.live := if_neg hp0
      rw [hlive, hs.live]
      exact ite_self _
  | write mem =>
    cases ht
    exact ⟨⟨hs.freeList, hs.live⟩, rfl, rfl, fun r _ => .inr (hfind _), rfl⟩

theorem mappable_iff (hc : c ≠ .init) : c.Mappable s ↔
    (∀ r, c.request s = some r → r.1 = 0 ∨ s.heap.memFindFreeBlock (memAlignUp r.1 fluxMemAlign) = some 0 ∨
      ∃ entry ∈ s.heap.memMap, entry.active = false) ∧
    ∀ r, c.retype s = some r → r.2 = (s.heap.header r.1).type := by
  cases c with
  | init => exact absurd rfl hc
  | alloc | free | realloc | write => exact Iff.rfl

/-- A call that allocates nothing and keeps no block for another size. -/
theorem mappable_of_fails (hc : c ≠ .init)
    (hrequest : ∀ r, c.request s = some r →
      r.1 = 0 ∨ s.heap.memFindFreeBlock (memAlignUp r.1 fluxMemAlign) = some 0)
    (hretype : c.retype s = none) : c.Mappable s := by
  refine (mappable_iff hc).2 ⟨fun r hr => ?_, fun r hr => ?_⟩
  · rcases hrequest r hr with hsize | hfind
    · exact .inl hsize
    · exact .inr (.inl hfind)
  · rw [hretype] at hr
    cases hr

theorem mappable_of_allocates (hc : c ≠ .init) (hrequest : c.request s = some (size, type, pid))
    (hretype : c.retype s = none) (hsize : size ≠ 0) (h : Allocates place s t size type pid q) :
    c.Mappable s ↔ ∃ entry ∈ s.heap.memMap, entry.active = false := by
  rw [mappable_iff hc]
  constructor
  · rintro ⟨hroom, -⟩
    rcases hroom _ hrequest with h0 | hfind | hroom
    · exact absurd h0 hsize
    · rw [h.found] at hfind
      exact absurd (Option.some.inj hfind) h.found_ne
    · exact hroom
  · intro hroom
    refine ⟨fun r _ => .inr (.inr hroom), fun r hr => ?_⟩
    rw [hretype] at hr
    cases hr

/-- The map stays right if and only if the call meets the condition. -/
theorem mapped_step_iff (hlegal : Legal place c s) (hs : MapInv place s) (hm : Mapped place s)
    (ht : step place c s = some t) : Mapped place t ↔ c.Mappable s := by
  rcases hs.shaped with hshaped | hunready
  · cases step_cases hshaped hlegal ht with
    | init => exact mapped_init_iff hs.shape
    | keeps hc hrequest hretype h =>
      exact iff_of_true (h.mapped_iff.2 hm) (mappable_of_fails hc hrequest hretype)
    | allocates hc hrequest hretype hsize _ h =>
      rw [mappable_of_allocates hc hrequest hretype hsize h]
      exact h.mapped_iff hm
    | releases hc hrequest hretype h =>
      refine iff_of_true (h.mapped hshaped hs.shape hm) (mappable_of_fails hc (fun r hr => ?_) hretype)
      rw [hrequest] at hr
      cases hr
    | retypes hc hrequest hretype h =>
      rw [h.mapped_iff hshaped hm, mappable_iff hc, hrequest, hretype]
      constructor
      · intro htype
        refine ⟨fun r hr => ?_, fun r hr => ?_⟩
        · cases hr
        · cases hr
          exact htype
      · intro hall
        exact hall.2 _ rfl
    | moves hc hrequest hretype hsize _ h =>
      obtain ⟨-, u, -, halloc, -, -⟩ := id h
      rw [mappable_of_allocates hc hrequest hretype hsize halloc]
      exact h.mapped_iff hshaped hs.shape hm
  · by_cases hc : c = .init
    · subst hc
      cases ht
      exact mapped_init_iff hs.shape
    · obtain ⟨hunready', hmap, -, hrequest, hretype⟩ := unready_step hunready hlegal hc ht
      refine iff_of_true ?_ (mappable_of_fails hc hrequest hretype)
      rw [Mapped, records_congr hmap, hunready'.live]
      rw [Mapped, hunready.live] at hm
      exact hm

theorem mapShape_init (hactive : h.activeEntries = []) (hshape : MapShape h) :
    MapShape (h.fluxMemInit place) := by
  have hempty : MapShape ({ h with memMapCount := 0 } : MemHeap) := by
    refine ⟨hshape.length, fun i entry hi hused => ?_⟩
    have := contents_eq_nil.1 hactive entry (List.mem_of_getElem? hi)
    rw [this] at hused
    cases hused
  exact hempty.memMapAdd.congr memMap_fluxMemInit.1 memMap_fluxMemInit.2

theorem mapInv_step (hlegal : Legal place c s) (hs : MapInv place s) (hm : Mapped place s)
    (hmt : Mapped place t) (ht : step place c s = some t) : MapInv place t := by
  have hmappable := (mapped_step_iff hlegal hs hm ht).1 hmt
  by_cases hc : c = .init
  · subst hc
    cases ht
    exact ⟨.inl ⟨_, fluxMemInit_shape⟩, mapShape_init hmappable hs.shape⟩
  rcases hs.shaped with hshaped | hunready
  · cases step_cases hshaped hlegal ht with
    | init => exact absurd rfl hc
    | keeps _ _ _ h => exact ⟨.inl h.shaped, hs.shape.congr h.tables.memMap h.tables.memMapCount⟩
    | allocates _ _ _ _ _ h => exact ⟨.inl h.shaped, mapShape_of_charges h.charges hs.shape⟩
    | releases _ _ _ h => exact ⟨.inl h.shaped, mapShape_of_credits h.credits hs.shape⟩
    | retypes _ _ _ h => exact ⟨.inl h.shaped, hs.shape.congr h.tables.memMap h.tables.memMapCount⟩
    | moves _ _ _ _ _ h =>
      obtain ⟨-, u, -, halloc, hcopy, hrelease⟩ := h
      refine ⟨.inl hrelease.shaped, mapShape_of_credits hrelease.credits ?_⟩
      exact (mapShape_of_charges halloc.charges hs.shape).congr hcopy.tables.memMap hcopy.tables.memMapCount
  · obtain ⟨hunready', hmap, hcount, -, -⟩ := unready_step hunready hlegal hc ht
    exact ⟨.inr hunready', hs.shape.congr hmap hcount⟩

/-- In every run from the static state, with calls of `flux_mem_init` in any number and place, the memory map
agrees with the live allocations in all states if and only if all calls meet the condition. -/
theorem memoryMap_iff {calls : List HeapCall} (hlist : h.freeList = 0)
    (hlength : h.memMap.length = fluxMemMaxMapEntries) (hclear : ∀ entry ∈ h.memMap, entry.active = false)
    (hlegal : MeetsAlong (step place) (Legal place) calls ⟨h, []⟩) :
    HoldsAlong (step place) (Mapped place) calls ⟨h, []⟩ ↔ MeetsAlong (step place) Mappable calls ⟨h, []⟩ := by
  have hactive : h.activeEntries = [] := contents_eq_nil.2 hclear
  have hinv : MapInv place ⟨h, []⟩ := by
    refine ⟨.inr ⟨hlist, rfl⟩, hlength, fun i entry hi hused => ?_⟩
    rw [hclear entry (List.mem_of_getElem? hi)] at hused
    cases hused
  have hm : Mapped place ⟨h, []⟩ := by
    show (h.records place).Perm []
    rw [records, hactive]
    rfl
  exact holdsAlong_iff_meetsAlong_of_kept (fun _ _ _ hlegal hs hm hmt ht => mapInv_step hlegal hs hm hmt ht)
    (fun _ _ _ hlegal hs hm ht => mapped_step_iff hlegal hs hm ht) hlegal hinv hm

instance : Decidable (Mapped place s) := inferInstanceAs (Decidable (List.Perm _ _))

end Map

/-- The static variables before `flux_mem_init`. -/
def staticHeap : MemHeap :=
  ⟨fun _ => 0, 0, 0, 0, 0, 0, 0, 0, List.replicate fluxMemMaxMapEntries ⟨0, 0, 0, 0, 0, false⟩, 0⟩

theorem memoryMap_iff_static :
    HoldsAlong (step heapPlace) (Mapped heapPlace) [.init, .alloc 100 fluxMemKernel fluxPidKernel, .init]
        ⟨staticHeap, []⟩ ↔
      MeetsAlong (step heapPlace) Mappable [.init, .alloc 100 fluxMemKernel fluxPidKernel, .init]
        ⟨staticHeap, []⟩ := by
  refine memoryMap_iff rfl List.length_replicate (fun entry hentry => ?_) ?_
  · rw [List.eq_of_mem_replicate hentry]
  · exact fun _ _ => ⟨trivial, fun _ _ => ⟨trivial, fun _ _ => ⟨trivial, trivial⟩⟩⟩

/-- The entry of an allocation outlives `flux_mem_init`, and `flux_realloc` keeps the old type in the map. -/
theorem staleEntries_not_mapped :
    (∃ s, execute (step heapPlace) [.init, .alloc 100 fluxMemKernel fluxPidKernel, .init] ⟨staticHeap, []⟩ =
        some s ∧ s.live = [] ∧ ¬Mapped heapPlace s) ∧
      ∃ s, execute (step heapPlace) [.init, .alloc 100 fluxMemKernel fluxPidKernel,
          .realloc 4136 50 fluxMemAny fluxPidKernel] ⟨staticHeap, []⟩ =
        some s ∧ s.live = [4136] ∧ ¬Mapped heapPlace s := by
  have hrun (c : HeapCall) (live : List UInt64)
      (hvalues : ((execute (step heapPlace) [.init, .alloc 100 fluxMemKernel fluxPidKernel, c]
        ⟨staticHeap, []⟩).map fun s => (s.live, decide (Mapped heapPlace s))) = some (live, false)) :
      ∃ s, execute (step heapPlace) [.init, .alloc 100 fluxMemKernel fluxPidKernel, c] ⟨staticHeap, []⟩ =
        some s ∧ s.live = live ∧ ¬Mapped heapPlace s := by
    obtain ⟨s, hs, hvalues⟩ := Option.map_eq_some_iff.1 hvalues
    obtain ⟨hlive, hmapped⟩ := Prod.mk.inj hvalues
    exact ⟨s, hs, hlive, of_decide_eq_false hmapped⟩
  refine ⟨hrun _ _ ?_, hrun _ _ ?_⟩
  · decide +kernel
  · decide +kernel

end FluxOs
