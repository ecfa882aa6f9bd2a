import FluxOs.Kernel.Accounting
import FluxOs.Kernel.MemoryMap
import FluxOs.Kernel.Syscall

/-!
# Permissions

`flux_mem_protect` records permissions in a table of its own and in the memory map.  The table is never cleared:
an entry stays when the allocation at its address is freed, while the map gives a new allocation all
permissions.  So the two tables agree as long as no allocation is made at an address with such an entry.
-/

namespace FluxOs

open Actions Slots MemHeap HeapState HeapCall

/-- The range of an entry. -/
def MemPermEntry.range (entry : MemPermEntry) : UInt64 × UInt64 := (entry.base, entry.size)

/-- The table after `flux_mem_protect`: the entry for exactly this range is updated, or a new one is taken. -/
def protectTable (permTable : List MemPermEntry) (addr size : UInt64) (perm : UInt32) :
    Option (List MemPermEntry) :=
  match permTable.findIdx? fun entry => entry.active && entry.base = addr && entry.size = size with
  | some i => some (permTable.modify i fun entry => { entry with perms := perm })
  | none =>
    if permTable.length < fluxMemMaxPermissions then some (permTable ++ [⟨addr, size, perm, true⟩]) else none

/-- The heap after `flux_mem_protect`: the permissions in the memory map. -/
def MemHeap.protectMap (h : MemHeap) (addr : UInt64) (perm : UInt32) : MemHeap :=
  { h with memMap :=
      match (h.memMap.take h.memMapCount.toNat).findIdx? fun entry => entry.active && entry.base = addr with
      | some i => h.memMap.modify i fun entry => { entry with perms := perm }
      | none => h.memMap }

/-- A call of the allocator, or of `flux_mem_protect`. -/
inductive PermCall
  | heap (c : HeapCall)
  | protect (addr size : UInt64) (perm : UInt32)

/-- The kernel, with the pointers that clients hold.  For the statements only: `leftovers` are the ranges of the
entries that an allocation at their address had when it was freed. -/
structure PermState where
  os : Os
  live : List UInt64
  leftovers : List (UInt64 × UInt64)

namespace PermState

variable (place : HeapPlace)

abbrev memory (s : PermState) : HeapState := ⟨s.os.kernel.heap, s.live⟩

abbrev permTable (s : PermState) : List MemPermEntry := s.os.permTable

/-- The heap with its pointers, the permission table and the entries left over are replaced. -/
abbrev replace (s : PermState) (memory : HeapState) (permTable : List MemPermEntry)
    (leftovers : List (UInt64 × UInt64)) : PermState where
  os := { s.os with kernel := { s.os.kernel with heap := memory.heap }, permTable }
  live := memory.live
  leftovers

/-- The ranges that entries have at addresses that are live in `s` and not in `memory`. -/
def dropped (s : PermState) (memory : HeapState) : List (UInt64 × UInt64) :=
  (s.permTable.filter fun entry => entry.active && entry.base ∈ s.memory.live && entry.base ∉ memory.live).map
    MemPermEntry.range

/-- One call. -/
def step : PermCall → PermState → Option PermState
  | .heap .init, s => (HeapState.step place .init s.memory).map fun memory => s.replace memory [] []
  | .heap c, s =>
    (HeapState.step place c s.memory).map fun memory =>
      s.replace memory s.permTable (s.leftovers ++ s.dropped memory)
  | .protect addr size perm, s => some { s with os := (s.os.fluxMemProtect addr size perm).2 }

/-- After `flux_mem_init`. -/
def start (os : Os) : PermState := replace ⟨os, [], []⟩ (HeapState.initial place os.kernel.heap) [] []

/-- Clients free what they hold, and the heap is not initialised again. -/
def Legal : PermCall → PermState → Prop
  | .heap c, s => c ≠ .init ∧ HeapState.Legal place c s.memory
  | .protect .., _ => True

end PermState

/-- The permissions of the entries with an address. -/
def permsOf (p : UInt64) (entries : List MemMapEntry) : List UInt32 :=
  (entries.filter fun entry => entry.base = p).map MemMapEntry.perms

/-- The permissions that the memory map shows for an address. -/
def MemHeap.permsAt (h : MemHeap) (p : UInt64) : List UInt32 := permsOf p h.activeEntries

namespace PermState

/-- The memory map has exactly one entry for the address, with the permissions of the table, and the entry of the
table was not left over by an allocation that was freed. -/
def Right (s : PermState) (entry : MemPermEntry) : Prop :=
  s.memory.heap.permsAt entry.base = [entry.perms] ∧ entry.range ∉ s.leftovers

/-- Permissions agree for all live allocations, and none of them has an entry left over. -/
def Permitted (s : PermState) : Prop :=
  ∀ entry ∈ s.permTable, entry.active = true → entry.base ∈ s.memory.live → s.Right entry

end PermState

namespace PermCall

/-- An allocation is made at an address without entries, or with entries that show all permissions, when the map
has room for it and no allocation had these entries before.  A range that is protected starts at no live
allocation, or at one that the map records and whose entries for other sizes have the same permissions. -/
def Permissible : PermCall → PermState → Prop
  | .heap c, s => ∀ r, c.request s.memory = some r → r.1 ≠ 0 → ∀ a, a ≠ 0 →
    s.memory.heap.memFindFreeBlock (memAlignUp r.1 fluxMemAlign) = some a →
    ∀ entry ∈ s.permTable, entry.active = true → memBlockFromPtr entry.base = a →
      (entry.perms = fluxPermRwx ∧ ∃ mapped ∈ s.memory.heap.memMap, mapped.active = false) ∧
        entry.range ∉ s.leftovers
  | .protect addr size perm, s => size = 0 ∨ protectTable s.permTable addr size perm = none ∨
    addr ∉ s.memory.live ∨ (s.memory.heap.permsAt addr ≠ [] ∧
      ∀ entry ∈ s.permTable, entry.active = true → entry.base = addr → entry.size ≠ size → entry.perms = perm)

end PermCall

open PermState (Permitted)

section Permissions

variable {place : HeapPlace} {h h' : MemHeap} {s t : PermState} {m m' : HeapState} {c : PermCall}
  {p q addr base size : UInt64} {type pid perm : UInt32} {entry : MemMapEntry} {l l' : List MemMapEntry}
  {permTable : List MemPermEntry}

/-! ## The permissions of the map -/

theorem permsAt_congr (hmap : h'.memMap = h.memMap) : h'.permsAt p = h.permsAt p := by
  rw [permsAt, permsAt, activeEntries_congr hmap]

variable (entry) in
theorem permsOf_cons (hbase : entry.base = p) : permsOf p (entry :: l) = entry.perms :: permsOf p l := by
  simp [permsOf, hbase]

variable (entry) in
theorem permsOf_cons_of_ne (hbase : entry.base ≠ p) : permsOf p (entry :: l) = permsOf p l := by
  simp [permsOf, hbase]

theorem mem_permsOf (hentry : entry ∈ l) : entry.perms ∈ permsOf entry.base l :=
  List.mem_map_of_mem (List.mem_filter.2 ⟨hentry, decide_eq_true rfl⟩)

/-- Permissions are looked up in any order of the entries. -/
theorem permsOf_perm (p : UInt64) (hl : l.Perm l') : (permsOf p l).Perm (permsOf p l') := (hl.filter _).map _

/-- The search for an address finds nothing, or an active entry. -/
theorem findIdx?_cases (hs : MapShape h) (p : UInt64) :
    ((h.memMap.take h.memMapCount.toNat).findIdx? (fun x => x.active && x.base = p) = none ∧ h.permsAt p = []) ∨
      ∃ i found, (h.memMap.take h.memMapCount.toNat).findIdx? (fun x => x.active && x.base = p) = some i ∧
        h.memMap[i]? = some found ∧ found.active = true ∧ found.base = p := by
  by_cases hp : ∃ entry ∈ h.activeEntries, entry.base = p
  · obtain ⟨entry, hentry, rfl⟩ := hp
    exact .inr (findIdx?_of_mem hs hentry)
  · refine .inl ⟨List.findIdx?_eq_none_iff.2 fun entry hentry => ?_, ?_⟩
    · by_contra htest
      obtain ⟨hactive, hbase⟩ : entry.active = true ∧ entry.base = p := by simpa using htest
      exact hp ⟨entry, mem_contents.2 ⟨List.mem_of_mem_take hentry, hactive⟩, hbase⟩
    · rw [permsAt, permsOf, List.map_eq_nil_iff, List.filter_eq_nil_iff]
      intro entry hentry hbase
      exact hp ⟨entry, hentry, of_decide_eq_true hbase⟩

/-- A new entry shows all permissions. -/
theorem permsAt_charges (hcharges : Charges h h' size type pid q)
    (hroom : ∃ entry ∈ h.memMap, entry.active = false) : (h'.permsAt q).Perm (fluxPermRwx :: h.permsAt q) := by
  rw [permsAt_congr hcharges.memMap]
  have hperm := permsOf_perm q (activeEntries_memMapAdd q (memAlignUp size fluxMemAlign) type pid hroom)
  rw [permsOf_cons (p := q) (newEntry ..) rfl] at hperm
  exact hperm

theorem permsAt_charges_of_full (hcharges : Charges h h' size type pid q)
    (hfull : ¬∃ entry ∈ h.memMap, entry.active = false) : h'.permsAt p = h.permsAt p := by
  rw [permsAt_congr hcharges.memMap, memMapAdd_of_full hfull]

theorem permsAt_charges_of_ne (hcharges : Charges h h' size type pid q) (hp : p ≠ q) :
    (h'.permsAt p).Perm (h.permsAt p) := by
  by_cases hroom : ∃ entry ∈ h.memMap, entry.active = false
  · rw [permsAt_congr hcharges.memMap]
    have hperm := permsOf_perm p (activeEntries_memMapAdd q (memAlignUp size fluxMemAlign) type pid hroom)
    rw [permsOf_cons_of_ne (newEntry ..) hp.symm] at hperm
    exact hperm
  · rw [permsAt_charges_of_full hcharges hroom]

theorem permsAt_remove_of_ne (hs : MapShape h) (hp : p ≠ q) :
    (h.permsAt p).Perm ((h.memMapRemove q).permsAt p) := by
  rcases findIdx?_cases hs q with ⟨hfind, -⟩ | ⟨i, found, hfind, hi, hactive, hbase⟩
  · rw [memMapRemove, hfind]
  · have hclear : h.activeEntries.Perm (found :: (h.memMapRemove q).activeEntries) := by
      rw [memMapRemove, hfind]
      dsimp only [activeEntries]
      rw [modify_eq_set hi]
      exact contents_clear hi hactive rfl
    have hperm := permsOf_perm p hclear
    rw [permsOf_cons_of_ne found (hbase.trans_ne hp.symm)] at hperm
    exact hperm

/-- A release drops the entry for its address. -/
theorem permsAt_credits (hcredits : Credits h h' p) (hs : MapShape h) (hsingle : (h.permsAt p).length ≤ 1) :
    h'.permsAt p = [] := by
  rw [permsAt_congr hcredits.memMap]
  rcases findIdx?_cases hs p with ⟨hfind, hnil⟩ | ⟨i, found, hfind, hi, hactive, hbase⟩
  · rw [memMapRemove, hfind]
    exact hnil
  · have hmem : found ∈ h.activeEntries := mem_contents.2 ⟨List.mem_of_getElem? hi, hactive⟩
    obtain ⟨removed, -, hremoved, hclear⟩ := memMapRemove_of_mem hs hmem
    rw [hbase] at hremoved hclear
    have hlength := (permsOf_perm p hclear).length_eq
    rw [permsOf_cons removed hremoved, List.length_cons] at hlength
    unfold permsAt at hsingle ⊢
    rw [hlength] at hsingle
    exact List.length_eq_zero_iff.1 (Nat.le_zero.1 (Nat.le_of_succ_le_succ hsingle))

theorem permsAt_credits_of_ne (hcredits : Credits h h' q) (hs : MapShape h) (hp : p ≠ q) :
    (h.permsAt p).Perm (h'.permsAt p) := by
  rw [permsAt_congr hcredits.memMap]
  exact permsAt_remove_of_ne hs hp

/-- What `flux_mem_protect` does to the map: at most one entry is changed. -/
theorem protectMap_cases (hs : MapShape h) (addr : UInt64) (perm : UInt32) :
    (h.protectMap addr perm = h ∧ h.permsAt addr = []) ∨ ∃ i found, h.memMap[i]? = some found ∧
      found.active = true ∧ found.base = addr ∧
        h.protectMap addr perm = { h with memMap := h.memMap.set i { found with perms := perm } } := by
  rcases findIdx?_cases hs addr with ⟨hfind, hnil⟩ | ⟨i, found, hfind, hi, hactive, hbase⟩
  · left
    rw [protectMap, hfind]
    exact ⟨rfl, hnil⟩
  · right
    refine ⟨i, found, hi, hactive, hbase, ?_⟩
    rw [protectMap, hfind]
    dsimp only
    rw [modify_eq_set hi]

variable (perm) in
/-- The entry that is changed is still active, with its address. -/
theorem activeEntries_protect {i : Nat} (hi : h.memMap[i]? = some entry) (hactive : entry.active = true) :
    ({ entry with perms := perm } :: h.activeEntries).Perm
      (entry :: contents MemMapEntry.active (h.memMap.set i { entry with perms := perm })) := by
  have hperm := (cons_perm_set (y := { entry with perms := perm }) hi).filter MemMapEntry.active
  rw [List.filter_cons, List.filter_cons, if_pos hactive, if_pos hactive] at hperm
  exact hperm

variable (perm) in
theorem permsAt_protectMap (hs : MapShape h) (hsingle : (h.permsAt addr).length ≤ 1) :
    (h.protectMap addr perm).permsAt addr = (h.permsAt addr).map fun _ => perm := by
  rcases protectMap_cases hs addr perm with ⟨hsame, hnil⟩ | ⟨i, found, hi, hactive, hbase, hset⟩
  · rw [hsame, hnil]
    rfl
  · have hperm := permsOf_perm addr (activeEntries_protect perm hi hactive)
    rw [permsOf_cons found hbase, permsOf_cons { found with perms := perm } hbase] at hperm
    have hmem : found.perms ∈ h.permsAt addr := by
      rw [← hbase]
      exact mem_permsOf (mem_contents.2 ⟨List.mem_of_getElem? hi, hactive⟩)
    obtain ⟨v, hv⟩ : ∃ v, h.permsAt addr = [v] :=
      List.length_eq_one_iff.1 (Nat.le_antisymm hsingle (List.length_pos_of_mem hmem))
    have hfound : found.perms = v := List.mem_singleton.1 (hv ▸ hmem)
    have hperm : [perm, v].Perm (v :: (h.protectMap addr perm).permsAt addr) := by
      rw [← hv, hset, ← hfound]
      exact hperm
    rw [hv]
    exact List.perm_singleton.1 ((List.Perm.swap perm v []).trans hperm).cons_inv.symm

variable (perm) in
theorem permsAt_protectMap_of_ne (hs : MapShape h) (hp : p ≠ addr) :
    ((h.protectMap addr perm).permsAt p).Perm (h.permsAt p) := by
  rcases protectMap_cases hs addr perm with ⟨hsame, -⟩ | ⟨i, found, hi, hactive, hbase, hset⟩
  · rw [hsame]
  · have hperm := permsOf_perm p (activeEntries_protect perm hi hactive)
    rw [permsOf_cons_of_ne found (hbase.trans_ne hp.symm),
      permsOf_cons_of_ne { found with perms := perm } (hbase.trans_ne hp.symm)] at hperm
    rw [hset]
    exact hperm.symm

theorem MemHeap.MapShape.protectMap (hs : MapShape h) : MapShape (h.protectMap addr perm) := by
  rcases protectMap_cases hs addr perm with ⟨hsame, -⟩ | ⟨i, found, hi, hactive, -, hset⟩
  · rw [hsame]
    exact hs
  · rw [hset]
    refine ⟨?_, fun j entry hj hused => ?_⟩
    · rw [List.length_set]
      exact hs.length
    · rw [List.getElem?_set] at hj
      split_ifs at hj with hij
      · subst hij
        exact hs.below i found hi hactive
      · exact hs.below j entry hj hused

/-! ## The permission table -/

/-- No two entries are for one range, and all are active. -/
structure TableOk (permTable : List MemPermEntry) : Prop where
  active : ∀ entry ∈ permTable, entry.active = true
  nodup : (permTable.map MemPermEntry.range).Nodup

/-- An entry is replaced by one for the same range. -/
theorem TableOk.replace {k l : List MemPermEntry} {old new : MemPermEntry} (hok : TableOk (k ++ old :: l))
    (hactive : new.active = true) (hrange : new.range = old.range) :
    TableOk (k ++ new :: l) ∧ (k ++ old :: l).map MemPermEntry.range ⊆ (k ++ new :: l).map MemPermEntry.range ∧
      ∀ entry, entry ∈ k ++ new :: l ↔ (entry ∈ k ++ old :: l ∧ entry.range ≠ new.range) ∨ entry = new := by
  have hranges : (k ++ new :: l).map MemPermEntry.range = (k ++ old :: l).map MemPermEntry.range := by
    rw [List.map_append, List.map_append, List.map_cons, List.map_cons, hrange]
  have hfirst : (old :: (k ++ l)).Perm (k ++ old :: l) := List.perm_middle.symm
  have hnodup := (hfirst.map MemPermEntry.range).nodup_iff.2 hok.nodup
  have hothers (entry : MemPermEntry) (hentry : entry ∈ k ++ l) : entry.range ≠ new.range := by
    intro heq
    rw [List.map_cons, List.nodup_cons] at hnodup
    exact hnodup.1 (hrange ▸ heq ▸ List.mem_map_of_mem hentry)
  refine ⟨⟨fun entry hentry => ?_, ?_⟩, ?_, fun entry => ?_⟩
  · rcases List.mem_cons.1 (List.perm_middle.mem_iff.1 hentry) with rfl | hentry
    · exact hactive
    · exact hok.active entry (hfirst.mem_iff.1 (List.mem_cons_of_mem old hentry))
  · rw [hranges]
    exact hok.nodup
  · rw [hranges]
    exact List.Subset.refl _
  · rw [List.perm_middle.mem_iff, List.perm_middle.mem_iff, List.mem_cons, List.mem_cons]
    constructor
    · rintro (rfl | hentry)
      · exact .inr rfl
      · exact .inl ⟨.inr hentry, hothers entry hentry⟩
    · rintro (⟨rfl | hentry, hne⟩ | rfl)
      · exact absurd hrange.symm hne
      · exact .inr hentry
      · exact .inl rfl

/-- An entry for another range is taken. -/
theorem TableOk.append {new : MemPermEntry} (hok : TableOk permTable) (hactive : new.active = true)
    (hnone : ∀ entry ∈ permTable, entry.range ≠ new.range) :
    TableOk (permTable ++ [new]) ∧
      permTable.map MemPermEntry.range ⊆ (permTable ++ [new]).map MemPermEntry.range ∧
        ∀ entry, entry ∈ permTable ++ [new] ↔ (entry ∈ permTable ∧ entry.range ≠ new.range) ∨ entry = new := by
  refine ⟨⟨fun entry hentry => ?_, ?_⟩, ?_, fun entry => ?_⟩
  · rcases List.mem_append.1 hentry with hentry | hentry
    · exact hok.active entry hentry
    · rw [List.mem_singleton.1 hentry]
      exact hactive
  · rw [List.map_append, List.map_singleton, List.nodup_append]
    refine ⟨hok.nodup, List.nodup_singleton _, fun range hrange range' hnew heq => ?_⟩
    obtain ⟨entry, hentry, rfl⟩ := List.mem_map.1 hrange
    exact hnone entry hentry (heq.trans (List.mem_singleton.1 hnew))
  · rw [List.map_append]
    exact List.subset_append_left ..
  · rw [List.mem_append, List.mem_singleton]
    exact or_congr_left ⟨fun hentry => ⟨hentry, hnone entry hentry⟩, And.left⟩

/-- After `flux_mem_protect` the entry for the range shows the permissions, and the others are as they were. -/
theorem protectTable_spec {permTable' : List MemPermEntry} (hok : TableOk permTable)
    (hprotect : protectTable permTable addr size perm = some permTable') :
    TableOk permTable' ∧ permTable.map MemPermEntry.range ⊆ permTable'.map MemPermEntry.range ∧
      ∀ entry, entry ∈ permTable' ↔
        (entry ∈ permTable ∧ entry.range ≠ (addr, size)) ∨ entry = ⟨addr, size, perm, true⟩ := by
  unfold protectTable at hprotect
  split at hprotect
  · rename_i i hfind
    cases hprotect
    obtain ⟨old, hi, htest⟩ := getElem?_of_findIdx? hfind
    obtain ⟨⟨hactive, rfl⟩, rfl⟩ : (old.active = true ∧ old.base = addr) ∧ old.size = size := by
      simpa using htest
    have hnew : ({ old with perms := perm } : MemPermEntry) = ⟨old.base, old.size, perm, true⟩ := by
      rw [← hactive]
    obtain ⟨hlt, rfl⟩ := List.getElem?_eq_some_iff.1 hi
    obtain ⟨k, l, hsplit, -, hset⟩ : ∃ k l, permTable = k ++ permTable[i] :: l ∧ k.length = i ∧
        permTable.set i ⟨permTable[i].base, permTable[i].size, perm, true⟩ = k ++ _ :: l := List.exists_of_set hlt
    rw [modify_eq_set hi, hnew, hset]
    generalize permTable[i] = old at *
    subst hsplit
    exact hok.replace rfl rfl
  · rename_i hfind
    split_ifs at hprotect
    cases hprotect
    refine hok.append rfl fun entry hentry hrange => ?_
    have htest := List.findIdx?_eq_none_iff.1 hfind entry hentry
    obtain ⟨hbase, hsize⟩ := Prod.mk.inj hrange
    simp [hok.active entry hentry, hbase, hsize] at htest

/-! ## One call -/

/-- What is needed of the heap and the map: only live allocations and the heap have entries, one at most. -/
structure OneEntry (place : HeapPlace) (m : HeapState) : Prop where
  shaped : Shaped place m
  shape : MapShape m.heap
  absent p : p ∉ m.live → p ≠ place.base → m.heap.permsAt p = []
  single p : p ∈ m.live → (m.heap.permsAt p).length ≤ 1

/-- What is needed of a state: an entry that was left over stays in the table. -/
structure PermInv (place : HeapPlace) (s : PermState) : Prop where
  entries : OneEntry place s.memory
  table : TableOk s.permTable
  stays : s.leftovers ⊆ s.permTable.map MemPermEntry.range

/-- The map is the same, for the same allocations. -/
theorem OneEntry.congr (ho : OneEntry place m) (hs : Shaped place m') (hlive : ∀ p, p ∈ m'.live ↔ p ∈ m.live)
    (htables : SameTables m.heap m'.heap) : OneEntry place m' := by
  refine ⟨hs, ho.shape.congr htables.memMap htables.memMapCount, fun p hp hbase => ?_, fun p hp => ?_⟩
  · rw [permsAt_congr htables.memMap]
    exact ho.absent p (fun hp' => hp ((hlive p).2 hp')) hbase
  · rw [permsAt_congr htables.memMap]
    exact ho.single p ((hlive p).1 hp)

theorem OneEntry.permsAt_fresh (ho : OneEntry place m) (h : Allocates place m m' size type pid q) :
    m.heap.permsAt q = [] :=
  ho.absent q h.fresh (h.shaped.live_ne_base (h.live ▸ List.mem_cons_self))

/-- An allocation is recorded with all permissions if the map has room. -/
theorem Allocates.permsAt_eq_iff (h : Allocates place m m' size type pid q) (ho : OneEntry place m) :
    m'.heap.permsAt q = [perm] ↔ perm = fluxPermRwx ∧ ∃ mapped ∈ m.heap.memMap, mapped.active = false := by
  by_cases hroom : ∃ mapped ∈ m.heap.memMap, mapped.active = false
  · have hperm := permsAt_charges h.charges hroom
    rw [ho.permsAt_fresh h, List.perm_singleton] at hperm
    rw [hperm, List.singleton_inj]
    exact ⟨fun heq => ⟨heq.symm, hroom⟩, fun heq => heq.1.symm⟩
  · rw [permsAt_charges_of_full h.charges hroom, ho.permsAt_fresh h]
    exact iff_of_false (List.cons_ne_nil perm []).symm fun heq => hroom heq.2

theorem Allocates.oneEntry (h : Allocates place m m' size type pid q) (ho : OneEntry place m) :
    OneEntry place m' := by
  refine ⟨h.shaped, mapShape_of_charges h.charges ho.shape, fun p hp hbase => ?_, fun p hp => ?_⟩
  · rw [h.live, List.mem_cons, not_or] at hp
    have hperm := permsAt_charges_of_ne h.charges hp.1
    rwa [ho.absent p hp.2 hbase, List.perm_nil] at hperm
  · by_cases hpq : p = q
    · subst hpq
      by_cases hroom : ∃ mapped ∈ m.heap.memMap, mapped.active = false
      · rw [(h.permsAt_eq_iff ho).2 ⟨rfl, hroom⟩]
        exact Nat.le_refl 1
      · rw [permsAt_charges_of_full h.charges hroom, ho.permsAt_fresh h]
        exact Nat.zero_le 1
    · rw [(permsAt_charges_of_ne h.charges hpq).length_eq]
      rw [h.live, List.mem_cons] at hp
      exact ho.single p (hp.resolve_left hpq)

theorem Releases.oneEntry (h : Releases place m m' p) (ho : OneEntry place m) : OneEntry place m' := by
  refine ⟨h.shaped, mapShape_of_credits h.credits ho.shape, fun q hq hbase => ?_, fun q hq => ?_⟩
  · by_cases hqp : q = p
    · rw [hqp]
      exact permsAt_credits h.credits ho.shape (ho.single p h.held)
    · have hnot : q ∉ m.live := by
        rwa [h.live, List.mem_erase_of_ne hqp] at hq
      have hperm := permsAt_credits_of_ne h.credits ho.shape hqp
      rwa [ho.absent q hnot hbase, List.nil_perm] at hperm
  · rw [h.live] at hq
    have hqp : q ≠ p := fun heq => ho.shaped.nodup.not_mem_erase (heq ▸ hq)
    rw [← (permsAt_credits_of_ne h.credits ho.shape hqp).length_eq]
    exact ho.single q (List.mem_of_mem_erase hq)

theorem Moves.oneEntry (h : Moves place m m' p size type pid q) (ho : OneEntry place m) : OneEntry place m' := by
  obtain ⟨-, u, -, halloc, hcopy, hrelease⟩ := h
  exact hrelease.oneEntry ((halloc.oneEntry ho).congr hcopy.shaped (fun _ => Iff.rfl) hcopy.tables)

/-- An entry that a call drops is for none of the live allocations. -/
theorem permitted_after : Permitted (s.replace m' s.permTable (s.leftovers ++ s.dropped m')) ↔
    Permitted (s.replace m' s.permTable s.leftovers) := by
  refine forall_congr' fun entry => forall_congr' fun _ => forall_congr' fun _ => forall_congr' fun hlive => ?_
  refine and_congr_right fun _ => not_congr ?_
  rw [List.mem_append]
  refine or_iff_left fun hdropped => ?_
  obtain ⟨old, hold, hrange⟩ := List.mem_map.1 hdropped
  have htest := (List.mem_filter.1 hold).2
  rw [Bool.and_eq_true, decide_eq_true_iff] at htest
  rw [(Prod.mk.inj hrange).1] at htest
  exact htest.2 hlive

/-- No permissions change, and no allocation is new. -/
theorem PermState.Permitted.mono (hs : Permitted s) (hlive : ∀ p ∈ m'.live, p ∈ s.memory.live)
    (hperms : ∀ p ∈ m'.live, (s.memory.heap.permsAt p).Perm (m'.heap.permsAt p)) :
    Permitted (s.replace m' s.permTable s.leftovers) := by
  intro entry hentry hactive hp
  obtain ⟨hshows, hnew⟩ := hs entry hentry hactive (hlive _ hp)
  refine ⟨?_, hnew⟩
  have hperm := hperms _ hp
  rw [hshows] at hperm
  exact List.perm_singleton.1 hperm.symm

/-- All entries for a new allocation show all permissions, the map has room, and none is left over. -/
def PermState.ReadyFor (s : PermState) (q : UInt64) : Prop :=
  ∀ entry ∈ s.permTable, entry.active = true → entry.base = q →
    (entry.perms = fluxPermRwx ∧ ∃ mapped ∈ s.memory.heap.memMap, mapped.active = false) ∧
      entry.range ∉ s.leftovers

theorem Allocates.permitted_iff (h : Allocates place s.memory m' size type pid q) (hi : PermInv place s)
    (hs : Permitted s) : Permitted (s.replace m' s.permTable s.leftovers) ↔ s.ReadyFor q := by
  constructor
  · rintro hp entry hentry hactive rfl
    have hlive : entry.base ∈ m'.live := h.live ▸ List.mem_cons_self
    exact (hp entry hentry hactive hlive).imp_left (h.permsAt_eq_iff hi.entries).1
  · intro hready entry hentry hactive hlive
    by_cases hq : entry.base = q
    · obtain ⟨hroom, hnew⟩ := hready entry hentry hactive hq
      refine ⟨?_, hnew⟩
      show m'.heap.permsAt entry.base = [entry.perms]
      rw [hq]
      exact (h.permsAt_eq_iff hi.entries).2 hroom
    · have hold : entry.base ∈ s.memory.live := by
        have hlive : entry.base ∈ m'.live := hlive
        rw [h.live, List.mem_cons] at hlive
        exact hlive.resolve_left hq
      obtain ⟨hshows, hnew⟩ := hs entry hentry hactive hold
      have hperm := permsAt_charges_of_ne h.charges hq
      rw [hshows] at hperm
      exact ⟨List.perm_singleton.1 hperm, hnew⟩

/-- A release keeps the permissions of the other allocations. -/
theorem Releases.permsAt (h : Releases place m m' p) (ho : OneEntry place m) (hq : q ∈ m'.live) :
    q ∈ m.live ∧ (m.heap.permsAt q).Perm (m'.heap.permsAt q) := by
  rw [h.live] at hq
  have hqp : q ≠ p := fun heq => ho.shaped.nodup.not_mem_erase (heq ▸ hq)
  exact ⟨List.mem_of_mem_erase hq, permsAt_credits_of_ne h.credits ho.shape hqp⟩

theorem Moves.permitted_iff (h : Moves place s.memory m' p size type pid q) (hi : PermInv place s)
    (hs : Permitted s) : Permitted (s.replace m' s.permTable s.leftovers) ↔ s.ReadyFor q := by
  obtain ⟨hp, u, -, halloc, hcopy, hrelease⟩ := h
  have hu : OneEntry place ⟨u.heap.copyOver p q, u.live⟩ :=
    (halloc.oneEntry hi.entries).congr hcopy.shaped (fun _ => Iff.rfl) hcopy.tables
  have hsame (r : UInt64) (hr : r ∈ m'.live) : r ∈ u.live ∧ (u.heap.permsAt r).Perm (m'.heap.permsAt r) := by
    obtain ⟨hlive, hperm⟩ := hrelease.permsAt hu hr
    exact ⟨hlive, permsAt_congr (p := r) hcopy.tables.memMap ▸ hperm⟩
  rw [← halloc.permitted_iff hi hs]
  constructor
  · intro hafter
    refine (halloc.permitted_iff hi hs).2 ?_
    rintro entry hentry hactive rfl
    have hne : entry.base ≠ p := fun heq => halloc.fresh (heq ▸ hp)
    have hlive : entry.base ∈ m'.live := by
      have hq : entry.base ∈ u.live := halloc.live ▸ List.mem_cons_self
      rw [hrelease.live]
      exact (List.mem_erase_of_ne hne).2 hq
    obtain ⟨hshows, hnew⟩ := hafter entry hentry hactive hlive
    have hperm := (hsame _ hlive).2
    have hshows : m'.heap.permsAt entry.base = [entry.perms] := hshows
    rw [hshows, List.perm_singleton] at hperm
    exact ⟨(halloc.permsAt_eq_iff hi.entries).1 hperm, hnew⟩
  · intro hu
    exact hu.mono (fun r hr => (hsame r hr).1) fun r hr => (hsame r hr).2

/-- An allocation meets the condition if and only if the entries for its address are ready for it. -/
theorem permissible_of_allocates {c : HeapCall} (hrequest : c.request s.memory = some (size, type, pid))
    (hsize : size ≠ 0) (h : Allocates place s.memory m' size type pid q) :
    (PermCall.heap c).Permissible s ↔ s.ReadyFor q := by
  constructor
  · intro hall entry hentry hactive hbase
    exact hall _ hrequest hsize _ h.found_ne h.found entry hentry hactive (congrArg memBlockFromPtr hbase)
  · intro hready r hr _ a _ hfind entry hentry hactive hbase
    rw [hrequest] at hr
    cases hr
    rw [h.found] at hfind
    refine hready entry hentry hactive ?_
    rw [← Option.some.inj hfind] at hbase
    exact (UInt64.sub_left_inj _).1 hbase

/-- A call that allocates nothing meets the condition. -/
theorem permissible_of_fails {c : HeapCall} (hrequest : ∀ r, c.request s.memory = some r →
      r.1 = 0 ∨ s.memory.heap.memFindFreeBlock (memAlignUp r.1 fluxMemAlign) = some 0) :
    (PermCall.heap c).Permissible s := by
  intro r hr hsize a ha hfind
  rw [(hrequest r hr).resolve_left hsize] at hfind
  exact absurd (Option.some.inj hfind).symm ha

theorem PermState.step_heap {c : HeapCall} (hc : c ≠ .init) (ht : step place (.heap c) s = some t) :
    ∃ m, HeapState.step place c s.memory = some m ∧ t = s.replace m s.permTable (s.leftovers ++ s.dropped m) := by
  have hmap : (HeapState.step place c s.memory).map
      (fun m => s.replace m s.permTable (s.leftovers ++ s.dropped m)) = some t := by
    cases c with
    | init => exact absurd rfl hc
    | alloc | free | realloc | write => exact ht
  obtain ⟨m, hm, rfl⟩ := Option.map_eq_some_iff.1 hmap
  exact ⟨m, hm, rfl⟩

/-- A call of the allocator keeps the permissions right if and only if it meets the condition. -/
theorem permitted_heap_iff {c : HeapCall} (hlegal : PermState.Legal place (.heap c) s) (hi : PermInv place s)
    (hs : Permitted s) (ht : PermState.step place (.heap c) s = some t) :
    PermInv place t ∧ (Permitted t ↔ (PermCall.heap c).Permissible s) := by
  obtain ⟨hc, hlegal⟩ := hlegal
  obtain ⟨m, hm, rfl⟩ := PermState.step_heap hc ht
  have hinv (ho : OneEntry place m) : PermInv place (s.replace m s.permTable (s.leftovers ++ s.dropped m)) := by
    refine ⟨ho, hi.table, List.append_subset.2 ⟨hi.stays, ?_⟩⟩
    exact List.map_subset _ (List.filter_subset_self _)
  rw [permitted_after]
  have ho := hi.entries
  cases step_cases ho.shaped hlegal hm with
  | init => exact absurd rfl hc
  | keeps _ hrequest _ h =>
    have hlive (p : UInt64) : p ∈ m.live ↔ p ∈ s.memory.live := by rw [h.live]
    refine ⟨hinv (ho.congr h.shaped hlive h.tables), iff_of_true ?_ (permissible_of_fails hrequest)⟩
    exact hs.mono (fun p => (hlive p).1) fun p _ => .of_eq (permsAt_congr h.tables.memMap).symm
  | allocates _ hrequest _ hsize _ h =>
    refine ⟨hinv (h.oneEntry ho), ?_⟩
    rw [permissible_of_allocates hrequest hsize h]
    exact h.permitted_iff hi hs
  | releases _ hrequest _ h =>
    refine ⟨hinv (h.oneEntry ho), iff_of_true ?_ (permissible_of_fails fun r hr => ?_)⟩
    · exact hs.mono (fun p hp => (h.permsAt ho hp).1) fun p hp => (h.permsAt ho hp).2
    · rw [hrequest] at hr
      cases hr
  | @retypes _ _ _ p _ _ hrequest _ h =>
    have hlive (q : UInt64) : q ∈ m.live ↔ q ∈ s.memory.live := by
      rw [h.live]
      exact (List.perm_cons_erase h.held).mem_iff.symm
    refine ⟨hinv (ho.congr h.shaped hlive h.tables), iff_of_true ?_ (permissible_of_fails fun r hr => ?_)⟩
    · exact hs.mono (fun p => (hlive p).1) fun p _ => .of_eq (permsAt_congr h.tables.memMap).symm
    · rw [hrequest] at hr
      cases hr
  | moves _ hrequest _ hsize _ h =>
    obtain ⟨-, u, -, halloc, -, -⟩ := id h
    refine ⟨hinv (h.oneEntry ho), ?_⟩
    rw [permissible_of_allocates hrequest hsize halloc]
    exact h.permitted_iff hi hs

/-- `flux_mem_protect` changes nothing, or the entry for its range and the entry of the map. -/
theorem fluxMemProtect_cases (s : Os) (addr size : UInt64) (perm : UInt32) :
    ((size = 0 ∨ addr = 0 ∨ protectTable s.permTable addr size perm = none) ∧
      (s.fluxMemProtect addr size perm).2 = s) ∨
    ∃ permTable, size ≠ 0 ∧ protectTable s.permTable addr size perm = some permTable ∧
      (s.fluxMemProtect addr size perm).2 =
        { s with kernel := { s.kernel with heap := s.kernel.heap.protectMap addr perm }, permTable } := by
  unfold Os.fluxMemProtect
  by_cases hinvalid : size = 0 ∨ addr = 0
  · rw [if_pos hinvalid]
    exact .inl ⟨hinvalid.imp_right .inl, rfl⟩
  rw [if_neg hinvalid]
  have hsize : size ≠ 0 := fun h => hinvalid (.inl h)
  unfold protectTable
  cases s.permTable.findIdx? fun entry => entry.active && entry.base = addr && entry.size = size with
  | some i => exact .inr ⟨_, hsize, rfl, rfl⟩
  | none =>
    dsimp only
    by_cases hroom : s.permTable.length < fluxMemMaxPermissions
    · rw [if_pos hroom, if_pos hroom]
      exact .inr ⟨_, hsize, rfl, rfl⟩
    · rw [if_neg hroom, if_neg hroom]
      exact .inl ⟨.inr (.inr rfl), rfl⟩

theorem PermState.step_protect (ht : step place (.protect addr size perm) s = some t) :
    ((size = 0 ∨ addr = 0 ∨ protectTable s.permTable addr size perm = none) ∧ t = s) ∨
      ∃ permTable, size ≠ 0 ∧ protectTable s.permTable addr size perm = some permTable ∧
        t = s.replace ⟨s.memory.heap.protectMap addr perm, s.live⟩ permTable s.leftovers := by
  have ht : t = { s with os := (s.os.fluxMemProtect addr size perm).2 } := (Option.some.inj ht).symm
  rcases fluxMemProtect_cases s.os addr size perm with ⟨hrefused, hsame⟩ | ⟨permTable, hsize, hprotect, hset⟩
  · rw [hsame] at ht
    exact .inl ⟨hrefused, ht⟩
  · rw [hset] at ht
    exact .inr ⟨permTable, hsize, hprotect, ht⟩

theorem OneEntry.protectMap (ho : OneEntry place m) (addr : UInt64) (perm : UInt32) :
    OneEntry place ⟨m.heap.protectMap addr perm, m.live⟩ := by
  have hlength (p : UInt64) (hle : (m.heap.permsAt p).length ≤ 1) :
      ((m.heap.protectMap addr perm).permsAt p).length = (m.heap.permsAt p).length := by
    by_cases haddr : p = addr
    · subst haddr
      rw [permsAt_protectMap perm ho.shape hle, List.length_map]
    · exact (permsAt_protectMap_of_ne perm ho.shape haddr).length_eq
  refine ⟨?_, ho.shape.protectMap, fun p hp hbase => ?_, fun p hp => ?_⟩
  · obtain ⟨bs, hshape⟩ := ho.shaped
    refine ⟨bs, ?_⟩
    dsimp only
    rcases protectMap_cases ho.shape addr perm with ⟨hmap, -⟩ | ⟨_, _, _, _, _, hmap⟩
    · rw [hmap]
      exact hshape
    · rw [hmap]
      exact hshape.congr rfl fun _ _ => block_congr rfl
  · have hnil := ho.absent p hp hbase
    have hzero := hlength p (by rw [hnil]; exact Nat.zero_le 1)
    rw [hnil] at hzero
    exact List.length_eq_zero_iff.1 hzero
  · exact (hlength p (ho.single p hp)).trans_le (ho.single p hp)

theorem HeapState.Shaped.live_ne_zero (hs : Shaped place m) (hp : p ∈ m.live) : p ≠ 0 := by
  obtain ⟨bs, hshape⟩ := hs
  obtain ⟨b, hb, -, rfl, -, -⟩ := hshape.block_of_live hp
  exact hshape.layout.tiles.ptr_ne_zero hb

/-- The permissions of other allocations stay. -/
theorem PermState.Permitted.right_protect {entry : MemPermEntry} (hs : Permitted s) (hi : PermInv place s)
    (hentry : entry ∈ s.permTable) (hactive : entry.active = true) (hlive : entry.base ∈ s.memory.live)
    (hne : entry.base ≠ addr) :
    PermState.Right (s.replace ⟨s.memory.heap.protectMap addr perm, s.live⟩ permTable s.leftovers) entry := by
  obtain ⟨hshows, hnew⟩ := hs entry hentry hactive hlive
  have hperm := permsAt_protectMap_of_ne perm hi.entries.shape hne
  rw [hshows] at hperm
  exact ⟨List.perm_singleton.1 hperm, hnew⟩

/-- `flux_mem_protect` keeps the permissions right if and only if it meets the condition. -/
theorem permitted_protect_iff (hi : PermInv place s) (hs : Permitted s)
    (ht : PermState.step place (.protect addr size perm) s = some t) :
    PermInv place t ∧ (Permitted t ↔ (PermCall.protect addr size perm).Permissible s) := by
  have ho := hi.entries
  rcases PermState.step_protect ht with ⟨hrefused, rfl⟩ | ⟨permTable, hsize, hprotect, rfl⟩
  · refine ⟨hi, iff_of_true hs ?_⟩
    rcases hrefused with hsize | haddr | hfull
    · exact .inl hsize
    · exact .inr (.inr (.inl fun hlive => ho.shaped.live_ne_zero hlive haddr))
    · exact .inr (.inl hfull)
  obtain ⟨htable, hstays, hmem⟩ := protectTable_spec hi.table hprotect
  refine ⟨⟨ho.protectMap addr perm, htable, List.Subset.trans hi.stays hstays⟩, ?_⟩
  have hshown (hlive : addr ∈ s.memory.live) := permsAt_protectMap perm ho.shape (ho.single addr hlive)
  constructor
  · intro hp
    by_cases hlive : addr ∈ s.memory.live
    · refine .inr (.inr (.inr ?_))
      have hnew : (s.memory.heap.protectMap addr perm).permsAt addr = [perm] :=
        (hp ⟨addr, size, perm, true⟩ ((hmem _).2 (.inr rfl)) rfl hlive).1
      refine ⟨fun hnil => ?_, ?_⟩
      · rw [hshown hlive, hnil] at hnew
        cases hnew
      · rintro entry hentry hactive rfl hne
        have hold : (s.memory.heap.protectMap entry.base perm).permsAt entry.base = [entry.perms] :=
          (hp entry ((hmem entry).2 (.inl ⟨hentry, fun h => hne (Prod.mk.inj h).2⟩)) hactive hlive).1
        exact (List.singleton_inj.1 (hnew.symm.trans hold)).symm
    · exact .inr (.inr (.inl hlive))
  · intro hcond entry hentry hactive hlive
    by_cases haddr : entry.base = addr
    · subst haddr
      have hlive : entry.base ∈ s.memory.live := hlive
      have hcond := ((hcond.resolve_left hsize).resolve_left (by rw [hprotect]; exact Option.some_ne_none _))
      obtain ⟨hrecorded, hothers⟩ := hcond.resolve_left fun hnot => hnot hlive
      have hshows : (s.memory.heap.protectMap entry.base perm).permsAt entry.base = [perm] := by
        obtain ⟨v, hv⟩ := List.length_eq_one_iff.1
          (Nat.le_antisymm (ho.single _ hlive) (List.length_pos_of_ne_nil hrecorded))
        rw [hshown hlive, hv]
        rfl
      rcases (hmem entry).1 hentry with ⟨hold, hne⟩ | hnew
      · have hperms : entry.perms = perm :=
          hothers entry hold hactive rfl fun h => hne (congrArg (Prod.mk entry.base) h)
        refine ⟨?_, (hs entry hold hactive hlive).2⟩
        rw [hperms]
        exact hshows
      · refine ⟨?_, fun hleft => ?_⟩
        · rw [hnew] at hshows ⊢
          exact hshows
        · -- the range was in the table already, and its entry is not left over
          obtain ⟨old, hold, hrange⟩ := List.mem_map.1 (hi.stays hleft)
          have hbase : old.base = entry.base := (Prod.mk.inj hrange).1
          refine (hs old hold (hi.table.active old hold) (hbase ▸ hlive)).2 ?_
          rw [hrange]
          exact hleft
    · rcases (hmem entry).1 hentry with ⟨hold, -⟩ | rfl
      · exact hs.right_protect hi hold hactive hlive haddr
      · exact absurd rfl haddr

/-! ## All runs -/

theorem permitted_step_iff (hlegal : PermState.Legal place c s) (hi : PermInv place s) (hs : Permitted s)
    (ht : PermState.step place c s = some t) : PermInv place t ∧ (Permitted t ↔ c.Permissible s) := by
  cases c with
  | heap c => exact permitted_heap_iff hlegal hi hs ht
  | protect addr size perm => exact permitted_protect_iff hi hs ht

theorem oneEntry_initial (hlength : h.memMap.length = fluxMemMaxMapEntries)
    (hclear : ∀ entry ∈ h.memMap, entry.active = false) : OneEntry place (HeapState.initial place h) := by
  have hactive : h.activeEntries = [] := contents_eq_nil.2 hclear
  have hshape : MapShape h := by
    refine ⟨hlength, fun i entry hi hused => ?_⟩
    rw [hclear entry (List.mem_of_getElem? hi)] at hused
    cases hused
  refine ⟨shaped_initial, mapShape_init hactive hshape, fun p _ hbase => ?_, fun p hp => ?_⟩
  · have hroom : ∃ entry ∈ ({ h with memMapCount := 0 } : MemHeap).memMap, entry.active = false := by
      obtain ⟨entry, hentry⟩ := List.exists_mem_of_length_pos (l := h.memMap) (by rw [hlength]; decide)
      exact ⟨entry, hentry, hclear entry hentry⟩
    have hperm := permsOf_perm p
      (activeEntries_memMapAdd place.base fluxHeapSize fluxMemKernel fluxPidKernel hroom)
    rw [permsOf_cons_of_ne (newEntry ..) (Ne.symm hbase)] at hperm
    have hnil : permsOf p ({ h with memMapCount := 0 } : MemHeap).activeEntries = [] := by
      show permsOf p h.activeEntries = []
      rw [hactive]
      rfl
    rw [hnil, List.perm_nil] at hperm
    exact (permsAt_congr memMap_fluxMemInit.1).trans hperm
  · exact absurd hp List.not_mem_nil

theorem permInv_start {os : Os} (hlength : os.kernel.heap.memMap.length = fluxMemMaxMapEntries)
    (hclear : ∀ entry ∈ os.kernel.heap.memMap, entry.active = false) : PermInv place (PermState.start place os) := by
  refine ⟨oneEntry_initial hlength hclear, ⟨fun entry hentry => ?_, List.nodup_nil⟩, List.nil_subset _⟩
  exact absurd hentry List.not_mem_nil

/-- In every run from a new heap the permissions agree for all live allocations in all states, and none of these
has an entry left over, if and only if all calls meet the condition. -/
theorem permissions_agree_iff {calls : List PermCall} {os : Os}
    (hlength : os.kernel.heap.memMap.length = fluxMemMaxMapEntries)
    (hclear : ∀ entry ∈ os.kernel.heap.memMap, entry.active = false)
    (hlegal : MeetsAlong (PermState.step place) (PermState.Legal place) calls (PermState.start place os)) :
    HoldsAlong (PermState.step place) Permitted calls (PermState.start place os) ↔
      MeetsAlong (PermState.step place) PermCall.Permissible calls (PermState.start place os) := by
  refine holdsAlong_iff_meetsAlong_of_kept (J := PermInv place) ?_ ?_ hlegal (permInv_start hlength hclear) ?_
  · exact fun c s t hlegal hi hs _ ht => (permitted_step_iff hlegal hi hs ht).1
  · exact fun c s t hlegal hi hs ht => (permitted_step_iff hlegal hi hs ht).2
  · exact fun entry hentry => absurd hentry List.not_mem_nil

end Permissions

/-- The kernel with all static variables cleared. -/
def staticOs : Os := ⟨clearedKernel staticHeap, [], fun _ => 0⟩

/-- An allocation that is protected. -/
def protectedCalls : List PermCall :=
  [.heap (.alloc 100 fluxMemKernel fluxPidKernel), .protect 4136 100 1]

theorem permissions_agree_iff_static :
    HoldsAlong (PermState.step heapPlace) Permitted protectedCalls (PermState.start heapPlace staticOs) ↔
      MeetsAlong (PermState.step heapPlace) PermCall.Permissible protectedCalls
        (PermState.start heapPlace staticOs) := by
  refine permissions_agree_iff List.length_replicate (fun entry hentry => ?_) ?_
  · rw [List.eq_of_mem_replicate hentry]
  · exact fun _ _ => ⟨⟨HeapCall.noConfusion, trivial⟩, fun _ _ => ⟨trivial, trivial⟩⟩

/-- The entry of a freed allocation is found again by the next one at its address, which the map shows with all
permissions. -/
theorem leftEntry_not_permitted : ∃ s t, execute (PermState.step heapPlace) protectedCalls
      (PermState.start heapPlace staticOs) = some s ∧ (4136 : UInt64) ∈ s.memory.live ∧
    execute (PermState.step heapPlace)
      [.heap (.free 4136), .heap (.alloc 100 fluxMemKernel fluxPidKernel)] s = some t ∧
    t.memory.live = [4136] ∧ t.permTable = [⟨4136, 100, 1, true⟩] ∧ t.memory.heap.permsAt 4136 = [7] ∧
    ¬Permitted t := by
  have hrun : ((execute (PermState.step heapPlace) protectedCalls (PermState.start heapPlace staticOs)).bind
      fun s => (execute (PermState.step heapPlace)
        [.heap (.free 4136), .heap (.alloc 100 fluxMemKernel fluxPidKernel)] s).map fun t =>
          (s.memory.live, t.memory.live, t.permTable, t.memory.heap.permsAt 4136)) =
        some ([4136], [4136], [⟨4136, 100, 1, true⟩], [7]) := by decide +kernel
  obtain ⟨s, hs, hrun⟩ := Option.bind_eq_some_iff.1 hrun
  obtain ⟨t, ht, hvalues⟩ := Option.map_eq_some_iff.1 hrun
  simp only [Prod.mk.injEq] at hvalues
  obtain ⟨hlive, hlive', htable, hperms⟩ := hvalues
  have hmem : (4136 : UInt64) ∈ s.memory.live := by
    show 4136 ∈ s.live
    rw [hlive]
    exact List.mem_singleton_self _
  have hmem' : (4136 : UInt64) ∈ t.memory.live := by
    show 4136 ∈ t.live
    rw [hlive']
    exact List.mem_singleton_self _
  refine ⟨s, t, hs, hmem, ht, hlive', htable, hperms, fun hp => ?_⟩
  have hright := hp ⟨4136, 100, 1, true⟩ (htable ▸ List.mem_singleton_self _) rfl hmem'
  have hshows : t.memory.heap.permsAt 4136 = [1] := hright.1
  rw [hperms] at hshows
  exact absurd hshows (by decide)

end FluxOs
