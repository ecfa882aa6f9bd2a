import FluxOs.Kernel.FreeList
import FluxOs.Lib.Tilings

/-!
# The blocks of the heap

The list of blocks that tiles the heap, with the free ones threaded on the free list in the order of
their addresses, and what each step of the allocator does to it: `memFindFreeBlock`, `memSplitBlock`
and `memCoalesce`.
-/

namespace FluxOs

open ByteMemory LinkedLists Tilings

/-- A block: its header and its size. -/
structure Block where
  addr : UInt64
  size : UInt64
  free : Bool
  deriving DecidableEq

namespace Block

def start (b : Block) : Nat := b.addr.toNat

/-- The first byte after the header. -/
def payload (b : Block) : Nat := b.addr.toNat + memBlockBytes.toNat

def stop (b : Block) : Nat := b.addr.toNat + memBlockBytes.toNat + b.size.toNat

/-- The pointer that a client holds. -/
def ptr (b : Block) : UInt64 := MemHeap.memPtrFromBlock b.addr

/-- The `flags` of the header. -/
def flags (b : Block) : UInt32 := if b.free then memBlockFree else memBlockUsed

theorem start_le_stop (b : Block) : b.start ≤ b.stop := by
  unfold start stop
  omega

theorem start_add_le_stop (b : Block) : b.start + memBlockBytes.toNat ≤ b.stop := by
  unfold start stop
  omega

theorem ptr_sub (b : Block) : MemHeap.memBlockFromPtr b.ptr = b.addr := UInt64.add_sub_cancel ..

theorem flags_and_free (b : Block) : b.flags &&& memBlockFree ≠ 0 ↔ b.free = true := by
  unfold flags
  cases b.free <;> decide

theorem flags_and_used (b : Block) : b.flags &&& memBlockUsed = 0 ↔ b.free = true := by
  unfold flags
  cases b.free <;> decide

end Block

/-- The headers of the free blocks, in the order of the list. -/
def freeAddrs (bs : List Block) : List UInt64 := (bs.filter Block.free).map Block.addr

/-- The pointers to the blocks in use. -/
def usedPtrs (bs : List Block) : List UInt64 := (bs.filter fun b => !b.free).map Block.ptr

/-- No two blocks next to each other are both free. -/
def NoAdjacentFree (bs : List Block) : Prop := bs.IsChain fun b c => ¬(b.free = true ∧ c.free = true)

section Lists

variable {bs k l : List Block} {b : Block}

@[simp] theorem freeAddrs_append : freeAddrs (k ++ l) = freeAddrs k ++ freeAddrs l := by
  rw [freeAddrs, List.filter_append, List.map_append]
  rfl

@[simp] theorem usedPtrs_append : usedPtrs (k ++ l) = usedPtrs k ++ usedPtrs l := by
  rw [usedPtrs, List.filter_append, List.map_append]
  rfl

@[simp] theorem freeAddrs_nil : freeAddrs [] = [] := rfl

@[simp] theorem usedPtrs_nil : usedPtrs [] = [] := rfl

theorem freeAddrs_cons_of_free (hb : b.free = true) : freeAddrs (b :: l) = b.addr :: freeAddrs l := by
  rw [freeAddrs, List.filter_cons_of_pos hb]
  rfl

theorem freeAddrs_cons_of_used (hb : b.free = false) : freeAddrs (b :: l) = freeAddrs l := by
  rw [freeAddrs, List.filter_cons_of_neg (by simp [hb])]
  rfl

theorem usedPtrs_cons_of_free (hb : b.free = true) : usedPtrs (b :: l) = usedPtrs l := by
  rw [usedPtrs, List.filter_cons_of_neg (by simp [hb])]
  rfl

theorem usedPtrs_cons_of_used (hb : b.free = false) : usedPtrs (b :: l) = b.ptr :: usedPtrs l := by
  rw [usedPtrs, List.filter_cons_of_pos (by simp [hb])]
  rfl

theorem mem_freeAddrs {p : UInt64} : p ∈ freeAddrs bs ↔ ∃ b ∈ bs, b.free = true ∧ b.addr = p := by
  simp [freeAddrs, and_assoc]

theorem mem_usedPtrs {p : UInt64} : p ∈ usedPtrs bs ↔ ∃ b ∈ bs, b.free = false ∧ b.ptr = p := by
  simp [usedPtrs, and_assoc]

theorem freeAddrs_subset : freeAddrs bs ⊆ bs.map Block.addr := by
  intro p hp
  obtain ⟨b, hb, -, rfl⟩ := mem_freeAddrs.1 hp
  exact List.mem_map_of_mem hb

theorem length_freeAddrs_le : (freeAddrs bs).length ≤ bs.length := by
  rw [freeAddrs, List.length_map]
  exact List.length_filter_le ..

theorem noAdjacentFree_cons : NoAdjacentFree (b :: l) ↔
    (∀ c l', l = c :: l' → ¬(b.free = true ∧ c.free = true)) ∧ NoAdjacentFree l := by
  unfold NoAdjacentFree
  cases l with
  | nil => simp
  | cons c l =>
    rw [List.isChain_cons_cons]
    refine and_congr_left fun _ => ⟨?_, fun h => h c l rfl⟩
    rintro h d m hd
    rw [← (List.cons.inj hd).1]
    exact h

end Lists

/-! ## Where the blocks lie -/

/-- The blocks cover the heap, one after the other. -/
abbrev TilesHeap (place : HeapPlace) (bs : List Block) : Prop :=
  Tiles Block.start Block.stop place.base.toNat bs (place.base.toNat + fluxHeapSize.toNat)

section Tiling

variable {place : HeapPlace} {bs k l : List Block} {b c : Block}

theorem TilesHeap.pairwise (ht : TilesHeap place bs) : bs.Pairwise fun b c => b.stop ≤ c.start :=
  Tiles.pairwise Block.start_le_stop ht

theorem TilesHeap.bounds (ht : TilesHeap place bs) (hb : b ∈ bs) :
    place.base.toNat ≤ b.start ∧ b.stop ≤ place.base.toNat + fluxHeapSize.toNat :=
  Tiles.bounds Block.start_le_stop ht hb

/-- A block is not larger than the heap. -/
theorem TilesHeap.size_le (ht : TilesHeap place bs) (hb : b ∈ bs) : b.size.toNat ≤ fluxHeapSize.toNat := by
  obtain ⟨hstart, hstop⟩ := ht.bounds hb
  unfold Block.start at hstart
  unfold Block.stop at hstop
  omega

theorem TilesHeap.addr_lt (ht : TilesHeap place (k ++ b :: l)) (hc : c ∈ k) : c.addr < b.addr := by
  have hp := (List.pairwise_append.1 ht.pairwise).2.2 c hc b List.mem_cons_self
  have := c.start_add_le_stop
  exact UInt64.lt_iff_toNat_lt.2 (show c.start < b.start by
    have : memBlockBytes.toNat = 40 := rfl
    omega)

theorem TilesHeap.lt_addr (ht : TilesHeap place (k ++ b :: l)) (hc : c ∈ l) : b.addr < c.addr := by
  rw [List.append_cons] at ht
  obtain ⟨l₁, l₂, rfl⟩ := List.append_of_mem hc
  rw [← List.append_assoc] at ht
  exact ht.addr_lt (by simp)

/-- A header is at no other block's address. -/
theorem TilesHeap.addr_ne (ht : TilesHeap place (k ++ b :: l)) (hc : c ∈ k ++ l) : c.addr ≠ b.addr := by
  rcases List.mem_append.1 hc with hc | hc
  · exact UInt64.ne_of_lt (ht.addr_lt hc)
  · exact (UInt64.ne_of_lt (ht.lt_addr hc)).symm

theorem TilesHeap.sorted (ht : TilesHeap place bs) : (bs.map Block.addr).Pairwise (· < ·) := by
  refine List.pairwise_map.2 (ht.pairwise.imp fun {b c} hbc => UInt64.lt_iff_toNat_lt.2 ?_)
  have := b.start_add_le_stop
  have h40 : memBlockBytes.toNat = 40 := rfl
  show b.start < c.start
  omega

theorem TilesHeap.nodup (ht : TilesHeap place bs) : (bs.map Block.addr).Nodup :=
  ht.sorted.imp fun hlt => UInt64.ne_of_lt hlt

theorem TilesHeap.nodup_freeAddrs (ht : TilesHeap place bs) : (freeAddrs bs).Nodup :=
  ht.nodup.sublist (List.filter_sublist.map _)

/-- Two blocks do not overlap. -/
theorem TilesHeap.disjoint (ht : TilesHeap place bs) (hb : b ∈ bs) (hc : c ∈ bs) (hbc : b ≠ c) :
    b.stop ≤ c.start ∨ c.stop ≤ b.start :=
  Tiles.disjoint Block.start_le_stop ht hb hc hbc

theorem TilesHeap.apart (ht : TilesHeap place bs) : Apart (bs.map Block.addr) := by
  constructor
  · intro p hp h0
    obtain ⟨b, hb, rfl⟩ := List.mem_map.1 hp
    have := (ht.bounds hb).1
    have := place.pos
    have : b.addr.toNat = 0 := by rw [h0]; rfl
    unfold Block.start at *
    omega
  · intro p hp q hq hpq
    obtain ⟨b, hb, rfl⟩ := List.mem_map.1 hp
    obtain ⟨c, hc, rfl⟩ := List.mem_map.1 hq
    have hbc : b ≠ c := fun h => hpq (h ▸ rfl)
    have hsep := ht.disjoint hb hc hbc
    have := b.start_add_le_stop
    have := c.start_add_le_stop
    unfold Separate
    unfold Block.start at *
    omega

theorem TilesHeap.length_lt (ht : TilesHeap place bs) : bs.length < MemHeap.walkFuel := by
  have := Tiles.length_le Block.start_add_le_stop ht
  have h40 : memBlockBytes.toNat = 40 := rfl
  have hsize : fluxHeapSize.toNat = 16777216 := rfl
  have hfuel : MemHeap.walkFuel = 16777216 := rfl
  rw [h40, hsize] at this
  omega

theorem toNat_add_of_lt {x y : UInt64} (h : x.toNat + y.toNat < UInt64.size) :
    (x + y).toNat = x.toNat + y.toNat := by
  rw [UInt64.toNat_add, Nat.mod_eq_of_lt h]

theorem TilesHeap.next_addr (ht : TilesHeap place (k ++ b :: c :: l)) :
    b.addr + memBlockBytes + b.size = c.addr := by
  obtain ⟨x, -, -, hbc, -⟩ := tiles_append.1 ht
  have hlt : b.stop < UInt64.size := by
    rw [← hbc]
    exact c.addr.toNat_lt
  unfold Block.start at hbc
  unfold Block.stop at hbc hlt
  have haddr : (b.addr + memBlockBytes).toNat = b.addr.toNat + memBlockBytes.toNat :=
    toNat_add_of_lt (by omega)
  refine UInt64.toNat_inj.1 ?_
  rw [toNat_add_of_lt (by omega), haddr, hbc]

theorem TilesHeap.stop_eq_start (ht : TilesHeap place (k ++ b :: c :: l)) : b.stop = c.start := by
  obtain ⟨x, -, -, hbc, -⟩ := tiles_append.1 ht
  exact hbc.symm

/-- Before the same blocks another one ends at the same byte. -/
theorem TilesHeap.stop_eq {k' : List Block} (ht : TilesHeap place (k ++ b :: l))
    (ht' : TilesHeap place (k' ++ c :: l)) : b.stop = c.stop := by
  obtain ⟨x, -, hx⟩ := tiles_append.1 ht
  obtain ⟨y, -, hy⟩ := tiles_append.1 ht'
  exact hx.2.left_unique hy.2

/-- The front of a block that is split. -/
def Block.front (b : Block) (needed : UInt64) : Block := { b with size := needed }

/-- What is left of a block that is split. -/
def Block.remainder (b : Block) (needed : UInt64) : Block where
  addr := b.addr + memBlockBytes + needed
  size := b.size - needed - memBlockBytes
  free := true

/-- A block with room for a second one may be split. -/
theorem TilesHeap.split (needed : UInt64) (ht : TilesHeap place (k ++ b :: l))
    (hroom : needed.toNat + memBlockBytes.toNat ≤ b.size.toNat) :
    TilesHeap place (k ++ b.front needed :: b.remainder needed :: l) := by
  have hstop := (ht.bounds (b := b) (by simp)).2
  have hfits := place.fits
  have h40 : memBlockBytes.toNat = 40 := rfl
  have hmax : UInt64.size = 18446744073709551616 := rfl
  unfold Block.stop at hstop
  have hle : needed ≤ b.size := UInt64.le_iff_toNat_le.2 (by omega)
  have hsize : (b.size - needed).toNat = b.size.toNat - needed.toNat := UInt64.toNat_sub_of_le _ _ hle
  have hsize' : (b.size - needed - memBlockBytes).toNat = b.size.toNat - needed.toNat - 40 := by
    rw [UInt64.toNat_sub_of_le _ _ (UInt64.le_iff_toNat_le.2 (by omega)), hsize, h40]
  have haddr : (b.addr + memBlockBytes).toNat = b.addr.toNat + 40 := toNat_add_of_lt (by omega)
  have haddr' : (b.addr + memBlockBytes + needed).toNat = b.addr.toNat + 40 + needed.toNat := by
    rw [toNat_add_of_lt (by omega), haddr]
  have hcells : ∀ x y, Tiles Block.start Block.stop x [b] y →
      Tiles Block.start Block.stop x [b.front needed, b.remainder needed] y := by
    rintro x y ⟨hx, hy⟩
    refine ⟨hx, ?_, ?_⟩
    · exact haddr'
    · unfold Tiles at hy ⊢
      rw [← hy]
      show (b.addr + memBlockBytes + needed).toNat + memBlockBytes.toNat +
        (b.size - needed - memBlockBytes).toNat = b.addr.toNat + memBlockBytes.toNat + b.size.toNat
      omega
  simpa using Tiles.replace (k := k) (m := [b]) (l := l) (by simpa using ht) hcells

/-- The test of `mem_split_block` leaves room for a second block. -/
theorem TilesHeap.split_of_room {needed : UInt64} (ht : TilesHeap place (k ++ b :: l)) (hneeded : needed ≤ b.size)
    (hroom : b.size - needed ≥ memBlockBytes + fluxMemAlign) :
    TilesHeap place (k ++ b.front needed :: b.remainder needed :: l) := by
  have hle := UInt64.le_iff_toNat_le.1 hroom
  have h56 : (memBlockBytes + fluxMemAlign).toNat = 56 := rfl
  have h40 : memBlockBytes.toNat = 40 := rfl
  rw [UInt64.toNat_sub_of_le _ _ hneeded] at hle
  exact ht.split needed (by omega)

/-- Two blocks side by side as one. -/
def Block.merged (b c : Block) : Block := { b with size := b.size + (memBlockBytes + c.size) }

theorem TilesHeap.merge (ht : TilesHeap place (k ++ b :: c :: l)) :
    TilesHeap place (k ++ b.merged c :: l) := by
  have hc : c.stop ≤ place.base.toNat + fluxHeapSize.toNat := (ht.bounds (by simp)).2
  have hbc : c.addr.toNat = b.addr.toNat + memBlockBytes.toNat + b.size.toNat := by
    obtain ⟨x, -, hx⟩ := tiles_append.1 ht
    exact hx.2.1
  have hb : place.base.toNat ≤ b.start := (ht.bounds (by simp)).1
  have hfits := place.fits
  have hpos := place.pos
  unfold Block.stop at hc
  unfold Block.start at hb
  have hsize : (b.size + (memBlockBytes + c.size)).toNat =
      b.size.toNat + (memBlockBytes.toNat + c.size.toNat) := by
    have hcsize : (memBlockBytes + c.size).toNat = memBlockBytes.toNat + c.size.toNat :=
      toNat_add_of_lt (by omega)
    rw [toNat_add_of_lt (by omega), hcsize]
  have hcells : ∀ x y, Tiles Block.start Block.stop x [b, c] y →
      Tiles Block.start Block.stop x [b.merged c] y := by
    rintro x y ⟨hx, -, hy⟩
    refine ⟨hx, ?_⟩
    unfold Tiles at hy ⊢
    rw [← hy]
    show b.addr.toNat + memBlockBytes.toNat + (b.size + (memBlockBytes + c.size)).toNat =
      c.addr.toNat + memBlockBytes.toNat + c.size.toNat
    omega
  simpa using Tiles.replace (k := k) (m := [b, c]) (l := l) (by simpa using ht) hcells

end Tiling

/-! ## Headers that stay -/

namespace MemHeap

variable {place : HeapPlace} {h h' : MemHeap} {bs k l : List Block} {b c : Block} {q : UInt64}

/-- A header in bytes that stay is the same. -/
theorem block_congr_bytes
    (hmem : ∀ i, q.toNat ≤ i → i < q.toNat + memBlockBytes.toNat → h'.mem i = h.mem i) :
    h'.block q = h.block q := by
  unfold block
  rw [read_congr hmem]

/-- The header of a block says what the block is. -/
structure Holds (h : MemHeap) (b : Block) : Prop where
  magic : (h.block b.addr).magic = memBlockMagic
  size : (h.block b.addr).size = b.size
  flags : (h.block b.addr).flags = b.flags

/-- What a header says is not about the links of the free list. -/
theorem Holds.congr (hb : h.Holds b) (hsame : (h'.block b.addr).unlinked = (h.block b.addr).unlinked) :
    h'.Holds b where
  magic := (congrArg MemBlock.magic hsame).trans hb.magic
  size := (congrArg MemBlock.size hsame).trans hb.size
  flags := (congrArg MemBlock.flags hsame).trans hb.flags

/-- The blocks cover the heap, and their headers hold. -/
structure Layout (place : HeapPlace) (h : MemHeap) (bs : List Block) : Prop where
  tiles : TilesHeap place bs
  holds : ∀ b ∈ bs, h.Holds b

theorem Layout.congr (hlay : Layout place h bs)
    (hsame : ∀ q ∈ bs.map Block.addr, (h'.block q).unlinked = (h.block q).unlinked) :
    Layout place h' bs :=
  ⟨hlay.tiles, fun b hb => (hlay.holds b hb).congr (hsame _ (List.mem_map_of_mem hb))⟩

/-- A list in which no header has changed is the same list. -/
theorem freeListIs_congr_block {m : List UInt64} (hlist : h.FreeListIs m) (hm : ∀ q ∈ m, q ≠ 0)
    (hfirst : h'.freeList = h.freeList) (hsame : ∀ q ∈ m, h'.block q = h.block q) :
    h'.FreeListIs m := by
  refine hlist.congr (fun u hu => ?_) (fun u hu => ?_)
  · unfold nextOf
    rcases List.mem_cons.1 hu with rfl | hu
    · rw [if_pos rfl, if_pos rfl, hfirst]
    · rw [if_neg (hm u hu), if_neg (hm u hu), hsame u hu]
  · unfold prevOf
    rw [hsame u hu]

theorem freeListIs_first {m : List UInt64} (hlist : h.FreeListIs m) : h.freeList = m.headD 0 :=
  ((linked_append (k := [])).1 hlist).2.1.1

/-! ## The search -/

/-- The test of `mem_find_free_block` without the comparison with the best block so far. -/
def FitsIn (h : MemHeap) (size : UInt64) (p : UInt64) : Prop :=
  (h.block p).flags &&& memBlockFree ≠ 0 ∧ (h.block p).size ≥ size

/-- One step of the search. -/
theorem findFrom_node {size best a : UInt64} {fuel : Nat} (ha : a ≠ 0) :
    h.findFrom size (fuel + 1) best a =
      h.findFrom size fuel
        (if (h.block a).flags &&& memBlockFree ≠ 0 ∧ (h.block a).size ≥ size ∧
          (best = 0 ∨ (h.block a).size < (h.block best).size) then a else best)
        (h.block a).next := by
  rw [findFrom, if_neg ha]

/-- The search finds a smallest block that fits, unless there is none. -/
theorem findFrom_spec (size best : UInt64) {k m : List UInt64} {fuel : Nat}
    (hlist : h.FreeListIs (k ++ m)) (hm : ∀ p ∈ m, p ≠ 0) (hfuel : m.length < fuel) :
    ∃ p, h.findFrom size fuel best (m.headD 0) = some p ∧ (p = best ∨ p ∈ m ∧ h.FitsIn size p) ∧
      (best ≠ 0 → p ≠ 0 ∧ (h.block p).size ≤ (h.block best).size) ∧
      ∀ q ∈ m, h.FitsIn size q → p ≠ 0 ∧ (h.block p).size ≤ (h.block q).size := by
  obtain ⟨fuel, rfl⟩ : ∃ j, fuel = j + 1 := ⟨fuel - 1, by omega⟩
  induction m generalizing k fuel best with
  | nil =>
    refine ⟨best, by rw [findFrom, List.headD_nil, if_pos rfl], .inl rfl, fun hb => ⟨hb, UInt64.le_refl _⟩,
      fun q hq => absurd hq List.not_mem_nil⟩
  | cons a m ih =>
    have ha := hm a List.mem_cons_self
    have hnext : (h.block a).next = m.headD 0 := by
      have := Linked.next_node hlist
      rwa [nextOf, if_neg ha] at this
    obtain ⟨fuel, rfl⟩ : ∃ j, fuel = j + 1 := ⟨fuel - 1, by simp at hfuel; omega⟩
    rw [List.headD_cons, findFrom_node ha, hnext]
    have hrec (best : UInt64) := ih best (k := k ++ [a]) (by simpa using hlist)
      (fun p hp => hm p (List.mem_cons_of_mem _ hp)) fuel (by simp at hfuel; omega)
    by_cases hfit : (h.block a).flags &&& memBlockFree ≠ 0 ∧ (h.block a).size ≥ size ∧
        (best = 0 ∨ (h.block a).size < (h.block best).size)
    · obtain ⟨p, hp, hin, hbest, hall⟩ := hrec a
      have hpa := hbest ha
      refine ⟨p, by rw [if_pos hfit, hp], ?_, fun hb => ⟨hpa.1, ?_⟩, fun q hq hqfit => ?_⟩
      · rcases hin with rfl | ⟨hpm, hpfit⟩
        · exact .inr ⟨List.mem_cons_self, hfit.1, hfit.2.1⟩
        · exact .inr ⟨List.mem_cons_of_mem _ hpm, hpfit⟩
      · exact UInt64.le_trans hpa.2 (UInt64.le_of_lt (hfit.2.2.resolve_left hb))
      · rcases List.mem_cons.1 hq with rfl | hq
        · exact hpa
        · exact hall q hq hqfit
    · obtain ⟨p, hp, hin, hbest, hall⟩ := hrec best
      refine ⟨p, by rw [if_neg hfit, hp], ?_, hbest, fun q hq hqfit => ?_⟩
      · exact hin.imp_right fun hpm => ⟨List.mem_cons_of_mem _ hpm.1, hpm.2⟩
      · rcases List.mem_cons.1 hq with rfl | hq
        · -- not better than the best block so far
          have hworse : best ≠ 0 ∧ ¬(h.block q).size < (h.block best).size :=
            not_or.1 fun hbetter => hfit ⟨hqfit.1, hqfit.2, hbetter⟩
          have hpbest := hbest hworse.1
          exact ⟨hpbest.1, UInt64.le_trans hpbest.2 (UInt64.not_lt.1 hworse.2)⟩
        · exact hall q hq hqfit

/-! ## The free list of a tiling -/

theorem freeAddrs_sublist : (freeAddrs k).Sublist (k.map Block.addr) := List.filter_sublist.map _

section Nodes

variable {m n : List UInt64}

/-- A node and parts of the list before and after it are headers of different blocks. -/
theorem sublist_nodes (hm : m.Sublist (k.map Block.addr))
    (hn : n.Sublist (l.map Block.addr)) :
    (m ++ b.addr :: n).Sublist ((k ++ b :: l).map Block.addr) := by
  rw [List.map_append, List.map_cons]
  exact hm.append (hn.cons_cons _)

theorem remove_spec (ht : TilesHeap place (k ++ b :: l)) (hm : m.Sublist (k.map Block.addr))
    (hn : n.Sublist (l.map Block.addr)) (hlist : h.FreeListIs (m ++ b.addr :: n)) :
    (h.memRemoveFromFreeList b.addr).FreeListIs (m ++ n) ∧
      (∀ q ∈ (k ++ b :: l).map Block.addr,
        ((h.memRemoveFromFreeList b.addr).block q).unlinked = (h.block q).unlinked) ∧
      WritesIn (m ++ b.addr :: n) h (h.memRemoveFromFreeList b.addr) :=
  freeListIs_remove ht.apart (sublist_nodes hm hn).subset (ht.nodup.sublist (sublist_nodes hm hn)) hlist

/-- The nodes before and after a block are at lower and higher addresses. -/
theorem nodes_around (ht : TilesHeap place (k ++ b :: l)) (hm : m.Sublist (k.map Block.addr))
    (hn : n.Sublist (l.map Block.addr)) :
    (∀ p ∈ m, p < b.addr) ∧ (∀ p ∈ n, ¬p < b.addr) ∧ m.length < walkFuel := by
  refine ⟨fun p hp => ?_, fun p hp => ?_, ?_⟩
  · obtain ⟨c, hc, rfl⟩ := List.mem_map.1 (hm.subset hp)
    exact ht.addr_lt hc
  · obtain ⟨c, hc, rfl⟩ := List.mem_map.1 (hn.subset hp)
    exact UInt64.not_lt.2 (UInt64.le_of_lt (ht.lt_addr hc))
  · have hk := hm.length_le
    have hlen := ht.length_lt
    rw [List.length_map] at hk
    rw [List.length_append] at hlen
    omega

theorem add_spec (ht : TilesHeap place (k ++ b :: l)) (hm : m.Sublist (k.map Block.addr))
    (hn : n.Sublist (l.map Block.addr)) (hlist : h.FreeListIs (m ++ n)) :
    ∃ h', h.memAddToFreeList b.addr = some h' ∧ h'.FreeListIs (m ++ b.addr :: n) ∧
      (∀ q ∈ (k ++ b :: l).map Block.addr,
        (h'.block q).unlinked = ((h.modifyBlock b.addr clearedForList).block q).unlinked) ∧
      WritesIn (m ++ b.addr :: n) h h' := by
  obtain ⟨hbelow, habove, hfuel⟩ := nodes_around ht hm hn
  exact freeListIs_add ht.apart (sublist_nodes hm hn).subset (ht.nodup.sublist (sublist_nodes hm hn)) hbelow habove
    hfuel hlist

end Nodes

/-! ## Writes to free blocks -/

/-- Only bytes of free blocks are written, and the memory map stays. -/
structure WritesFree (bs : List Block) (h h' : MemHeap) : Prop where
  mem i : (∀ b ∈ bs, b.free = true → i < b.start ∨ b.stop ≤ i) → h'.mem i = h.mem i
  memMap : h'.memMap = h.memMap

theorem WritesFree.refl (bs : List Block) (h : MemHeap) : WritesFree bs h h := ⟨fun _ _ => rfl, rfl⟩

/-- The free blocks may first be other ones that lie in the same bytes. -/
theorem WritesFree.trans {bs' : List Block} {h'' : MemHeap} (hw : WritesFree bs h h')
    (hw' : WritesFree bs' h' h'')
    (hin : ∀ i, (∀ b ∈ bs, b.free = true → i < b.start ∨ b.stop ≤ i) →
      ∀ b ∈ bs', b.free = true → i < b.start ∨ b.stop ≤ i) : WritesFree bs h h'' :=
  ⟨fun i hi => (hw'.mem i (hin i hi)).trans (hw.mem i hi), hw'.memMap.trans hw.memMap⟩

/-- The headers of free blocks lie in them. -/
theorem WritesIn.writesFree {A : List UInt64} (hw : WritesIn A h h') (hA : A ⊆ freeAddrs bs) :
    WritesFree bs h h' := by
  refine ⟨fun i hi => hw.mem i fun p hp => ?_, hw.memMap⟩
  obtain ⟨b, hb, hfree, rfl⟩ := mem_freeAddrs.1 (hA hp)
  have := hi b hb hfree
  have := b.start_add_le_stop
  unfold Block.start at *
  omega

/-! ## Splitting a block -/

/-- The header that `mem_split_block` writes for the rest of the block. -/
def remainderHeader (size : UInt64) : MemBlock where
  magic := memBlockMagic
  flags := memBlockFree
  size := size
  type := fluxMemAny
  ownerPid := fluxPidInvalid
  next := 0
  prev := 0

/-- The size of a block that `mem_split_block` cuts, if the rest can hold a block. -/
def splitSize (size needed : UInt64) : UInt64 :=
  if size - needed ≥ memBlockBytes + fluxMemAlign then needed else size

/-- The headers of the two parts of a block before the second one is put on the list. -/
def cutHeaders (h : MemHeap) (b : Block) (needed : UInt64) : MemHeap :=
  (h.modifyBlock (b.remainder needed).addr fun _ => remainderHeader (b.remainder needed).size).modifyBlock b.addr
    fun x => { x with size := needed }

section Split

variable {needed : UInt64}

theorem memSplitBlock_of_room (hsize : (h.block b.addr).size = b.size)
    (hroom : b.size - needed ≥ memBlockBytes + fluxMemAlign) :
    h.memSplitBlock b.addr needed = (h.cutHeaders b needed).memAddToFreeList (b.remainder needed).addr := by
  rw [memSplitBlock, hsize]
  exact if_pos hroom

theorem memSplitBlock_of_full (hsize : (h.block b.addr).size = b.size)
    (hroom : ¬b.size - needed ≥ memBlockBytes + fluxMemAlign) : h.memSplitBlock b.addr needed = some h := by
  rw [memSplitBlock, hsize]
  exact if_neg hroom

theorem block_cutHeaders (ht : TilesHeap place (k ++ b.front needed :: b.remainder needed :: l)) :
    (∀ x ∈ k ++ l, (h.cutHeaders b needed).block x.addr = h.block x.addr) ∧
      (h.cutHeaders b needed).block b.addr = { h.block b.addr with size := needed } ∧
      (h.cutHeaders b needed).block (b.remainder needed).addr = remainderHeader (b.remainder needed).size := by
  have ht' : TilesHeap place ((k ++ [b.front needed]) ++ b.remainder needed :: l) := by simpa using ht
  have hA := ht.apart
  have hbA : b.addr ∈ (k ++ b.front needed :: b.remainder needed :: l).map Block.addr := by simp [Block.front]
  have hcA : (b.remainder needed).addr ∈ (k ++ b.front needed :: b.remainder needed :: l).map Block.addr := by simp
  have hbc : b.addr ≠ (b.remainder needed).addr := ht'.addr_ne (c := b.front needed) (by simp)
  unfold cutHeaders
  refine ⟨fun x hx => ?_, ?_, ?_⟩
  · have hxb : x.addr ≠ b.addr := ht.addr_ne (b := b.front needed) (by
      rcases List.mem_append.1 hx with hx | hx <;> simp [hx])
    have hxc : x.addr ≠ (b.remainder needed).addr := ht'.addr_ne (by
      rcases List.mem_append.1 hx with hx | hx <;> simp [hx])
    have hxA : x.addr ∈ (k ++ b.front needed :: b.remainder needed :: l).map Block.addr := by
      rcases List.mem_append.1 hx with hx | hx <;> simp [List.mem_map_of_mem hx]
    rw [block_modifyBlock hA hbA hxA, if_neg hxb, block_modifyBlock hA hcA hxA, if_neg hxc]
  · rw [block_modifyBlock_self, block_modifyBlock hA hcA hbA, if_neg hbc]
  · rw [block_modifyBlock hA hbA hcA, if_neg hbc.symm, block_modifyBlock_self]

theorem freeListIs_cutHeaders (ht : TilesHeap place (k ++ b.front needed :: b.remainder needed :: l))
    (hlist : h.FreeListIs (freeAddrs k ++ freeAddrs l)) :
    (h.cutHeaders b needed).FreeListIs (freeAddrs k ++ freeAddrs l) := by
  rw [← freeAddrs_append] at hlist ⊢
  refine freeListIs_congr_block hlist (fun q hq => ?_) rfl (fun q hq => ?_)
  · obtain ⟨x, hx, -, rfl⟩ := mem_freeAddrs.1 hq
    exact ht.apart.ne_zero _ (List.mem_map_of_mem (by
      rcases List.mem_append.1 hx with hx | hx <;> simp [hx]))
  · obtain ⟨x, hx, -, rfl⟩ := mem_freeAddrs.1 hq
    exact (block_cutHeaders ht).1 x hx

/-- The two parts of a block that is split have their headers, and the other blocks keep theirs. -/
theorem holds_split (hlay : Layout place h (k ++ b :: l))
    (ht : TilesHeap place (k ++ b.front needed :: b.remainder needed :: l))
    (hsame : ∀ q ∈ (k ++ b.front needed :: b.remainder needed :: l).map Block.addr, (h'.block q).unlinked =
      (((h.cutHeaders b needed).modifyBlock (b.remainder needed).addr clearedForList).block q).unlinked) :
    ∀ x ∈ k ++ b.front needed :: b.remainder needed :: l, h'.Holds x := by
  have ht' : TilesHeap place ((k ++ [b.front needed]) ++ b.remainder needed :: l) := by simpa using ht
  have hcA : (b.remainder needed).addr ∈ (k ++ b.front needed :: b.remainder needed :: l).map Block.addr := by simp
  obtain ⟨hkl, hb₂, hc₂⟩ := block_cutHeaders (h := h) ht
  have hsame' (x : Block) (hx : x ∈ k ++ b.front needed :: l) :
      (h'.block x.addr).unlinked = ((h.cutHeaders b needed).block x.addr).unlinked := by
    have hxc : x.addr ≠ (b.remainder needed).addr := ht'.addr_ne (by simpa using hx)
    have hxA : x.addr ∈ (k ++ b.front needed :: b.remainder needed :: l).map Block.addr := by
      refine List.mem_map_of_mem ?_
      rcases List.mem_append.1 hx with hx | hx
      · exact List.mem_append_left _ hx
      · rcases List.mem_cons.1 hx with rfl | hx <;> simp [*]
    rw [hsame _ hxA, block_modifyBlock ht.apart hcA hxA, if_neg hxc]
  have hfront := hsame' (b.front needed) (by simp)
  have hrest := hsame _ hcA
  have hbold := hlay.holds b (by simp)
  rw [show (b.front needed).addr = b.addr from rfl, hb₂] at hfront
  rw [block_modifyBlock_self, hc₂] at hrest
  intro x hx
  rcases List.mem_append.1 hx with hxk | hx
  · refine (hlay.holds x (by simp [hxk])).congr ?_
    rw [hsame' x (by simp [hxk]), hkl x (by simp [hxk])]
  rcases List.mem_cons.1 hx with rfl | hx
  · exact ⟨(congrArg MemBlock.magic hfront).trans hbold.magic, congrArg MemBlock.size hfront,
      (congrArg MemBlock.flags hfront).trans hbold.flags⟩
  rcases List.mem_cons.1 hx with rfl | hxl
  · exact ⟨congrArg MemBlock.magic hrest, congrArg MemBlock.size hrest, congrArg MemBlock.flags hrest⟩
  · refine (hlay.holds x (by simp [hxl])).congr ?_
    rw [hsame' x (by simp [hxl]), hkl x (by simp [hxl])]

/-- The new headers lie in the block that is split, so that only free blocks are written. -/
theorem writesFree_split (htb : TilesHeap place (k ++ b :: l))
    (ht : TilesHeap place (k ++ b.front needed :: b.remainder needed :: l)) (hb : b.free = true)
    (hwrites : WritesFree (k ++ b.front needed :: b.remainder needed :: l) (h.cutHeaders b needed) h') :
    WritesFree (k ++ b :: l) h h' := by
  have hbs : b ∈ k ++ b :: l := by simp
  have ht' : TilesHeap place ((k ++ [b.front needed]) ++ b.remainder needed :: l) := by simpa using ht
  -- the two parts cover the block
  have hstart : (b.front needed).stop = (b.remainder needed).start := ht.stop_eq_start
  have hstop : (b.remainder needed).stop = b.stop := ht'.stop_eq htb
  have hfront : (b.front needed).start ≤ (b.front needed).stop := (b.front needed).start_le_stop
  have hremain : (b.remainder needed).start + memBlockBytes.toNat ≤ (b.remainder needed).stop :=
    (b.remainder needed).start_add_le_stop
  have hbstart : (b.front needed).start = b.start := rfl
  have hheaders : WritesFree (k ++ b :: l) h (h.cutHeaders b needed) := by
    refine ⟨fun i hi => ?_, rfl⟩
    have hib := hi b hbs hb
    have hw : WritesIn [(b.remainder needed).addr, b.addr] h (h.cutHeaders b needed) :=
      ((WritesIn.refl _ h).modifyBlock (by simp)).modifyBlock (by simp)
    refine hw.mem i fun p hp => ?_
    have := b.start_add_le_stop
    unfold Block.start at *
    rcases List.mem_cons.1 hp with rfl | hp
    · omega
    · rw [List.mem_singleton.1 hp]
      omega
  refine hheaders.trans hwrites fun i hi c hc hcfree => ?_
  have hib := hi b hbs hb
  rcases List.mem_append.1 hc with hc | hc
  · exact hi c (List.mem_append_left _ hc) hcfree
  rcases List.mem_cons.1 hc with rfl | hc
  · omega
  rcases List.mem_cons.1 hc with rfl | hc
  · omega
  · exact hi c (List.mem_append_right _ (List.mem_cons_of_mem _ hc)) hcfree

/-- The rest of a block that is split is put on the list. -/
theorem memSplitBlock_split (hlay : Layout place h (k ++ b :: l)) (hb : b.free = true)
    (hlist : h.FreeListIs (freeAddrs k ++ freeAddrs l)) (hneeded : needed ≤ b.size)
    (hroom : b.size - needed ≥ memBlockBytes + fluxMemAlign) :
    ∃ h', h.memSplitBlock b.addr needed = some h' ∧
      Layout place h' (k ++ b.front needed :: b.remainder needed :: l) ∧
      h'.FreeListIs (freeAddrs k ++ freeAddrs (b.remainder needed :: l)) ∧ WritesFree (k ++ b :: l) h h' := by
  have ht := hlay.tiles.split_of_room hneeded hroom
  have ht' : TilesHeap place ((k ++ [b.front needed]) ++ b.remainder needed :: l) := by simpa using ht
  obtain ⟨h', hadd, hlist', hsame, hwrites⟩ := add_spec (m := freeAddrs k) (n := freeAddrs l) ht'
    (freeAddrs_sublist.trans ((List.sublist_append_left ..).map _)) freeAddrs_sublist
    (freeListIs_cutHeaders ht hlist)
  have hnodes : WritesFree (k ++ b.front needed :: b.remainder needed :: l) (h.cutHeaders b needed) h' := by
    refine hwrites.writesFree fun p hp => ?_
    rw [freeAddrs_append, freeAddrs_cons_of_free (show (b.front needed).free = true from hb),
      freeAddrs_cons_of_free rfl]
    rcases List.mem_append.1 hp with hp | hp
    · exact List.mem_append_left _ hp
    · exact List.mem_append_right _ (List.mem_cons_of_mem _ hp)
  refine ⟨h', ?_, ⟨ht, ?_⟩, ?_, writesFree_split hlay.tiles ht hb hnodes⟩
  · rw [memSplitBlock_of_room (hlay.holds b (by simp)).size hroom]
    exact hadd
  · exact holds_split hlay ht fun q hq => hsame q (by simpa using hq)
  · rw [freeAddrs_cons_of_free rfl]
    exact hlist'

/-- A free block off the list is cut to the size needed, and the rest is put on the list. -/
theorem memSplitBlock_spec (hlay : Layout place h (k ++ b :: l)) (hb : b.free = true)
    (hlist : h.FreeListIs (freeAddrs k ++ freeAddrs l)) (hneeded : needed ≤ b.size) :
    ∃ h' b' rest, h.memSplitBlock b.addr needed = some h' ∧ b'.addr = b.addr ∧ b'.free = true ∧
      needed ≤ b'.size ∧ (rest = [] ∨ ∃ c, rest = [c] ∧ c.free = true) ∧
      Layout place h' (k ++ b' :: (rest ++ l)) ∧ h'.FreeListIs (freeAddrs k ++ freeAddrs (rest ++ l)) ∧
      b'.stop ≤ b.stop ∧ WritesFree (k ++ b :: l) h h' ∧ b'.size = splitSize b.size needed := by
  by_cases hroom : b.size - needed ≥ memBlockBytes + fluxMemAlign
  · obtain ⟨h', hsplit, hlay', hlist', hwrites⟩ := memSplitBlock_split hlay hb hlist hneeded hroom
    have hstop : (b.front needed).stop ≤ b.stop := Nat.add_le_add_left (UInt64.le_iff_toNat_le.1 hneeded) _
    exact ⟨h', b.front needed, [b.remainder needed], hsplit, rfl, hb, UInt64.le_refl _, .inr ⟨_, rfl, rfl⟩,
      hlay', hlist', hstop, hwrites, (if_pos hroom).symm⟩
  · exact ⟨h, b, [], memSplitBlock_of_full (hlay.holds b (by simp)).size hroom, rfl, hb, hneeded, .inl rfl,
      hlay, hlist, Nat.le_refl _, WritesFree.refl _ h, (if_neg hroom).symm⟩

end Split

/-! ## Merging two blocks -/

/-- The headers of two merged blocks before the links are written. -/
def mergedHeaders (h : MemHeap) (p q : UInt64) : MemHeap :=
  (h.modifyBlock p fun x => { x with size := x.size + (memBlockBytes + (h.block q).size) }).modifyBlock q
    fun x => { x with magic := 0 }

theorem mergeNext_eq {A : List UInt64} {p q : UInt64} (hA : Apart A) (hp : p ∈ A) (hq : q ∈ A)
    (hqp : q ≠ p) : h.mergeNext p q =
      ((h.mergedHeaders p q).setNext p ((h.mergedHeaders p q).block q).next).setPrev
        ((h.mergedHeaders p q).block q).next p := by
  have heq : h.mergeNext p q =
      ((h.mergedHeaders p q).modifyBlock p fun x =>
        { x with next := ((h.mergedHeaders p q).block q).next }).setPrev
          (((h.mergedHeaders p q).modifyBlock p fun x =>
            { x with next := ((h.mergedHeaders p q).block q).next }).block q).next p := by
    unfold mergeNext mergedHeaders setPrev
    rfl
  rw [heq, block_modifyBlock hA hp hq, if_neg hqp, setNext, if_pos (hA.ne_zero p hp)]

theorem block_mergedHeaders {A : List UInt64} {p q u : UInt64} (hA : Apart A) (hp : p ∈ A) (hq : q ∈ A)
    (hu : u ∈ A) (huq : u ≠ q) : (h.mergedHeaders p q).block u =
      if u = p then { h.block u with size := (h.block u).size + (memBlockBytes + (h.block q).size) }
      else h.block u := by
  unfold mergedHeaders
  rw [block_modifyBlock hA hq hu, if_neg huq, block_modifyBlock hA hp hu]

theorem freeListIs_mergedHeaders {A m : List UInt64} {p q : UInt64} (hlist : h.FreeListIs m) (hA : Apart A)
    (hp : p ∈ A) (hq : q ∈ A) (hm : ∀ u ∈ m, u ∈ A) : (h.mergedHeaders p q).FreeListIs m := by
  unfold mergedHeaders
  refine FreeListIs.modifyBlock (FreeListIs.modifyBlock hlist hA hp hm ?_ ?_) hA hq hm ?_ ?_
  all_goals
    intro x
    rfl

/-- The node after the second block of a merge. -/
theorem next_mergedHeaders (hlay : Layout place h (k ++ b :: c :: l)) (hb : b.free = true) (hc : c.free = true)
    (hlist : h.FreeListIs (freeAddrs (k ++ b :: c :: l))) :
    ((h.mergedHeaders b.addr c.addr).block c.addr).next = (freeAddrs l).headD 0 := by
  have hA := hlay.tiles.apart
  have hcA : c.addr ∈ (k ++ b :: c :: l).map Block.addr := by simp
  have hlist₂ : (h.mergedHeaders b.addr c.addr).FreeListIs (freeAddrs (k ++ b :: c :: l)) :=
    freeListIs_mergedHeaders hlist hA (by simp) hcA fun _ hp => freeAddrs_subset hp
  rw [freeAddrs_append, freeAddrs_cons_of_free hb, freeAddrs_cons_of_free hc, List.append_cons] at hlist₂
  have hnext := Linked.next_node hlist₂
  rwa [nextOf, if_neg (hA.ne_zero _ hcA)] at hnext

/-- That node is on the list, unless it is NULL. -/
theorem next_mergedHeaders_mem (hlay : Layout place h (k ++ b :: c :: l)) (hb : b.free = true) (hc : c.free = true)
    (hlist : h.FreeListIs (freeAddrs (k ++ b :: c :: l))) :
    ((h.mergedHeaders b.addr c.addr).block c.addr).next ∈ 0 :: freeAddrs (k ++ b :: c :: l) := by
  rw [next_mergedHeaders hlay hb hc hlist]
  refine List.cons_subset_cons 0 (fun p hp => ?_) (headD_mem 0 _)
  rw [freeAddrs_append, freeAddrs_cons_of_free hb, freeAddrs_cons_of_free hc]
  exact List.mem_append_right _ (List.mem_cons_of_mem _ (List.mem_cons_of_mem _ hp))

/-- The merged block has its header, and the other blocks keep theirs. -/
theorem holds_merged (hlay : Layout place h (k ++ b :: c :: l))
    (hunlinked : ∀ u ∈ (k ++ b :: c :: l).map Block.addr, u ≠ c.addr → (h'.block u).unlinked =
      (if u = b.addr then
        { h.block u with size := (h.block u).size + (memBlockBytes + (h.block c.addr).size) }
      else h.block u).unlinked) : ∀ x ∈ k ++ b.merged c :: l, h'.Holds x := by
  have htc : TilesHeap place ((k ++ [b]) ++ c :: l) := by simpa using hlay.tiles
  have hkept (y : Block) (hy : y ∈ k ++ l) : h'.Holds y := by
    have hyb : y.addr ≠ b.addr := hlay.tiles.addr_ne (by
      rcases List.mem_append.1 hy with hy | hy <;> simp [hy])
    have hyc : y.addr ≠ c.addr := htc.addr_ne (by
      rcases List.mem_append.1 hy with hy | hy <;> simp [hy])
    have hybs : y ∈ k ++ b :: c :: l := by
      rcases List.mem_append.1 hy with hy | hy <;> simp [hy]
    have := hunlinked y.addr (List.mem_map_of_mem hybs) hyc
    rw [if_neg hyb] at this
    exact (hlay.holds y hybs).congr this
  intro x hx
  rcases List.mem_append.1 hx with hx | hx
  · exact hkept x (List.mem_append_left _ hx)
  rcases List.mem_cons.1 hx with rfl | hx
  · have hbc : b.addr ≠ c.addr := (hlay.tiles.addr_ne (by simp)).symm
    have hmerged := hunlinked b.addr (by simp) hbc
    have hbold := hlay.holds b (by simp)
    have hcold := hlay.holds c (by simp)
    rw [if_pos rfl, hbold.size, hcold.size] at hmerged
    exact ⟨(congrArg MemBlock.magic hmerged).trans hbold.magic, congrArg MemBlock.size hmerged,
      (congrArg MemBlock.flags hmerged).trans hbold.flags⟩
  · exact hkept x (List.mem_append_right _ hx)

/-- Two free blocks side by side become one, which takes their place on the list. -/
theorem mergeNext_spec (hlay : Layout place h (k ++ b :: c :: l)) (hb : b.free = true) (hc : c.free = true)
    (hlist : h.FreeListIs (freeAddrs (k ++ b :: c :: l))) :
    Layout place (h.mergeNext b.addr c.addr) (k ++ b.merged c :: l) ∧
      (h.mergeNext b.addr c.addr).FreeListIs (freeAddrs (k ++ b.merged c :: l)) ∧
      WritesFree (k ++ b :: c :: l) h (h.mergeNext b.addr c.addr) := by
  have hA := hlay.tiles.apart
  have hbA : b.addr ∈ (k ++ b :: c :: l).map Block.addr := by simp
  have hcA : c.addr ∈ (k ++ b :: c :: l).map Block.addr := by simp
  have hcb : c.addr ≠ b.addr := hlay.tiles.addr_ne (by simp)
  have hsub : ∀ p ∈ freeAddrs (k ++ b :: c :: l), p ∈ (k ++ b :: c :: l).map Block.addr :=
    fun _ hp => freeAddrs_subset hp
  have hnodes : freeAddrs (k ++ b :: c :: l) = (freeAddrs k ++ [b.addr]) ++ c.addr :: freeAddrs l := by
    rw [freeAddrs_append, freeAddrs_cons_of_free hb, freeAddrs_cons_of_free hc, List.append_cons]
  have hnodes' : freeAddrs (k ++ b.merged c :: l) = (freeAddrs k ++ [b.addr]) ++ freeAddrs l := by
    rw [freeAddrs_append, freeAddrs_cons_of_free (show (b.merged c).free = true from hb), List.append_cons]
    rfl
  have hn0 : (0 :: freeAddrs (k ++ b :: c :: l)).Nodup :=
    List.nodup_cons.2 ⟨fun h0 => hA.ne_zero 0 (hsub 0 h0) rfl, hlay.tiles.nodup_freeAddrs⟩
  have hlist₂ : (h.mergedHeaders b.addr c.addr).FreeListIs (freeAddrs (k ++ b :: c :: l)) :=
    freeListIs_mergedHeaders hlist hA hbA hcA hsub
  have hy := next_mergedHeaders_mem hlay hb hc hlist
  have hyA : ((h.mergedHeaders b.addr c.addr).block c.addr).next ∈
      0 :: (k ++ b :: c :: l).map Block.addr := List.cons_subset_cons 0 (fun p hp => hsub p hp) hy
  have hxA : b.addr ∈ 0 :: (k ++ b :: c :: l).map Block.addr := List.mem_cons_of_mem _ hbA
  rw [hnodes] at hlist₂ hsub hn0
  have hprev : (h.mergedHeaders b.addr c.addr).prevOf c.addr = b.addr := by
    rw [Linked.prev_node hlist₂ (hA.ne_zero _ hcA)]
    simp
  have hnext : (h.mergedHeaders b.addr c.addr).nextOf c.addr =
      ((h.mergedHeaders b.addr c.addr).block c.addr).next := if_neg (hA.ne_zero _ hcA)
  have hsub' : (freeAddrs k ++ [b.addr]) ++ freeAddrs l ⊆ (k ++ b :: c :: l).map Block.addr := by
    intro p hp
    refine hsub p ?_
    rcases List.mem_append.1 hp with hp | hp
    · exact List.mem_append_left _ hp
    · exact List.mem_append_right _ (List.mem_cons_of_mem _ hp)
  have hunlink := Linked.unlink hlist₂ hn0
  rw [hprev, hnext] at hunlink
  rw [mergeNext_eq hA hbA hcA hcb, hnodes']
  refine ⟨⟨hlay.tiles.merge, holds_merged hlay fun u hu huc => ?_⟩,
    Linked.congr hunlink (fun u hu => ?_) (fun u hu => ?_), ?_⟩
  · rw [unlinked_setPrev hA hyA hu, unlinked_setNext hA hxA hu, block_mergedHeaders hA hbA hcA hu huc]
  · have hu' := List.cons_subset_cons 0 hsub' hu
    rw [nextOf_setPrev hA hyA hu', nextOf_setNext hA hxA hu']
  · rw [prevOf_setPrev hA hyA (hsub' hu), Function.update_apply, Function.update_apply,
      prevOf_setNext hA hxA (hsub' hu)]
  · have hbfree : b.addr ∈ freeAddrs (k ++ b :: c :: l) := by simp [mem_freeAddrs, hb]
    have hcfree : c.addr ∈ freeAddrs (k ++ b :: c :: l) := by
      rw [hnodes]
      simp
    have hheaders : WritesIn (freeAddrs (k ++ b :: c :: l)) h (h.mergedHeaders b.addr c.addr) :=
      ((WritesIn.refl _ h).modifyBlock hbfree).modifyBlock hcfree
    exact ((hheaders.setNext (List.mem_cons_of_mem _ hbfree)).setPrev hy).writesFree (List.Subset.refl _)

/-! ## Coalescing -/

/-- The next free block starts where `b` ends if it is the next block. -/
theorem next_eq_end (ht : TilesHeap place (k ++ b :: l)) :
    ((freeAddrs l).headD 0 ≠ 0 ∧ (freeAddrs l).headD 0 = b.addr + memBlockBytes + b.size) ↔
      ∃ c l', l = c :: l' ∧ c.free = true := by
  cases l with
  | nil => simp
  | cons c l =>
    rw [ht.next_addr]
    cases hc : c.free with
    | true =>
      rw [freeAddrs_cons_of_free hc, List.headD_cons]
      exact ⟨fun _ => ⟨c, l, rfl, hc⟩, fun _ => ⟨ht.apart.ne_zero _ (by simp), rfl⟩⟩
    | false =>
      rw [freeAddrs_cons_of_used hc]
      constructor
      · -- a free block further on starts later
        rintro ⟨h0, hend⟩
        have hmem : (freeAddrs l).headD 0 ∈ freeAddrs l := (headD_eq_or_mem 0 _).resolve_left h0
        rw [hend] at hmem
        obtain ⟨d, hd, -, hdc⟩ := mem_freeAddrs.1 hmem
        rw [List.append_cons] at ht
        exact absurd hdc (ht.addr_ne (List.mem_append_right _ hd))
      · rintro ⟨d, l', hd, hdfree⟩
        rw [← (List.cons.inj hd).1, hc] at hdfree
        exact Bool.noConfusion hdfree

theorem coalesceFrom_free {fuel : Nat} {a : UInt64} (ha : a ≠ 0)
    (hfree : (h.block a).flags &&& memBlockFree ≠ 0) : h.coalesceFrom (fuel + 1) a =
      if (h.block a).next ≠ 0 ∧ (h.block a).next = a + memBlockBytes + (h.block a).size ∧
        (h.block (h.block a).next).flags &&& memBlockFree ≠ 0
      then some (h.mergeNext a (h.block a).next, true)
      else h.coalesceFrom fuel (h.block a).next := by
  rw [coalesceFrom, if_neg ha, if_neg hfree]

/-- The scan merges a block with a free one next to it, if there is one. -/
theorem coalesceFrom_spec {fuel : Nat} (hlay : Layout place h (k ++ l))
    (hlist : h.FreeListIs (freeAddrs (k ++ l))) (hfuel : l.length < fuel) :
    (h.coalesceFrom fuel ((freeAddrs l).headD 0) = some (h, false) ∧ NoAdjacentFree l) ∨
      ∃ k' b c l', k ++ l = k' ++ b :: c :: l' ∧ b.free = true ∧ c.free = true ∧
        h.coalesceFrom fuel ((freeAddrs l).headD 0) = some (h.mergeNext b.addr c.addr, true) := by
  induction l generalizing k fuel with
  | nil =>
    obtain ⟨fuel, rfl⟩ : ∃ j, fuel = j + 1 := ⟨fuel - 1, by omega⟩
    refine .inl ⟨?_, List.isChain_nil⟩
    rw [coalesceFrom]
    exact if_pos rfl
  | cons b l ih =>
    rw [List.length_cons] at hfuel
    have hrec (fuel : Nat) (hfuel : l.length < fuel) :=
      ih (k := k ++ [b]) (by simpa using hlay) (by simpa using hlist) hfuel
    rw [← List.append_cons] at hrec
    cases hb : b.free with
    | false =>
      rw [freeAddrs_cons_of_used hb]
      refine (hrec fuel (by omega)).imp_left fun hquiet => ⟨hquiet.1, noAdjacentFree_cons.2 ⟨?_, hquiet.2⟩⟩
      rintro c l' - ⟨hbt, -⟩
      rw [hb] at hbt
      exact Bool.noConfusion hbt
    | true =>
      obtain ⟨fuel, rfl⟩ : ∃ j, fuel = j + 1 := ⟨fuel - 1, by omega⟩
      have hbA : b ∈ k ++ b :: l := by simp
      have hb0 : b.addr ≠ 0 := hlay.tiles.apart.ne_zero _ (List.mem_map_of_mem hbA)
      have hnext : (h.block b.addr).next = (freeAddrs l).headD 0 := by
        rw [freeAddrs_append, freeAddrs_cons_of_free hb] at hlist
        have := Linked.next_node hlist
        rwa [nextOf, if_neg hb0] at this
      have hfree : (h.block b.addr).flags &&& memBlockFree ≠ 0 := by
        rw [(hlay.holds b hbA).flags]
        exact b.flags_and_free.2 hb
      rw [freeAddrs_cons_of_free hb, List.headD_cons, coalesceFrom_free hb0 hfree, hnext,
        (hlay.holds b hbA).size]
      by_cases hadj : ∃ c l', l = c :: l' ∧ c.free = true
      · obtain ⟨c, l', rfl, hc⟩ := hadj
        refine .inr ⟨k, b, c, l', rfl, hb, hc, ?_⟩
        obtain ⟨h0, hend⟩ := (next_eq_end hlay.tiles).2 ⟨c, l', rfl, hc⟩
        have hcflags : (h.block c.addr).flags &&& memBlockFree ≠ 0 := by
          rw [(hlay.holds c (by simp)).flags]
          exact c.flags_and_free.2 hc
        rw [freeAddrs_cons_of_free hc, List.headD_cons] at h0 hend ⊢
        rw [if_pos ⟨h0, hend, hcflags⟩]
      · rw [if_neg fun hcond => hadj ((next_eq_end hlay.tiles).1 ⟨hcond.1, hcond.2.1⟩)]
        refine (hrec fuel (by omega)).imp_left fun hquiet =>
          ⟨hquiet.1, noAdjacentFree_cons.2 ⟨?_, hquiet.2⟩⟩
        rintro c l' hl ⟨-, hc⟩
        exact hadj ⟨c, l', hl, hc⟩

theorem coalesceLoop_of_scan {fuel : Nat} {h' : MemHeap} {merged : Bool}
    (hscan : h.coalesceFrom walkFuel h.freeList = some (h', merged)) :
    coalesceLoop (fuel + 1) h = if merged then coalesceLoop fuel h' else some h' := by
  rw [coalesceLoop, hscan]
  rfl

/-- The outer loop ends with no two free blocks next to each other, and keeps what every merge keeps. -/
theorem coalesceLoop_rule {I : MemHeap → List Block → Prop} {fuel : Nat}
    (hmerge : ∀ h k b c l, Layout place h (k ++ b :: c :: l) → h.FreeListIs (freeAddrs (k ++ b :: c :: l)) →
      b.free = true → c.free = true → I h (k ++ b :: c :: l) → I (h.mergeNext b.addr c.addr) (k ++ b.merged c :: l))
    (hlay : Layout place h bs) (hlist : h.FreeListIs (freeAddrs bs)) (hfuel : bs.length < fuel) (hI : I h bs) :
    ∃ h' bs', coalesceLoop fuel h = some h' ∧ Layout place h' bs' ∧ h'.FreeListIs (freeAddrs bs') ∧
      NoAdjacentFree bs' ∧ I h' bs' := by
  induction fuel generalizing h bs with
  | zero => exact absurd hfuel (Nat.not_lt_zero _)
  | succ fuel ih =>
    have hfirst := freeListIs_first hlist
    rcases coalesceFrom_spec (k := []) hlay hlist hlay.tiles.length_lt with
      ⟨hquiet, hapart⟩ | ⟨k, b, c, l, rfl, hb, hc, hscan⟩
    · rw [← hfirst] at hquiet
      exact ⟨h, bs, coalesceLoop_of_scan hquiet, hlay, hlist, hapart, hI⟩
    · obtain ⟨hlay', hlist', -⟩ := mergeNext_spec hlay hb hc hlist
      have hfuel' : (k ++ b.merged c :: l).length < fuel := by
        simp only [List.length_append, List.length_cons] at hfuel ⊢
        omega
      obtain ⟨h', bs', hloop, hspec⟩ := ih hlay' hlist' hfuel' (hmerge h k b c l hlay hlist hb hc hI)
      rw [← hfirst] at hscan
      exact ⟨h', bs', (coalesceLoop_of_scan hscan).trans hloop, hspec⟩

/-- A merged block lies in the two it is made of. -/
theorem outside_merged {i : Nat} (ht : TilesHeap place (k ++ b :: c :: l)) (hb : b.free = true) (hc : c.free = true)
    (hi : ∀ d ∈ k ++ b :: c :: l, d.free = true → i < d.start ∨ d.stop ≤ i) :
    ∀ d ∈ k ++ b.merged c :: l, d.free = true → i < d.start ∨ d.stop ≤ i := by
  intro d hd hdfree
  have hib := hi b (by simp) hb
  have hic := hi c (by simp) hc
  have hbc := ht.stop_eq_start
  have htc : TilesHeap place ((k ++ [b]) ++ c :: l) := by simpa using ht
  have hstop : (b.merged c).stop = c.stop := ht.merge.stop_eq htc
  have hstart : (b.merged c).start = b.start := rfl
  rcases List.mem_append.1 hd with hd | hd
  · exact hi d (List.mem_append_left _ hd) hdfree
  rcases List.mem_cons.1 hd with rfl | hd
  · omega
  · exact hi d (List.mem_append_right _ (List.mem_cons_of_mem _ (List.mem_cons_of_mem _ hd))) hdfree

/-- The blocks in use are the same after the outer loop. -/
theorem coalesceLoop_spec {fuel : Nat} (hlay : Layout place h bs) (hlist : h.FreeListIs (freeAddrs bs))
    (hfuel : bs.length < fuel) :
    ∃ h' bs', coalesceLoop fuel h = some h' ∧ Layout place h' bs' ∧ h'.FreeListIs (freeAddrs bs') ∧
      NoAdjacentFree bs' ∧ usedPtrs bs' = usedPtrs bs ∧ WritesFree bs h h' := by
  have hspec := coalesceLoop_rule (I := fun h' bs' => (usedPtrs bs' = usedPtrs bs ∧ WritesFree bs h h') ∧
    ∀ i, (∀ d ∈ bs, d.free = true → i < d.start ∨ d.stop ≤ i) →
      ∀ d ∈ bs', d.free = true → i < d.start ∨ d.stop ≤ i) ?_ hlay hlist hfuel
    ⟨⟨rfl, WritesFree.refl bs h⟩, fun i hi => hi⟩
  · obtain ⟨h', bs', hloop, hlay', hlist', hapart, ⟨hused, hwrites⟩, -⟩ := hspec
    exact ⟨h', bs', hloop, hlay', hlist', hapart, hused, hwrites⟩
  · rintro h₁ k b c l hlay₁ hlist₁ hb hc ⟨⟨hused, hwrites⟩, hin⟩
    obtain ⟨-, -, hwrites₁⟩ := mergeNext_spec hlay₁ hb hc hlist₁
    refine ⟨⟨Eq.trans ?_ hused, hwrites.trans hwrites₁ hin⟩, fun i hi => outside_merged hlay₁.tiles hb hc (hin i hi)⟩
    rw [usedPtrs_append, usedPtrs_append, usedPtrs_cons_of_free hb, usedPtrs_cons_of_free hc,
      usedPtrs_cons_of_free (show (b.merged c).free = true from hb)]

end MemHeap

end FluxOs
