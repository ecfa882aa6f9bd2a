import FluxOs.Kernel.Reallocation

/-!
# Where the magic value is stored

`flux_free` takes the 40 bytes before a pointer for the header of a block in use if they start with the magic
value and the flag of use.  The headers start at multiples of 8.  Of the words at multiples of 8 only the first
word of a header holds the magic value: this is kept by all that the allocator writes, as long as no type, no
size and no address that it writes has the magic value as its low 32 bits.
-/

namespace FluxOs

open ByteMemory LinkedLists Tilings

/-- No 32-bit word of the header after the first two is the magic value, the owner aside. -/
structure MemBlock.NoMagic (b : MemBlock) : Prop where
  size : b.size.toUInt32 ≠ memBlockMagic
  type : b.type ≠ memBlockMagic
  next : b.next.toUInt32 ≠ memBlockMagic
  prev : b.prev.toUInt32 ≠ memBlockMagic

/-- No address in the heap has the magic value as its low 32 bits. -/
def HeapPlace.NoMagic (place : HeapPlace) : Prop :=
  ∀ a : UInt64, place.base.toNat ≤ a.toNat → a.toNat < place.base.toNat + fluxHeapSize.toNat →
    a.toUInt32 ≠ memBlockMagic

namespace MemHeap

/-- The 32-bit word at an address. -/
def word (h : MemHeap) (i : Nat) : UInt32 := UInt32.ofNat (leNat (read h.mem i 4))

/-- The addresses of headers in the heap, none of which overlaps another one. -/
structure Headers (place : HeapPlace) (A : List UInt64) : Prop extends Apart A where
  inside : ∀ a ∈ A, place.base.toNat ≤ a.toNat ∧
    a.toNat + memBlockBytes.toNat ≤ place.base.toNat + fluxHeapSize.toNat

/-- Of the words at multiples of 8 in the heap only the first words of the headers at `A` hold the magic value. -/
structure MagicIn (place : HeapPlace) (A : List UInt64) (h : MemHeap) : Prop where
  aligned : ∀ a ∈ A, a.toNat % 8 = 0
  only : ∀ i, place.base.toNat ≤ i → i < place.base.toNat + fluxHeapSize.toNat → i % 8 = 0 →
    h.word i = memBlockMagic → ∃ a ∈ A, a.toNat = i

variable {place : HeapPlace} {h h' : MemHeap} {A B : List UInt64} {bs k l : List Block} {b c : Block}
  {a p q x y : UInt64} {f : MemBlock → MemBlock} {i : Nat}

/-! ## Words -/

theorem word_congr (hmem : ∀ j, i ≤ j → j < i + 4 → h'.mem j = h.mem j) : h'.word i = h.word i := by
  unfold word
  rw [read_congr hmem]

/-- The words of a header. -/
theorem magic_block : (h.block q).magic = h.word q.toNat := by
  have hread : (read h.mem q.toNat memBlockBytes.toNat).take 4 = read h.mem q.toNat 4 :=
    take_drop_read (k := 0) (by decide)
  rw [block, MemBlock.decode, hread]
  rfl

theorem type_block : (h.block q).type = h.word (q.toNat + 16) := by
  rw [block, MemBlock.decode, take_drop_read (by decide)]
  rfl

/-- The low word of a number of 8 bytes. -/
theorem toUInt32_read (mem : Memory) (i : Nat) :
    (UInt64.ofNat (leNat (read mem i 8))).toUInt32 = UInt32.ofNat (leNat (read mem i 4)) := by
  have hsplit : leNat (read mem i 8) = leNat (read mem i 4) + 256 ^ 4 * leNat (read mem (i + 4) 4) := by
    rw [read_append mem i 4 4, leNat_append, length_read]
  refine UInt32.toNat_inj.1 ?_
  rw [UInt64.toNat_toUInt32, UInt64.toNat_ofNat', UInt32.toNat_ofNat', hsplit]
  omega

theorem noMagic_block_iff : (h.block q).NoMagic ↔
    h.word (q.toNat + 8) ≠ memBlockMagic ∧ h.word (q.toNat + 16) ≠ memBlockMagic ∧
      h.word (q.toNat + 24) ≠ memBlockMagic ∧ h.word (q.toNat + 32) ≠ memBlockMagic := by
  have hsize : (h.block q).size.toUInt32 = h.word (q.toNat + 8) := by
    rw [block, MemBlock.decode, take_drop_read (by decide)]
    exact toUInt32_read ..
  have hnext : (h.block q).next.toUInt32 = h.word (q.toNat + 24) := by
    rw [block, MemBlock.decode, take_drop_read (by decide)]
    exact toUInt32_read ..
  have hprev : (h.block q).prev.toUInt32 = h.word (q.toNat + 32) := by
    rw [block, MemBlock.decode, take_drop_read (by decide)]
    exact toUInt32_read ..
  constructor
  · intro hb
    exact ⟨hsize ▸ hb.size, type_block ▸ hb.type, hnext ▸ hb.next, hprev ▸ hb.prev⟩
  · rintro ⟨h₁, h₂, h₃, h₄⟩
    exact ⟨hsize ▸ h₁, type_block ▸ h₂, hnext ▸ h₃, hprev ▸ h₄⟩

/-- A number up to the size of the heap is not the magic value. -/
theorem toUInt32_ne_magic (hx : x.toNat ≤ fluxHeapSize.toNat) : x.toUInt32 ≠ memBlockMagic := by
  intro hmagic
  have hlow := congrArg UInt32.toNat hmagic
  rw [UInt64.toNat_toUInt32] at hlow
  have hheap : fluxHeapSize.toNat = 16777216 := rfl
  have hvalue : memBlockMagic.toNat = 1179407704 := rfl
  omega

theorem zero_ne_magic : (0 : UInt64).toUInt32 ≠ memBlockMagic := by decide

/-! ## Writes to headers -/

/-- The headers of the blocks. -/
theorem headers_of_tiles (ht : TilesHeap place bs) : Headers place (bs.map Block.addr) := by
  refine ⟨ht.apart, fun a ha => ?_⟩
  obtain ⟨b, hb, rfl⟩ := List.mem_map.1 ha
  obtain ⟨hbase, hend⟩ := ht.bounds hb
  exact ⟨hbase, Nat.le_trans b.start_add_le_stop hend⟩

/-- The low word of a link. -/
theorem Headers.link_ne (hplace : place.NoMagic) (hA : Headers place A) (hy : y ∈ 0 :: A) :
    y.toUInt32 ≠ memBlockMagic := by
  rcases List.mem_cons.1 hy with rfl | hy
  · decide
  · obtain ⟨hbase, hend⟩ := hA.inside y hy
    have h40 : memBlockBytes.toNat = 40 := rfl
    exact hplace y hbase (by omega)

namespace MagicIn

theorem congr (hm : MagicIn place A h) (hmem : h'.mem = h.mem) : MagicIn place A h' := by
  refine ⟨hm.aligned, fun i h₁ h₂ h8 hword => hm.only i h₁ h₂ h8 ?_⟩
  rwa [word, hmem] at hword

/-- The other words of a header do not hold the magic value. -/
theorem noMagic (hm : MagicIn place A h) (hA : Headers place A) (ha : a ∈ A) : (h.block a).NoMagic := by
  have hinner (k : Nat) (hk : k % 8 = 0) (h0 : 0 < k) (h40 : k < 40) :
      h.word (a.toNat + k) ≠ memBlockMagic := by
    intro hword
    have h8 := hm.aligned a ha
    obtain ⟨hbase, hend⟩ := hA.inside a ha
    have hbytes : memBlockBytes.toNat = 40 := rfl
    obtain ⟨c, hc, hac⟩ := hm.only (a.toNat + k) (by omega) (by omega) (by omega) hword
    have hne : a ≠ c := by
      rintro rfl
      omega
    have hsep := hA.separate a ha c hc hne
    unfold Separate at hsep
    omega
  exact noMagic_block_iff.2 ⟨hinner 8 rfl (by decide) (by decide), hinner 16 rfl (by decide) (by decide),
    hinner 24 rfl (by decide) (by decide), hinner 32 rfl (by decide) (by decide)⟩

theorem modifyBlock (hm : MagicIn place A h) (ha : a ∈ A) (hf : (f (h.block a)).NoMagic) :
    MagicIn place A (h.modifyBlock a f) := by
  refine ⟨hm.aligned, fun i h₁ h₂ h8 hword => ?_⟩
  have ha8 := hm.aligned a ha
  have hwords : ((h.modifyBlock a f).block a).NoMagic := by rwa [block_modifyBlock_self]
  obtain ⟨hw₁, hw₂, hw₃, hw₄⟩ := noMagic_block_iff.1 hwords
  have h40 : memBlockBytes.toNat = 40 := rfl
  by_cases hout : i < a.toNat ∨ a.toNat + 40 ≤ i
  · refine hm.only i h₁ h₂ h8 (Eq.trans ?_ hword)
    refine (word_congr fun j hj₁ hj₂ => write_of_outside ?_).symm
    rw [MemBlock.length_encode]
    omega
  · obtain hi | hi | hi | hi | hi : i = a.toNat ∨ i = a.toNat + 8 ∨ i = a.toNat + 16 ∨ i = a.toNat + 24 ∨
        i = a.toNat + 32 := by omega
    · exact ⟨a, ha, hi.symm⟩
    · exact absurd (hi ▸ hword) hw₁
    · exact absurd (hi ▸ hword) hw₂
    · exact absurd (hi ▸ hword) hw₃
    · exact absurd (hi ▸ hword) hw₄

theorem setNext (hm : MagicIn place A h) (hA : Headers place A) (hx : x ∈ 0 :: A)
    (hy : y.toUInt32 ≠ memBlockMagic) : MagicIn place A (h.setNext x y) := by
  unfold MemHeap.setNext
  split_ifs with hx0
  · have hx := List.mem_of_ne_of_mem hx0 hx
    have hb := hm.noMagic hA hx
    exact hm.modifyBlock hx ⟨hb.size, hb.type, hy, hb.prev⟩
  · exact hm.congr rfl

theorem setPrev (hm : MagicIn place A h) (hA : Headers place A) (hy : y ∈ 0 :: A)
    (hx : x.toUInt32 ≠ memBlockMagic) : MagicIn place A (h.setPrev y x) := by
  unfold MemHeap.setPrev
  split_ifs with hy0
  · have hy := List.mem_of_ne_of_mem hy0 hy
    have hb := hm.noMagic hA hy
    exact hm.modifyBlock hy ⟨hb.size, hb.type, hb.next, hx⟩
  · exact hm

/-- More words may hold the magic value. -/
theorem mono (hm : MagicIn place A h) (hAB : A ⊆ B) (hB : ∀ a ∈ B, a.toNat % 8 = 0) : MagicIn place B h := by
  refine ⟨hB, fun i h₁ h₂ h8 hword => ?_⟩
  obtain ⟨a, ha, hi⟩ := hm.only i h₁ h₂ h8 hword
  exact ⟨a, hAB ha, hi⟩

/-- A header without the magic value is none. -/
theorem drop (hm : MagicIn place A h) (hBA : B ⊆ A) (hrest : ∀ a ∈ A, a ∉ B → (h.block a).magic ≠ memBlockMagic) :
    MagicIn place B h := by
  refine ⟨fun a ha => hm.aligned a (hBA ha), fun i h₁ h₂ h8 hword => ?_⟩
  obtain ⟨a, ha, rfl⟩ := hm.only i h₁ h₂ h8 hword
  refine ⟨a, ?_, rfl⟩
  by_contra hnot
  exact hrest a ha hnot (magic_block.trans hword)

/-! ## The operations on the blocks -/

theorem remove (hm : MagicIn place A h) (hplace : place.NoMagic) (hA : Headers place A)
    {m n : List UInt64} (hmn : ∀ p ∈ m ++ a :: n, p ∈ A) (hnodup : (m ++ a :: n).Nodup)
    (hlist : h.FreeListIs (m ++ a :: n)) : MagicIn place A (h.memRemoveFromFreeList a) := by
  have ha : a ∈ A := hmn a (by simp)
  obtain ⟨hx, hy, hxa⟩ := links_of_node hA.toApart hmn hnodup hlist
  rw [nextOf, if_neg (hA.ne_zero a ha)] at hy
  rw [memRemoveFromFreeList_eq hA.toApart ha hx hxa]
  have hlinked := (hm.setNext hA hx (hA.link_ne hplace hy)).setPrev hA hy (hA.link_ne hplace hx)
  have hb := hlinked.noMagic hA ha
  exact hlinked.modifyBlock ha ⟨hb.size, hb.type, zero_ne_magic, zero_ne_magic⟩

theorem linkBetween (hm : MagicIn place A h) (hplace : place.NoMagic) (hA : Headers place A) (hx : x ∈ 0 :: A)
    (ha : a ∈ A) (hy : y ∈ 0 :: A) : MagicIn place A (h.linkBetween x a y) := by
  have ha' : a ∈ 0 :: A := List.mem_cons_of_mem _ ha
  have hw : (if x = 0 then 0 else a) ∈ 0 :: A := ite_zero_mem ha
  have hx' := hA.link_ne hplace hx
  have ha'' := hA.link_ne hplace ha'
  rw [linkBetween_eq (hA.ne_zero a ha)]
  exact (((hm.setNext hA hx ha'').setPrev hA hw hx').setNext hA ha' (hA.link_ne hplace hy)).setPrev hA hy ha''

theorem add (hm : MagicIn place ((k ++ b :: l).map Block.addr) h) (hplace : place.NoMagic)
    (ht : TilesHeap place (k ++ b :: l)) {m n : List UInt64} (hmk : m.Sublist (k.map Block.addr))
    (hnl : n.Sublist (l.map Block.addr)) (hlist : h.FreeListIs (m ++ n))
    (hadd : h.memAddToFreeList b.addr = some h') : MagicIn place ((k ++ b :: l).map Block.addr) h' := by
  have hA := headers_of_tiles ht
  have hb : b.addr ∈ (k ++ b :: l).map Block.addr := by simp
  have hsub := (sublist_nodes (b := b) hmk hnl).subset
  obtain ⟨hbelow, habove, hfuel⟩ := nodes_around ht hmk hnl
  have hold := hm.noMagic hA hb
  have hcleared : MagicIn place ((k ++ b :: l).map Block.addr) (h.modifyBlock b.addr clearedForList) :=
    hm.modifyBlock hb ⟨hold.size, hold.type, zero_ne_magic, zero_ne_magic⟩
  rcases memAddToFreeList_cases hA.toApart hsub (ht.nodup.sublist (sublist_nodes hmk hnl)) hbelow habove hfuel
    hlist with ⟨hadd', -, -⟩ | hadd'
  · rw [hadd] at hadd'
    rw [Option.some.inj hadd']
    exact hcleared.congr rfl
  · rw [hadd] at hadd'
    rw [Option.some.inj hadd']
    refine hcleared.linkBetween hplace hA (List.cons_subset_cons 0 (fun p hp => ?_) (getLastD_mem 0 m)) hb
      (List.cons_subset_cons 0 (fun p hp => ?_) (headD_mem 0 n))
    · exact hsub (List.mem_append_left _ hp)
    · exact hsub (List.mem_append_right _ (List.mem_cons_of_mem _ hp))

/-- The rest of a block gets a header of its own, at a multiple of 8 if the size needed is one. -/
theorem split {needed : UInt64} (hm : MagicIn place ((k ++ b :: l).map Block.addr) h) (hplace : place.NoMagic)
    (hlay : Layout place h (k ++ b :: l)) (hlist : h.FreeListIs (freeAddrs k ++ freeAddrs l))
    (hneeded : needed ≤ b.size) (hroom : b.size - needed ≥ memBlockBytes + fluxMemAlign) (h8 : needed.toNat % 8 = 0)
    (hsplit : h.memSplitBlock b.addr needed = some h') :
    MagicIn place ((k ++ b.front needed :: b.remainder needed :: l).map Block.addr) h' := by
  have ht := hlay.tiles.split_of_room hneeded hroom
  have ht' : TilesHeap place ((k ++ [b.front needed]) ++ b.remainder needed :: l) := by simpa using ht
  have hA := headers_of_tiles ht
  have hb : b.addr ∈ (k ++ b.front needed :: b.remainder needed :: l).map Block.addr := by simp [Block.front]
  have hc : (b.remainder needed).addr ∈ (k ++ b.front needed :: b.remainder needed :: l).map Block.addr := by simp
  have hsub : (k ++ b :: l).map Block.addr ⊆ (k ++ b.front needed :: b.remainder needed :: l).map Block.addr := by
    intro p hp
    simp only [List.map_append, List.map_cons, List.mem_append, List.mem_cons] at hp ⊢
    exact hp.imp_right fun hp => hp.imp_right .inr
  have hmore : MagicIn place ((k ++ b.front needed :: b.remainder needed :: l).map Block.addr) h := by
    refine hm.mono hsub fun a ha => ?_
    have hb8 := hm.aligned b.addr (by simp)
    have hnext : b.addr.toNat + memBlockBytes.toNat + needed.toNat = (b.remainder needed).addr.toNat :=
      ht.stop_eq_start
    have h40 : memBlockBytes.toNat = 40 := rfl
    simp only [List.map_append, List.map_cons, List.mem_append, List.mem_cons] at ha
    rcases ha with ha | rfl | rfl | ha
    · exact hm.aligned a (by simp [ha])
    · exact hb8
    · omega
    · exact hm.aligned a (by simp [ha])
  have hrest : MagicIn place ((k ++ b.front needed :: b.remainder needed :: l).map Block.addr)
      (h.modifyBlock (b.remainder needed).addr fun _ => remainderHeader (b.remainder needed).size) :=
    hmore.modifyBlock hc ⟨toUInt32_ne_magic (ht.size_le (by simp)), (by decide : fluxMemAny ≠ memBlockMagic),
      zero_ne_magic, zero_ne_magic⟩
  have hold := hrest.noMagic hA hb
  have hcut : MagicIn place ((k ++ b.front needed :: b.remainder needed :: l).map Block.addr)
      (h.cutHeaders b needed) :=
    hrest.modifyBlock hb ⟨toUInt32_ne_magic (ht.size_le (b := b.front needed) (by simp)), hold.type, hold.next,
      hold.prev⟩
  rw [memSplitBlock_of_room (hlay.holds b (by simp)).size hroom] at hsplit
  rw [List.append_cons] at hcut ⊢
  exact hcut.add hplace ht' (freeAddrs_sublist.trans ((List.sublist_append_left ..).map _)) freeAddrs_sublist
    (freeListIs_cutHeaders ht hlist) hsplit

/-- The header of the second block of a merge loses the magic value. -/
theorem mergeNext (hm : MagicIn place ((k ++ b :: c :: l).map Block.addr) h) (hplace : place.NoMagic)
    (hlay : Layout place h (k ++ b :: c :: l)) (hlist : h.FreeListIs (freeAddrs (k ++ b :: c :: l)))
    (hb : b.free = true) (hc : c.free = true) :
    MagicIn place ((k ++ b.merged c :: l).map Block.addr) (h.mergeNext b.addr c.addr) := by
  have hA := headers_of_tiles hlay.tiles
  have ht' := hlay.tiles.merge
  have hA' := headers_of_tiles ht'
  have hbA : b.addr ∈ (k ++ b :: c :: l).map Block.addr := by simp
  have hcA : c.addr ∈ (k ++ b :: c :: l).map Block.addr := by simp
  have hbA' : b.addr ∈ (k ++ b.merged c :: l).map Block.addr := by simp [Block.merged]
  have hcb : c.addr ≠ b.addr := hlay.tiles.addr_ne (by simp)
  have hsized : MagicIn place ((k ++ b :: c :: l).map Block.addr) (h.modifyBlock b.addr fun x =>
      { x with size := x.size + (memBlockBytes + (h.block c.addr).size) }) := by
    have hold := hm.noMagic hA hbA
    refine hm.modifyBlock hbA ⟨?_, hold.type, hold.next, hold.prev⟩
    rw [(hlay.holds b (by simp)).size, (hlay.holds c (by simp)).size]
    exact toUInt32_ne_magic (ht'.size_le (b := b.merged c) (by simp))
  have hheaders : MagicIn place ((k ++ b.merged c :: l).map Block.addr) (h.mergedHeaders b.addr c.addr) := by
    have hall : MagicIn place ((k ++ b :: c :: l).map Block.addr) (h.mergedHeaders b.addr c.addr) := by
      have hold := hsized.noMagic hA hcA
      exact hsized.modifyBlock hcA ⟨hold.size, hold.type, hold.next, hold.prev⟩
    refine hall.drop ?_ fun a ha hnot => ?_
    · intro p hp
      simp only [List.map_append, List.map_cons, List.mem_append, List.mem_cons] at hp ⊢
      exact hp.imp_right fun hp => hp.imp_right .inr
    · simp only [List.map_append, List.map_cons, List.mem_append, List.mem_cons, not_or] at ha hnot
      obtain rfl : a = c.addr := by
        rcases ha with ha | rfl | rfl | ha
        · exact absurd ha hnot.1
        · exact absurd rfl hnot.2.1
        · rfl
        · exact absurd ha hnot.2.2
      have hmagic : ((h.mergedHeaders b.addr c.addr).block c.addr).magic = 0 :=
        congrArg MemBlock.magic block_modifyBlock_self
      rw [hmagic]
      decide
  have hy : (freeAddrs l).headD 0 ∈ 0 :: (k ++ b.merged c :: l).map Block.addr := by
    refine List.cons_subset_cons 0 (fun p hp => ?_) (headD_mem 0 _)
    have hpl := freeAddrs_subset hp
    simp only [List.map_append, List.map_cons, List.mem_append, List.mem_cons]
    exact .inr (.inr hpl)
  rw [mergeNext_eq hA.toApart hbA hcA hcb, next_mergedHeaders hlay hb hc hlist]
  have hb' : b.addr ∈ 0 :: (k ++ b.merged c :: l).map Block.addr := List.mem_cons_of_mem _ hbA'
  exact (hheaders.setNext hA' hb' (hA'.link_ne hplace hy)).setPrev hA' hy (hA'.link_ne hplace hb')

/-- The blocks after `mem_coalesce`. -/
theorem memCoalesce (hm : MagicIn place (bs.map Block.addr) h) (hplace : place.NoMagic) (hlay : Layout place h bs)
    (hlist : h.FreeListIs (freeAddrs bs)) :
    ∃ h' bs', h.memCoalesce = some h' ∧ Layout place h' bs' ∧ MagicIn place (bs'.map Block.addr) h' := by
  obtain ⟨h', bs', hloop, hlay', -, -, hm'⟩ := coalesceLoop_rule
    (I := fun h bs => MagicIn place (bs.map Block.addr) h)
    (fun h k b c l hlay hlist hb hc hm => hm.mergeNext hplace hlay hlist hb hc) hlay hlist hlay.tiles.length_lt hm
  exact ⟨h', bs', hloop, hlay', hm'⟩

/-! ## Writes to payloads -/

/-- A word that changes does not become the magic value. -/
theorem of_words (hm : MagicIn place A h) (hwords : ∀ i, place.base.toNat ≤ i →
      i < place.base.toNat + fluxHeapSize.toNat → i % 8 = 0 → h'.word i = h.word i ∨ h'.word i ≠ memBlockMagic) :
    MagicIn place A h' := by
  refine ⟨hm.aligned, fun i h₁ h₂ h8 hword => ?_⟩
  rcases hwords i h₁ h₂ h8 with hsame | hother
  · exact hm.only i h₁ h₂ h8 (hsame ▸ hword)
  · exact absurd hword hother

theorem fill {s n : Nat} (hm : MagicIn place A h) (hs : s % 8 = 0) (hn : n % 8 = 0) :
    MagicIn place A { h with mem := fill h.mem s n 0 } := by
  refine hm.of_words fun i _ _ h8 => ?_
  by_cases hin : s ≤ i ∧ i < s + n
  · right
    have hzero : read (ByteMemory.fill h.mem s n 0) i 4 = read (fun _ => 0) i 4 :=
      read_congr fun j hj₁ hj₂ => fill_of_inside (by omega) (by omega)
    have hbytes : read (fun _ => 0) i 4 = [0, 0, 0, 0] := rfl
    rw [word, hzero, hbytes]
    decide
  · exact .inl (word_congr fun j hj₁ hj₂ => fill_of_outside (by omega))

/-- The bytes copied come from where no header is. -/
theorem copy {d s n : Nat} (hm : MagicIn place A h) (hd : d % 8 = 0) (hs : s % 8 = 0) (hn : n % 8 = 0)
    (hbase : place.base.toNat ≤ s) (hend : s + n ≤ place.base.toNat + fluxHeapSize.toNat)
    (hout : ∀ a ∈ A, a.toNat < s ∨ s + n ≤ a.toNat) :
    MagicIn place A { h with mem := copy h.mem d s n } := by
  refine hm.of_words fun i _ _ h8 => ?_
  by_cases hin : d ≤ i ∧ i < d + n
  · right
    obtain ⟨j, rfl⟩ := Nat.exists_eq_add_of_le hin.1
    have hcopied : word { h with mem := ByteMemory.copy h.mem d s n } (d + j) = h.word (s + j) := by
      have hread : read (ByteMemory.copy h.mem d s n) (d + j) 4 = read h.mem (s + j) 4 := by
        refine List.map_congr_left fun m hm => ?_
        have := List.mem_range.1 hm
        rw [Nat.add_assoc, Nat.add_assoc]
        exact copy_of_inside (by omega)
      rw [word, hread]
      rfl
    rw [hcopied]
    intro hword
    obtain ⟨a, ha, haj⟩ := hm.only (s + j) (by omega) (by omega) (by omega) hword
    have := hout a ha
    omega
  · exact .inl (word_congr fun j hj₁ hj₂ => copy_of_outside (by omega))

/-- Blocks end at multiples of 8. -/
theorem stop_aligned (hm : MagicIn place (bs.map Block.addr) h) (ht : TilesHeap place bs) (hb : b ∈ bs) :
    b.stop % 8 = 0 := by
  obtain ⟨k, l, rfl⟩ := List.append_of_mem hb
  have hbase : place.base.toNat % 16 = 0 := place.aligned
  have hheap : fluxHeapSize.toNat = 16777216 := rfl
  cases l with
  | nil =>
    obtain ⟨x, -, -, hstop⟩ := tiles_append.1 ht
    have hstop : b.stop = place.base.toNat + fluxHeapSize.toNat := hstop
    omega
  | cons c l =>
    rw [ht.stop_eq_start]
    exact hm.aligned c.addr (by simp)

end MagicIn

/-- The magic value is in the first words of headers only. -/
def MagicAtHeaders (place : HeapPlace) (h : MemHeap) : Prop :=
  MagicIn place ((h.heapBlocks place).map Block.addr) h

theorem magicAtHeaders_iff (hlay : Layout place h bs) :
    MagicAtHeaders place h ↔ MagicIn place (bs.map Block.addr) h := by
  rw [MagicAtHeaders, hlay.heapBlocks_eq]

end MemHeap

end FluxOs
