import FluxOs.Lib.ByteMemory

/-!
# The kernel heap

The state and the functions of `kernel/mem.c` for a heap of bytes.  Block headers are read from and
written to the bytes they occupy, so that what a client or the allocator stores is seen by every later
access.  A loop over the free list that does not end is `none`: every walk through more nodes than the
heap has bytes is one.  The lock, the tags of the memory map and the permission table are left out.
-/

namespace FluxOs

open ByteMemory

/-! ## Block headers -/

/-- `mem_block_t`. -/
structure MemBlock where
  magic : UInt32
  flags : UInt32
  size : UInt64
  type : UInt32
  ownerPid : UInt32
  next : UInt64
  prev : UInt64
  deriving DecidableEq

/-- `sizeof(mem_block_t)`. -/
def memBlockBytes : UInt64 := 40

def fluxHeapSize : UInt64 := 16777216

def fluxMemAlign : UInt64 := 16

def fluxMemMaxMapEntries : Nat := 2048

def memBlockMagic : UInt32 := 0x464C5558

def memBlockUsed : UInt32 := 1

def memBlockFree : UInt32 := 2

def fluxMemAny : UInt32 := 0

def fluxMemKernel : UInt32 := 1

def fluxPidInvalid : UInt32 := 0

def fluxPidKernel : UInt32 := 1

namespace MemBlock

/-- The bytes of a header. -/
def encode (b : MemBlock) : List UInt8 :=
  leBytes 4 b.magic.toNat ++ leBytes 4 b.flags.toNat ++ leBytes 8 b.size.toNat ++
    leBytes 4 b.type.toNat ++ leBytes 4 b.ownerPid.toNat ++ leBytes 8 b.next.toNat ++
    leBytes 8 b.prev.toNat

/-- The header in a list of bytes. -/
def decode (bs : List UInt8) : MemBlock where
  magic := UInt32.ofNat (leNat (bs.take 4))
  flags := UInt32.ofNat (leNat ((bs.drop 4).take 4))
  size := UInt64.ofNat (leNat ((bs.drop 8).take 8))
  type := UInt32.ofNat (leNat ((bs.drop 16).take 4))
  ownerPid := UInt32.ofNat (leNat ((bs.drop 20).take 4))
  next := UInt64.ofNat (leNat ((bs.drop 24).take 8))
  prev := UInt64.ofNat (leNat ((bs.drop 32).take 8))

theorem length_encode (b : MemBlock) : b.encode.length = memBlockBytes.toNat := by
  simp only [encode, List.length_append, length_leBytes]
  rfl

theorem decode_encode (b : MemBlock) : decode b.encode = b := by
  have h32 (x : UInt32) : UInt32.ofNat (leNat (leBytes 4 x.toNat)) = x := by
    rw [leNat_leBytes_of_lt x.toNat_lt, UInt32.ofNat_toNat]
  have h64 (x : UInt64) : UInt64.ofNat (leNat (leBytes 8 x.toNat)) = x := by
    rw [leNat_leBytes_of_lt x.toNat_lt, UInt64.ofNat_toNat]
  obtain ⟨magic, flags, size, type, ownerPid, next, prev⟩ := b
  simp only [decode, encode, MemBlock.mk.injEq]
  have hdrop (w i n : Nat) (hi : w ≤ i) : (leBytes w n).drop i = [] :=
    List.drop_eq_nil_of_le (by rw [length_leBytes]; exact hi)
  have htake (w i n : Nat) (hi : w ≤ i) : (leBytes w n).take i = leBytes w n :=
    List.take_of_length_le (by rw [length_leBytes]; exact hi)
  simp [List.drop_append, hdrop, htake, h32, h64]

end MemBlock

/-! ## State -/

/-- `mem_map_entry_t`. -/
structure MemMapEntry where
  base : UInt64
  size : UInt64
  type : UInt32
  perms : UInt32
  ownerPid : UInt32
  active : Bool
  deriving DecidableEq

/-- `FLUX_PERM_RWX`. -/
def fluxPermRwx : UInt32 := 7

/-- Where the heap lies in the address space: `s_heap`, with an address after its end. -/
structure HeapPlace where
  base : UInt64
  pos : 0 < base.toNat
  aligned : base.toNat % fluxMemAlign.toNat = 0
  fits : base.toNat + fluxHeapSize.toNat < UInt64.size

/-- The memory and the static variables of the allocator. -/
structure MemHeap where
  mem : Memory
  freeList : UInt64
  usedHeap : UInt64
  freeHeap : UInt64
  allocCount : UInt32
  freeCount : UInt32
  allocFailures : UInt32
  allocSeq : UInt32
  memMap : List MemMapEntry
  memMapCount : UInt32

namespace MemHeap

variable (h : MemHeap)

/-- The header at an address. -/
def block (p : UInt64) : MemBlock := .decode (read h.mem p.toNat memBlockBytes.toNat)

/-- Change the header at an address. -/
def modifyBlock (p : UInt64) (f : MemBlock → MemBlock) : MemHeap :=
  { h with mem := write h.mem p.toNat (f (h.block p)).encode }

/-! ## The free list -/

/-- More nodes than any list in the heap has. -/
def walkFuel : Nat := fluxHeapSize.toNat

/-- `mem_align_up`. -/
def memAlignUp (val align : UInt64) : UInt64 := (val + align - 1) &&& ~~~(align - 1)

/-- `mem_ptr_from_block`. -/
def memPtrFromBlock (block : UInt64) : UInt64 := block + memBlockBytes

/-- `mem_block_from_ptr`. -/
def memBlockFromPtr (ptr : UInt64) : UInt64 := ptr - memBlockBytes

/-- The loop of `mem_find_free_block` from `block` on. -/
def findFrom (size : UInt64) : Nat → (best block : UInt64) → Option UInt64
  | 0, _, _ => none
  | fuel + 1, best, block =>
    if block = 0 then some best
    else
      let b := h.block block
      let best :=
        if b.flags &&& memBlockFree ≠ 0 ∧ b.size ≥ size ∧ (best = 0 ∨ b.size < (h.block best).size)
        then block else best
      findFrom size fuel best b.next

/-- `mem_find_free_block`. -/
def memFindFreeBlock (size : UInt64) : Option UInt64 := h.findFrom size walkFuel 0 h.freeList

/-- `mem_remove_from_free_list`. -/
def memRemoveFromFreeList (block : UInt64) : MemHeap :=
  let b := h.block block
  let h :=
    if b.prev ≠ 0 then h.modifyBlock b.prev fun p => { p with next := b.next }
    else { h with freeList := b.next }
  let b := h.block block
  let h := if b.next ≠ 0 then h.modifyBlock b.next fun n => { n with prev := b.prev } else h
  h.modifyBlock block fun b => { b with next := 0, prev := 0 }

/-- The loop of `mem_add_to_free_list`: the last node below `block` and the one after it. -/
def insertionPoint (block : UInt64) : Nat → (prev curr : UInt64) → Option (UInt64 × UInt64)
  | 0, _, _ => none
  | fuel + 1, prev, curr =>
    if curr ≠ 0 ∧ curr < block then insertionPoint block fuel curr (h.block curr).next
    else some (prev, curr)

/-- `mem_add_to_free_list`. -/
def memAddToFreeList (block : UInt64) : Option MemHeap := do
  let h := h.modifyBlock block fun b => { b with flags := memBlockFree, next := 0, prev := 0 }
  if h.freeList = 0 then return { h with freeList := block }
  else
    let (prev, curr) ← h.insertionPoint block walkFuel 0 h.freeList
    let h :=
      if prev ≠ 0 then
        (h.modifyBlock prev fun p => { p with next := block }).modifyBlock block
          fun b => { b with prev := prev }
      else { h with freeList := block }
    let h := h.modifyBlock block fun b => { b with next := curr }
    return if curr ≠ 0 then h.modifyBlock curr fun c => { c with prev := block } else h

/-- Merge a block with the next one of the list. -/
def mergeNext (block next : UInt64) : MemHeap :=
  let h := h.modifyBlock block fun b => { b with size := b.size + (memBlockBytes + (h.block next).size) }
  let h := h.modifyBlock next fun n => { n with magic := 0 }
  let after := (h.block next).next
  let h := h.modifyBlock block fun b => { b with next := after }
  let after := (h.block next).next
  if after ≠ 0 then h.modifyBlock after fun n => { n with prev := block } else h

/-- The scan of `mem_coalesce` from `block` on, with `merged`. -/
def coalesceFrom : Nat → (block : UInt64) → Option (MemHeap × Bool)
  | 0, _ => none
  | fuel + 1, block =>
    if block = 0 then some (h, false)
    else
      let b := h.block block
      if b.flags &&& memBlockFree = 0 then coalesceFrom fuel b.next
      else
        let blockEnd := block + memBlockBytes + b.size
        if b.next ≠ 0 ∧ b.next = blockEnd ∧ (h.block b.next).flags &&& memBlockFree ≠ 0 then
          some (h.mergeNext block b.next, true)
        else coalesceFrom fuel b.next

/-- The outer loop of `mem_coalesce`. -/
def coalesceLoop : Nat → MemHeap → Option MemHeap
  | 0, _ => none
  | fuel + 1, h => do
    let (h, merged) ← h.coalesceFrom walkFuel h.freeList
    if merged then coalesceLoop fuel h else return h

/-- `mem_coalesce`. -/
def memCoalesce : Option MemHeap := coalesceLoop walkFuel h

/-- `mem_split_block`. -/
def memSplitBlock (block needed : UInt64) : Option MemHeap :=
  let remainder := (h.block block).size - needed
  let minBlock := memBlockBytes + fluxMemAlign
  if remainder ≥ minBlock then
    let newBlock := block + memBlockBytes + needed
    let h := h.modifyBlock newBlock fun _ => {
      magic := memBlockMagic
      flags := memBlockFree
      size := remainder - memBlockBytes
      type := fluxMemAny
      ownerPid := fluxPidInvalid
      next := 0
      prev := 0 }
    let h := h.modifyBlock block fun b => { b with size := needed }
    h.memAddToFreeList newBlock
  else some h

/-! ## The memory map -/

/-- `mem_map_add`; its status is ignored by all callers. -/
def memMapAdd (base size : UInt64) (type ownerPid : UInt32) : MemHeap :=
  match h.memMap.findIdx? fun entry => !entry.active with
  | none => h
  | some i =>
    { h with
      memMap := h.memMap.set i { base, size, type, perms := fluxPermRwx, ownerPid, active := true }
      memMapCount := if i ≥ h.memMapCount.toNat then UInt32.ofNat (i + 1) else h.memMapCount }

/-- `mem_map_remove`; its status is ignored by all callers. -/
def memMapRemove (base : UInt64) : MemHeap :=
  match (h.memMap.take h.memMapCount.toNat).findIdx? fun entry => entry.active && entry.base = base with
  | none => h
  | some i => { h with memMap := h.memMap.modify i fun entry => { entry with active := false } }

/-! ## The interface -/

/-- `flux_mem_init`. -/
def fluxMemInit (place : HeapPlace) : MemHeap :=
  let h := { h with
    mem := fill h.mem place.base.toNat fluxHeapSize.toNat 0
    usedHeap := 0
    freeHeap := fluxHeapSize
    allocCount := 0
    freeCount := 0
    allocFailures := 0
    allocSeq := 0
    memMapCount := 0 }
  let h := h.modifyBlock place.base fun _ => {
    magic := memBlockMagic
    flags := memBlockFree
    size := fluxHeapSize - memBlockBytes
    type := fluxMemAny
    ownerPid := fluxPidInvalid
    next := 0
    prev := 0 }
  let h := { h with freeList := place.base }
  h.memMapAdd place.base fluxHeapSize fluxMemKernel fluxPidKernel

/-- `flux_alloc` for the process `pid`; the pointer 0 is `NULL`. -/
def fluxAlloc (size : UInt64) (type pid : UInt32) : Option (UInt64 × MemHeap) := do
  if size = 0 then return (0, h)
  let alignedSize := memAlignUp size fluxMemAlign
  let block ← h.memFindFreeBlock alignedSize
  if block = 0 then return (0, { h with allocFailures := h.allocFailures + 1 })
  let h := h.memRemoveFromFreeList block
  let h ← h.memSplitBlock block alignedSize
  let h := h.modifyBlock block fun b =>
    { b with magic := memBlockMagic, flags := memBlockUsed, type, ownerPid := pid }
  let total := memBlockBytes + alignedSize
  let h := { h with
    usedHeap := h.usedHeap + total
    freeHeap := h.freeHeap - total
    allocCount := h.allocCount + 1
    allocSeq := h.allocSeq + 1 }
  let ptr := memPtrFromBlock block
  let h := h.memMapAdd ptr alignedSize type (h.block block).ownerPid
  return (ptr, { h with mem := fill h.mem ptr.toNat alignedSize.toNat 0 })

/-- `flux_free`. -/
def fluxFree (ptr : UInt64) : Option MemHeap := do
  if ptr = 0 then return h
  let block := memBlockFromPtr ptr
  if (h.block block).magic ≠ memBlockMagic then return h
  if (h.block block).flags &&& memBlockUsed = 0 then return h
  let total := memBlockBytes + (h.block block).size
  let h := h.memMapRemove ptr
  let h := { h with
    usedHeap := h.usedHeap - total
    freeHeap := h.freeHeap + total
    freeCount := h.freeCount + 1 }
  let h := h.modifyBlock block fun b => { b with ownerPid := fluxPidInvalid }
  let h ← h.memAddToFreeList block
  h.memCoalesce

/-- `flux_realloc` for the process `pid`. -/
def fluxRealloc (ptr newSize : UInt64) (type pid : UInt32) : Option (UInt64 × MemHeap) := do
  if ptr = 0 then h.fluxAlloc newSize type pid
  else if newSize = 0 then return (0, ← h.fluxFree ptr)
  else
    let block := memBlockFromPtr ptr
    if (h.block block).magic ≠ memBlockMagic ∨ (h.block block).flags &&& memBlockUsed = 0 then
      return (0, h)
    let alignedNew := memAlignUp newSize fluxMemAlign
    if (h.block block).size ≥ alignedNew then
      return (ptr, h.modifyBlock block fun b => { b with type })
    let (newPtr, h) ← h.fluxAlloc newSize type pid
    if newPtr = 0 then return (0, h)
    let newBlock := memBlockFromPtr newPtr
    let copySize := min (h.block block).size (h.block newBlock).size
    let h := { h with mem := copy h.mem newPtr.toNat ptr.toNat copySize.toNat }
    return (newPtr, ← h.fluxFree ptr)

end MemHeap

end FluxOs
