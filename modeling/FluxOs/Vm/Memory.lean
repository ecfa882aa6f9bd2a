import FluxOs.Vm.Region

/-!
# Memory operations

The byte accesses of `vm.c` to a region and the opcode cases `OP_LOAD` to `MEMSET`.  Region memory is
big-endian; the stack words that loads and stores fall back to when no region is active are accessed
through the host's byte order, which is little-endian.
-/

namespace FluxOs

/-- What an opcode case does: `none` leaves the switch, `some status` returns from the step. -/
abbrev Exec := Except Fault (Option FluxStatus × FluxVm)

/-! ## Byte accesses -/

namespace FluxVmRegion

/-- `reg->data[offset]`, in the region of slot `slot`. -/
def byteAt (reg : FluxVmRegion) (slot : Fin 16) (offset : UInt64) : Except Fault UInt8 :=
  if offset < reg.size then .ok (reg.data.bytes offset.toNat)
  else .error (.regionByte slot offset.toNat)

/-- `reg->data[offset] = b`. -/
def setByteAt (reg : FluxVmRegion) (slot : Fin 16) (offset : UInt64) (b : UInt8) :
    Except Fault FluxVmRegion :=
  if offset < reg.size then
    .ok { reg with data := { reg.data with bytes := Function.update reg.data.bytes offset.toNat b } }
  else .error (.regionByte slot offset.toNat)

/-- The big-endian value of `width` bytes from `offset` on. -/
def readBigEndian (reg : FluxVmRegion) (slot : Fin 16) (width : Nat) (offset : UInt64) :
    Except Fault UInt64 :=
  (List.range width).foldlM
    (fun val i => do
      let b ← reg.byteAt slot (offset + UInt64.ofNat i)
      return (val <<< 8) ||| b.toUInt64) 0

/-- Store the low `width` bytes of `val` from `offset` on, most significant first. -/
def writeBigEndian (reg : FluxVmRegion) (slot : Fin 16) (width : Nat) (offset val : UInt64) :
    Except Fault FluxVmRegion :=
  (List.range width).foldlM
    (fun reg i => reg.setByteAt slot (offset + UInt64.ofNat i)
      (val >>> UInt64.ofNat (8 * (width - 1 - i))).toUInt8) reg

/-- The shape of `mem_read64`, `mem_read32` and `mem_read16`. -/
def memRead (width : Nat) (extend : UInt64 → UInt64) (reg : FluxVmRegion) (slot : Fin 16)
    (offset : UInt64) : Except Fault UInt64 :=
  if offset + UInt64.ofNat width > reg.size then .ok 0
  else extend <$> reg.readBigEndian slot width offset

/-- The shape of `mem_write64`, `mem_write32` and `mem_write16`. -/
def memWrite (width : Nat) (reg : FluxVmRegion) (slot : Fin 16) (offset val : UInt64) :
    Except Fault FluxVmRegion :=
  if offset + UInt64.ofNat width > reg.size then .ok reg
  else reg.writeBigEndian slot width offset val

end FluxVmRegion

def signExtend32 (v : UInt64) : UInt64 := v.toUInt32.toInt32.toInt64.toUInt64

def signExtend16 (v : UInt64) : UInt64 := v.toUInt16.toInt16.toInt64.toUInt64

def signExtend8 (v : UInt64) : UInt64 := v.toUInt8.toInt8.toInt64.toUInt64

open FluxVmRegion

def memRead64 := memRead 8 id

def memRead32 := memRead 4 signExtend32

def memRead16 := memRead 2 signExtend16

def memRead8 (reg : FluxVmRegion) (slot : Fin 16) (offset : UInt64) : Except Fault UInt64 :=
  if offset ≥ reg.size then .ok 0
  else (fun b => signExtend8 b.toUInt64) <$> reg.byteAt slot offset

def memWrite64 := memWrite 8

def memWrite32 := memWrite 4

def memWrite16 := memWrite 2

def memWrite8 (reg : FluxVmRegion) (slot : Fin 16) (offset val : UInt64) :
    Except Fault FluxVmRegion :=
  if offset ≥ reg.size then .ok reg else reg.setByteAt slot offset val.toUInt8

/-- Byte `k` of a word in the host's memory. -/
def hostByte (w : UInt64) (k : Nat) : UInt8 := (w >>> UInt64.ofNat (8 * k)).toUInt8

def setHostByte (w : UInt64) (k : Nat) (b : UInt8) : UInt64 :=
  (w &&& ~~~((0xFF : UInt64) <<< UInt64.ofNat (8 * k))) ||| (b.toUInt64 <<< UInt64.ofNat (8 * k))

/-- `p[0] << 8 * (width - 1) | … | p[width - 1]` for `p = (uint8_t *)&w`. -/
def hostBytesBigEndian (w : UInt64) (width : Nat) : UInt64 :=
  (List.range width).foldl (fun val k => (val <<< 8) ||| (hostByte w k).toUInt64) 0

/-- `p[0] = v >> 8 * (width - 1); …; p[width - 1] = v` for `p = (uint8_t *)&w`. -/
def setHostBytesBigEndian (w : UInt64) (width : Nat) (v : UInt64) : UInt64 :=
  (List.range width).foldl
    (fun w k => setHostByte w k (v >>> UInt64.ofNat (8 * (width - 1 - k))).toUInt8) w

namespace FluxVm

variable (vm : FluxVm)

/-! ## Loads and stores -/

/-- The slot that loads and stores address: the active region, if it is one. -/
def activeSlot : Option (Fin 16) :=
  (regionSlot? vm.activeRegion).filter fun slot => (vm.regions slot).active

/-- The slot that the atomic operations and `MEMSET` address; they do not check that the active
region is below `FLUX_REGION_MAX`. -/
def activeSlotUnchecked : Except Fault (Option (Fin 16)) :=
  if vm.activeRegion < 0 then .ok none
  else match regionSlot? vm.activeRegion with
    | none => .error (.regionSlot vm.activeRegion)
    | some slot => .ok (if (vm.regions slot).active then some slot else none)

/-- `OP_LOAD` to `OP_LEA` on the active region. -/
def regionAccess (op : MemoryOp) (i : FluxVmInsn) (ea : UInt64) (slot : Fin 16) : Exec :=
  let reg := vm.regions slot
  let load (read : FluxVmRegion → Fin 16 → UInt64 → Except Fault UInt64) : Exec := do
    let val ← read reg slot ea
    return (none, ← vm.fluxVmSetReg i.rd val)
  let store (write : FluxVmRegion → Fin 16 → UInt64 → UInt64 → Except Fault FluxVmRegion) :
      Exec := do
    let val ← vm.fluxVmGetReg i.rd
    return (none, vm.putRegion slot (← write reg slot ea val))
  match op with
  | .LOAD => load memRead64
  | .LOAD8 => load memRead8
  | .LOAD16 => load memRead16
  | .LOAD32 => load memRead32
  | .STORE => store memWrite64
  | .STORE8 => store memWrite8
  | .STORE16 => store memWrite16
  | .STORE32 => store memWrite32
  | .LEA => do return (none, ← vm.fluxVmSetReg i.rd ea)
  | _ => .ok (none, vm)

/-- `OP_LOAD` to `OP_LEA` without an active region: the stack is used as memory. -/
def stackAccess (op : MemoryOp) (i : FluxVmInsn) (ea : UInt64) : Exec :=
  let addr := vm.regs fluxRegSp - ea
  let load (inBounds : Bool) (read : UInt64 → UInt64) : Exec :=
    if inBounds then do
      let w ← vm.stackAt addr
      return (none, ← vm.fluxVmSetReg i.rd (read w))
    else .ok (none, vm)
  let store (inBounds : Bool) (write : UInt64 → UInt64 → UInt64) : Exec :=
    if inBounds then do
      let val ← vm.fluxVmGetReg i.rd
      let w ← vm.stackAt addr
      return (none, ← vm.setStackAt addr (write w val))
    else .ok (none, vm)
  match op with
  | .LOAD => load (addr + 8 ≤ vm.stackSize) id
  | .LOAD8 => load (addr < vm.stackSize) fun w => signExtend8 (hostBytesBigEndian w 1)
  | .LOAD16 => load (addr + 2 ≤ vm.stackSize) fun w => signExtend16 (hostBytesBigEndian w 2)
  | .LOAD32 => load (addr + 4 ≤ vm.stackSize) fun w => signExtend32 (hostBytesBigEndian w 4)
  | .STORE => store (addr + 8 ≤ vm.stackSize) fun _ v => v
  | .STORE8 => store (addr < vm.stackSize) fun w v => setHostBytesBigEndian w 1 v
  | .STORE16 => store (addr + 2 ≤ vm.stackSize) fun w v => setHostBytesBigEndian w 2 v
  | .STORE32 => store (addr + 4 ≤ vm.stackSize) fun w v => setHostBytesBigEndian w 4 v
  | .LEA => do return (none, ← vm.fluxVmSetReg i.rd addr)
  | _ => .ok (none, vm)

/-! ## Atomic and region operations -/

/-- The shape of `OP_ATOMIC_ADD` and `OP_ATOMIC_SUB`: fetch, and store `combine old operand`. -/
def atomicUpdate (combine : UInt64 → UInt64 → UInt64) (i : FluxVmInsn) (ea : UInt64) : Exec := do
  match ← vm.activeSlotUnchecked with
  | none => return (none, vm)
  | some slot =>
    let reg := vm.regions slot
    let oldVal ← memRead64 reg slot ea
    let operand ← vm.fluxVmGetReg i.rd
    let vm := vm.putRegion slot (← memWrite64 reg slot ea (combine oldVal operand))
    return (none, ← vm.fluxVmSetReg i.rd oldVal)

/-- `OP_CMPXCHG`, up to the write of the flags register. -/
def compareExchange (i : FluxVmInsn) (ea : UInt64) : Except Fault FluxVm := do
  match ← vm.activeSlotUnchecked with
  | none => return vm
  | some slot =>
    let reg := vm.regions slot
    let expected ← vm.fluxVmGetReg i.rs2
    let actual ← memRead64 reg slot ea
    let desired ← vm.fluxVmGetReg i.rd
    let reg ← if actual = expected then memWrite64 reg slot ea desired else .ok reg
    (vm.putRegion slot reg).fluxVmSetReg i.rd actual

/-- The slot named by the low byte of a register, if it holds an active region. -/
def namedSlot (v : UInt64) : Option (Fin 16) :=
  (regionSlot? ((v &&& 0xFF).toNat : Int)).filter fun slot => (vm.regions slot).active

def loadRegion (i : FluxVmInsn) (v1 : UInt64) : Exec :=
  match vm.namedSlot v1 with
  | none => .ok (none, vm)
  | some slot => do
    let reg := vm.regions slot
    let off := (← vm.fluxVmGetReg i.rd) &&& 0xFFFFFFFF
    if off + 8 ≤ reg.size then
      let val ← memRead64 reg slot off
      return (none, ← vm.fluxVmSetReg i.rd val)
    else return (none, vm)

def storeRegion (i : FluxVmInsn) (v1 v2 : UInt64) : Exec :=
  match vm.namedSlot v1 with
  | none => .ok (none, vm)
  | some slot => do
    let reg := vm.regions slot
    let off := (← vm.fluxVmGetReg i.rd) &&& 0xFFFFFFFF
    if off + 8 ≤ reg.size then return (none, vm.putRegion slot (← memWrite64 reg slot off v2))
    else return (none, vm)

/-- The loop of `MEMSET` from index `k` on; `fuel` is the number of rounds the bound `count`
allows. -/
def memsetLoop (slot : Fin 16) (off count : UInt64) (fill : UInt8) :
    Nat → UInt64 → FluxVmRegion → Except Fault FluxVmRegion
  | 0, _, reg => .ok reg
  | fuel + 1, k, reg =>
    if k < count ∧ off + k < reg.size then do
      memsetLoop slot off count fill fuel (k + 1) (← reg.setByteAt slot (off + k) fill)
    else .ok reg

def memset (i : FluxVmInsn) (v1 v2 : UInt64) : Exec := do
  match ← vm.activeSlotUnchecked with
  | none => return (none, vm)
  | some slot =>
    let reg := vm.regions slot
    let off := v1 &&& 0xFFFFFFFF
    let fill := (v2 &&& 0xFF).toUInt8
    let count ← vm.fluxVmGetReg i.rd
    return (none, vm.putRegion slot (← memsetLoop slot off count fill count.toNat 0 reg))

/-- The memory operations; `v1` and `v2` are the values of `rs1` and `rs2`. -/
def execMemory (op : MemoryOp) (i : FluxVmInsn) (v1 v2 : UInt64) : Exec :=
  let ea := v1 + i.offset
  match op with
  | .LOAD | .LOAD8 | .LOAD16 | .LOAD32 | .STORE | .STORE8 | .STORE16 | .STORE32 | .LEA =>
    match vm.activeSlot with
    | some slot => vm.regionAccess op i ea slot
    | none => vm.stackAccess op i ea
  | .CMPXCHG => do
    let vm ← vm.compareExchange i ea
    return (none, vm.putReg fluxRegFlags 0)
  | .ATOMIC_ADD => vm.atomicUpdate (· + ·) i ea
  | .ATOMIC_SUB => vm.atomicUpdate (· - ·) i ea
  | .FENCE => .ok (none, vm)
  | .LOAD_RM => vm.loadRegion i v1
  | .STORE_RM => vm.storeRegion i v1 v2
  | .MEMSET => vm.memset i v1 v2

end FluxVm

end FluxOs
