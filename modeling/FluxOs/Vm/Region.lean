import FluxOs.Vm.State

/-!
# Memory region management

The region table of a VM: `vm/region.c`.  A region id is a C `int`; `validateRegionId` gives the slot
of a valid one.
-/

namespace FluxOs

namespace HostHeap

/-- `calloc(size, 1)`. -/
def calloc (host : Host) (heap : HostHeap) (size : UInt64) : HostHeap × Option Buffer :=
  match host.calloc heap size with
  | none => ({ heap with calls := heap.calls + 1 }, none)
  | some addr => (⟨heap.calls + 1, addr :: heap.live⟩, some ⟨addr, size.toNat, fun _ => 0⟩)

/-- `realloc(buf, size)`; the bytes up to the old length are kept. -/
def realloc (host : Host) (heap : HostHeap) (buf : Buffer) (size : UInt64) :
    HostHeap × Option Buffer :=
  match host.realloc heap buf.addr size with
  | none => ({ heap with calls := heap.calls + 1 }, none)
  | some addr => (⟨heap.calls + 1, addr :: heap.live.erase buf.addr⟩,
      some ⟨addr, size.toNat, buf.bytes⟩)

/-- `if (ptr) free(ptr)`. -/
def freeUnlessNull (heap : HostHeap) (addr : UInt64) : Except Fault HostHeap :=
  if addr ≠ 0 then heap.free addr else .ok heap

end HostHeap

/-- `memcpy(dst + offset, src, count)`. -/
def Buffer.copyIn (dst : Buffer) (offset count : Nat) (src : Nat → UInt8) : Buffer :=
  { dst with bytes := fun i =>
      if offset ≤ i ∧ i < offset + count then src (i - offset) else dst.bytes i }

namespace FluxVm

variable (vm : FluxVm)

def putRegion (slot : Fin 16) (r : FluxVmRegion) : FluxVm :=
  { vm with regions := Function.update vm.regions slot r }

@[simp] theorem putRegion_self (slot : Fin 16) (r : FluxVmRegion) :
    (vm.putRegion slot r).regions slot = r := by
  simp [putRegion]

theorem putRegion_of_ne {slot s : Fin 16} (h : s ≠ slot) (r : FluxVmRegion) :
    (vm.putRegion slot r).regions s = vm.regions s := by
  simp [putRegion, h]

/-- The slot of a region id inside the table. -/
def regionSlot? (regionId : Int) : Option (Fin 16) :=
  if h : 0 ≤ regionId ∧ regionId < 16 then some ⟨regionId.toNat, by omega⟩ else none

theorem regionSlot?_eq_some {regionId : Int} {slot : Fin 16} :
    regionSlot? regionId = some slot ↔ regionId = slot.val := by
  unfold regionSlot?
  constructor
  · split
    · intro h
      have := congrArg Fin.val (Option.some.inj h)
      simp only at this
      omega
    · intro h; cases h
  · rintro rfl
    rw [dif_pos (by omega)]
    simp

def findFreeRegion : Option (Fin 16) :=
  (List.finRange 16).find? fun i => !(vm.regions i).active

def validateRegionId (regionId : Int) : Option (Fin 16) :=
  (regionSlot? regionId).filter fun i => (vm.regions i).active

/-- `"unnamed"`. -/
def unnamed : List UInt8 := [117, 110, 110, 97, 109, 101, 100]

def fluxVmRegionCreate (host : Host) (name : Option (List UInt8)) (size : UInt64)
    (readonly : Bool) : Int × FluxVm :=
  let name := name.getD unnamed
  let size := if size = 0 then 256 else size
  match vm.findFreeRegion with
  | none => (-1, vm)
  | some rid =>
    match HostHeap.calloc host vm.heap size with
    | (heap, none) => (-1, { vm with heap })
    | (heap, some data) =>
      let reg : FluxVmRegion := { FluxVmRegion.zero with
        data, size, active := true, readonly, owner := vm.ownerPid, name := name.take 31 }
      let vm : FluxVm := { vm.putRegion rid reg with heap }
      (rid.val, if vm.activeRegion < 0 then { vm with activeRegion := rid.val } else vm)

def fluxVmRegionData (regionId : Int) : UInt64 :=
  match vm.validateRegionId regionId with
  | none => 0
  | some slot => (vm.regions slot).data.addr

/-- The first active region, after the active one was destroyed. -/
def firstActiveRegion : Int :=
  match (List.finRange 16).find? fun i => (vm.regions i).active with
  | some i => i.val
  | none => -1

def fluxVmRegionDestroy (regionId : Int) : Except Fault (FluxStatus × FluxVm) :=
  match vm.validateRegionId regionId with
  | none => .ok (.errNotfound, vm)
  | some slot => do
    let reg := vm.regions slot
    let heap ← vm.heap.freeUnlessNull reg.data.addr
    let reg := { reg with data := .null, active := false, size := 0, base := 0, name := [] }
    let vm : FluxVm := { vm.putRegion slot reg with heap }
    return (.ok, if vm.activeRegion = regionId then { vm with activeRegion := vm.firstActiveRegion }
      else vm)

def fluxVmRegionSetActive (regionId : Int) : FluxStatus × FluxVm :=
  match vm.validateRegionId regionId with
  | none => (.errNotfound, vm)
  | some slot =>
    let vm : FluxVm := { vm with activeRegion := regionId }
    let vm := vm.putReg fluxRegRegionBase (vm.regions slot).data.addr
    (.ok, vm.putReg fluxRegRegionSize (vm.regions slot).size)

/-- The bytes read, at most `nbytes` of them. -/
def fluxVmRegionRead (regionId : Int) (offset nbytes : UInt64) : List UInt8 :=
  if nbytes = 0 then [] else
    match vm.validateRegionId regionId with
    | none => []
    | some slot =>
      let reg := vm.regions slot
      if offset ≥ reg.size then [] else
        let toRead := min nbytes (reg.size - offset)
        (List.range toRead.toNat).map fun i => reg.data.bytes (offset.toNat + i)

def fluxVmRegionWrite (regionId : Int) (offset : UInt64) (buf : Nat → UInt8) (nbytes : UInt64) :
    UInt64 × FluxVm :=
  if nbytes = 0 then (0, vm) else
    match vm.validateRegionId regionId with
    | none => (0, vm)
    | some slot =>
      let reg := vm.regions slot
      if reg.readonly then (0, vm)
      else if offset ≥ reg.size then (0, vm)
      else
        let toWrite := min nbytes (reg.size - offset)
        (toWrite, vm.putRegion slot
          { reg with data := reg.data.copyIn offset.toNat toWrite.toNat buf })

def fluxVmRegionResize (host : Host) (regionId : Int) (newSize : UInt64) : FluxStatus × FluxVm :=
  match vm.validateRegionId regionId with
  | none => (.errNotfound, vm)
  | some slot =>
    let newSize := if newSize = 0 then 1 else newSize
    let reg := vm.regions slot
    match HostHeap.realloc host vm.heap reg.data newSize with
    | (heap, none) => (.errNomem, { vm with heap })
    | (heap, some data) =>
      let data := if newSize > reg.size
        then data.copyIn reg.size.toNat (newSize - reg.size).toNat fun _ => 0 else data
      let vm : FluxVm := { vm.putRegion slot { reg with data, size := newSize } with heap }
      (.ok, if vm.activeRegion = regionId then vm.putReg fluxRegRegionSize newSize else vm)

def fluxVmRegionSetOwner (regionId : Int) (owner : UInt32) : FluxStatus × FluxVm :=
  match vm.validateRegionId regionId with
  | none => (.errNotfound, vm)
  | some slot => (.ok, vm.putRegion slot { vm.regions slot with owner })

def fluxVmRegionSetReadonly (regionId : Int) (readonly : Bool) : FluxStatus × FluxVm :=
  match vm.validateRegionId regionId with
  | none => (.errNotfound, vm)
  | some slot => (.ok, vm.putRegion slot { vm.regions slot with readonly })

def fluxVmRegionCopy (srcRegionId : Int) (srcOffset : UInt64) (dstRegionId : Int)
    (dstOffset nbytes : UInt64) : FluxStatus × FluxVm :=
  match vm.validateRegionId srcRegionId, vm.validateRegionId dstRegionId with
  | none, _ => (.errNotfound, vm)
  | some _, none => (.errNotfound, vm)
  | some src, some dst =>
    let srcReg := vm.regions src
    let dstReg := vm.regions dst
    if dstReg.readonly then (.errDenied, vm)
    else if srcOffset ≥ srcReg.size then (.errInvalid, vm)
    else
      let nbytes := min nbytes (srcReg.size - srcOffset)
      if dstOffset ≥ dstReg.size then (.errInvalid, vm)
      else
        let nbytes := min nbytes (dstReg.size - dstOffset)
        if nbytes = 0 then (.ok, vm)
        else (.ok, vm.putRegion dst { dstReg with
          data := dstReg.data.copyIn dstOffset.toNat nbytes.toNat
            fun i => srcReg.data.bytes (srcOffset.toNat + i) })

def fluxVmRegionFill (regionId : Int) (offset nbytes : UInt64) (value : UInt8) :
    FluxStatus × FluxVm :=
  match vm.validateRegionId regionId with
  | none => (.errNotfound, vm)
  | some slot =>
    let reg := vm.regions slot
    if reg.readonly then (.errDenied, vm)
    else if offset ≥ reg.size then (.errInvalid, vm)
    else
      let nbytes := min nbytes (reg.size - offset)
      (.ok, vm.putRegion slot
        { reg with data := reg.data.copyIn offset.toNat nbytes.toNat fun _ => value })

/-- The loop of `flux_vm_region_destroy_all` over the slots that are left. -/
def destroySlots : List (Fin 16) → FluxVm → Except Fault FluxVm
  | [], vm => .ok vm
  | slot :: slots, vm =>
    let reg := vm.regions slot
    if reg.active then do
      let heap ← vm.heap.freeUnlessNull reg.data.addr
      destroySlots slots { vm.putRegion slot
        { reg with data := .null, active := false, size := 0, name := [] } with heap }
    else destroySlots slots vm

def fluxVmRegionDestroyAll : Except Fault (FluxStatus × FluxVm) := do
  let vm ← destroySlots (List.finRange 16) vm
  return (.ok, { vm with activeRegion := -1 })

/-! ## Facts about the region table -/

theorem validateRegionId_eq_some {regionId : Int} {slot : Fin 16} :
    vm.validateRegionId regionId = some slot ↔
      regionId = slot.val ∧ (vm.regions slot).active = true := by
  unfold validateRegionId
  rw [Option.filter_eq_some_iff, regionSlot?_eq_some]

theorem findFreeRegion_inactive {slot : Fin 16} (h : vm.findFreeRegion = some slot) :
    (vm.regions slot).active = false := by
  simpa using List.find?_some h

end FluxVm

end FluxOs
