import FluxOs.Lib.Loops
import FluxOs.Vm.State

/-!
# The device registry of the native HAL

`hal/arch/native/hal_native.c`: devices are registered in a singly linked list with a pointer to its last
node and a count.  The address zero is NULL.  A use of a node that `calloc` did not return, or that was
freed, and a loop that does not end are faults.  `init` is what the driver makes of its device; what
`deinit` makes of it is lost with the node, and `read`, `write` and `ioctl` are not called.
-/

namespace FluxOs

open Faulting

/-- `NATIVE_MAX_DEVICES`. -/
def nativeMaxDevices : Nat := 64

/-- The data of a device. -/
structure DeviceData where
  name : List Char
  devId : UInt32
  privateData : UInt64
  deriving DecidableEq, Repr

/-- `flux_device_t`. -/
structure FluxDevice where
  data : DeviceData
  init : Option (DeviceData → DeviceData)

/-- The data of the device behind the call of `init`. -/
def FluxDevice.initialized (dev : FluxDevice) : DeviceData :=
  match dev.init with
  | some init => init dev.data
  | none => dev.data

/-- `native_device_node_t`. -/
structure DeviceNode where
  device : FluxDevice
  next : Nat

/-- The static state of the registry and the nodes on the heap. -/
structure DeviceRegistry where
  nodes : Nat → Option DeviceNode
  head : Nat
  tail : Nat
  count : Int

inductive DeviceFault
  | node (addr : Nat)
  | diverged
  deriving DecidableEq, Repr

/-- A pointer to a device: to a structure of the caller with a name, or to the device in a node. -/
inductive DevicePointer
  | null
  | own (name : List Char)
  | node (addr : Nat)
  deriving DecidableEq, Repr

namespace DeviceRegistry

/-- The registry of a program that starts. -/
def empty : DeviceRegistry := { nodes := fun _ => none, head := 0, tail := 0, count := 0 }

variable (s : DeviceRegistry)

def node (addr : Nat) : Except DeviceFault DeviceNode :=
  match s.nodes addr with
  | some n => pure n
  | none => throw (.node addr)

def setNode (addr : Nat) (n : Option DeviceNode) : DeviceRegistry :=
  { s with nodes := Function.update s.nodes addr n }

/-- `*pp`, for a `pp` that points to the head of the list or to the field `next` of a node. -/
def follow (pp : Option Nat) : Except DeviceFault Nat :=
  match pp with
  | none => pure s.head
  | some addr => (·.next) <$> s.node addr

/-- `*pp = target;` -/
def relink (pp : Option Nat) (target : Nat) : Except DeviceFault DeviceRegistry :=
  match pp with
  | none => pure { s with head := target }
  | some addr => do
    let n ← s.node addr
    pure (s.setNode addr (some { n with next := target }))

/-- The name behind a pointer to a device. -/
def nameOf : DevicePointer → Except DeviceFault (List Char)
  | .null => pure []
  | .own name => pure name
  | .node addr => (·.device.data.name) <$> s.node addr

/-- `native_device_register`, where `calloc` returns `addr`. -/
def nativeDeviceRegister (dev : Option FluxDevice) (addr : Nat) :
    Except DeviceFault (FluxStatus × DeviceRegistry) :=
  match dev with
  | none => pure (.errInvalid, s)
  | some dev =>
    if (nativeMaxDevices : Int) ≤ s.count then pure (.errOverflow, s)
    else if addr = 0 then pure (.errNomem, s)
    else do
      let s := s.setNode addr (some { device := dev, next := 0 })
      let s ← if s.tail ≠ 0 then s.relink (some s.tail) addr else s.relink none addr
      let s := { s with tail := addr, count := s.count + 1 }
      let n ← s.node addr
      pure (.ok, s.setNode addr (some { n with device := { n.device with data := n.device.initialized } }))

/-- One turn of the loop of `native_device_unregister`. -/
def unregisterTurn (dev : DevicePointer) (pp : Option Nat) : Except DeviceFault (Option (Option Nat)) := do
  let addr ← s.follow pp
  if addr = 0 then pure none
  else
    let n ← s.node addr
    if dev = .node addr ∨ n.device.data.name = (← s.nameOf dev) then pure none else pure (some (some addr))

/-- `native_device_unregister`. -/
def nativeDeviceUnregister (dev : DevicePointer) : Except DeviceFault (FluxStatus × DeviceRegistry) :=
  if dev = .null then pure (.errInvalid, s)
  else do
    let pp ← loop (s.unregisterTurn dev) .diverged (nativeMaxDevices + 1) none
    let addr ← s.follow pp
    if addr = 0 then pure (.errNotfound, s)
    else
      let n ← s.node addr
      let s ← s.relink pp n.next
      let target ← s.follow pp
      let s := if s.tail = addr then { s with tail := target } else s
      let s := s.setNode addr none
      pure (.ok, { s with count := s.count - 1 })

/-- One turn of the loop of `native_device_find`. -/
def findTurn (name : List Char) (addr : Nat) : Except DeviceFault (Option Nat) :=
  if addr = 0 then pure none
  else do
    let n ← s.node addr
    if n.device.data.name = name then pure none else pure (some n.next)

/-- `native_device_find`. -/
def nativeDeviceFind (name : Option (List Char)) : Except DeviceFault Nat :=
  match name with
  | none => pure 0
  | some name => loop (s.findTurn name) .diverged (nativeMaxDevices + 1) s.head

/-- One turn of the loop of `native_device_list`. -/
def listTurn (t : Nat × List DeviceData) : Except DeviceFault (Option (Nat × List DeviceData)) :=
  if t.1 = 0 then pure none
  else do
    let n ← s.node t.1
    pure (some (n.next, t.2 ++ [n.device.data]))

/-- `native_device_list`: the devices that it prints, one after the other, below the count. -/
def nativeDeviceList : Except DeviceFault (Int × List DeviceData) := do
  let (_, devices) ← loop s.listTurn .diverged (nativeMaxDevices + 1) (s.head, [])
  pure (s.count, devices)

end DeviceRegistry

end FluxOs
