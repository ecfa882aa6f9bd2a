import Mathlib.Logic.Function.Basic
import FluxOs.Lib.Faulting
import FluxOs.Vm.Opcodes
import FluxOs.Vm.Words

/-!
# The VM state

The data types of `flux/vm.h` and the helpers of `vm.c` that every opcode case is written with: the
register file, the operand stack, the call stack, traps and trace snapshots.

C leaves an access outside an array undefined.  Every array access whose index is computed at run
time is therefore checked here, and one that is out of range ends the computation with a `Fault`
naming the array and the index.
-/

namespace FluxOs

/-- `flux_status_t`. -/
inductive FluxStatus
  | ok | errGeneral | errNomem | errInvalid | errDenied | errTimeout | errBusy | errNotfound
  | errExists | errOverflow | errDeadlock
  deriving DecidableEq, Repr

/-- `flux_vm_state_t`. -/
inductive FluxVmState
  | idle | running | halted | trapped | error | waiting
  deriving DecidableEq, Repr

/-- What C leaves undefined in the interpreter: an access outside an array, a division whose
quotient overflows, a `free` of a buffer that is not allocated. -/
inductive Fault
  | reg (index : Nat)
  | regionSlot (index : Int)
  | regionByte (slot : Nat) (offset : Nat)
  | stackWord (index : Nat)
  | callFrame (index : Int)
  | codeByte (index : Nat)
  | traceEntry (index : Int)
  | divOverflow
  | badFree (addr : UInt64)
  deriving DecidableEq, Repr

def fluxVmMaxCallDepth : Nat := 256

def fluxVmTraceBuffer : Nat := 4096

def fluxStackSize : UInt64 := 64 * 1024

/-! ## Special registers and flags -/

abbrev fluxRegZero : Fin 64 := 0
abbrev fluxRegRa : Fin 64 := 1
abbrev fluxRegSp : Fin 64 := 2
abbrev fluxRegBp : Fin 64 := 3
abbrev fluxRegFlags : Fin 64 := 5
abbrev fluxRegFp : Fin 64 := 6
/-- `R56`, which `LOOP` counts down. -/
abbrev fluxRegLoop : Fin 64 := 56
abbrev fluxRegCycleCount : Fin 64 := 57
abbrev fluxRegRegionBase : Fin 64 := 58
abbrev fluxRegRegionSize : Fin 64 := 59
abbrev fluxRegSyscallNum : Fin 64 := 60
abbrev fluxRegErrorCode : Fin 64 := 61
abbrev fluxRegCapability : Fin 64 := 62
abbrev fluxRegTrapHandler : Fin 64 := 63

/-- `R1` to `R15`. -/
def generalRegs : List (Fin 64) := [1, 2, 3, 4, 5, 6, 7, 8, 9, 10, 11, 12, 13, 14, 15]

abbrev fluxFlagZero : UInt64 := 1
abbrev fluxFlagNegative : UInt64 := 2
abbrev fluxFlagCarry : UInt64 := 4
abbrev fluxFlagOverflow : UInt64 := 8
abbrev fluxFlagEqual : UInt64 := 16
abbrev fluxFlagLess : UInt64 := 32
abbrev fluxFlagGreater : UInt64 := 64
abbrev fluxFlagTrap : UInt64 := 128

/-! ## The host heap -/

/-- The host allocator as the VM uses it: how often it was called and which buffers are allocated. -/
structure HostHeap where
  calls : Nat
  live : List UInt64

/-- The host's `calloc` and `realloc`: the address of the buffer, or `none` for `NULL`.  The answer
may depend on everything the host knows. -/
structure Host where
  calloc : HostHeap → UInt64 → Option UInt64
  realloc : HostHeap → UInt64 → UInt64 → Option UInt64

/-- `free`. -/
def HostHeap.free (heap : HostHeap) (addr : UInt64) : Except Fault HostHeap :=
  if addr ∈ heap.live then .ok { heap with live := heap.live.erase addr }
  else .error (.badFree addr)

/-- A host buffer: its address, its allocated length and its bytes. -/
structure Buffer where
  addr : UInt64
  len : Nat
  bytes : Nat → UInt8

/-- The null pointer. -/
def Buffer.null : Buffer := ⟨0, 0, fun _ => 0⟩

/-! ## Data types of `flux/vm.h` -/

/-- `flux_vm_region_t`. -/
structure FluxVmRegion where
  base : UInt64
  size : UInt64
  data : Buffer
  active : Bool
  readonly : Bool
  owner : UInt32
  name : List UInt8

/-- A region slot after `memset` to zero. -/
def FluxVmRegion.zero : FluxVmRegion := ⟨0, 0, .null, false, false, 0, []⟩

/-- An entry of the trace buffer, with the snapshot of `R0` to `R7`. -/
structure TraceEntry where
  pc : UInt32
  opcode : UInt8
  regs : Fin 8 → UInt64

/-- `flux_vm_t`, with the host heap its buffers live in. -/
structure FluxVm where
  state : FluxVmState
  errorCode : UInt8
  regs : Fin 64 → UInt64
  regions : Fin 16 → FluxVmRegion
  activeRegion : Int
  stack : Nat → UInt64
  stackSize : UInt64
  stackPtr : UInt64
  callStack : Nat → UInt64
  callDepth : Int
  bytecode : Nat → UInt8
  bytecodeLen : UInt64
  pc : UInt64
  cycleCount : UInt64
  insnCount : UInt64
  breakpointAddrs : List UInt32
  trace : Nat → TraceEntry
  traceIdx : Int32
  tracing : Bool
  opCounts : UInt8 → UInt64
  lastOpCycles : UInt64
  ownerPid : UInt32
  heap : HostHeap

namespace FluxVm

variable (vm : FluxVm)

/-- `vm->regs[r] = v` for a register named in the code. -/
def putReg (r : Fin 64) (v : UInt64) : FluxVm := { vm with regs := Function.update vm.regs r v }

@[simp] theorem putReg_self (r : Fin 64) (v : UInt64) : (vm.putReg r v).regs r = v := by
  simp [putReg]

theorem putReg_of_ne {r s : Fin 64} (h : s ≠ r) (v : UInt64) :
    (vm.putReg r v).regs s = vm.regs s := by
  simp [putReg, h]

/-! ## Register access -/

def fluxVmGetReg (r : UInt8) : Except Fault UInt64 :=
  if r = 0 then .ok 0
  else if h : r.toNat < 64 then .ok (vm.regs ⟨r.toNat, h⟩)
  else .error (.reg r.toNat)

def fluxVmSetReg (r : UInt8) (val : UInt64) : Except Fault FluxVm :=
  if r = 0 then .ok vm
  else if h : r.toNat < 64 then .ok (vm.putReg ⟨r.toNat, h⟩ val)
  else .error (.reg r.toNat)

/-- The flags that `flux_vm_set_flags` leaves after comparing `a` and `b`. -/
def compareFlags (a b : UInt64) : UInt64 :=
  (if a = b then fluxFlagEqual else 0) ||| (if a < b then fluxFlagLess else 0) |||
    (if a > b then fluxFlagGreater else 0) ||| (if a = 0 then fluxFlagZero else 0) |||
    (if a.toInt64 < 0 then fluxFlagNegative else 0)

def fluxVmSetFlags (a b : UInt64) : FluxVm := vm.putReg fluxRegFlags (compareFlags a b)

/-! ## Errors and traps -/

/-- `vm->state = FLUX_VM_ERROR; vm->error_code = code`. -/
def fail (code : UInt8) : FluxVm := { vm with state := .error, errorCode := code }

def fluxVmTrap (trapCode : UInt8) : FluxStatus × FluxVm :=
  let vm := { vm with state := .trapped, errorCode := trapCode }
  let vm := vm.putReg fluxRegFlags (vm.regs fluxRegFlags ||| fluxFlagTrap)
  (.errGeneral, vm.putReg fluxRegErrorCode trapCode.toUInt64)

def fluxVmHalt : FluxStatus × FluxVm := (.ok, { vm with state := .halted })

/-! ## The operand stack -/

/-- `vm->stack[i]`. -/
def stackAt (i : UInt64) : Except Fault UInt64 :=
  if i < vm.stackSize then .ok (vm.stack i.toNat) else .error (.stackWord i.toNat)

/-- `vm->stack[i] = val`. -/
def setStackAt (i val : UInt64) : Except Fault FluxVm :=
  if i < vm.stackSize then .ok { vm with stack := Function.update vm.stack i.toNat val }
  else .error (.stackWord i.toNat)

def stackPush (val : UInt64) : Except Fault (FluxStatus × FluxVm) :=
  if vm.stackPtr ≥ vm.stackSize then .ok (.errOverflow, vm.fail 1)
  else do
    let vm' ← vm.setStackAt vm.stackPtr val
    return (.ok, { vm' with stackPtr := vm.stackPtr + 1 })

/-- `stack_pop`: the popped word is the last component; it is `none` where C leaves `*val` as it
was. -/
def stackPop : Except Fault (FluxStatus × FluxVm × Option UInt64) :=
  if vm.stackPtr = 0 then .ok (.errGeneral, vm.fail 2, none)
  else do
    let val ← vm.stackAt (vm.stackPtr - 1)
    return (.ok, { vm with stackPtr := vm.stackPtr - 1 }, some val)

/-- `vm->regs[FLUX_REG_SP] = vm->stack_size - vm->stack_ptr`. -/
def mirrorSp : FluxVm := vm.putReg fluxRegSp (vm.stackSize - vm.stackPtr)

/-! ## The call stack -/

def callStackPush (retAddr : UInt64) : Except Fault (FluxStatus × FluxVm) :=
  if vm.callDepth ≥ fluxVmMaxCallDepth then .ok (.errOverflow, vm.fail 3)
  else if 0 ≤ vm.callDepth then
    .ok (.ok, { vm with
      callStack := Function.update vm.callStack vm.callDepth.toNat retAddr
      callDepth := vm.callDepth + 1 })
  else .error (.callFrame vm.callDepth)

def callStackPop : Except Fault (FluxStatus × FluxVm × Option UInt64) :=
  if vm.callDepth = 0 then .ok (.errGeneral, vm.fail 4, none)
  else if 0 ≤ vm.callDepth - 1 ∧ vm.callDepth - 1 < fluxVmMaxCallDepth then
    .ok (.ok, { vm with callDepth := vm.callDepth - 1 },
      some (vm.callStack (vm.callDepth - 1).toNat))
  else .error (.callFrame (vm.callDepth - 1))

/-! ## Tracing -/

/-- The index is a C `int`: it wraps, and the remainder of a negative index is negative. -/
def traceSnapshot (opcode : UInt8) : Except Fault FluxVm :=
  if !vm.tracing then .ok vm
  else
    let idx := (vm.traceIdx % 4096).toInt
    if 0 ≤ idx then
      .ok { vm with
        trace := Function.update vm.trace idx.toNat
          ⟨vm.pc.toUInt32, opcode, fun i => vm.regs (i.castLE (by decide))⟩
        traceIdx := vm.traceIdx + 1 }
    else .error (.traceEntry idx)

end FluxVm

end FluxOs
