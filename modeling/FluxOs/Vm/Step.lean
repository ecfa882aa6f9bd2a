import FluxOs.Lib.Runs
import FluxOs.Vm.Exec

/-!
# Initialization, the interpreter step and the run loop

`flux_vm_init`, `flux_vm_load`, `flux_vm_step` and `flux_vm_run` of `vm.c`.
-/

namespace FluxOs

/-- A VM after `memset` to zero, on the given host heap. -/
def FluxVm.zero (heap : HostHeap) : FluxVm where
  state := .idle
  errorCode := 0
  regs := fun _ => 0
  regions := fun _ => .zero
  activeRegion := 0
  stack := fun _ => 0
  stackSize := 0
  stackPtr := 0
  callStack := fun _ => 0
  callDepth := 0
  bytecode := fun _ => 0
  bytecodeLen := 0
  pc := 0
  cycleCount := 0
  insnCount := 0
  breakpointAddrs := []
  trace := fun _ => ⟨0, 0, fun _ => 0⟩
  traceIdx := 0
  tracing := false
  opCounts := fun _ => 0
  lastOpCycles := 0
  ownerPid := 0
  heap := heap

namespace FluxVm

/-- The register file that `flux_vm_init` and `flux_vm_reset` set up. -/
def initRegs (stackSize : UInt64) : Fin 64 → UInt64 :=
  Function.update (Function.update (Function.update (fun _ => 0)
    fluxRegSp stackSize) fluxRegBp stackSize) fluxRegTrapHandler 0xFFFFFFFFFFFFFFFF

/-- `flux_vm_init`; the error is the status returned when the stack cannot be allocated. -/
def fluxVmInit (host : Host) (heap : HostHeap) : Except FluxStatus FluxVm :=
  match HostHeap.calloc host heap (fluxStackSize * 8) with
  | (_, none) => .error .errNomem
  | (heap, some _) => .ok { FluxVm.zero heap with
      regs := initRegs fluxStackSize
      stackSize := fluxStackSize
      activeRegion := -1 }

variable (vm : FluxVm)

def fluxVmReset : FluxVm :=
  { FluxVm.zero vm.heap with
    regs := initRegs vm.stackSize
    stackSize := vm.stackSize
    activeRegion := -1 }

def fluxVmLoad (bytecode : Option (Nat → UInt8)) (len : UInt64) : FluxStatus × FluxVm :=
  match bytecode with
  | none => (.errInvalid, vm)
  | some bytecode =>
    if len < 4 then (.errInvalid, vm)
    else (.ok, { vm with bytecode, bytecodeLen := len, pc := 0, state := .idle })

/-! ## Fetch -/

/-- `vm->bytecode[pc]`. -/
def codeAt (pc : UInt64) : Except Fault UInt8 :=
  if pc < vm.bytecodeLen then .ok (vm.bytecode pc.toNat) else .error (.codeByte pc.toNat)

def fetchInstruction : Except Fault UInt32 :=
  let pc := vm.pc
  if pc + 4 > vm.bytecodeLen then .ok 0
  else do
    let b0 ← vm.codeAt pc
    let b1 ← vm.codeAt (pc + 1)
    let b2 ← vm.codeAt (pc + 2)
    let b3 ← vm.codeAt (pc + 3)
    return (b0.toUInt32 <<< 24) ||| (b1.toUInt32 <<< 16) ||| (b2.toUInt32 <<< 8) ||| b3.toUInt32

/-! ## Execution -/

/-- The step returns before it fetches: the VM has stopped, is at a breakpoint, or `pc + 4` is out of
bounds. -/
def stopped? : Option (FluxStatus × FluxVm) :=
  if vm.state = .halted ∨ vm.state = .error then some (.errGeneral, vm)
  else if vm.breakpointAddrs.any (· == vm.pc.toUInt32) then
    some (.errGeneral, { vm with state := .trapped, errorCode := 0 })
  else if vm.pc + 4 > vm.bytecodeLen then some (.errGeneral, vm.fail 10)
  else none

/-- The cycle and instruction counts of an instruction about to execute. -/
def countInsn (opcode : UInt8) : FluxVm :=
  { vm with
    cycleCount := vm.cycleCount + 1
    insnCount := vm.insnCount + 1
    opCounts := Function.update vm.opCounts opcode (vm.opCounts opcode + 1)
    lastOpCycles := 1 }

/-- `pc += 4`. -/
def advance : FluxVm := { vm with pc := vm.pc + 4 }

/-- The instruction at `pc` up to the switch: the eager register reads, the counts and the trace
snapshot. -/
def prepare (i : FluxVmInsn) : Except Fault (UInt64 × UInt64 × FluxVm) := do
  let v1 ← vm.fluxVmGetReg i.rs1
  let v2 ← vm.fluxVmGetReg i.rs2
  let vm ← (vm.countInsn i.opcode).traceSnapshot i.opcode
  return (v1, v2, vm.advance)

/-- The end of the step: an opcode case that left the switch mirrors the cycle count in `R57`. -/
def finish : Option FluxStatus × FluxVm → FluxStatus × FluxVm
  | (some status, vm) => (status, vm)
  | (none, vm) => (.ok, vm.putReg fluxRegCycleCount vm.cycleCount)

def fluxVmStep (host : Host) : Except Fault (FluxStatus × FluxVm) :=
  match vm.stopped? with
  | some result => .ok result
  | none => do
    let vm : FluxVm := { vm with state := .running }
    let i := decodeInsn (← vm.fetchInstruction)
    let (v1, v2, vm) ← vm.prepare i
    return finish (← vm.execute host i v1 v2)

/-- The loop of `flux_vm_run`, with the number of steps it began; `none` when `fuel` rounds do not end
it. -/
def runLoop (host : Host) (maxCycles : UInt64) :
    Nat → Nat → FluxVm → Option (Except Fault (FluxStatus × FluxVm) × Nat)
  | 0, _, _ => none
  | fuel + 1, steps, vm =>
    if vm.state ≠ .running then some (.ok (.ok, vm), steps)
    else if maxCycles > 0 ∧ vm.cycleCount ≥ maxCycles then
      some (.ok (.errTimeout, { vm with state := .waiting }), steps)
    else match vm.fluxVmStep host with
      | .error fault => some (.error fault, steps + 1)
      | .ok (rc, vm) =>
        if rc ≠ .ok then some (.ok (rc, vm), steps + 1)
        else runLoop host maxCycles fuel (steps + 1) vm

def fluxVmRun (host : Host) (maxCycles : UInt64) (fuel : Nat) :
    Option (Except Fault (FluxStatus × FluxVm) × Nat) :=
  runLoop host maxCycles fuel 0 { vm with state := .running }

end FluxVm

end FluxOs
