import FluxOs.Vm.Memory

/-!
# The opcode cases

The cases of the switch in `flux_vm_step`, by category.  `v1` and `v2` are the values of the registers
`rs1` and `rs2`, which the step reads before it dispatches; `vm.pc` already points to the next
instruction.  Integer operations whose overflow C leaves undefined take their two's-complement value.
-/

namespace FluxOs

namespace FluxVm

variable (vm : FluxVm)

/-- `flux_vm_set_reg(vm, rd, val); break;`. -/
def setRd (i : FluxVmInsn) (val : UInt64) : Exec := do
  return (none, ← vm.fluxVmSetReg i.rd val)

/-- `return flux_vm_trap(vm, code);`. -/
def returnTrap (code : UInt8) : Exec :=
  let (status, vm) := vm.fluxVmTrap code
  .ok (some status, vm)

/-! ## System operations -/

def execSystem (op : SystemOp) (i : FluxVmInsn) : Exec :=
  match op with
  | .NOP => .ok (none, vm)
  | .HALT => .ok (some .ok, { vm with state := .halted })
  | .TRAP =>
    let handler := vm.regs fluxRegTrapHandler
    let code := i.imm.toInt8.toUInt8
    if handler ≠ 0xFFFFFFFFFFFFFFFF then
      .ok (none, { vm.putReg fluxRegRa vm.pc with pc := handler, errorCode := code })
    else vm.returnTrap code
  | .INVALID => .ok (some .errInvalid, vm.fail 20)
  | .SYS_WAKE | .SYS_PANIC | .SYS_DEBUG | .SYS_INFO | .SYS_RESET | .SYS_SUSPEND | .SYS_RESUME
  | .SYS_YIELD | .SYS_SLEEP | .SYS_TIMED_WAIT | .SYS_INTERRUPT | .SYS_EXCEPTION =>
    vm.returnTrap i.opcode

/-! ## Arithmetic operations -/

/-- `s1 / s2` and `s1 % s2` on `int64_t`: zero divisors end in an error, and an overflowing quotient is
undefined. -/
def divide (i : FluxVmInsn) (v1 v2 : UInt64) (div : Int64 → Int64 → Int64) : Exec :=
  if v2.toInt64 = 0 then .ok (some .errGeneral, vm.fail 30)
  else if v1.toInt64 = Int64.minValue ∧ v2.toInt64 = -1 then .error .divOverflow
  else vm.setRd i (div v1.toInt64 v2.toInt64).toUInt64

def execArith (op : ArithOp) (i : FluxVmInsn) (v1 v2 : UInt64) : Exec :=
  let s1 := v1.toInt64
  let s2 := v2.toInt64
  let f1 := u64ToDouble v1
  let f2 := u64ToDouble v2
  match op with
  | .IADD => vm.setRd i (s1 + s2).toUInt64
  | .ISUB => vm.setRd i (s1 - s2).toUInt64
  | .IMUL => vm.setRd i (s1 * s2).toUInt64
  | .IDIV => vm.divide i v1 v2 (· / ·)
  | .IMOD => vm.divide i v1 v2 (· % ·)
  | .INEG => vm.setRd i (-s1).toUInt64
  | .IABS => vm.setRd i (if s1 < 0 then -s1 else s1).toUInt64
  | .INC => do vm.setRd i ((← vm.fluxVmGetReg i.rd) + 1)
  | .DEC => do vm.setRd i ((← vm.fluxVmGetReg i.rd) - 1)
  | .FADD => vm.setRd i (doubleToU64 (f1 + f2))
  | .FSUB => vm.setRd i (doubleToU64 (f1 - f2))
  | .FMUL => vm.setRd i (doubleToU64 (f1 * f2))
  | .FDIV =>
    if f2 == 0.0 then .ok (some .errGeneral, vm.fail 31) else vm.setRd i (doubleToU64 (f1 / f2))
  | .FNEG => vm.setRd i (doubleToU64 (-f1))
  | .I2F => vm.setRd i (doubleToU64 (intToDouble v1))
  | .F2I => vm.setRd i (doubleToInt f1)

/-! ## Logical operations -/

def execLogic (op : LogicOp) (i : FluxVmInsn) (v1 v2 : UInt64) : Exec :=
  vm.setRd i <| match op with
  | .IAND => v1 &&& v2
  | .IOR => v1 ||| v2
  | .IXOR => v1 ^^^ v2
  | .INOT => ~~~v1
  | .ISHL => v1 <<< (v2 &&& 63)
  | .ISHR => (v1.toInt64 >>> (v2 &&& 63).toInt64).toUInt64
  | .USHR => v1 >>> (v2 &&& 63)
  | .ROTATE_L => rotl64 v1 (v2 &&& 63)
  | .ROTATE_R => rotr64 v1 (v2 &&& 63)
  | .POPCOUNT => popcount64 v1
  | .CLZ => clz64 v1
  | .CTZ => ctz64 v1
  | .BSWAP => bswap64 v1
  | .ANDI => v1 &&& i.imm64
  | .ORI => v1 ||| i.imm64
  | .XORI => v1 ^^^ i.imm64

/-! ## Comparison operations -/

/-- The flags each comparison leaves; `CMP_NE` sets the `EQUAL` flag when its operands differ. -/
def comparisonFlags (op : CompareOp) (i : FluxVmInsn) (v1 v2 : UInt64) : UInt64 :=
  let s1 := v1.toInt64
  let s2 := v2.toInt64
  let f1 := u64ToDouble v1
  let f2 := u64ToDouble v2
  match op with
  | .CMP => compareFlags v1 v2
  | .CMPI => compareFlags v1 i.imm64
  | .FCMP =>
    (if f1 == f2 then fluxFlagEqual else 0) ||| (if f1 < f2 then fluxFlagLess else 0) |||
      (if f1 > f2 then fluxFlagGreater else 0) ||| (if f1 == 0.0 then fluxFlagZero else 0) |||
      (if f1 < 0.0 then fluxFlagNegative else 0)
  | .TEST => if v1 &&& v2 = 0 then fluxFlagZero ||| fluxFlagEqual else 0
  | .TESTI => if v1 &&& i.imm64 = 0 then fluxFlagZero ||| fluxFlagEqual else 0
  | .CMP_EQ => if v1 = v2 then fluxFlagEqual else 0
  | .CMP_NE =>
    let flags := (if v1 ≠ v2 then fluxFlagEqual else 0) ||| fluxFlagEqual
    if v1 = v2 then 0 else flags
  | .CMP_LT => if s1 < s2 then fluxFlagLess else 0
  | .CMP_GT => if s1 > s2 then fluxFlagGreater else 0
  | .CMP_LE => if s1 ≤ s2 then fluxFlagLess ||| fluxFlagEqual else 0
  | .CMP_GE => if s1 ≥ s2 then fluxFlagGreater ||| fluxFlagEqual else 0
  | .FCMP_EQ => if f1 == f2 then fluxFlagEqual else 0
  | .FCMP_LT => if f1 < f2 then fluxFlagLess else 0
  | .FCMP_GT => if f1 > f2 then fluxFlagGreater else 0
  | .FCMP_LE => if f1 ≤ f2 then fluxFlagLess ||| fluxFlagEqual else 0
  | .FCMP_GE => if f1 ≥ f2 then fluxFlagGreater ||| fluxFlagEqual else 0

def execCompare (op : CompareOp) (i : FluxVmInsn) (v1 v2 : UInt64) : Exec :=
  .ok (none, vm.putReg fluxRegFlags (comparisonFlags op i v1 v2))

/-! ## Branch operations -/

/-- `vm->regs[FLUX_REG_FLAGS] & mask`. -/
def flagSet (mask : UInt64) : Bool := vm.regs fluxRegFlags &&& mask ≠ 0

def jumpIf (taken : Bool) (i : FluxVmInsn) : Exec :=
  .ok (none, if taken then { vm with pc := i.target.toUInt64 } else vm)

def execBranch (op : BranchOp) (i : FluxVmInsn) (v1 : UInt64) : Exec :=
  match op with
  | .JMP => vm.jumpIf true i
  | .JZ => vm.jumpIf (v1 = 0) i
  | .JNZ => vm.jumpIf (v1 ≠ 0) i
  | .JE => vm.jumpIf (vm.flagSet fluxFlagEqual) i
  | .JNE => vm.jumpIf (!vm.flagSet fluxFlagEqual) i
  | .JG => vm.jumpIf (vm.flagSet fluxFlagGreater) i
  | .JL => vm.jumpIf (vm.flagSet fluxFlagLess) i
  | .JGE => vm.jumpIf (vm.flagSet (fluxFlagGreater ||| fluxFlagEqual)) i
  | .JLE => vm.jumpIf (vm.flagSet (fluxFlagLess ||| fluxFlagEqual)) i
  | .JA => vm.jumpIf (!vm.flagSet fluxFlagCarry && !vm.flagSet fluxFlagEqual) i
  | .JB => vm.jumpIf (vm.flagSet fluxFlagCarry) i
  | .JAE => vm.jumpIf (!vm.flagSet fluxFlagCarry) i
  | .JBE => vm.jumpIf (vm.flagSet (fluxFlagCarry ||| fluxFlagEqual)) i
  | .JC => vm.jumpIf (vm.flagSet fluxFlagCarry) i
  | .JO => vm.jumpIf (vm.flagSet fluxFlagOverflow) i
  | .LOOP =>
    if vm.regs fluxRegLoop > 0 then
      let vm := vm.putReg fluxRegLoop (vm.regs fluxRegLoop - 1)
      vm.jumpIf (vm.regs fluxRegLoop ≠ 0) i
    else .ok (none, vm)

/-! ## Stack operations -/

/-- Push a word and mirror the stack pointer in `SP`. -/
def pushCase (val : UInt64) : Exec := do
  let (rc, vm) ← vm.stackPush val
  if rc ≠ .ok then return (some rc, vm)
  return (none, vm.mirrorSp)

/-- Pop a word, store it with `put`, and mirror the stack pointer in `SP`. -/
def popCase (put : FluxVm → UInt64 → Except Fault FluxVm) : Exec := do
  let (rc, vm, val) ← vm.stackPop
  if rc ≠ .ok then return (some rc, vm)
  let vm ← put vm (val.getD 0)
  return (none, vm.mirrorSp)

/-- The loop of `OP_PUSHA` over the registers that are left. -/
def pushRegs : List (Fin 64) → FluxVm → Exec
  | [], vm => .ok (none, vm.mirrorSp)
  | r :: rs, vm => do
    let (rc, vm) ← vm.stackPush (vm.regs r)
    if rc ≠ .ok then return (some rc, vm)
    pushRegs rs vm

/-- The loop of `OP_POPA` over the registers that are left. -/
def popRegs : List (Fin 64) → FluxVm → Exec
  | [], vm => .ok (none, vm.mirrorSp)
  | r :: rs, vm => do
    let (rc, vm, val) ← vm.stackPop
    if rc ≠ .ok then return (some rc, vm)
    popRegs rs (vm.putReg r (val.getD 0))

/-- `OP_ENTER`: the results of the two pushes are ignored. -/
def enterFrame (i : FluxVmInsn) : Exec := do
  let frameSize : Int32 := if i.imm < 0 then 0 else i.imm
  let (_, vm) ← vm.stackPush (vm.regs fluxRegBp)
  let (_, vm) ← vm.stackPush (vm.regs fluxRegFp)
  let vm := vm.putReg fluxRegFp (vm.regs fluxRegSp)
  let vm : FluxVm := { vm with stackPtr := vm.stackPtr + (frameSize / 8).toInt64.toUInt64 }
  if vm.stackPtr > vm.stackSize then
    return (some .errOverflow, { vm.fail 1 with stackPtr := vm.stackSize })
  return (none, vm.mirrorSp)

/-- `OP_LEAVE`: the stack pointer is recomputed from `FP`, and the results of the two pops are
ignored. -/
def leaveFrame : Exec := do
  let vm : FluxVm := { vm with stackPtr := vm.stackSize - vm.regs fluxRegFp }
  let (_, vm, savedFp) ← vm.stackPop
  let (_, vm, savedBp) ← vm.stackPop
  let vm := vm.putReg fluxRegFp (savedFp.getD 0)
  let vm := vm.putReg fluxRegBp (savedBp.getD 0)
  return (none, vm.mirrorSp)

def swapTop : Exec :=
  if vm.stackPtr < 2 then .ok (some .errGeneral, vm.fail 2)
  else do
    let a ← vm.stackAt (vm.stackPtr - 1)
    let b ← vm.stackAt (vm.stackPtr - 2)
    let vm ← vm.setStackAt (vm.stackPtr - 1) b
    return (none, ← vm.setStackAt (vm.stackPtr - 2) a)

def duplicateTop : Exec :=
  if vm.stackPtr = 0 then .ok (some .errGeneral, vm.fail 2)
  else do vm.pushCase (← vm.stackAt (vm.stackPtr - 1))

def stackAlloc (i : FluxVmInsn) : Exec := do
  let alloc ← vm.fluxVmGetReg i.rd
  let vm : FluxVm := { vm with stackPtr := vm.stackPtr + alloc / 8 }
  if vm.stackPtr > vm.stackSize then
    return ← ({ vm with stackPtr := vm.stackSize }).returnTrap 1
  return (none, vm.mirrorSp)

def stackFree (i : FluxVmInsn) : Exec := do
  let freeBytes ← vm.fluxVmGetReg i.rd
  let vm : FluxVm := { vm with
    stackPtr := if vm.stackPtr ≥ freeBytes / 8 then vm.stackPtr - freeBytes / 8 else 0 }
  return (none, vm.mirrorSp)

def execStack (op : StackOp) (i : FluxVmInsn) (v1 : UInt64) : Exec :=
  match op with
  | .PUSH => do vm.pushCase (← vm.fluxVmGetReg i.rd)
  | .POP => vm.popCase fun vm val => vm.fluxVmSetReg i.rd val
  | .PUSH_IMM => vm.pushCase i.imm64
  | .DUP => vm.duplicateTop
  | .SWAP => vm.swapTop
  | .ENTER => vm.enterFrame i
  | .LEAVE => vm.leaveFrame
  | .PUSHA => pushRegs generalRegs vm
  | .POPA => popRegs generalRegs.reverse vm
  | .PUSHF => vm.pushCase (vm.regs fluxRegFlags)
  | .POPF => vm.popCase fun vm val => .ok (vm.putReg fluxRegFlags val)
  | .PUSHR => vm.pushCase v1
  | .POPR => vm.popCase fun vm val => vm.fluxVmSetReg i.rd val
  | .STACK_CHK =>
    .ok (none, if vm.stackPtr > vm.stackSize - 256
      then vm.putReg fluxRegFlags (vm.regs fluxRegFlags ||| fluxFlagCarry) else vm)
  | .STACK_ALLOC => vm.stackAlloc i
  | .STACK_FREE => vm.stackFree i

/-! ## Call and return operations -/

/-- Push the return address and continue at `dest`. -/
def callCase (dest : FluxVm → Except Fault UInt64) : Exec := do
  let (rc, vm) ← vm.callStackPush vm.pc
  if rc ≠ .ok then return (some rc, vm)
  return (none, { vm with pc := ← dest vm })

def execCall (op : CallOp) (i : FluxVmInsn) (v1 : UInt64) : Exec :=
  match op with
  | .CALL => vm.callCase fun _ => .ok v1
  | .CALLI => vm.callCase fun _ => .ok i.target.toUInt64
  | .RET => do
    let (rc, vm, retAddr) ← vm.callStackPop
    if rc ≠ .ok then return (some .ok, { vm with state := .halted })
    return (none, { vm with pc := retAddr.getD 0 })
  | .RETI => do
    let (rc, vm, retAddr) ← vm.callStackPop
    if rc ≠ .ok then return (some .ok, { vm with state := .halted })
    -- the result of popping the saved flags is ignored
    let (_, vm, savedFlags) ← vm.stackPop
    return (none, { vm.putReg fluxRegFlags (savedFlags.getD 0) with pc := retAddr.getD 0 })
  | .SYSCALL =>
    let vm' := vm.putReg fluxRegRa vm.pc
    .ok (none, { vm' with errorCode := (vm.regs fluxRegSyscallNum &&& 0xFF).toUInt8 })
  | .CALL_REG => vm.callCase fun vm => vm.fluxVmGetReg i.rd
  | .TAILCALL => .ok (none, { vm with pc := v1 })
  | .ICALL => vm.callCase fun _ => .ok v1
  | .CALL_EXT | .CALL_NATIVE | .CALL_AGENT => vm.returnTrap i.opcode
  | .THROW => .ok (some .errGeneral, vm.fail (v1 &&& 0xFF).toUInt8)
  | .CATCH => .ok (none, vm.putReg fluxRegTrapHandler v1)
  | .FINALLY => .ok (none, vm)
  | .EXCEPTION_RET => .ok (some .errGeneral, vm.fail 50)
  | .SET_HANDLER => .ok (none, vm.putReg fluxRegTrapHandler v1)

/-! ## Agent and I/O operations -/

def execAgent (op : AgentOp) (i : FluxVmInsn) (v1 : UInt64) : Exec :=
  match op with
  | .DELEGATE | .TELL | .ASK | .REPLY | .BARRIER => .ok (none, vm.putReg fluxRegErrorCode 0)
  | .SPAWN => do
    let vm ← vm.fluxVmSetReg i.rd 42
    return (none, vm.putReg fluxRegErrorCode 0)
  | .YIELD_AGENT => .ok (some .ok, { vm with state := .waiting })
  | .CAP_GRANT => .ok (none, vm.putReg fluxRegCapability v1)
  | .CAP_CHECK => do
    let required ← vm.fluxVmGetReg i.rd
    let current := vm.regs fluxRegCapability
    return (none, vm.putReg fluxRegFlags
      (if current &&& required = required then fluxFlagEqual else 0))
  | .CAP_REVOKE => .ok (none, vm.putReg fluxRegCapability (vm.regs fluxRegCapability &&& ~~~v1))
  | .AGENT_WAIT | .AGENT_SIGNAL | .AGENT_BROADCAST | .AGENT_SUBSCRIBE | .AGENT_UNSUBSCRIBE
  | .AGENT_QUERY => vm.returnTrap i.opcode

/-- The I/O operations only clear the error register. -/
def execIo (_op : IoOp) : Exec := .ok (none, vm.putReg fluxRegErrorCode 0)

/-! ## FLUX-specific operations -/

/-- `"dyn"`. -/
def dyn : List UInt8 := [100, 121, 110]

def execFlux (host : Host) (op : FluxOp) (i : FluxVmInsn) (v1 v2 : UInt64) : Exec :=
  match op with
  | .TILE_LOAD => vm.setRd i (v1 + 1)
  | .TILE_COMPOSE => vm.setRd i (v1 ^^^ v2)
  | .TILE_EXEC => .ok (none, vm)
  | .REGION_CREATE =>
    let (rid, vm) := vm.fluxVmRegionCreate host (some dyn) v1 false
    vm.setRd i (Int64.ofInt rid).toUInt64
  | .REGION_DESTROY => do
    let (_, vm) ← vm.fluxVmRegionDestroy (v1 &&& 0xFF).toNat
    return (none, vm)
  | .REGION_MAP =>
    if h : v1.toNat < 16 then
      let reg := vm.regions ⟨v1.toNat, h⟩
      if reg.active then vm.setRd i reg.data.addr else .ok (none, vm)
    else .ok (none, vm)
  | .ADAPT | .EVOLVE | .MODULE_IMPORT | .MODULE_EXPORT => .ok (none, vm)
  | .TRACE_ON => .ok (none, { vm with tracing := true, traceIdx := 0 })
  | .TRACE_OFF => .ok (none, { vm with tracing := false })
  | .PROF_START => .ok (none, { vm with opCounts := fun _ => 0, cycleCount := 0, insnCount := 0 })
  | .PROF_STOP => .ok (none, vm)
  | .GAS_INIT => do return (none, vm.putReg fluxRegCycleCount (← vm.fluxVmGetReg i.rd))
  | .GAS_CHECK => do
    let gas := vm.regs fluxRegCycleCount
    let cost ← vm.fluxVmGetReg i.rd
    if gas < cost then vm.returnTrap 0xFE
    else return (none, vm.putReg fluxRegCycleCount (gas - cost))

/-! ## Native operations -/

def execNative (op : NativeOp) (i : FluxVmInsn) (v1 v2 : UInt64) : Exec :=
  match op with
  | .NATIVE_CALL | .NATIVE_LOAD => vm.returnTrap i.opcode
  | .VEC_LOAD => vm.setRd i v1
  | .VEC_STORE => .ok (none, vm)
  | .VEC_ADD => vm.setRd i (v1 + v2)
  | .VEC_MUL => vm.setRd i (v1 * v2)
  | .VEC_DOT => vm.setRd i (v1 * v2)
  | .VEC_SPLAT => .ok (none, vm)

/-- The switch on the opcode. -/
def execute (host : Host) (i : FluxVmInsn) (v1 v2 : UInt64) : Exec :=
  match opcodeOf i.opcode with
  | .system op => vm.execSystem op i
  | .arith op => vm.execArith op i v1 v2
  | .logic op => vm.execLogic op i v1 v2
  | .compare op => vm.execCompare op i v1 v2
  | .branch op => vm.execBranch op i v1
  | .memory op => vm.execMemory op i v1 v2
  | .stack op => vm.execStack op i v1
  | .call op => vm.execCall op i v1
  | .agent op => vm.execAgent op i v1
  | .io op => vm.execIo op
  | .flux op => vm.execFlux host op i v1 v2
  | .native op => vm.execNative op i v1 v2
  | .unknown => .ok (some .errInvalid, vm.fail 20)

end FluxVm

end FluxOs
