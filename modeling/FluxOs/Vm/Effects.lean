import FluxOs.Vm.Step

/-!
# What an opcode case can change

One theorem for each category of opcodes says which parts of the VM its cases leave alone.  The parts
are the program, the counters, the trace, the region table, the operand stack and the call stack; an
invariant about one part has to be proved for the categories that change it only.
-/

namespace FluxOs

open Faulting

/-! ## Parts of the state -/

/-- The program, the breakpoints and the owner are the same. -/
structure KeepsProgram (vm vm' : FluxVm) : Prop where
  bytecode : vm'.bytecode = vm.bytecode
  bytecodeLen : vm'.bytecodeLen = vm.bytecodeLen
  breakpointAddrs : vm'.breakpointAddrs = vm.breakpointAddrs
  ownerPid : vm'.ownerPid = vm.ownerPid

/-- The cycle, instruction and opcode counts are the same. -/
structure KeepsCounters (vm vm' : FluxVm) : Prop where
  cycleCount : vm'.cycleCount = vm.cycleCount
  insnCount : vm'.insnCount = vm.insnCount
  opCounts : vm'.opCounts = vm.opCounts
  lastOpCycles : vm'.lastOpCycles = vm.lastOpCycles

/-- The trace buffer and its switch are the same. -/
structure KeepsTrace (vm vm' : FluxVm) : Prop where
  trace : vm'.trace = vm.trace
  traceIdx : vm'.traceIdx = vm.traceIdx
  tracing : vm'.tracing = vm.tracing

/-- The region table, the active region and the host heap are the same. -/
structure KeepsRegions (vm vm' : FluxVm) : Prop where
  regions : vm'.regions = vm.regions
  activeRegion : vm'.activeRegion = vm.activeRegion
  heap : vm'.heap = vm.heap

/-- The operand stack is the same. -/
structure KeepsStack (vm vm' : FluxVm) : Prop where
  stack : vm'.stack = vm.stack
  stackSize : vm'.stackSize = vm.stackSize
  stackPtr : vm'.stackPtr = vm.stackPtr

/-- The call stack is the same. -/
structure KeepsCalls (vm vm' : FluxVm) : Prop where
  callStack : vm'.callStack = vm.callStack
  callDepth : vm'.callDepth = vm.callDepth

/-! ## Effects of the categories -/

/-- Registers, `pc`, the VM state and the error code may change. -/
structure CpuEffect (vm vm' : FluxVm) : Prop extends KeepsProgram vm vm', KeepsCounters vm vm',
  KeepsTrace vm vm', KeepsRegions vm vm', KeepsStack vm vm', KeepsCalls vm vm'

/-- Registers, the operand stack, the VM state and the error code may change. -/
structure StackEffect (vm vm' : FluxVm) : Prop extends KeepsProgram vm vm', KeepsCounters vm vm',
    KeepsTrace vm vm', KeepsRegions vm vm', KeepsCalls vm vm' where
  pc : vm'.pc = vm.pc
  stackSize : vm'.stackSize = vm.stackSize

/-- Registers, `pc`, the call stack, the stack pointer, the VM state and the error code may change. -/
structure CallEffect (vm vm' : FluxVm) : Prop extends KeepsProgram vm vm', KeepsCounters vm vm',
    KeepsTrace vm vm', KeepsRegions vm vm' where
  stack : vm'.stack = vm.stack
  stackSize : vm'.stackSize = vm.stackSize

/-- Registers, the region table, the counters, the trace, the VM state and the error code may
change. -/
structure FluxEffect (vm vm' : FluxVm) : Prop extends KeepsProgram vm vm', KeepsStack vm vm',
    KeepsCalls vm vm' where
  pc : vm'.pc = vm.pc

section

variable {a b c : FluxVm}

theorem KeepsProgram.trans (h : KeepsProgram a b) (h' : KeepsProgram b c) : KeepsProgram a c :=
  ⟨h'.1.trans h.1, h'.2.trans h.2, h'.3.trans h.3, h'.4.trans h.4⟩

theorem KeepsCounters.trans (h : KeepsCounters a b) (h' : KeepsCounters b c) : KeepsCounters a c :=
  ⟨h'.1.trans h.1, h'.2.trans h.2, h'.3.trans h.3, h'.4.trans h.4⟩

theorem KeepsTrace.trans (h : KeepsTrace a b) (h' : KeepsTrace b c) : KeepsTrace a c :=
  ⟨h'.1.trans h.1, h'.2.trans h.2, h'.3.trans h.3⟩

theorem KeepsRegions.trans (h : KeepsRegions a b) (h' : KeepsRegions b c) : KeepsRegions a c :=
  ⟨h'.1.trans h.1, h'.2.trans h.2, h'.3.trans h.3⟩

theorem KeepsCalls.trans (h : KeepsCalls a b) (h' : KeepsCalls b c) : KeepsCalls a c :=
  ⟨h'.1.trans h.1, h'.2.trans h.2⟩

end

theorem CpuEffect.of_update (vm : FluxVm) (regs : Fin 64 → UInt64) (state : FluxVmState)
    (errorCode : UInt8) (pc : UInt64) : CpuEffect vm { vm with regs, state, errorCode, pc } :=
  ⟨⟨rfl, rfl, rfl, rfl⟩, ⟨rfl, rfl, rfl, rfl⟩, ⟨rfl, rfl, rfl⟩, ⟨rfl, rfl, rfl⟩, ⟨rfl, rfl, rfl⟩,
    ⟨rfl, rfl⟩⟩

theorem StackEffect.of_update (vm : FluxVm) (regs : Fin 64 → UInt64) (state : FluxVmState)
    (errorCode : UInt8) (stack : Nat → UInt64) (stackPtr : UInt64) :
    StackEffect vm { vm with regs, state, errorCode, stack, stackPtr } :=
  ⟨⟨rfl, rfl, rfl, rfl⟩, ⟨rfl, rfl, rfl, rfl⟩, ⟨rfl, rfl, rfl⟩, ⟨rfl, rfl, rfl⟩, ⟨rfl, rfl⟩, rfl, rfl⟩

theorem CallEffect.of_update (vm : FluxVm) (regs : Fin 64 → UInt64) (state : FluxVmState)
    (errorCode : UInt8) (pc stackPtr : UInt64) (callStack : Nat → UInt64) (callDepth : Int) :
    CallEffect vm { vm with regs, state, errorCode, pc, stackPtr, callStack, callDepth } :=
  ⟨⟨rfl, rfl, rfl, rfl⟩, ⟨rfl, rfl, rfl, rfl⟩, ⟨rfl, rfl, rfl⟩, ⟨rfl, rfl, rfl⟩, rfl, rfl⟩

theorem StackEffect.trans {a b c : FluxVm} (h : StackEffect a b) (h' : StackEffect b c) :
    StackEffect a c where
  toKeepsProgram := h.toKeepsProgram.trans h'.toKeepsProgram
  toKeepsCounters := h.toKeepsCounters.trans h'.toKeepsCounters
  toKeepsTrace := h.toKeepsTrace.trans h'.toKeepsTrace
  toKeepsRegions := h.toKeepsRegions.trans h'.toKeepsRegions
  toKeepsCalls := h.toKeepsCalls.trans h'.toKeepsCalls
  pc := h'.pc.trans h.pc
  stackSize := h'.stackSize.trans h.stackSize

theorem FluxEffect.of_update (vm : FluxVm) (regs : Fin 64 → UInt64) (state : FluxVmState)
    (errorCode : UInt8) (regions : Fin 16 → FluxVmRegion) (activeRegion : Int) (heap : HostHeap)
    (cycleCount insnCount : UInt64) (opCounts : UInt8 → UInt64) (tracing : Bool)
    (traceIdx : Int32) :
    FluxEffect vm { vm with
      regs, state, errorCode, regions, activeRegion, heap, cycleCount, insnCount, opCounts, tracing,
      traceIdx } :=
  ⟨⟨rfl, rfl, rfl, rfl⟩, ⟨rfl, rfl, rfl⟩, ⟨rfl, rfl⟩, rfl⟩

namespace FluxVm

variable {vm : FluxVm} {i : FluxVmInsn} {v1 v2 : UInt64}

/-! ## Register access -/

theorem fluxVmSetReg_ok {r : UInt8} {val : UInt64} {vm' : FluxVm}
    (h : vm.fluxVmSetReg r val = .ok vm') : ∃ regs, vm' = { vm with regs } := by
  unfold fluxVmSetReg at h
  split_ifs at h
  · exact ⟨vm.regs, (Except.ok.inj h).symm⟩
  · exact ⟨_, (Except.ok.inj h).symm⟩

/-- What holds whatever a register write does to the register file. -/
theorem fluxVmSetReg_ensures {r : UInt8} {val : UInt64} {Q : FluxVm → Prop}
    (h : ∀ regs, Q { vm with regs }) : Ensures (fun _ => True) Q (vm.fluxVmSetReg r val) := by
  refine ensures_of_forall (fun vm' hvm => ?_) fun _ _ => trivial
  obtain ⟨regs, rfl⟩ := fluxVmSetReg_ok hvm
  exact h regs

theorem setRd_ensures (val : UInt64) {Q : Option FluxStatus × FluxVm → Prop}
    (h : ∀ regs, Q (none, { vm with regs })) : Ensures (fun _ => True) Q (vm.setRd i val) := by
  unfold setRd
  simpa using fluxVmSetReg_ensures h

theorem fluxVmGetReg_ensures {r : UInt8} {Q : UInt64 → Prop} (h : ∀ v, Q v) :
    Ensures (fun _ => True) Q (vm.fluxVmGetReg r) :=
  ensures_of_forall (fun v _ => h v) fun _ _ => trivial

/-! ## Categories that leave memory and the stacks alone -/

theorem execSystem_effect (op : SystemOp) :
    Ensures (fun _ => True) (fun r => CpuEffect vm r.2) (vm.execSystem op i) := by
  cases op
  case TRAP =>
    simp only [execSystem]
    split_ifs
    · exact CpuEffect.of_update ..
    · exact CpuEffect.of_update ..
  all_goals exact CpuEffect.of_update ..

theorem divide_effect {div : Int64 → Int64 → Int64} :
    Ensures (fun _ => True) (fun r => CpuEffect vm r.2) (vm.divide i v1 v2 div) := by
  unfold divide
  split_ifs
  · exact CpuEffect.of_update ..
  · trivial
  · exact setRd_ensures _ fun _ => CpuEffect.of_update ..

theorem execArith_effect (op : ArithOp) :
    Ensures (fun _ => True) (fun r => CpuEffect vm r.2) (vm.execArith op i v1 v2) := by
  cases op
  case IDIV | IMOD => exact divide_effect
  case INC | DEC =>
    exact (fluxVmGetReg_ensures fun _ => trivial).bind fun _ _ =>
      setRd_ensures _ fun _ => CpuEffect.of_update ..
  case FDIV =>
    simp only [execArith]
    split_ifs
    · exact CpuEffect.of_update ..
    · exact setRd_ensures _ fun _ => CpuEffect.of_update ..
  all_goals exact setRd_ensures _ fun _ => CpuEffect.of_update ..

theorem execLogic_effect (op : LogicOp) :
    Ensures (fun _ => True) (fun r => CpuEffect vm r.2) (vm.execLogic op i v1 v2) :=
  setRd_ensures _ fun _ => CpuEffect.of_update ..

theorem execCompare_effect (op : CompareOp) :
    Ensures (fun _ => True) (fun r => CpuEffect vm r.2) (vm.execCompare op i v1 v2) :=
  CpuEffect.of_update ..

theorem jumpIf_effect (taken : Bool) :
    Ensures (fun _ => True) (fun r => CpuEffect vm r.2) (vm.jumpIf taken i) := by
  cases taken <;> exact CpuEffect.of_update ..

theorem execBranch_effect (op : BranchOp) :
    Ensures (fun _ => True) (fun r => CpuEffect vm r.2) (vm.execBranch op i v1) := by
  cases op
  case LOOP =>
    simp only [execBranch, jumpIf]
    split_ifs <;> exact CpuEffect.of_update ..
  all_goals exact jumpIf_effect _

theorem execAgent_effect (op : AgentOp) :
    Ensures (fun _ => True) (fun r => CpuEffect vm r.2) (vm.execAgent op i v1) := by
  cases op
  case SPAWN =>
    exact (ensures_bind ..).2 (fluxVmSetReg_ensures fun _ => CpuEffect.of_update ..)
  case CAP_CHECK => exact (fluxVmGetReg_ensures fun _ => trivial).bind fun _ _ =>
      CpuEffect.of_update ..
  all_goals exact CpuEffect.of_update ..

theorem execIo_effect (op : IoOp) :
    Ensures (fun _ => True) (fun r => CpuEffect vm r.2) (vm.execIo op) :=
  CpuEffect.of_update ..

theorem execNative_effect (op : NativeOp) :
    Ensures (fun _ => True) (fun r => CpuEffect vm r.2) (vm.execNative op i v1 v2) := by
  cases op
  case VEC_LOAD | VEC_ADD | VEC_MUL | VEC_DOT => exact setRd_ensures _ fun _ => CpuEffect.of_update ..
  all_goals exact CpuEffect.of_update ..

/-! ## The operand stack -/

theorem setStackAt_ensures {idx val : UInt64} {Q : FluxVm → Prop}
    (h : ∀ stack, Q { vm with stack }) : Ensures (fun _ => True) Q (vm.setStackAt idx val) := by
  unfold setStackAt
  split_ifs
  · exact h _
  · trivial

theorem stackAt_ensures {idx : UInt64} {Q : UInt64 → Prop} (h : ∀ v, Q v) :
    Ensures (fun _ => True) Q (vm.stackAt idx) :=
  ensures_of_forall (fun v _ => h v) fun _ _ => trivial

theorem stackPush_effect (val : UInt64) :
    Ensures (fun _ => True) (fun r => StackEffect vm r.2) (vm.stackPush val) := by
  unfold stackPush
  split_ifs
  · exact StackEffect.of_update ..
  · exact (ensures_bind ..).2 (setStackAt_ensures fun _ => StackEffect.of_update ..)

theorem stackPop_ensures {Q : FluxStatus × FluxVm × Option UInt64 → Prop}
    (h : ∀ rc state errorCode stackPtr val, Q (rc, { vm with state, errorCode, stackPtr }, val)) :
    Ensures (fun _ => True) Q vm.stackPop := by
  unfold stackPop
  split_ifs
  · exact h .errGeneral .error 2 vm.stackPtr none
  · exact (ensures_bind ..).2 (stackAt_ensures fun v => h .ok vm.state vm.errorCode _ (some v))

theorem stackPop_effect :
    Ensures (fun _ => True) (fun r => StackEffect vm r.2.1) vm.stackPop :=
  stackPop_ensures fun _ _ _ _ _ => StackEffect.of_update ..

theorem mirrorSp_effect : StackEffect vm vm.mirrorSp := StackEffect.of_update ..

theorem pushCase_effect (val : UInt64) :
    Ensures (fun _ => True) (fun r => StackEffect vm r.2) (vm.pushCase val) := by
  refine (stackPush_effect val).bind fun ⟨rc, vm'⟩ h => ?_
  simp only
  split_ifs
  · exact h
  · exact h.trans mirrorSp_effect

theorem popCase_effect {put : FluxVm → UInt64 → Except Fault FluxVm}
    (hput : ∀ vm val, Ensures (fun _ => True) (StackEffect vm) (put vm val)) :
    Ensures (fun _ => True) (fun r => StackEffect vm r.2) (vm.popCase put) := by
  refine stackPop_effect.bind fun ⟨rc, vm', val⟩ h => ?_
  simp only
  split_ifs
  · exact h
  · exact (hput _ _).bind fun vm'' h' => (h.trans h').trans mirrorSp_effect

theorem pushRegs_effect (rs : List (Fin 64)) :
    Ensures (fun _ => True) (fun r => StackEffect vm r.2) (pushRegs rs vm) := by
  induction rs generalizing vm with
  | nil => exact mirrorSp_effect
  | cons r rs ih =>
    refine (stackPush_effect _).bind fun ⟨rc, vm'⟩ h => ?_
    simp only
    split_ifs
    · exact h
    · exact ih.imp fun _ h' => h.trans h'

theorem popRegs_effect (rs : List (Fin 64)) :
    Ensures (fun _ => True) (fun r => StackEffect vm r.2) (popRegs rs vm) := by
  induction rs generalizing vm with
  | nil => exact mirrorSp_effect
  | cons r rs ih =>
    refine stackPop_effect.bind fun ⟨rc, vm', val⟩ h => ?_
    simp only
    split_ifs
    · exact h
    · have hput : StackEffect vm' (vm'.putReg r (val.getD 0)) := StackEffect.of_update ..
      exact ih.imp fun _ h' => (h.trans hput).trans h'

theorem enterFrame_effect :
    Ensures (fun _ => True) (fun r => StackEffect vm r.2) (vm.enterFrame i) := by
  refine (stackPush_effect _).bind fun ⟨_, vm₁⟩ h₁ => ?_
  refine (stackPush_effect _).bind fun ⟨_, vm₂⟩ h₂ => ?_
  have h := h₁.trans h₂
  simp only
  split_ifs <;> exact h.trans (StackEffect.of_update ..)

theorem leaveFrame_effect :
    Ensures (fun _ => True) (fun r => StackEffect vm r.2) vm.leaveFrame := by
  have h₀ : StackEffect vm { vm with stackPtr := vm.stackSize - vm.regs fluxRegFp } :=
    StackEffect.of_update ..
  refine stackPop_effect.bind fun ⟨_, vm₁, _⟩ h₁ => ?_
  refine stackPop_effect.bind fun ⟨_, vm₂, _⟩ h₂ => ?_
  exact ((h₀.trans h₁).trans h₂).trans (StackEffect.of_update ..)

theorem execStack_effect (op : StackOp) :
    Ensures (fun _ => True) (fun r => StackEffect vm r.2) (vm.execStack op i v1) := by
  cases op
  case PUSH => exact (fluxVmGetReg_ensures fun _ => trivial).bind fun _ _ => pushCase_effect _
  case POP | POPR =>
    simp only [execStack]
    exact popCase_effect fun _ _ => fluxVmSetReg_ensures fun _ => StackEffect.of_update ..
  case PUSH_IMM | PUSHF | PUSHR => exact pushCase_effect _
  case POPF =>
    simp only [execStack]
    exact popCase_effect fun _ _ => StackEffect.of_update ..
  case DUP =>
    simp only [execStack, duplicateTop]
    split_ifs
    · exact StackEffect.of_update ..
    · exact (stackAt_ensures fun _ => trivial).bind fun _ _ => pushCase_effect _
  case SWAP =>
    simp only [execStack, swapTop]
    split_ifs
    · exact StackEffect.of_update ..
    · refine (stackAt_ensures fun _ => trivial).bind fun _ _ => ?_
      refine (stackAt_ensures fun _ => trivial).bind fun _ _ => ?_
      refine (setStackAt_ensures fun _ => StackEffect.of_update ..).bind fun vm₁ h₁ => ?_
      exact (ensures_bind ..).2 (setStackAt_ensures fun _ => h₁.trans (StackEffect.of_update ..))
  case ENTER => exact enterFrame_effect
  case LEAVE => exact leaveFrame_effect
  case PUSHA => exact pushRegs_effect _
  case POPA => exact popRegs_effect _
  case STACK_CHK =>
    simp only [execStack]
    split_ifs <;> exact StackEffect.of_update ..
  case STACK_ALLOC =>
    refine (fluxVmGetReg_ensures fun _ => trivial).bind fun _ _ => ?_
    simp only
    split_ifs <;> exact StackEffect.of_update ..
  case STACK_FREE =>
    exact (fluxVmGetReg_ensures fun _ => trivial).bind fun _ _ => StackEffect.of_update ..

/-! ## Calls -/

theorem callStackPush_ensures {retAddr : UInt64} {Q : FluxStatus × FluxVm → Prop}
    (h : ∀ rc state errorCode callStack callDepth,
      Q (rc, { vm with state, errorCode, callStack, callDepth })) :
    Ensures (fun _ => True) Q (vm.callStackPush retAddr) := by
  unfold callStackPush
  split_ifs
  · exact h .errOverflow .error 3 vm.callStack vm.callDepth
  · exact h .ok vm.state vm.errorCode _ _
  · trivial

theorem callStackPop_ensures {Q : FluxStatus × FluxVm × Option UInt64 → Prop}
    (h : ∀ rc state errorCode callDepth val, Q (rc, { vm with state, errorCode, callDepth }, val)) :
    Ensures (fun _ => True) Q vm.callStackPop := by
  unfold callStackPop
  split_ifs
  · exact h .errGeneral .error 4 vm.callDepth none
  · exact h .ok vm.state vm.errorCode _ _
  · trivial

theorem callCase_effect {dest : FluxVm → Except Fault UInt64} :
    Ensures (fun _ => True) (fun r => CallEffect vm r.2) (vm.callCase dest) := by
  refine (ensures_bind ..).2 (callStackPush_ensures fun rc state errorCode callStack callDepth => ?_)
  simp only
  split_ifs
  · exact CallEffect.of_update ..
  · exact (ensures_bind ..).2 (ensures_of_forall (fun _ _ => CallEffect.of_update ..) fun _ _ => trivial)

theorem execCall_effect (op : CallOp) :
    Ensures (fun _ => True) (fun r => CallEffect vm r.2) (vm.execCall op i v1) := by
  cases op
  case CALL | CALLI | CALL_REG | ICALL =>
    simp only [execCall]
    exact callCase_effect
  case RET =>
    refine (ensures_bind ..).2 (callStackPop_ensures fun _ _ _ _ _ => ?_)
    simp only
    split_ifs <;> exact CallEffect.of_update ..
  case RETI =>
    refine (ensures_bind ..).2 (callStackPop_ensures fun _ _ _ _ _ => ?_)
    simp only
    split_ifs
    · exact CallEffect.of_update ..
    · exact (ensures_bind ..).2 (stackPop_ensures fun _ _ _ _ _ => CallEffect.of_update ..)
  all_goals exact CallEffect.of_update ..

/-! ## FLUX-specific operations -/

theorem fluxVmRegionCreate_update (vm : FluxVm) (host : Host) (name : Option (List UInt8))
    (size : UInt64) (readonly : Bool) : ∃ regions activeRegion heap,
      (vm.fluxVmRegionCreate host name size readonly).2 =
        { vm with regions, activeRegion, heap } := by
  simp only [fluxVmRegionCreate]
  split
  · exact ⟨_, _, _, rfl⟩
  · split
    · exact ⟨_, _, _, rfl⟩
    · split_ifs <;> exact ⟨_, _, _, rfl⟩

theorem fluxVmRegionDestroy_ensures {regionId : Int} {Q : FluxStatus × FluxVm → Prop}
    (h : ∀ rc regions activeRegion heap, Q (rc, { vm with regions, activeRegion, heap })) :
    Ensures (fun fault => ∃ addr, fault = .badFree addr) Q (vm.fluxVmRegionDestroy regionId) := by
  unfold fluxVmRegionDestroy
  cases vm.validateRegionId regionId with
  | none => exact h .errNotfound vm.regions vm.activeRegion vm.heap
  | some slot =>
    refine Ensures.bind (R := fun _ => True) ?_ fun heap _ => ?_
    · unfold HostHeap.freeUnlessNull HostHeap.free
      split_ifs
      · trivial
      · exact ⟨_, rfl⟩
      · trivial
    · simp only
      split_ifs
      · exact h .ok _ _ heap
      · exact h .ok _ _ heap

theorem execFlux_effect (host : Host) (op : FluxOp) :
    Ensures (fun _ => True) (fun r => FluxEffect vm r.2) (vm.execFlux host op i v1 v2) := by
  cases op
  case TILE_LOAD | TILE_COMPOSE => exact setRd_ensures _ fun _ => FluxEffect.of_update ..
  case REGION_CREATE =>
    obtain ⟨regions, activeRegion, heap, h⟩ :=
      fluxVmRegionCreate_update vm host (some dyn) v1 false
    simp only [execFlux, h]
    exact setRd_ensures _ fun _ => FluxEffect.of_update ..
  case REGION_DESTROY =>
    refine (ensures_bind ..).2 (.mono (fluxVmRegionDestroy_ensures (Q := fun r => FluxEffect vm r.2)
      fun _ _ _ _ => FluxEffect.of_update ..) (fun _ _ => trivial) fun _ h => h)
  case REGION_MAP =>
    simp only [execFlux]
    split_ifs
    · exact setRd_ensures _ fun _ => FluxEffect.of_update ..
    all_goals exact FluxEffect.of_update ..
  case GAS_INIT =>
    exact (fluxVmGetReg_ensures fun _ => trivial).bind fun _ _ => FluxEffect.of_update ..
  case GAS_CHECK =>
    refine (fluxVmGetReg_ensures fun _ => trivial).bind fun _ _ => ?_
    split_ifs <;> exact FluxEffect.of_update ..
  all_goals exact FluxEffect.of_update ..

end FluxVm

end FluxOs
