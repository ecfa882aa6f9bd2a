import FluxOs.Lib.Couplings
import FluxOs.Vm.Fetch
import FluxOs.Vm.Stopping

/-!
# Breakpoints

`flux_vm_step` stops at a breakpoint before it executes the instruction there, and `flux_vm_run` starts
with the same test, so that a run that has stopped at a breakpoint never gets past it.  The opcode cases
do not look at the breakpoints: a run that meets none of them is the run without breakpoints.
-/

namespace FluxOs

open Faulting

namespace FluxVm

/-- The VM with other breakpoints. -/
def withBreakpoints (bps : List UInt32) (vm : FluxVm) : FluxVm := { vm with breakpointAddrs := bps }

/-- The result of an opcode case with other breakpoints. -/
def onVm {α : Type} (bps : List UInt32) (r : α × FluxVm) : α × FluxVm := (r.1, r.2.withBreakpoints bps)

/-- The result of a pop with other breakpoints. -/
def onPopped {α β : Type} (bps : List UInt32) (r : α × FluxVm × β) : α × FluxVm × β :=
  (r.1, r.2.1.withBreakpoints bps, r.2.2)

variable {bps : List UInt32} {vm : FluxVm} {i : FluxVmInsn} {v1 v2 : UInt64} {host : Host}

/-! ## The opcode cases do not look at the breakpoints -/

theorem fluxVmSetReg_follows (r : UInt8) (val : UInt64) :
    Follows (withBreakpoints bps) (vm.fluxVmSetReg r val)
      ((vm.withBreakpoints bps).fluxVmSetReg r val) := by
  unfold fluxVmSetReg
  split_ifs <;> rfl

theorem setRd_follows (val : UInt64) :
    Follows (onVm bps) (vm.setRd i val) ((vm.withBreakpoints bps).setRd i val) :=
  (fluxVmSetReg_follows i.rd val).bind fun _ => rfl

theorem execSystem_follows (op : SystemOp) :
    Follows (onVm bps) (vm.execSystem op i) ((vm.withBreakpoints bps).execSystem op i) := by
  cases op
  case TRAP => exact follows_ite (fun _ => rfl) fun _ => rfl
  all_goals rfl

theorem divide_follows {div : Int64 → Int64 → Int64} :
    Follows (onVm bps) (vm.divide i v1 v2 div) ((vm.withBreakpoints bps).divide i v1 v2 div) :=
  follows_ite (fun _ => rfl) fun _ => follows_ite (fun _ => rfl) fun _ => setRd_follows _

theorem execArith_follows (op : ArithOp) :
    Follows (onVm bps) (vm.execArith op i v1 v2) ((vm.withBreakpoints bps).execArith op i v1 v2) := by
  cases op
  case IDIV | IMOD => exact divide_follows
  case INC | DEC => exact Follows.read fun _ => setRd_follows _
  case FDIV => exact follows_ite (fun _ => rfl) fun _ => setRd_follows _
  all_goals exact setRd_follows _

theorem execBranch_follows (op : BranchOp) :
    Follows (onVm bps) (vm.execBranch op i v1) ((vm.withBreakpoints bps).execBranch op i v1) := by
  have jump (vm : FluxVm) (taken : Bool) :
      Follows (onVm bps) (vm.jumpIf taken i) ((vm.withBreakpoints bps).jumpIf taken i) := by
    cases taken <;> rfl
  cases op
  case LOOP => exact follows_ite (fun _ => jump _ _) fun _ => rfl
  all_goals exact jump _ _

theorem execAgent_follows (op : AgentOp) :
    Follows (onVm bps) (vm.execAgent op i v1) ((vm.withBreakpoints bps).execAgent op i v1) := by
  cases op
  case SPAWN => exact (fluxVmSetReg_follows i.rd 42).bind fun _ => rfl
  case CAP_CHECK => exact Follows.read fun _ => rfl
  all_goals rfl

theorem execNative_follows (op : NativeOp) :
    Follows (onVm bps) (vm.execNative op i v1 v2) ((vm.withBreakpoints bps).execNative op i v1 v2) := by
  cases op
  case VEC_LOAD | VEC_ADD | VEC_MUL | VEC_DOT => exact setRd_follows _
  all_goals rfl

/-! ### The stacks -/

theorem setStackAt_follows (idx val : UInt64) :
    Follows (withBreakpoints bps) (vm.setStackAt idx val)
      ((vm.withBreakpoints bps).setStackAt idx val) :=
  follows_ite (fun _ => rfl) fun _ => rfl

theorem stackPush_follows (val : UInt64) :
    Follows (onVm bps) (vm.stackPush val) ((vm.withBreakpoints bps).stackPush val) :=
  follows_ite (fun _ => rfl) fun _ => (setStackAt_follows _ val).bind fun _ => rfl

theorem stackPop_follows :
    Follows (onPopped bps) vm.stackPop (vm.withBreakpoints bps).stackPop :=
  follows_ite (fun _ => rfl) fun _ => Follows.read fun _ => rfl

theorem pushCase_follows (val : UInt64) :
    Follows (onVm bps) (vm.pushCase val) ((vm.withBreakpoints bps).pushCase val) :=
  (stackPush_follows val).bind fun _ => follows_ite (fun _ => rfl) fun _ => rfl

theorem popCase_follows {put : FluxVm → UInt64 → Except Fault FluxVm}
    (hput : ∀ vm val, Follows (withBreakpoints bps) (put vm val) (put (vm.withBreakpoints bps) val)) :
    Follows (onVm bps) (vm.popCase put) ((vm.withBreakpoints bps).popCase put) :=
  stackPop_follows.bind fun _ => follows_ite (fun _ => rfl) fun _ => (hput _ _).bind fun _ => rfl

theorem pushRegs_follows (rs : List (Fin 64)) :
    Follows (onVm bps) (pushRegs rs vm) (pushRegs rs (vm.withBreakpoints bps)) := by
  induction rs generalizing vm with
  | nil => rfl
  | cons r rs ih => exact (stackPush_follows _).bind fun _ => follows_ite (fun _ => rfl) fun _ => ih

theorem popRegs_follows (rs : List (Fin 64)) :
    Follows (onVm bps) (popRegs rs vm) (popRegs rs (vm.withBreakpoints bps)) := by
  induction rs generalizing vm with
  | nil => rfl
  | cons r rs ih => exact stackPop_follows.bind fun _ => follows_ite (fun _ => rfl) fun _ => ih

theorem enterFrame_follows :
    Follows (onVm bps) (vm.enterFrame i) ((vm.withBreakpoints bps).enterFrame i) :=
  (stackPush_follows _).bind fun _ => (stackPush_follows _).bind fun _ =>
    follows_ite (fun _ => rfl) fun _ => rfl

theorem leaveFrame_follows :
    Follows (onVm bps) vm.leaveFrame (vm.withBreakpoints bps).leaveFrame :=
  stackPop_follows.bind fun _ => stackPop_follows.bind fun _ => rfl

theorem execStack_follows (op : StackOp) :
    Follows (onVm bps) (vm.execStack op i v1) ((vm.withBreakpoints bps).execStack op i v1) := by
  cases op
  case PUSH => exact Follows.read fun _ => pushCase_follows _
  case POP | POPR =>
    simp only [execStack]
    exact popCase_follows fun _ _ => fluxVmSetReg_follows _ _
  case PUSH_IMM | PUSHF | PUSHR => exact pushCase_follows _
  case POPF =>
    simp only [execStack]
    exact popCase_follows fun _ _ => rfl
  case DUP => exact follows_ite (fun _ => rfl) fun _ => Follows.read fun _ => pushCase_follows _
  case SWAP =>
    refine follows_ite (fun _ => rfl) fun _ => Follows.read fun _ => Follows.read fun _ => ?_
    exact (setStackAt_follows _ _).bind fun _ => (setStackAt_follows _ _).bind fun _ => rfl
  case ENTER => exact enterFrame_follows
  case LEAVE => exact leaveFrame_follows
  case PUSHA => exact pushRegs_follows _
  case POPA => exact popRegs_follows _
  case STACK_CHK =>
    show Follows _ _ (.ok (none, if vm.stackPtr > vm.stackSize - 256 then _ else _))
    unfold execStack
    split_ifs <;> rfl
  case STACK_ALLOC => exact Follows.read fun _ => follows_ite (fun _ => rfl) fun _ => rfl
  case STACK_FREE => exact Follows.read fun _ => rfl

/-! ### Calls -/

theorem callStackPush_follows (retAddr : UInt64) :
    Follows (onVm bps) (vm.callStackPush retAddr) ((vm.withBreakpoints bps).callStackPush retAddr) :=
  follows_ite (fun _ => rfl) fun _ => follows_ite (fun _ => rfl) fun _ => rfl

theorem callStackPop_follows :
    Follows (onPopped bps) vm.callStackPop (vm.withBreakpoints bps).callStackPop :=
  follows_ite (fun _ => rfl) fun _ => follows_ite (fun _ => rfl) fun _ => rfl

theorem callCase_follows {dest : FluxVm → Except Fault UInt64}
    (hdest : ∀ vm, dest (vm.withBreakpoints bps) = dest vm) :
    Follows (onVm bps) (vm.callCase dest) ((vm.withBreakpoints bps).callCase dest) := by
  refine (callStackPush_follows _).bind fun r => follows_ite (fun _ => rfl) fun _ => ?_
  simp only [hdest]
  exact Follows.read fun _ => rfl

theorem execCall_follows (op : CallOp) :
    Follows (onVm bps) (vm.execCall op i v1) ((vm.withBreakpoints bps).execCall op i v1) := by
  cases op
  case CALL | CALLI | CALL_REG | ICALL =>
    simp only [execCall]
    exact callCase_follows fun _ => rfl
  case RET => exact callStackPop_follows.bind fun _ => follows_ite (fun _ => rfl) fun _ => rfl
  case RETI =>
    exact callStackPop_follows.bind fun _ => follows_ite (fun _ => rfl) fun _ =>
      stackPop_follows.bind fun _ => rfl
  all_goals rfl

/-! ### Memory and regions -/

theorem regionAccess_follows (op : MemoryOp) (ea : UInt64) (slot : Fin 16) :
    Follows (onVm bps) (vm.regionAccess op i ea slot)
      ((vm.withBreakpoints bps).regionAccess op i ea slot) := by
  cases op
  case LOAD | LOAD8 | LOAD16 | LOAD32 =>
    exact Follows.read fun _ => (fluxVmSetReg_follows _ _).bind fun _ => rfl
  case LEA => exact (fluxVmSetReg_follows _ _).bind fun _ => rfl
  case STORE | STORE8 | STORE16 | STORE32 =>
    exact Follows.read fun _ => Follows.read fun _ => rfl
  all_goals rfl

theorem stackAccess_follows (op : MemoryOp) (ea : UInt64) :
    Follows (onVm bps) (vm.stackAccess op i ea) ((vm.withBreakpoints bps).stackAccess op i ea) := by
  cases op
  case LOAD | LOAD8 | LOAD16 | LOAD32 =>
    exact follows_ite (fun _ => Follows.read fun _ => (fluxVmSetReg_follows _ _).bind fun _ => rfl)
      fun _ => rfl
  case STORE | STORE8 | STORE16 | STORE32 =>
    refine follows_ite (fun _ => Follows.read fun _ => Follows.read fun _ => ?_) fun _ => rfl
    exact (setStackAt_follows _ _).bind fun _ => rfl
  case LEA => exact (fluxVmSetReg_follows _ _).bind fun _ => rfl
  all_goals rfl

theorem atomicUpdate_follows {combine : UInt64 → UInt64 → UInt64} (ea : UInt64) :
    Follows (onVm bps) (vm.atomicUpdate combine i ea)
      ((vm.withBreakpoints bps).atomicUpdate combine i ea) := by
  refine Follows.read fun slot => ?_
  cases slot with
  | none => rfl
  | some slot =>
    refine Follows.read fun _ => Follows.read fun _ => Follows.read fun _ => ?_
    exact (fluxVmSetReg_follows _ _).bind fun _ => rfl

theorem compareExchange_follows (ea : UInt64) :
    Follows (withBreakpoints bps) (vm.compareExchange i ea)
      ((vm.withBreakpoints bps).compareExchange i ea) := by
  refine Follows.read fun slot => ?_
  cases slot with
  | none => rfl
  | some slot =>
    refine Follows.read fun _ => Follows.read fun _ => Follows.read fun _ => ?_
    exact follows_ite (fun _ => Follows.read fun _ => fluxVmSetReg_follows _ _)
      fun _ => fluxVmSetReg_follows _ _

theorem loadRegion_follows :
    Follows (onVm bps) (vm.loadRegion i v1) ((vm.withBreakpoints bps).loadRegion i v1) := by
  have hslot : (vm.withBreakpoints bps).namedSlot v1 = vm.namedSlot v1 := rfl
  unfold loadRegion
  rw [hslot]
  cases vm.namedSlot v1 with
  | none => rfl
  | some slot =>
    refine Follows.read fun _ => follows_ite (fun _ => Follows.read fun _ => ?_) fun _ => rfl
    exact (fluxVmSetReg_follows _ _).bind fun _ => rfl

theorem storeRegion_follows :
    Follows (onVm bps) (vm.storeRegion i v1 v2) ((vm.withBreakpoints bps).storeRegion i v1 v2) := by
  have hslot : (vm.withBreakpoints bps).namedSlot v1 = vm.namedSlot v1 := rfl
  unfold storeRegion
  rw [hslot]
  cases vm.namedSlot v1 with
  | none => rfl
  | some slot =>
    exact Follows.read fun _ => follows_ite (fun _ => Follows.read fun _ => rfl) fun _ => rfl

theorem memset_follows :
    Follows (onVm bps) (vm.memset i v1 v2) ((vm.withBreakpoints bps).memset i v1 v2) := by
  refine Follows.read fun slot => ?_
  cases slot with
  | none => rfl
  | some slot => exact Follows.read fun _ => Follows.read fun _ => rfl

theorem execMemory_follows (op : MemoryOp) :
    Follows (onVm bps) (vm.execMemory op i v1 v2) ((vm.withBreakpoints bps).execMemory op i v1 v2) := by
  have hslot : (vm.withBreakpoints bps).activeSlot = vm.activeSlot := rfl
  cases op
  case CMPXCHG => exact (compareExchange_follows _).bind fun _ => rfl
  case ATOMIC_ADD | ATOMIC_SUB => exact atomicUpdate_follows _
  case FENCE => rfl
  case LOAD_RM => exact loadRegion_follows
  case STORE_RM => exact storeRegion_follows
  case MEMSET => exact memset_follows
  all_goals
    simp only [execMemory, hslot]
    cases vm.activeSlot with
    | some slot => exact regionAccess_follows _ _ slot
    | none => exact stackAccess_follows _ _

theorem fluxVmRegionCreate_withBreakpoints (name : Option (List UInt8)) (size : UInt64)
    (readonly : Bool) :
    (vm.withBreakpoints bps).fluxVmRegionCreate host name size readonly =
      onVm bps (vm.fluxVmRegionCreate host name size readonly) := by
  have hfree : (vm.withBreakpoints bps).findFreeRegion = vm.findFreeRegion := rfl
  have hheap : (vm.withBreakpoints bps).heap = vm.heap := rfl
  unfold fluxVmRegionCreate
  rw [hfree]
  cases vm.findFreeRegion with
  | none => rfl
  | some rid =>
    simp only [hheap]
    rcases HostHeap.calloc host vm.heap (if size = 0 then 256 else size) with ⟨heap, _ | data⟩
    · rfl
    · by_cases hneg : vm.activeRegion < 0
      · simp only [putRegion, withBreakpoints, onVm, hneg, if_true]
      · simp only [putRegion, withBreakpoints, onVm, hneg, if_false]

theorem fluxVmRegionDestroy_follows (regionId : Int) :
    Follows (onVm bps) (vm.fluxVmRegionDestroy regionId)
      ((vm.withBreakpoints bps).fluxVmRegionDestroy regionId) := by
  have hslot : (vm.withBreakpoints bps).validateRegionId regionId = vm.validateRegionId regionId := rfl
  unfold fluxVmRegionDestroy
  rw [hslot]
  cases vm.validateRegionId regionId with
  | none => rfl
  | some slot =>
    refine Follows.read fun heap => ?_
    by_cases hcur : vm.activeRegion = regionId
    · simp only [putRegion, withBreakpoints, hcur, if_true]
      rfl
    · simp only [putRegion, withBreakpoints, hcur, if_false]
      rfl

theorem execFlux_follows (op : FluxOp) :
    Follows (onVm bps) (vm.execFlux host op i v1 v2)
      ((vm.withBreakpoints bps).execFlux host op i v1 v2) := by
  cases op
  case TILE_LOAD | TILE_COMPOSE => exact setRd_follows _
  case REGION_CREATE =>
    simp only [execFlux, fluxVmRegionCreate_withBreakpoints]
    exact setRd_follows _
  case REGION_DESTROY => exact (fluxVmRegionDestroy_follows _).bind fun _ => rfl
  case REGION_MAP =>
    by_cases hslot : v1.toNat < 16
    · simp only [execFlux, dif_pos hslot]
      exact follows_ite (fun _ => setRd_follows _) fun _ => rfl
    · simp only [execFlux, dif_neg hslot]
      rfl
  case GAS_INIT => exact Follows.read fun _ => rfl
  case GAS_CHECK => exact Follows.read fun _ => follows_ite (fun _ => rfl) fun _ => rfl
  all_goals rfl

theorem execute_follows :
    Follows (onVm bps) (vm.execute host i v1 v2) ((vm.withBreakpoints bps).execute host i v1 v2) := by
  unfold execute
  cases opcodeOf i.opcode with
  | system op => exact execSystem_follows op
  | arith op => exact execArith_follows op
  | logic op => exact setRd_follows _
  | compare op => rfl
  | branch op => exact execBranch_follows op
  | memory op => exact execMemory_follows op
  | stack op => exact execStack_follows op
  | call op => exact execCall_follows op
  | agent op => exact execAgent_follows op
  | io op => rfl
  | flux op => exact execFlux_follows op
  | native op => exact execNative_follows op
  | unknown => rfl

/-! ## The step -/

/-- There is a breakpoint at `pc`. -/
def AtBreakpoint (bps : List UInt32) (vm : FluxVm) : Prop := vm.pc.toUInt32 ∈ bps

instance (bps : List UInt32) (vm : FluxVm) : Decidable (AtBreakpoint bps vm) :=
  inferInstanceAs (Decidable (_ ∈ _))

theorem traceSnapshot_follows (opcode : UInt8) :
    Follows (withBreakpoints bps) (vm.traceSnapshot opcode)
      ((vm.withBreakpoints bps).traceSnapshot opcode) :=
  follows_ite (fun _ => rfl) fun _ => follows_ite (fun _ => rfl) fun _ => rfl

variable (host) in
/-- Away from breakpoints a step does what it does without them. -/
theorem fluxVmStep_follows (hnone : vm.breakpointAddrs = []) (hbp : ¬ AtBreakpoint bps vm) :
    Follows (onVm bps) (vm.fluxVmStep host) ((vm.withBreakpoints bps).fluxVmStep host) := by
  have hstop : (vm.withBreakpoints bps).stopped? = vm.stopped?.map (onVm bps) := by
    have hbp' : bps.any (· == vm.pc.toUInt32) = false := by
      refine List.any_eq_false.2 fun x hx heq => hbp ?_
      rw [AtBreakpoint, ← beq_iff_eq.1 heq]
      exact hx
    show (if vm.state = .halted ∨ vm.state = .error then _ else if bps.any (· == vm.pc.toUInt32) then _
      else if vm.pc + 4 > vm.bytecodeLen then _ else _) = _
    unfold stopped?
    rw [hnone, hbp']
    simp only [List.any_nil, Bool.false_eq_true, if_false]
    split_ifs <;> rfl
  unfold fluxVmStep
  rw [hstop]
  cases vm.stopped? with
  | some r => rfl
  | none =>
    refine Follows.read fun w => ?_
    refine Follows.bind (f := fun r => (r.1, r.2.1, r.2.2.withBreakpoints bps)) ?_ fun r => ?_
    · exact Follows.read fun _ => Follows.read fun _ => (traceSnapshot_follows _).bind fun _ => rfl
    · exact execute_follows.bind fun r => by rcases r with ⟨_ | status, vm⟩ <;> rfl

/-- At a breakpoint a step only sets the state to `TRAPPED`. -/
theorem fluxVmStep_atBreakpoint (hbp : AtBreakpoint vm.breakpointAddrs vm) (hrun : vm.state = .running) :
    vm.fluxVmStep host = .ok (.errGeneral, { vm with state := .trapped, errorCode := 0 }) := by
  have hany : vm.breakpointAddrs.any (· == vm.pc.toUInt32) = true :=
    List.any_eq_true.2 ⟨_, hbp, beq_self_eq_true _⟩
  unfold fluxVmStep stopped?
  rw [hrun, hany]
  rfl

/-! ## Runs -/

variable {maxCycles : UInt64} {vm' vmf : FluxVm}

theorem breakpointAddrs_of_step {rc : FluxStatus} (hstep : vm.fluxVmStep host = .ok (rc, vm')) :
    vm'.breakpointAddrs = vm.breakpointAddrs :=
  ((fluxVmStep_keepsProgram vm host).of_ok hstep).breakpointAddrs

/-- A loop that meets no breakpoint is the loop without breakpoints. -/
theorem runLoop_withBreakpoints {fuel steps : Nat} (hnone : vm.breakpointAddrs = [])
    (hfree : ∀ s ∈ stepCalls host maxCycles fuel vm, ¬ AtBreakpoint bps s) :
    runLoop host maxCycles fuel steps (vm.withBreakpoints bps) =
      (runLoop host maxCycles fuel steps vm).map fun r => (onVm bps <$> r.1, r.2) := by
  induction fuel generalizing vm steps with
  | zero => rfl
  | succ fuel ih =>
    have hstate : (vm.withBreakpoints bps).state = vm.state := rfl
    have hcycles : (vm.withBreakpoints bps).cycleCount = vm.cycleCount := rfl
    unfold stepCalls at hfree
    rw [runLoop, runLoop, hstate, hcycles]
    split_ifs at hfree ⊢ with hrunning htime
    · rfl
    · rfl
    · rw [List.forall_mem_cons] at hfree
      have hfollow := fluxVmStep_follows host hnone hfree.1
      cases hstep : vm.fluxVmStep host with
      | error fault => 
        rw [hfollow.of_error hstep]
        rfl
      | ok r =>
        obtain ⟨rc, vm₁⟩ := r
        rw [hfollow.of_ok hstep]
        simp only [onVm]
        by_cases hok : rc = .ok
        · subst hok
          rw [hstep] at hfree
          have hnone₁ : vm₁.breakpointAddrs = [] := by rw [breakpointAddrs_of_step hstep, hnone]
          simpa using ih hnone₁ hfree.2
        · simp only [ne_eq, hok, not_false_eq_true, if_true]
          rfl

/-- A VM that stands at one of its breakpoints and is not halted. -/
def Stuck (vm : FluxVm) : Prop := AtBreakpoint vm.breakpointAddrs vm ∧ vm.state ≠ .halted

/-- A loop that starts at a breakpoint gets nowhere. -/
theorem stuck_of_atBreakpoint {fuel steps steps' : Nat} {rc : FluxStatus}
    (hbp : AtBreakpoint vm.breakpointAddrs vm) (hrunning : vm.state = .running)
    (hrun : runLoop host maxCycles fuel steps vm = some (.ok (rc, vm'), steps')) : vm'.Stuck := by
  cases fuel with
  | zero => cases hrun
  | succ fuel =>
    rw [runLoop, if_neg (not_not.2 hrunning), fluxVmStep_atBreakpoint hbp hrunning] at hrun
    split_ifs at hrun
    · cases hrun
      exact ⟨hbp, by simp⟩
    · cases hrun
      exact ⟨hbp, by simp⟩

/-- A loop that meets a breakpoint stops there. -/
theorem stuck_of_hit {fuel fuel' steps steps' : Nat} {rc : FluxStatus}
    (hnone : vm.breakpointAddrs = []) (hhit : ∃ s ∈ stepCalls host maxCycles fuel vm, AtBreakpoint bps s)
    (hrun : runLoop host maxCycles fuel' steps (vm.withBreakpoints bps) = some (.ok (rc, vm'), steps')) :
    vm'.Stuck := by
  induction fuel' generalizing vm fuel steps with
  | zero => cases hrun
  | succ fuel' ih =>
    obtain ⟨s, hs, hbp⟩ := hhit
    cases fuel with
    | zero => cases hs
    | succ fuel =>
      unfold stepCalls at hs
      split_ifs at hs with hrunning htime
      · cases hs
      · cases hs
      · by_cases hhere : AtBreakpoint bps vm
        · have hhere' : AtBreakpoint (vm.withBreakpoints bps).breakpointAddrs (vm.withBreakpoints bps) := hhere
          have hrunning' : (vm.withBreakpoints bps).state = .running := not_not.1 hrunning
          exact stuck_of_atBreakpoint hhere' hrunning' hrun
        · have htail := (List.mem_cons.1 hs).resolve_left fun heq => hhere (heq ▸ hbp)
          have hfollow := fluxVmStep_follows host hnone hhere
          have hrunning' : ¬ (vm.withBreakpoints bps).state ≠ .running := hrunning
          have htime' : ¬ (maxCycles > 0 ∧ (vm.withBreakpoints bps).cycleCount ≥ maxCycles) := htime
          split at htail
          · rename_i vm₁ hstep
            have hnone₁ : vm₁.breakpointAddrs = [] := by rw [breakpointAddrs_of_step hstep, hnone]
            rw [runLoop, if_neg hrunning', if_neg htime', hfollow.of_ok hstep] at hrun
            exact ih hnone₁ ⟨s, htail, hbp⟩ hrun
          · cases htail

/-- A call of `flux_vm_run` stops at a breakpoint. -/
def StopsAtBreakpoint (host : Host) (maxCycles : UInt64) (vm vm' : FluxVm) : Prop :=
  vm.Returns host vm' (.run maxCycles) ∧ vm'.state = .trapped

/-- Finitely many calls of `flux_vm_run`, each but the last one stopping at a breakpoint, end in the
state `vmf` but for the breakpoints. -/
def RunsThrough (host : Host) (maxCycles : UInt64) (vm vmf : FluxVm) : Prop :=
  ∃ vm', Relation.ReflTransGen (StopsAtBreakpoint host maxCycles) vm vm' ∧
    vm'.Returns host (vmf.withBreakpoints vm.breakpointAddrs) (.run maxCycles)

theorem stuck_of_run {vm₁ : FluxVm} (hbp : AtBreakpoint vm.breakpointAddrs vm)
    (hreturns : vm.Returns host vm₁ (.run maxCycles)) : vm₁.Stuck := by
  obtain ⟨fuel, rc, steps, hrun⟩ := hreturns
  have hbp' : AtBreakpoint ({ vm with state := .running } : FluxVm).breakpointAddrs
      { vm with state := .running } := hbp
  exact stuck_of_atBreakpoint hbp' rfl hrun

/-- Once a run is stuck, no further call halts. -/
theorem not_runsThrough_of_stuck (hhalt : vmf.state = .halted)
    (hstuck : ∀ vm₁, vm.Returns host vm₁ (.run maxCycles) → vm₁.Stuck) :
    ¬ RunsThrough host maxCycles vm vmf := by
  rintro ⟨vm', hcalls, hlast⟩
  have hreturns : ∀ vm₁, vm'.Returns host vm₁ (.run maxCycles) → vm₁.Stuck := by
    clear hlast
    induction hcalls with
    | refl => exact hstuck
    | tail _ hstop ih => exact fun vm₁ hvm₁ => stuck_of_run (ih _ hstop.1).1 hvm₁
  exact (hreturns _ hlast).2 hhalt

/-- If a program halts without breakpoints, calling `flux_vm_run` again and again with breakpoints gets
to the same final state exactly if the run without breakpoints executes no instruction at a breakpoint. -/
theorem breakpoints_transparent_iff {fuel steps : Nat} {rc : FluxStatus}
    (hrun : (vm.withBreakpoints []).fluxVmRun host maxCycles fuel = some (.ok (rc, vmf), steps))
    (hhalt : vmf.state = .halted) :
    RunsThrough host maxCycles vm vmf ↔
      ∀ s ∈ stepCalls host maxCycles fuel { vm.withBreakpoints [] with state := .running },
        ¬ AtBreakpoint vm.breakpointAddrs s := by
  constructor
  · intro hthrough
    by_contra hhit
    simp only [not_forall, not_not, exists_prop] at hhit
    refine not_runsThrough_of_stuck hhalt (fun vm₁ hvm₁ => ?_) hthrough
    obtain ⟨fuel', rc', steps', hrun'⟩ := hvm₁
    exact stuck_of_hit rfl hhit hrun'
  · intro hfree
    refine ⟨vm, .refl, fuel, rc, steps, ?_⟩
    have hloop : runLoop host maxCycles fuel 0 { vm with state := .running } = _ :=
      runLoop_withBreakpoints rfl hfree
    unfold fluxVmRun at hrun ⊢
    rw [hloop, hrun]
    rfl

/-- `NOP; HALT`, with a breakpoint at the given addresses. -/
def nopHalt (bps : List UInt32) : FluxVm :=
  { boot [0x00, 0, 0, 0, 0x01, 0, 0, 0] with breakpointAddrs := bps }

/-- A breakpoint behind the program is never met. -/
theorem breakpoints_transparent_iff_behind :
    ∃ vmf steps, ((nopHalt [8]).withBreakpoints []).fluxVmRun plentifulHost 0 3 =
        some (.ok (.ok, vmf), steps) ∧ RunsThrough plentifulHost 0 (nopHalt [8]) vmf := by
  obtain ⟨vmf, hrun, hhalt⟩ : ∃ vmf, ((nopHalt [8]).withBreakpoints []).fluxVmRun plentifulHost 0 3 =
      some (.ok (.ok, vmf), 2) ∧ vmf.state = .halted := ⟨_, rfl, rfl⟩
  exact ⟨vmf, 2, hrun, (breakpoints_transparent_iff hrun hhalt).2 (by decide +kernel)⟩

/-- A run that has stopped at a breakpoint at `NOP` never gets to `HALT`. -/
theorem breakpoint_not_transparent :
    ∃ vmf steps, ((nopHalt [0]).withBreakpoints []).fluxVmRun plentifulHost 0 3 =
        some (.ok (.ok, vmf), steps) ∧ vmf.state = .halted ∧
      ¬ RunsThrough plentifulHost 0 (nopHalt [0]) vmf := by
  refine ⟨_, _, rfl, rfl, not_runsThrough_of_stuck rfl fun vm₁ hvm₁ => ?_⟩
  exact stuck_of_run (by decide) hvm₁

end FluxVm

end FluxOs
