import FluxOs.Lib.Actions
import FluxOs.Vm.MemoryEffects
import FluxOs.Vm.Stopping

/-!
# Gas

`GAS_INIT` puts the budget into `R57`, and `GAS_CHECK` traps if its cost is more than what is there, else it
subtracts the cost.  But `R57` is also where the end of every step mirrors the cycle count, so what a check compares
with its cost is the number of cycles (`gas_right_iff`).
-/

namespace FluxOs

open Actions Faulting

/-- What is known of the gas: the budget of the last `GAS_INIT`, the costs charged since then, and the cycle count at
the end of the last step that left the VM running. -/
structure GasLedger where
  budget : UInt64
  charged : Nat
  cycles : UInt64

namespace FluxVm

/-- The ledger after the step from `vm` to `vm'` executed `i`; a check that traps charges nothing. -/
def ledgerAfter (gas : GasLedger) (i : FluxVmInsn) (vm vm' : FluxVm) : GasLedger where
  budget := if opcodeOf i.opcode = .flux .GAS_INIT then vm.regValue i.rd else gas.budget
  charged :=
    if opcodeOf i.opcode = .flux .GAS_INIT then 0
    else if opcodeOf i.opcode = .flux .GAS_CHECK ∧ vm'.state = .running then
      gas.charged + (vm.regValue i.rd).toNat
    else gas.charged
  cycles := if vm'.state = .running then vm'.cycleCount else gas.cycles

/-- The step that executes `i`, whatever status it returns, with the ledger. -/
def gasStep (host : Host) (i : FluxVmInsn) (s : FluxVm × GasLedger) : Option (FluxVm × GasLedger) :=
  if s.1.nextInsn = some i then
    match s.1.fluxVmStep host with
    | .ok (_, vm') => some (vm', ledgerAfter s.2 i s.1 vm')
    | .error _ => none
  else none

/-- The step traps out of gas. -/
def TrapsOutOfGas (host : Host) (vm : FluxVm) : Prop :=
  ∃ vm', vm.fluxVmStep host = .ok (.errGeneral, vm') ∧ vm'.state = .trapped ∧ vm'.errorCode = 0xFE

/-- A check traps if and only if the costs charged, with its own, exceed the budget. -/
def GasRight (host : Host) (i : FluxVmInsn) (s : FluxVm × GasLedger) : Prop :=
  opcodeOf i.opcode = .flux .GAS_CHECK →
    (s.1.TrapsOutOfGas host ↔ s.2.budget.toNat < s.2.charged + (s.1.regValue i.rd).toNat)

/-- At a check, there are fewer cycles than its cost if and only if there is less gas left than its cost. -/
def CyclesTell (i : FluxVmInsn) (s : FluxVm × GasLedger) : Prop :=
  opcodeOf i.opcode = .flux .GAS_CHECK →
    (s.2.cycles < s.1.regValue i.rd ↔ s.2.budget.toNat < s.2.charged + (s.1.regValue i.rd).toNat)

variable {host : Host} {vm vm' : FluxVm} {i : FluxVmInsn} {v1 v2 : UInt64} {s t : FluxVm × GasLedger}

/-! ## How the cases end -/

/-- A case that leaves the switch does so in the state it started in, or in `ERROR`.  A case that returns stops the
VM, or else leaves `R57` alone. -/
structure SwitchEnd (vm : FluxVm) (r : Option FluxStatus × FluxVm) : Prop where
  completed : r.1 = none → r.2.state = vm.state ∨ r.2.state = .error
  returned : r.1 ≠ none → r.2.HasStopped ∨
    r.2.state ≠ .running ∧ r.2.regs fluxRegCycleCount = vm.regs fluxRegCycleCount

/-- A case ends so. -/
abbrev Ends (vm : FluxVm) (x : Exec) : Prop := Ensures (fun _ => True) (SwitchEnd vm) x

theorem switchEnd_none (h : vm'.state = vm.state) : SwitchEnd vm (none, vm') :=
  ⟨fun _ => .inl h, fun hne => absurd rfl hne⟩

theorem switchEnd_stopped {rc : FluxStatus} (h : vm'.HasStopped) : SwitchEnd vm (some rc, vm') :=
  ⟨by simp, fun _ => .inl h⟩

theorem switchEnd_returned {rc : FluxStatus} (hstate : vm'.state ≠ .running)
    (hreg : vm'.regs fluxRegCycleCount = vm.regs fluxRegCycleCount) : SwitchEnd vm (some rc, vm') :=
  ⟨by simp, fun _ => .inr ⟨hstate, hreg⟩⟩

theorem returnTrap_ends (code : UInt8) (hreg : vm'.regs fluxRegCycleCount = vm.regs fluxRegCycleCount) :
    Ends vm (vm'.returnTrap code) := by
  refine switchEnd_returned (by simp [putReg]) ?_
  simp only [putReg]
  rw [Function.update_of_ne (by decide), Function.update_of_ne (by decide), hreg]

theorem setRd_ends (val : UInt64) : Ends vm (vm.setRd i val) := setRd_ensures val fun _ => switchEnd_none rfl

theorem execSystem_ends (op : SystemOp) : Ends vm (vm.execSystem op i) := by
  cases op
  case NOP => exact switchEnd_none rfl
  case HALT => exact switchEnd_stopped (.inl rfl)
  case INVALID => exact switchEnd_stopped (.inr rfl)
  case TRAP =>
    simp only [execSystem]
    split_ifs
    · exact switchEnd_none rfl
    · exact returnTrap_ends _ rfl
  all_goals exact returnTrap_ends _ rfl

theorem divide_ends {div : Int64 → Int64 → Int64} : Ends vm (vm.divide i v1 v2 div) := by
  unfold divide
  split_ifs
  · exact switchEnd_stopped (.inr rfl)
  · trivial
  · exact setRd_ends _

theorem execArith_ends (op : ArithOp) : Ends vm (vm.execArith op i v1 v2) := by
  cases op
  case IDIV | IMOD => exact divide_ends
  case INC | DEC => exact (fluxVmGetReg_ensures fun _ => trivial).bind fun _ _ => setRd_ends _
  case FDIV =>
    simp only [execArith]
    split_ifs
    · exact switchEnd_stopped (.inr rfl)
    · exact setRd_ends _
  all_goals exact setRd_ends _

theorem execBranch_ends (op : BranchOp) : Ends vm (vm.execBranch op i v1) := by
  have jump (taken : Bool) : Ends vm (vm.jumpIf taken i) := by
    cases taken
    · exact switchEnd_none rfl
    · exact switchEnd_none rfl
  cases op
  case LOOP =>
    simp only [execBranch, jumpIf]
    split_ifs
    all_goals exact switchEnd_none rfl
  all_goals exact jump _

theorem execAgent_ends (op : AgentOp) : Ends vm (vm.execAgent op i v1) := by
  cases op
  case SPAWN => exact (ensures_bind ..).2 (fluxVmSetReg_ensures fun _ => switchEnd_none rfl)
  case CAP_CHECK => exact (fluxVmGetReg_ensures fun _ => trivial).bind fun _ _ => switchEnd_none rfl
  case YIELD_AGENT => exact switchEnd_returned (by simp) rfl
  case DELEGATE | TELL | ASK | REPLY | BARRIER | CAP_GRANT | CAP_REVOKE => exact switchEnd_none rfl
  all_goals exact returnTrap_ends _ rfl

theorem execNative_ends (op : NativeOp) : Ends vm (vm.execNative op i v1 v2) := by
  cases op
  case VEC_LOAD | VEC_ADD | VEC_MUL | VEC_DOT => exact setRd_ends _
  case VEC_STORE | VEC_SPLAT => exact switchEnd_none rfl
  all_goals exact returnTrap_ends _ rfl

/-- Reads and writes that are followed by a `break`. -/
theorem bind_none {α : Type} {x : Except Fault α} {f : α → Exec}
    (h : ∀ a, Ensures (fun _ => True) (fun r => r.1 = none) (f a)) :
    Ensures (fun _ => True) (fun r => r.1 = none) (x >>= f) :=
  (ensures_bind ..).2 (ensures_of_forall (fun a _ => h a) fun _ _ => trivial)

theorem regionAccess_none (op : MemoryOp) (ea : UInt64) (slot : Fin 16) :
    Ensures (fun _ => True) (fun r => r.1 = none) (vm.regionAccess op i ea slot) := by
  cases op
  case LOAD | LOAD8 | LOAD16 | LOAD32 | STORE | STORE8 | STORE16 | STORE32 =>
    exact bind_none fun _ => bind_none fun _ => rfl
  case LEA => exact bind_none fun _ => rfl
  all_goals rfl

theorem stackAccess_none (op : MemoryOp) (ea : UInt64) :
    Ensures (fun _ => True) (fun r => r.1 = none) (vm.stackAccess op i ea) := by
  cases op
  case LOAD | LOAD8 | LOAD16 | LOAD32 =>
    simp only [stackAccess]
    split_ifs
    · exact bind_none fun _ => bind_none fun _ => rfl
    · rfl
  case STORE | STORE8 | STORE16 | STORE32 =>
    simp only [stackAccess]
    split_ifs
    · exact bind_none fun _ => bind_none fun _ => bind_none fun _ => rfl
    · rfl
  case LEA => exact bind_none fun _ => rfl
  all_goals rfl

theorem atomicUpdate_none {combine : UInt64 → UInt64 → UInt64} (ea : UInt64) :
    Ensures (fun _ => True) (fun r => r.1 = none) (vm.atomicUpdate combine i ea) := by
  refine bind_none fun slot => ?_
  cases slot with
  | none => rfl
  | some slot => exact bind_none fun _ => bind_none fun _ => bind_none fun _ => bind_none fun _ => rfl

theorem loadRegion_none : Ensures (fun _ => True) (fun r => r.1 = none) (vm.loadRegion i v1) := by
  unfold loadRegion
  cases vm.namedSlot v1 with
  | none => rfl
  | some slot =>
    refine bind_none fun off => ?_
    simp only
    split_ifs
    · exact bind_none fun _ => bind_none fun _ => rfl
    · rfl

theorem storeRegion_none : Ensures (fun _ => True) (fun r => r.1 = none) (vm.storeRegion i v1 v2) := by
  unfold storeRegion
  cases vm.namedSlot v1 with
  | none => rfl
  | some slot =>
    refine bind_none fun off => ?_
    simp only
    split_ifs
    · exact bind_none fun _ => rfl
    · rfl

/-- No case of the memory operations returns. -/
theorem execMemory_none (op : MemoryOp) :
    Ensures (fun _ => True) (fun r => r.1 = none) (vm.execMemory op i v1 v2) := by
  cases op
  case CMPXCHG => exact bind_none fun _ => rfl
  case ATOMIC_ADD | ATOMIC_SUB => exact atomicUpdate_none _
  case FENCE => rfl
  case LOAD_RM => exact loadRegion_none
  case STORE_RM => exact storeRegion_none
  case MEMSET =>
    refine bind_none fun slot => ?_
    cases slot with
    | none => rfl
    | some slot => exact bind_none fun _ => bind_none fun _ => rfl
  all_goals
    simp only [execMemory]
    split
    · exact regionAccess_none _ _ _
    · exact stackAccess_none _ _

theorem execMemory_ends (op : MemoryOp) : Ends vm (vm.execMemory op i v1 v2) := by
  refine ensures_of_forall (fun r hr => ?_) fun _ _ => trivial
  have hout := (execMemory_outcome op).of_ok hr
  have hstate : r.2.state = vm.state := by
    generalize r.2 = vm' at hout
    cases hout
    all_goals rfl
  have hnone := (execMemory_none op).of_ok hr
  exact ⟨fun _ => .inl hstate, fun hne => absurd hnone hne⟩

/-- The case leaves the switch in the state it started in, or ends in `ERROR`. -/
def Plain (vm : FluxVm) (r : Option FluxStatus × FluxVm) : Prop :=
  r.1 = none ∧ r.2.state = vm.state ∨ r.2.state = .error

theorem Plain.switchEnd {r : Option FluxStatus × FluxVm} (h : Plain vm r) : SwitchEnd vm r := by
  obtain ⟨hnone, hstate⟩ | herror := h
  · exact ⟨fun _ => .inl hstate, fun hne => absurd hnone hne⟩
  · exact ⟨fun _ => .inr herror, fun _ => .inl (.inr herror)⟩

theorem plain_ends {x : Exec} (h : Ensures (fun _ => True) (Plain vm) x) : Ends vm x := h.imp fun _ => Plain.switchEnd

/-- An operation on the stack succeeds in the state it started in, or ends in `ERROR`. -/
def StackTry (vm : FluxVm) (rc : FluxStatus) (vm' : FluxVm) : Prop :=
  rc = .ok ∧ vm'.state = vm.state ∨ vm'.state = .error

theorem StackTry.plain {rc : FluxStatus} {r : Option FluxStatus × FluxVm} (h : StackTry vm rc vm')
    (hr : Plain vm' r) : Plain vm r := by
  obtain ⟨-, hstate⟩ | herror := h
  · obtain ⟨hnone, hstate'⟩ | herror' := hr
    · exact .inl ⟨hnone, hstate'.trans hstate⟩
    · exact .inr herror'
  · obtain ⟨-, hstate'⟩ | herror' := hr
    · exact .inr (hstate'.trans herror)
    · exact .inr herror'

theorem StackTry.failed {rc : FluxStatus} (h : StackTry vm rc vm') (hrc : rc ≠ .ok) : vm'.state = .error := by
  obtain ⟨hok, -⟩ | herror := h
  · exact absurd hok hrc
  · exact herror

theorem stackPush_try (val : UInt64) :
    Ensures (fun _ => True) (fun r => StackTry vm r.1 r.2) (vm.stackPush val) := by
  unfold stackPush
  split_ifs
  · exact .inr rfl
  · exact (ensures_bind ..).2 (setStackAt_ensures fun _ => .inl ⟨rfl, rfl⟩)

theorem stackPop_try : Ensures (fun _ => True) (fun r => StackTry vm r.1 r.2.1) vm.stackPop := by
  unfold stackPop
  split_ifs
  · exact .inr rfl
  · exact (ensures_bind ..).2 (stackAt_ensures fun _ => .inl ⟨rfl, rfl⟩)

theorem pushCase_plain (val : UInt64) : Ensures (fun _ => True) (Plain vm) (vm.pushCase val) := by
  refine (stackPush_try val).bind fun ⟨rc, vm'⟩ h => ?_
  simp only
  split_ifs with hrc
  · exact .inr (h.failed hrc)
  · exact h.plain (.inl ⟨rfl, rfl⟩)

theorem popCase_plain {put : FluxVm → UInt64 → Except Fault FluxVm}
    (hput : ∀ vm val, Ensures (fun _ => True) (fun vm' => vm'.state = vm.state) (put vm val)) :
    Ensures (fun _ => True) (Plain vm) (vm.popCase put) := by
  refine stackPop_try.bind fun ⟨rc, vm', val⟩ h => ?_
  simp only
  split_ifs with hrc
  · exact .inr (h.failed hrc)
  · exact (hput vm' _).bind fun vm'' hstate => h.plain (.inl ⟨rfl, hstate⟩)

theorem pushRegs_plain (rs : List (Fin 64)) : Ensures (fun _ => True) (Plain vm) (pushRegs rs vm) := by
  induction rs generalizing vm with
  | nil => exact .inl ⟨rfl, rfl⟩
  | cons r rs ih =>
    refine (stackPush_try _).bind fun ⟨rc, vm'⟩ h => ?_
    simp only
    split_ifs with hrc
    · exact .inr (h.failed hrc)
    · exact ih.imp fun _ => h.plain

theorem popRegs_plain (rs : List (Fin 64)) : Ensures (fun _ => True) (Plain vm) (popRegs rs vm) := by
  induction rs generalizing vm with
  | nil => exact .inl ⟨rfl, rfl⟩
  | cons r rs ih =>
    refine stackPop_try.bind fun ⟨rc, vm', val⟩ h => ?_
    simp only
    split_ifs with hrc
    · exact .inr (h.failed hrc)
    · exact (@ih (vm'.putReg r (val.getD 0))).imp fun _ hr => h.plain hr

theorem enterFrame_plain : Ensures (fun _ => True) (Plain vm) (vm.enterFrame i) := by
  unfold enterFrame
  simp only
  generalize (if i.imm < 0 then 0 else i.imm) = frameSize
  refine (stackPush_try _).bind fun ⟨_, vm₁⟩ h₁ => ?_
  refine (stackPush_try _).bind fun ⟨_, vm₂⟩ h₂ => ?_
  simp only
  split_ifs
  · exact .inr rfl
  · exact h₁.plain (h₂.plain (.inl ⟨rfl, rfl⟩))

theorem leaveFrame_plain : Ensures (fun _ => True) (Plain vm) vm.leaveFrame := by
  refine stackPop_try.bind fun ⟨_, vm₁, _⟩ h₁ => ?_
  refine stackPop_try.bind fun ⟨_, vm₂, _⟩ h₂ => ?_
  exact @StackTry.plain vm _ _ _ h₁ (h₂.plain (.inl ⟨rfl, rfl⟩))

theorem execStack_ends (op : StackOp) : Ends vm (vm.execStack op i v1) := by
  cases op
  case PUSH => exact (fluxVmGetReg_ensures fun _ => trivial).bind fun _ _ => plain_ends (pushCase_plain _)
  case PUSH_IMM | PUSHF | PUSHR => exact plain_ends (pushCase_plain _)
  case POP | POPR =>
    simp only [execStack]
    exact plain_ends (popCase_plain fun _ _ => fluxVmSetReg_ensures fun _ => rfl)
  case POPF =>
    simp only [execStack]
    exact plain_ends (popCase_plain fun _ _ => rfl)
  case DUP =>
    simp only [execStack, duplicateTop]
    split_ifs
    · exact switchEnd_stopped (.inr rfl)
    · exact (ensures_bind ..).2 (stackAt_ensures fun _ => plain_ends (pushCase_plain _))
  case SWAP =>
    simp only [execStack, swapTop]
    split_ifs
    · exact switchEnd_stopped (.inr rfl)
    · refine (ensures_bind ..).2 (stackAt_ensures fun a => ?_)
      refine (ensures_bind ..).2 (stackAt_ensures fun b => ?_)
      refine (ensures_bind ..).2 (setStackAt_ensures fun _ => ?_)
      exact (ensures_bind ..).2 (setStackAt_ensures fun _ => switchEnd_none rfl)
  case ENTER => exact plain_ends enterFrame_plain
  case LEAVE => exact plain_ends leaveFrame_plain
  case PUSHA => exact plain_ends (pushRegs_plain _)
  case POPA => exact plain_ends (popRegs_plain _)
  case STACK_CHK =>
    simp only [execStack]
    split_ifs
    all_goals exact switchEnd_none rfl
  case STACK_ALLOC =>
    refine (fluxVmGetReg_ensures fun _ => trivial).bind fun _ _ => ?_
    simp only
    split_ifs
    · have htrap (sp : UInt64) : Ends vm (returnTrap { vm with stackPtr := sp } 1) := returnTrap_ends 1 rfl
      exact (htrap vm.stackSize).bind fun _ h => h
    · exact switchEnd_none rfl
  case STACK_FREE => exact (fluxVmGetReg_ensures fun _ => trivial).bind fun _ _ => switchEnd_none rfl

theorem callStackPop_try : Ensures (fun _ => True) (fun r => StackTry vm r.1 r.2.1) vm.callStackPop := by
  unfold callStackPop
  split_ifs
  · exact .inr rfl
  · exact .inl ⟨rfl, rfl⟩
  · trivial

theorem callStackPush_try {retAddr : UInt64} :
    Ensures (fun _ => True) (fun r => StackTry vm r.1 r.2) (vm.callStackPush retAddr) := by
  unfold callStackPush
  split_ifs
  · exact .inr rfl
  · exact .inl ⟨rfl, rfl⟩
  · trivial

theorem callCase_ends {dest : FluxVm → Except Fault UInt64} : Ends vm (vm.callCase dest) := by
  refine callStackPush_try.bind fun ⟨rc, vm'⟩ h => ?_
  simp only
  split_ifs with hrc
  · exact switchEnd_stopped (.inr (h.failed hrc))
  · refine (ensures_bind ..).2 (ensures_of_forall (fun _ _ => ?_) fun _ _ => trivial)
    exact (h.plain (.inl ⟨rfl, rfl⟩)).switchEnd

theorem execCall_ends (op : CallOp) : Ends vm (vm.execCall op i v1) := by
  cases op
  case CALL | CALLI | CALL_REG | ICALL =>
    simp only [execCall]
    exact callCase_ends
  case RET =>
    refine callStackPop_try.bind fun r h => ?_
    obtain ⟨rc, vm', addr⟩ := r
    simp only
    split_ifs with hrc
    · exact switchEnd_stopped (.inl rfl)
    · exact (h.plain (.inl ⟨rfl, rfl⟩)).switchEnd
  case RETI =>
    refine callStackPop_try.bind fun r h => ?_
    obtain ⟨rc, vm', addr⟩ := r
    simp only
    split_ifs with hrc
    · exact switchEnd_stopped (.inl rfl)
    · refine stackPop_try.bind fun r h' => ?_
      exact (h.plain (h'.plain (.inl ⟨rfl, rfl⟩))).switchEnd
  case THROW | EXCEPTION_RET => exact switchEnd_stopped (.inr rfl)
  case CALL_EXT | CALL_NATIVE | CALL_AGENT => exact returnTrap_ends _ rfl
  all_goals exact switchEnd_none rfl

theorem execFlux_ends (host : Host) (op : FluxOp) : Ends vm (vm.execFlux host op i v1 v2) := by
  cases op
  case TILE_LOAD | TILE_COMPOSE => exact setRd_ends _
  case REGION_CREATE =>
    obtain ⟨regions, activeRegion, heap, h⟩ := fluxVmRegionCreate_update vm host (some dyn) v1 false
    simp only [execFlux, h]
    exact setRd_ensures _ fun _ => switchEnd_none rfl
  case REGION_DESTROY =>
    refine (ensures_bind ..).2 (.mono (fluxVmRegionDestroy_ensures (Q := fun r => SwitchEnd vm (none, r.2))
      fun _ _ _ _ => switchEnd_none rfl) (fun _ _ => trivial) fun _ h => h)
  case REGION_MAP =>
    simp only [execFlux]
    split_ifs
    · exact setRd_ends _
    all_goals exact switchEnd_none rfl
  case GAS_INIT => exact (fluxVmGetReg_ensures fun _ => trivial).bind fun _ _ => switchEnd_none rfl
  case GAS_CHECK =>
    refine (fluxVmGetReg_ensures fun _ => trivial).bind fun _ _ => ?_
    split_ifs
    · exact returnTrap_ends _ rfl
    · exact switchEnd_none rfl
  all_goals exact switchEnd_none rfl

theorem execute_ends : Ends vm (vm.execute host i v1 v2) := by
  unfold execute
  cases opcodeOf i.opcode with
  | system op => exact execSystem_ends op
  | arith op => exact execArith_ends op
  | logic op => exact setRd_ends _
  | compare op => exact switchEnd_none rfl
  | branch op => exact execBranch_ends op
  | memory op => exact execMemory_ends op
  | stack op => exact execStack_ends op
  | call op => exact execCall_ends op
  | agent op => exact execAgent_ends op
  | io op => exact switchEnd_none rfl
  | flux op => exact execFlux_ends host op
  | native op => exact execNative_ends op
  | unknown => exact switchEnd_stopped (.inr rfl)

/-! ## Steps -/

/-- `R57` after a step. -/
structure MirrorOutcome (vm : FluxVm) (r : FluxStatus × FluxVm) : Prop where
  running : r.2.state = .running → r.2.regs fluxRegCycleCount = r.2.cycleCount
  returned : r.2.state ≠ .running → r.2.HasStopped ∨ r.2.regs fluxRegCycleCount = vm.regs fluxRegCycleCount

theorem fluxVmStep_mirror (hi : vm.nextInsn = some i) :
    Ensures (fun _ => True) (MirrorOutcome vm) (vm.fluxVmStep host) := by
  refine fluxVmStep_executes hi fun vm₁ hvm₁ => ?_
  obtain ⟨trace, traceIdx, rfl⟩ := hvm₁.eq
  refine execute_ends.imp fun r hend => ?_
  rcases r with ⟨_ | rc, vm₂⟩
  · refine ⟨fun _ => putReg_self .., fun hstate => ?_⟩
    obtain hrunning | herror := hend.completed rfl
    · exact absurd hrunning hstate
    · exact .inl (.inr herror)
  · obtain hstopped | ⟨hstate, hreg⟩ := hend.returned (by simp)
    · refine ⟨fun hrunning => ?_, fun _ => .inl hstopped⟩
      have hrunning' : vm₂.state = .running := hrunning
      rcases hstopped with hhalted | herror
      · rw [hrunning'] at hhalted
        cases hhalted
      · rw [hrunning'] at herror
        cases herror
    · exact ⟨fun hrunning => absurd hrunning hstate, fun _ => .inr hreg⟩

theorem gasStep_eq_some (h : gasStep host i s = some t) :
    s.1.nextInsn = some i ∧ (∃ rc, s.1.fluxVmStep host = .ok (rc, t.1)) ∧ t.2 = ledgerAfter s.2 i s.1 t.1 := by
  unfold gasStep at h
  split at h
  · refine ⟨‹_›, ?_⟩
    split at h
    · cases h
      exact ⟨⟨_, ‹_›⟩, rfl⟩
    · cases h
  · cases h

/-- `R57` holds the cycle count of the ledger, unless the VM has stopped. -/
def CyclesMirrored (s : FluxVm × GasLedger) : Prop := s.1.HasStopped ∨ s.1.regs fluxRegCycleCount = s.2.cycles

theorem CyclesMirrored.step (hs : CyclesMirrored s) (h : gasStep host i s = some t) : CyclesMirrored t := by
  obtain ⟨hi, ⟨rc, hstep⟩, hledger⟩ := gasStep_eq_some h
  have hout := (fluxVmStep_mirror hi).of_ok hstep
  have hnot : ¬ s.1.HasStopped := (stopped?_eq_none.1 (stopped?_of_nextInsn hi)).1
  unfold CyclesMirrored
  simp only [hledger, ledgerAfter]
  by_cases hrunning : t.1.state = .running
  · rw [if_pos hrunning]
    exact .inr (hout.running hrunning)
  · rw [if_neg hrunning, ← hs.resolve_left hnot]
    exact hout.returned hrunning

/-- `GAS_INIT` completes, and the cycle count is in `R57` behind it. -/
theorem mirrored_gasInit (hop : opcodeOf i.opcode = .flux .GAS_INIT) (h : gasStep host i s = some t) :
    CyclesMirrored t := by
  obtain ⟨hi, ⟨rc, hstep⟩, hledger⟩ := gasStep_eq_some h
  have hrunning : t.1.state = .running := by
    refine (fluxVmStep_executes (Q := fun r => r.2.state = .running) hi fun vm₁ hvm₁ => ?_).of_ok hstep
    obtain ⟨trace, traceIdx, rfl⟩ := hvm₁.eq
    rw [execute, hop]
    exact (fluxVmGetReg_ensures fun _ => trivial).bind fun _ _ => rfl
  unfold CyclesMirrored
  simp only [hledger, ledgerAfter, if_pos hrunning]
  exact .inr (((fluxVmStep_mirror hi).of_ok hstep).running hrunning)

/-- A check with this cost returns so from `R57`. -/
structure CheckOutcome (gas cost : UInt64) (r : FluxStatus × FluxVm) : Prop where
  traps : gas < cost → r.1 = .errGeneral ∧ r.2.state = .trapped ∧ r.2.errorCode = 0xFE
  passes : ¬ gas < cost → r.1 = .ok

theorem gasCheck_outcome (hop : opcodeOf i.opcode = .flux .GAS_CHECK) (hi : vm.nextInsn = some i) :
    Ensures (fun _ => True) (CheckOutcome (vm.regs fluxRegCycleCount) (vm.regValue i.rd)) (vm.fluxVmStep host) := by
  refine fluxVmStep_executes hi fun vm₁ hvm₁ => ?_
  obtain ⟨trace, traceIdx, rfl⟩ := hvm₁.eq
  rw [execute, hop]
  refine (ensures_of_forall (fun cost hcost => (fluxVmGetReg_ok hcost).2) fun _ _ => trivial).bind
    fun cost hcost => ?_
  have hsame : cost = vm.regValue i.rd := hcost
  subst hsame
  by_cases hlt : vm.regs fluxRegCycleCount < vm.regValue i.rd
  · rw [if_pos hlt]
    exact ⟨fun _ => ⟨rfl, rfl, rfl⟩, fun hnot => absurd hlt hnot⟩
  · rw [if_neg hlt]
    exact ⟨fun hpos => absurd hpos hlt, fun _ => rfl⟩

/-- A check compares its cost with `R57`. -/
theorem trapsOutOfGas_iff (hop : opcodeOf i.opcode = .flux .GAS_CHECK) (hi : vm.nextInsn = some i)
    {rc : FluxStatus} (hstep : vm.fluxVmStep host = .ok (rc, vm')) :
    vm.TrapsOutOfGas host ↔ vm.regs fluxRegCycleCount < vm.regValue i.rd := by
  have hout : CheckOutcome _ _ (rc, vm') := (gasCheck_outcome hop hi).of_ok hstep
  constructor
  · rintro ⟨vm'', htrap, -, -⟩
    by_contra hnot
    obtain rfl : rc = .ok := hout.passes hnot
    rw [hstep] at htrap
    cases htrap
  · intro hlt
    obtain ⟨hrc, hstate, hcode⟩ := hout.traps hlt
    refine ⟨vm', ?_, hstate, hcode⟩
    rw [hstep, show rc = .errGeneral from hrc]

/-- After `GAS_INIT`, and over any run: all checks are right if and only if at each of them the cycle count tells
whether the gas is enough. -/
theorem gas_right_iff (host : Host) (init : FluxVmInsn) (is : List FluxVmInsn) (s t : FluxVm × GasLedger)
    (hop : opcodeOf init.opcode = .flux .GAS_INIT) (hinit : gasStep host init s = some t) :
    MeetsAlong (gasStep host) (GasRight host) is t ↔ MeetsAlong (gasStep host) CyclesTell is t := by
  refine meetsAlong_iff_of_invariant (J := CyclesMirrored) (fun i u v hu _ h => hu.step h) (fun i u v hu h => ?_)
    (mirrored_gasInit hop hinit)
  obtain ⟨hi, ⟨rc, hstep⟩, -⟩ := gasStep_eq_some h
  refine forall_congr' fun hcheck => ?_
  have hnot : ¬ u.1.HasStopped := (stopped?_eq_none.1 (stopped?_of_nextInsn hi)).1
  rw [trapsOutOfGas_iff hcheck hi hstep, hu.resolve_left hnot]

/-- `ORI R1, 50; ORI R4, 20; GAS_INIT R1; GAS_CHECK r`. -/
def gasProgram (r : UInt8) : List UInt8 := [0x2E, 1, 0, 50, 0x2E, 4, 0, 20, 0xAE, 1, 0, 0, 0xAF, r, 0, 0]

/-- The VM at the `GAS_CHECK`, with a budget of 50. -/
def gasCheckState (r : UInt8) : FluxVm × GasLedger := (bootSteps (gasProgram r) 3, ⟨50, 0, 3⟩)

/-- `ORI R1, 50; ORI R4, 3; ORI R5, 45; GAS_INIT R1; GAS_CHECK R4; GAS_CHECK R4; GAS_CHECK R5`. -/
def addingProgram : List UInt8 :=
  [0x2E, 1, 0, 50, 0x2E, 4, 0, 3, 0x2E, 5, 0, 45, 0xAE, 1, 0, 0, 0xAF, 4, 0, 0, 0xAF, 4, 0, 0, 0xAF, 5, 0, 0]

/-- Two checks of cost 3 pass and leave 44 of 50, so that a check of cost 45 traps. -/
theorem gas_right_adding :
    MeetsAlong (gasStep plentifulHost) (GasRight plentifulHost)
      [decodeInsn 0xAF040000, decodeInsn 0xAF040000, decodeInsn 0xAF050000]
      (bootSteps addingProgram 4, ⟨50, 0, 4⟩) ∧
    (bootSteps addingProgram 6).TrapsOutOfGas plentifulHost := by
  refine ⟨(gas_right_iff plentifulHost (decodeInsn 0xAE010000) _
    (bootSteps addingProgram 3, ⟨0, 0, 0⟩) _ rfl rfl).2 ?_,
    bootSteps addingProgram 7, rfl, rfl, rfl⟩
  refine fun t ht => ⟨fun _ => by decide, ?_⟩
  cases ht
  refine fun t ht => ⟨fun _ => by decide, ?_⟩
  cases ht
  exact fun t _ => ⟨fun _ => by decide, trivial⟩

/-- `GAS_CHECK R4` costs 20, but there have been 3 cycles. -/
theorem gasCheck_traps_early :
    Reachable plentifulHost (bootSteps (gasProgram 4) 2) ∧
      gasStep plentifulHost (decodeInsn 0xAE010000) (bootSteps (gasProgram 4) 2, ⟨0, 0, 0⟩) =
        some (gasCheckState 4) ∧
      (gasCheckState 4).1.TrapsOutOfGas plentifulHost ∧
      ¬ MeetsAlong (gasStep plentifulHost) (GasRight plentifulHost) [decodeInsn 0xAF040000] (gasCheckState 4) := by
  have htraps : (gasCheckState 4).1.TrapsOutOfGas plentifulHost := ⟨bootSteps (gasProgram 4) 4, rfl, rfl, rfl⟩
  refine ⟨bootSteps_reachable _ _ (by decide) rfl, rfl, htraps, fun hmeets => ?_⟩
  obtain ⟨hright, -⟩ := hmeets _ rfl
  have hless := (hright rfl).1 htraps
  revert hless
  decide

end FluxVm

end FluxOs
