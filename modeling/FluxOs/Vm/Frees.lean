import FluxOs.Vm.RegionTable

/-!
# What the interpreter frees

`free` of a buffer that is not allocated is a fault, so that a buffer is freed twice only where a call
ends with `BadFree`.  No primitive of the interpreter does, and of the opcode cases only
`OP_REGION_DESTROY` frees anything; on a sound region table its buffer is allocated.
-/

namespace FluxOs

open Faulting FluxVmRegion

/-- A `free` of a buffer that is not allocated. -/
def BadFree : Fault → Prop
  | .badFree _ => True
  | _ => False

/-- Nothing is freed that is not allocated. -/
def FreesOnce {α : Type} (x : Except Fault α) : Prop := ¬ FaultsWith BadFree x

section

variable {α β : Type}

@[simp] theorem freesOnce_ok (a : α) : FreesOnce (.ok a) := by simp [FreesOnce]

@[simp] theorem freesOnce_pure (a : α) : FreesOnce (pure a) := freesOnce_ok a

@[simp] theorem freesOnce_error (fault : Fault) : FreesOnce (.error fault : Except Fault α) ↔ ¬ BadFree fault := by
  simp [FreesOnce]

@[simp] theorem freesOnce_bind (x : Except Fault α) (f : α → Except Fault β) :
    FreesOnce (x >>= f) ↔ FreesOnce x ∧ ∀ a, x = .ok a → FreesOnce (f a) := by
  simp [FreesOnce]

@[simp] theorem freesOnce_map (x : Except Fault α) (f : α → β) : FreesOnce (f <$> x) ↔ FreesOnce x := by
  simp [FreesOnce]

@[simp] theorem freesOnce_ite (c : Prop) [Decidable c] (x y : Except Fault α) :
    FreesOnce (if c then x else y) ↔ (c → FreesOnce x) ∧ (¬ c → FreesOnce y) := by
  by_cases h : c <;> simp [h]

theorem freesOnce_of_defined {Q : α → Prop} {x : Except Fault α} (h : Ensures (fun _ => False) Q x) :
    FreesOnce x := by
  rw [FreesOnce, not_faultsWith_iff]
  exact h.mono (fun _ hf => hf.elim) fun _ _ => trivial

theorem freesOnce_of_byteFault {Q : α → Prop} {slot : Fin 16} {x : Except Fault α}
    (h : Ensures (ByteFault slot) Q x) : FreesOnce x := by
  rw [FreesOnce, not_faultsWith_iff]
  refine h.mono (fun fault hf => ?_) fun _ _ => trivial
  obtain ⟨offset, rfl⟩ := hf
  simp [BadFree]

end

@[simp] theorem memRead_freesOnce (width : Nat) (extend : UInt64 → UInt64) (reg : FluxVmRegion) (slot : Fin 16)
    (offset : UInt64) : FreesOnce (memRead width extend reg slot offset) :=
  freesOnce_of_byteFault memRead_ensures

@[simp] theorem memWrite_freesOnce (width : Nat) (reg : FluxVmRegion) (slot : Fin 16) (offset val : UInt64) :
    FreesOnce (memWrite width reg slot offset val) :=
  freesOnce_of_byteFault memWrite_ensures

@[simp] theorem memRead8_freesOnce (reg : FluxVmRegion) (slot : Fin 16) (offset : UInt64) :
    FreesOnce (memRead8 reg slot offset) :=
  freesOnce_of_defined memRead8_defined

@[simp] theorem memWrite8_freesOnce (reg : FluxVmRegion) (slot : Fin 16) (offset val : UInt64) :
    FreesOnce (memWrite8 reg slot offset val) :=
  freesOnce_of_defined memWrite8_defined

namespace FluxVm

variable {vm : FluxVm} {host : Host} {i : FluxVmInsn} {v1 v2 ea : UInt64}

/-! ## Primitives -/

@[simp] theorem fluxVmGetReg_freesOnce (r : UInt8) : FreesOnce (vm.fluxVmGetReg r) := by
  unfold fluxVmGetReg
  split_ifs <;> simp [BadFree]

@[simp] theorem fluxVmSetReg_freesOnce (r : UInt8) (val : UInt64) : FreesOnce (vm.fluxVmSetReg r val) := by
  unfold fluxVmSetReg
  split_ifs <;> simp [BadFree]

@[simp] theorem setRd_freesOnce (val : UInt64) : FreesOnce (vm.setRd i val) := by
  simp [setRd]

@[simp] theorem returnTrap_freesOnce (code : UInt8) : FreesOnce (vm.returnTrap code) := by
  simp [returnTrap]

@[simp] theorem stackAt_freesOnce (idx : UInt64) : FreesOnce (vm.stackAt idx) := by
  unfold stackAt
  split_ifs <;> simp [BadFree]

@[simp] theorem setStackAt_freesOnce (idx val : UInt64) : FreesOnce (vm.setStackAt idx val) := by
  unfold setStackAt
  split_ifs <;> simp [BadFree]

@[simp] theorem stackPush_freesOnce (val : UInt64) : FreesOnce (vm.stackPush val) := by
  unfold stackPush
  simp

@[simp] theorem stackPop_freesOnce : FreesOnce vm.stackPop := by
  unfold stackPop
  simp

@[simp] theorem callStackPush_freesOnce (retAddr : UInt64) : FreesOnce (vm.callStackPush retAddr) := by
  unfold callStackPush
  split_ifs <;> simp [BadFree]

@[simp] theorem callStackPop_freesOnce : FreesOnce vm.callStackPop := by
  unfold callStackPop
  split_ifs <;> simp [BadFree]

@[simp] theorem activeSlotUnchecked_freesOnce : FreesOnce vm.activeSlotUnchecked := by
  unfold activeSlotUnchecked
  split
  · simp
  · split <;> simp [BadFree]

/-! ## Memory operations -/

theorem regionAccess_freesOnce (op : MemoryOp) (slot : Fin 16) : FreesOnce (vm.regionAccess op i ea slot) := by
  cases op <;> simp [regionAccess, memRead64, memRead32, memRead16, memWrite64, memWrite32, memWrite16]

theorem stackAccess_freesOnce (op : MemoryOp) : FreesOnce (vm.stackAccess op i ea) := by
  cases op <;> simp [stackAccess]

theorem atomicUpdate_freesOnce (combine : UInt64 → UInt64 → UInt64) :
    FreesOnce (vm.atomicUpdate combine i ea) := by
  refine (freesOnce_bind ..).2 ⟨activeSlotUnchecked_freesOnce, fun slot _ => ?_⟩
  cases slot with
  | none => simp
  | some slot => simp [memRead64, memWrite64]

theorem compareExchange_freesOnce : FreesOnce (vm.compareExchange i ea) := by
  refine (freesOnce_bind ..).2 ⟨activeSlotUnchecked_freesOnce, fun slot _ => ?_⟩
  cases slot with
  | none => simp
  | some slot => simp [memRead64, memWrite64]

theorem memset_freesOnce : FreesOnce (vm.memset i v1 v2) := by
  refine (freesOnce_bind ..).2 ⟨activeSlotUnchecked_freesOnce, fun slot _ => ?_⟩
  cases slot with
  | none => simp
  | some slot =>
    refine (freesOnce_bind ..).2 ⟨fluxVmGetReg_freesOnce _, fun count _ => ?_⟩
    exact (freesOnce_bind ..).2 ⟨freesOnce_of_defined (memsetLoop_defined _ 0), fun _ _ => freesOnce_pure _⟩

theorem loadRegion_freesOnce : FreesOnce (vm.loadRegion i v1) := by
  unfold loadRegion
  cases vm.namedSlot v1 with
  | none => simp
  | some slot => simp [memRead64]

theorem storeRegion_freesOnce : FreesOnce (vm.storeRegion i v1 v2) := by
  unfold storeRegion
  cases vm.namedSlot v1 with
  | none => simp
  | some slot => simp [memWrite64]

theorem execMemory_freesOnce (op : MemoryOp) : FreesOnce (vm.execMemory op i v1 v2) := by
  cases op
  case CMPXCHG => simp [execMemory, compareExchange_freesOnce]
  case ATOMIC_ADD | ATOMIC_SUB => exact atomicUpdate_freesOnce _
  case FENCE => simp [execMemory]
  case LOAD_RM => exact loadRegion_freesOnce
  case STORE_RM => exact storeRegion_freesOnce
  case MEMSET => exact memset_freesOnce
  all_goals
    simp only [execMemory]
    cases vm.activeSlot with
    | some slot => exact regionAccess_freesOnce _ slot
    | none => exact stackAccess_freesOnce _

/-! ## The other categories -/

theorem execSystem_freesOnce (op : SystemOp) : FreesOnce (vm.execSystem op i) := by
  cases op <;> simp [execSystem]

theorem execArith_freesOnce (op : ArithOp) : FreesOnce (vm.execArith op i v1 v2) := by
  cases op <;> simp [execArith, divide, BadFree]

theorem execBranch_freesOnce (op : BranchOp) : FreesOnce (vm.execBranch op i v1) := by
  cases op <;> simp [execBranch, jumpIf]

@[simp] theorem pushCase_freesOnce (val : UInt64) : FreesOnce (vm.pushCase val) := by
  simp [pushCase]

theorem pushRegs_freesOnce (rs : List (Fin 64)) : FreesOnce (pushRegs rs vm) := by
  induction rs generalizing vm with
  | nil => simp [pushRegs]
  | cons r rs ih => simp [pushRegs, ih]

theorem popRegs_freesOnce (rs : List (Fin 64)) : FreesOnce (popRegs rs vm) := by
  induction rs generalizing vm with
  | nil => simp [popRegs]
  | cons r rs ih => simp [popRegs, ih]

theorem execStack_freesOnce (op : StackOp) : FreesOnce (vm.execStack op i v1) := by
  cases op
  case PUSHA => exact pushRegs_freesOnce _
  case POPA => exact popRegs_freesOnce _
  all_goals simp [execStack, popCase, duplicateTop, swapTop, enterFrame, leaveFrame, stackAlloc, stackFree]

theorem execCall_freesOnce (op : CallOp) : FreesOnce (vm.execCall op i v1) := by
  cases op <;> simp [execCall, callCase]

theorem execAgent_freesOnce (op : AgentOp) : FreesOnce (vm.execAgent op i v1) := by
  cases op <;> simp [execAgent]

theorem execNative_freesOnce (op : NativeOp) : FreesOnce (vm.execNative op i v1 v2) := by
  cases op <;> simp [execNative]

theorem execFlux_freesOnce (host : Host) (op : FluxOp)
    (hdestroy : FreesOnce (vm.fluxVmRegionDestroy (v1 &&& 0xFF).toNat)) :
    FreesOnce (vm.execFlux host op i v1 v2) := by
  cases op
  case REGION_DESTROY => exact (freesOnce_bind ..).2 ⟨hdestroy, fun _ _ => freesOnce_pure _⟩
  case REGION_MAP =>
    simp only [execFlux]
    split_ifs <;> simp
  all_goals simp [execFlux]

/-! ## A step -/

theorem fluxVmRegionDestroy_freesOnce (hs : vm.BuffersSound) (regionId : Int) :
    FreesOnce (vm.fluxVmRegionDestroy regionId) := by
  cases h : vm.validateRegionId regionId with
  | none => simp [fluxVmRegionDestroy, h]
  | some slot =>
    obtain ⟨rfl, hact⟩ := (vm.validateRegionId_eq_some).1 h
    obtain ⟨vm', -, heq⟩ := fluxVmRegionDestroy_eq hs hact
    rw [heq]
    exact freesOnce_ok _

theorem execute_freesOnce (hs : vm.BuffersSound) : FreesOnce (vm.execute host i v1 v2) := by
  unfold execute
  cases opcodeOf i.opcode with
  | system op => exact execSystem_freesOnce op
  | arith op => exact execArith_freesOnce op
  | logic op => exact setRd_freesOnce _
  | compare op => exact freesOnce_ok _
  | branch op => exact execBranch_freesOnce op
  | memory op => exact execMemory_freesOnce op
  | stack op => exact execStack_freesOnce op
  | call op => exact execCall_freesOnce op
  | agent op => exact execAgent_freesOnce op
  | io op => exact freesOnce_ok _
  | flux op => exact execFlux_freesOnce host op (fluxVmRegionDestroy_freesOnce hs _)
  | native op => exact execNative_freesOnce op
  | unknown => exact freesOnce_ok _

theorem fetchInstruction_freesOnce : FreesOnce vm.fetchInstruction := by
  simp [fetchInstruction, codeAt, BadFree]

/-- A step frees nothing twice. -/
theorem fluxVmStep_freesOnce (hs : vm.BuffersSound) : FreesOnce (vm.fluxVmStep host) := by
  rw [FreesOnce, not_faultsWith_iff]
  refine fluxVmStep_ensures (fun _ _ => trivial) (fun fault _ hfetch => ?_) (fun _ _ _ _ _ => not_false)
    (fun _ => not_false) fun i vm₁ _ hvm₁ => ?_
  · exact fun hbad => fetchInstruction_freesOnce ⟨fault, hfetch, hbad⟩
  · obtain ⟨trace, traceIdx, rfl⟩ := hvm₁.eq
    rw [← not_faultsWith_iff]
    exact execute_freesOnce ⟨hs.len, hs.live, hs.unused, hs.distinct⟩

end FluxVm

end FluxOs
