import FluxOs.Vm.MemoryEffects
import FluxOs.Vm.StepRules

/-!
# Accesses to the register file

The step reads the registers named by the bytes `rs1` and `rs2` of every instruction, whatever its
format, and an opcode case may access the register named by `rd`.  None of the bytes is compared with
`FLUX_VM_NUM_REGS`, so that the accesses stay inside the register file exactly when the instruction's
bytes do.
-/

namespace FluxOs

open Faulting

/-- Not an access outside the register file. -/
def NotReg (fault : Fault) : Prop := ∀ k, fault ≠ .reg k

namespace FluxVm

variable {vm : FluxVm} {i : FluxVmInsn} {v1 v2 ea : UInt64}

/-! ## The cases that access `rd` -/

/-- The case of an arithmetic operation gets to an access of `rd`. -/
def arithUsesRd (op : ArithOp) (v2 : UInt64) : Bool :=
  match op with
  | .IDIV | .IMOD => v2.toInt64 ≠ 0
  | .FDIV => !(u64ToDouble v2 == 0.0)
  | _ => true

/-- Without an active region, a load or a store of `width` bytes accesses `rd` when its check
passes. -/
def stackUsesRd (vm : FluxVm) (op : MemoryOp) (ea : UInt64) : Bool :=
  let addr := vm.regs fluxRegSp - ea
  match op with
  | .LOAD | .STORE => addr + 8 ≤ vm.stackSize
  | .LOAD8 | .STORE8 => addr < vm.stackSize
  | .LOAD16 | .STORE16 => addr + 2 ≤ vm.stackSize
  | .LOAD32 | .STORE32 => addr + 4 ≤ vm.stackSize
  | _ => true

/-- The case of a memory operation gets to an access of `rd`. -/
def memoryUsesRd (vm : FluxVm) (op : MemoryOp) (i : FluxVmInsn) (v1 : UInt64) : Bool :=
  match op with
  | .LOAD | .LOAD8 | .LOAD16 | .LOAD32 | .STORE | .STORE8 | .STORE16 | .STORE32 | .LEA =>
    vm.activeSlot.isSome || vm.stackUsesRd op (v1 + i.offset)
  | .CMPXCHG | .ATOMIC_ADD | .ATOMIC_SUB | .MEMSET => vm.activeSlot.isSome
  | .FENCE => false
  | .LOAD_RM | .STORE_RM => (vm.namedSlot v1).isSome

/-- The case of a stack operation gets to an access of `rd`. -/
def stackOpUsesRd (vm : FluxVm) : StackOp → Bool
  | .PUSH | .STACK_ALLOC | .STACK_FREE => true
  | .POP | .POPR => vm.stackPtr ≠ 0
  | _ => false

/-- The case of a FLUX operation gets to an access of `rd`. -/
def fluxUsesRd (vm : FluxVm) (op : FluxOp) (v1 : UInt64) : Bool :=
  match op with
  | .TILE_LOAD | .TILE_COMPOSE | .REGION_CREATE | .GAS_INIT | .GAS_CHECK => true
  | .REGION_MAP => if h : v1.toNat < 16 then (vm.regions ⟨v1.toNat, h⟩).active else false
  | _ => false

/-- The opcode case of instruction `i` gets to an access of the register `rd`; `v1` and `v2` are the
values of `rs1` and `rs2`. -/
def usesRd (vm : FluxVm) (i : FluxVmInsn) (v1 v2 : UInt64) : Bool :=
  match opcodeOf i.opcode with
  | .arith op => arithUsesRd op v2
  | .logic _ => true
  | .memory op => vm.memoryUsesRd op i v1
  | .stack op => vm.stackOpUsesRd op
  | .call .CALL_REG => vm.callDepth < fluxVmMaxCallDepth
  | .agent .SPAWN | .agent .CAP_CHECK => true
  | .flux op => vm.fluxUsesRd op v1
  | .native .VEC_LOAD | .native .VEC_ADD | .native .VEC_MUL | .native .VEC_DOT => true
  | _ => false

/-- The register bytes that the next step uses name registers of the file. -/
def OperandsInFile (vm : FluxVm) : Prop :=
  ∀ i, vm.nextInsn = some i → i.rs1.toNat < 64 ∧ i.rs2.toNat < 64 ∧
    (vm.usesRd i (vm.regValue i.rs1) (vm.regValue i.rs2) → i.rd.toNat < 64)

/-! ## Rules -/

/-- The computation stays inside the register file and leaves `R0` zero. -/
abbrev RegSafe (x : Exec) : Prop := Ensures NotReg (fun r => r.2.regs fluxRegZero = 0) x

theorem putReg_zero (h0 : vm.regs 0 = 0) {r : Fin 64} (hr : 0 ≠ r) (v : UInt64) :
    (vm.putReg r v).regs 0 = 0 :=
  (vm.putReg_of_ne hr v).trans h0

theorem fluxVmSetReg_zero {r : UInt8} (h0 : vm.regs 0 = 0) (hr : r.toNat < 64) (v : UInt64) :
    Ensures NotReg (fun vm' => vm'.regs 0 = 0) (vm.fluxVmSetReg r v) := by
  unfold fluxVmSetReg
  split_ifs with hr0
  · exact h0
  · refine putReg_zero h0 (fun h => hr0 ?_) v
    exact UInt8.toNat_inj.1 (congrArg Fin.val h).symm

theorem fluxVmGetReg_safe {r : UInt8} (hr : r.toNat < 64) {Q : UInt64 → Prop} (hQ : ∀ v, Q v) :
    Ensures NotReg Q (vm.fluxVmGetReg r) := by
  rw [fluxVmGetReg_of_lt hr]
  exact hQ _

theorem setRd_safe (h0 : vm.regs 0 = 0) (hrd : i.rd.toNat < 64) (v : UInt64) :
    RegSafe (vm.setRd i v) :=
  (fluxVmSetReg_zero h0 hrd v).bind fun _ h => h

theorem returnTrap_safe (h0 : vm.regs 0 = 0) (code : UInt8) : RegSafe (vm.returnTrap code) := by
  have h : (vm.putReg fluxRegFlags (vm.regs fluxRegFlags ||| fluxFlagTrap)).regs 0 = 0 :=
    putReg_zero h0 (by decide) _
  exact putReg_zero (r := fluxRegErrorCode) h (by decide) _

/-! ## The categories -/

theorem execSystem_safe (h0 : vm.regs 0 = 0) (op : SystemOp) : RegSafe (vm.execSystem op i) := by
  cases op
  case NOP | HALT | INVALID => exact h0
  case TRAP =>
    simp only [execSystem]
    split_ifs
    · exact putReg_zero h0 (r := fluxRegRa) (by decide) vm.pc
    · exact returnTrap_safe h0 _
  all_goals exact returnTrap_safe h0 _

theorem divide_safe {div : Int64 → Int64 → Int64} (h0 : vm.regs 0 = 0)
    (hrd : v2.toInt64 ≠ 0 → i.rd.toNat < 64) : RegSafe (vm.divide i v1 v2 div) := by
  unfold divide
  split_ifs with hz
  · exact h0
  · exact fun k => nofun
  · exact setRd_safe h0 (hrd hz) _

theorem execArith_safe (h0 : vm.regs 0 = 0) (op : ArithOp)
    (hrd : arithUsesRd op v2 → i.rd.toNat < 64) : RegSafe (vm.execArith op i v1 v2) := by
  cases op
  case IDIV | IMOD => exact divide_safe h0 fun hz => hrd (by simpa [arithUsesRd] using hz)
  case INC | DEC =>
    exact (fluxVmGetReg_safe (hrd rfl) fun _ => trivial).bind fun v _ => setRd_safe h0 (hrd rfl) _
  case FDIV =>
    simp only [execArith]
    split_ifs with hz
    · exact h0
    · exact setRd_safe h0 (hrd (by simpa [arithUsesRd] using hz)) _
  all_goals exact setRd_safe h0 (hrd rfl) _

theorem execBranch_safe (h0 : vm.regs 0 = 0) (op : BranchOp) : RegSafe (vm.execBranch op i v1) := by
  have jump {vm : FluxVm} (h0 : vm.regs 0 = 0) (taken : Bool) : RegSafe (vm.jumpIf taken i) := by
    cases taken <;> exact h0
  cases op
  case LOOP =>
    simp only [execBranch]
    split_ifs
    · exact jump (putReg_zero h0 (by decide) _) _
    · exact h0
  all_goals exact jump h0 _

theorem memRead_notReg {width : Nat} {extend : UInt64 → UInt64} {reg : FluxVmRegion}
    {slot : Fin 16} {offset : UInt64} {Q : UInt64 → Prop} (hQ : ∀ v, Q v) :
    Ensures NotReg Q (FluxVmRegion.memRead width extend reg slot offset) :=
  FluxVmRegion.memRead_ensures.mono (by rintro _ ⟨_, rfl⟩ _; exact nofun) fun v _ => hQ v

theorem memWrite_notReg {width : Nat} {reg : FluxVmRegion} {slot : Fin 16} {offset val : UInt64} :
    Ensures NotReg (fun _ => True) (FluxVmRegion.memWrite width reg slot offset val) :=
  FluxVmRegion.memWrite_ensures.mono (by rintro _ ⟨_, rfl⟩ _; exact nofun) fun _ _ => trivial

theorem stackAt_notReg {idx : UInt64} {Q : UInt64 → Prop} (hQ : ∀ v, Q v) :
    Ensures NotReg Q (vm.stackAt idx) := by
  unfold stackAt
  split_ifs
  · exact hQ _
  · exact fun k => nofun

theorem setStackAt_notReg {idx val : UInt64} {Q : FluxVm → Prop} (hQ : ∀ stack, Q { vm with stack }) :
    Ensures NotReg Q (vm.setStackAt idx val) := by
  unfold setStackAt
  split_ifs
  · exact hQ _
  · exact fun k => nofun

/-! ## Memory operations -/

theorem regionAccess_safe (h0 : vm.regs 0 = 0) (op : MemoryOp) {slot : Fin 16}
    (hrd : i.rd.toNat < 64) : RegSafe (vm.regionAccess op i ea slot) := by
  cases op
  case LOAD | LOAD16 | LOAD32 =>
    exact (memRead_notReg fun _ => trivial).bind fun val _ => setRd_safe h0 hrd val
  case LOAD8 =>
    exact (FluxVmRegion.memRead8_defined.mono (fun _ h => h.elim) fun _ h => h).bind
      fun val _ => setRd_safe h0 hrd val
  case STORE | STORE16 | STORE32 =>
    refine (fluxVmGetReg_safe hrd fun _ => trivial).bind fun val _ => ?_
    exact memWrite_notReg.bind fun _ _ => h0
  case STORE8 =>
    refine (fluxVmGetReg_safe hrd fun _ => trivial).bind fun val _ => ?_
    exact (FluxVmRegion.memWrite8_defined.mono (fun _ h => h.elim) fun _ h => h).bind fun _ _ => h0
  case LEA => exact setRd_safe h0 hrd _
  all_goals exact h0

theorem stackLoad_safe (h0 : vm.regs 0 = 0) {inBounds : Bool} (hrd : inBounds → i.rd.toNat < 64)
    {addr : UInt64} {read : UInt64 → UInt64} :
    RegSafe (if inBounds then do
        let w ← vm.stackAt addr
        return (none, ← vm.fluxVmSetReg i.rd (read w))
      else .ok (none, vm)) := by
  cases inBounds with
  | false => exact h0
  | true => exact (stackAt_notReg fun _ => trivial).bind fun w _ => setRd_safe h0 (hrd rfl) _

theorem stackStore_safe (h0 : vm.regs 0 = 0) {inBounds : Bool} (hrd : inBounds → i.rd.toNat < 64)
    {addr : UInt64} {write : UInt64 → UInt64 → UInt64} :
    RegSafe (if inBounds then do
        let val ← vm.fluxVmGetReg i.rd
        let w ← vm.stackAt addr
        return (none, ← vm.setStackAt addr (write w val))
      else .ok (none, vm)) := by
  cases inBounds with
  | false => exact h0
  | true =>
    refine (fluxVmGetReg_safe (hrd rfl) fun _ => trivial).bind fun val _ => ?_
    refine (stackAt_notReg fun _ => trivial).bind fun w _ => ?_
    exact (ensures_bind ..).2 (setStackAt_notReg fun _ => h0)

theorem stackAccess_safe (h0 : vm.regs 0 = 0) (op : MemoryOp)
    (hrd : vm.stackUsesRd op ea → i.rd.toNat < 64) : RegSafe (vm.stackAccess op i ea) := by
  cases op
  case LOAD | LOAD8 | LOAD16 | LOAD32 => exact stackLoad_safe h0 hrd
  case STORE | STORE8 | STORE16 | STORE32 => exact stackStore_safe h0 hrd
  case LEA => exact setRd_safe h0 (hrd rfl) _
  all_goals exact h0

theorem activeSlotUnchecked_notReg :
    Ensures NotReg (fun slot => slot = vm.activeSlot) vm.activeSlotUnchecked := by
  refine ensures_of_forall (fun _ h => activeSlotUnchecked_ok h) fun fault hfault => ?_
  unfold activeSlotUnchecked at hfault
  split at hfault
  · cases hfault
  · split at hfault
    · cases hfault
      exact fun k => nofun
    · cases hfault

theorem atomicUpdate_safe (h0 : vm.regs 0 = 0) {combine : UInt64 → UInt64 → UInt64}
    (hrd : vm.activeSlot.isSome → i.rd.toNat < 64) : RegSafe (vm.atomicUpdate combine i ea) := by
  refine activeSlotUnchecked_notReg.bind fun slot hslot => ?_
  cases slot with
  | none => exact h0
  | some slot =>
    have hrd := hrd (by simp [← hslot])
    refine (memRead_notReg fun _ => trivial).bind fun oldVal _ => ?_
    refine (fluxVmGetReg_safe hrd fun _ => trivial).bind fun operand _ => ?_
    refine memWrite_notReg.bind fun reg _ => ?_
    exact setRd_safe (show (vm.putRegion slot reg).regs 0 = 0 from h0) hrd _

theorem compareExchange_safe (h0 : vm.regs 0 = 0) (hrs2 : i.rs2.toNat < 64)
    (hrd : vm.activeSlot.isSome → i.rd.toNat < 64) :
    Ensures NotReg (fun vm' => vm'.regs 0 = 0) (vm.compareExchange i ea) := by
  refine activeSlotUnchecked_notReg.bind fun slot hslot => ?_
  cases slot with
  | none => exact h0
  | some slot =>
    have hrd := hrd (by simp [← hslot])
    have put (reg : FluxVmRegion) (val : UInt64) :
        Ensures NotReg (fun vm' => vm'.regs 0 = 0)
          ((vm.putRegion slot reg).fluxVmSetReg i.rd val) :=
      fluxVmSetReg_zero (show (vm.putRegion slot reg).regs 0 = 0 from h0) hrd val
    refine (fluxVmGetReg_safe hrs2 fun _ => trivial).bind fun expected _ => ?_
    refine (memRead_notReg fun _ => trivial).bind fun actual _ => ?_
    refine (fluxVmGetReg_safe hrd fun _ => trivial).bind fun desired _ => ?_
    simp only
    split_ifs
    · exact memWrite_notReg.bind fun reg _ => put reg actual
    · exact put _ actual

theorem loadRegion_safe (h0 : vm.regs 0 = 0) (hrd : (vm.namedSlot v1).isSome → i.rd.toNat < 64) :
    RegSafe (vm.loadRegion i v1) := by
  unfold loadRegion
  cases hslot : vm.namedSlot v1 with
  | none => exact h0
  | some slot =>
    have hrd := hrd (by simp [hslot])
    refine (fluxVmGetReg_safe hrd fun _ => trivial).bind fun off _ => ?_
    simp only
    split_ifs
    · exact (memRead_notReg fun _ => trivial).bind fun val _ => setRd_safe h0 hrd val
    · exact h0

theorem storeRegion_safe (h0 : vm.regs 0 = 0) (hrd : (vm.namedSlot v1).isSome → i.rd.toNat < 64) :
    RegSafe (vm.storeRegion i v1 v2) := by
  unfold storeRegion
  cases hslot : vm.namedSlot v1 with
  | none => exact h0
  | some slot =>
    refine (fluxVmGetReg_safe (hrd (by simp [hslot])) fun _ => trivial).bind fun off _ => ?_
    simp only
    split_ifs
    · exact memWrite_notReg.bind fun reg _ => h0
    · exact h0

theorem memset_safe (h0 : vm.regs 0 = 0) (hrd : vm.activeSlot.isSome → i.rd.toNat < 64) :
    RegSafe (vm.memset i v1 v2) := by
  refine activeSlotUnchecked_notReg.bind fun slot hslot => ?_
  cases slot with
  | none => exact h0
  | some slot =>
    refine (fluxVmGetReg_safe (hrd (by simp [← hslot])) fun _ => trivial).bind fun count _ => ?_
    exact ((FluxVmRegion.memsetLoop_defined _ 0).mono (fun _ h => h.elim) fun _ h => h).bind
      fun reg _ => h0

theorem execMemory_safe (h0 : vm.regs 0 = 0) (op : MemoryOp) (hrs2 : i.rs2.toNat < 64)
    (hrd : vm.memoryUsesRd op i v1 → i.rd.toNat < 64) : RegSafe (vm.execMemory op i v1 v2) := by
  cases op
  case CMPXCHG =>
    exact (compareExchange_safe h0 hrs2 hrd).bind fun vm' h => putReg_zero h (by decide) _
  case ATOMIC_ADD | ATOMIC_SUB => exact atomicUpdate_safe h0 hrd
  case FENCE => exact h0
  case LOAD_RM => exact loadRegion_safe h0 hrd
  case STORE_RM => exact storeRegion_safe h0 hrd
  case MEMSET => exact memset_safe h0 hrd
  all_goals
    simp only [execMemory]
    cases hslot : vm.activeSlot with
    | some slot => exact regionAccess_safe h0 _ (hrd (by simp [memoryUsesRd, hslot]))
    | none =>
      exact stackAccess_safe h0 _ fun h => hrd (by simpa [memoryUsesRd, hslot] using h)

/-! ## Stack and call operations -/

theorem stackPush_safe (h0 : vm.regs 0 = 0) (val : UInt64) :
    Ensures NotReg (fun r => r.2.regs 0 = 0) (vm.stackPush val) := by
  unfold stackPush
  split_ifs
  · exact h0
  · exact (ensures_bind ..).2 (setStackAt_notReg fun _ => h0)

theorem stackPop_safe (h0 : vm.regs 0 = 0) :
    Ensures NotReg (fun r => r.2.1.regs 0 = 0) vm.stackPop := by
  unfold stackPop
  split_ifs
  · exact h0
  · exact (ensures_bind ..).2 (stackAt_notReg fun _ => h0)

theorem mirrorSp_zero (h0 : vm.regs 0 = 0) : vm.mirrorSp.regs 0 = 0 := putReg_zero h0 (by decide) _

theorem pushCase_safe (h0 : vm.regs 0 = 0) (val : UInt64) : RegSafe (vm.pushCase val) := by
  refine (stackPush_safe h0 val).bind fun ⟨rc, vm'⟩ h => ?_
  simp only
  split_ifs
  · exact h
  · exact mirrorSp_zero h

/-- A pop whose word is stored with `put`, which runs only when the stack is not empty. -/
theorem popCase_safe {put : FluxVm → UInt64 → Except Fault FluxVm} (h0 : vm.regs 0 = 0)
    (hput : vm.stackPtr ≠ 0 → ∀ vm : FluxVm, vm.regs 0 = 0 → ∀ val,
      Ensures NotReg (fun vm' => vm'.regs 0 = 0) (put vm val)) :
    RegSafe (vm.popCase put) := by
  unfold popCase stackPop
  split_ifs with hptr
  · exact h0
  · rw [bind_assoc]
    refine (stackAt_notReg fun _ => trivial).bind fun val _ => ?_
    exact (hput hptr { vm with stackPtr := vm.stackPtr - 1 } h0 val).bind fun vm' h => mirrorSp_zero h

theorem pushRegs_safe (rs : List (Fin 64)) (h0 : vm.regs 0 = 0) : RegSafe (pushRegs rs vm) := by
  induction rs generalizing vm with
  | nil => exact mirrorSp_zero h0
  | cons r rs ih =>
    refine (stackPush_safe h0 _).bind fun ⟨rc, vm'⟩ h => ?_
    simp only
    split_ifs
    · exact h
    · exact ih h

theorem popRegs_safe (rs : List (Fin 64)) (h0 : vm.regs 0 = 0) (hrs : 0 ∉ rs) :
    RegSafe (popRegs rs vm) := by
  induction rs generalizing vm with
  | nil => exact mirrorSp_zero h0
  | cons r rs ih =>
    rw [List.mem_cons, not_or] at hrs
    refine (stackPop_safe h0).bind fun ⟨rc, vm', val⟩ h => ?_
    simp only
    split_ifs
    · exact h
    · exact ih (putReg_zero h hrs.1 _) hrs.2

theorem enterFrame_safe (h0 : vm.regs 0 = 0) : RegSafe (vm.enterFrame i) := by
  refine (stackPush_safe h0 _).bind fun ⟨_, vm₁⟩ h₁ => ?_
  refine (stackPush_safe h₁ _).bind fun ⟨_, vm₂⟩ h₂ => ?_
  have h : (vm₂.putReg fluxRegFp (vm₂.regs fluxRegSp)).regs 0 = 0 := putReg_zero h₂ (by decide) _
  simp only
  split_ifs <;> exact h

theorem leaveFrame_safe (h0 : vm.regs 0 = 0) : RegSafe vm.leaveFrame := by
  have h : ({ vm with stackPtr := vm.stackSize - vm.regs fluxRegFp } : FluxVm).regs 0 = 0 := h0
  refine (stackPop_safe h).bind fun ⟨_, vm₁, fp⟩ h₁ => ?_
  refine (stackPop_safe h₁).bind fun ⟨_, vm₂, bp⟩ h₂ => ?_
  have hfp : (vm₂.putReg fluxRegFp (fp.getD 0)).regs 0 = 0 := putReg_zero h₂ (by decide) _
  exact mirrorSp_zero (putReg_zero (r := fluxRegBp) hfp (by decide) _)

theorem execStack_safe (h0 : vm.regs 0 = 0) (op : StackOp)
    (hrd : vm.stackOpUsesRd op → i.rd.toNat < 64) : RegSafe (vm.execStack op i v1) := by
  cases op
  case PUSH => exact (fluxVmGetReg_safe (hrd rfl) fun _ => trivial).bind fun v _ => pushCase_safe h0 v
  case POP | POPR =>
    simp only [execStack]
    exact popCase_safe h0 fun hptr vm h val =>
      fluxVmSetReg_zero h (hrd (by simpa [stackOpUsesRd] using hptr)) val
  case PUSH_IMM | PUSHF | PUSHR => exact pushCase_safe h0 _
  case POPF =>
    simp only [execStack]
    exact popCase_safe h0 fun _ vm h val => putReg_zero (r := fluxRegFlags) h (by decide) val
  case DUP =>
    simp only [execStack, duplicateTop]
    split_ifs
    · exact h0
    · exact (stackAt_notReg fun _ => trivial).bind fun v _ => pushCase_safe h0 v
  case SWAP =>
    simp only [execStack, swapTop]
    split_ifs
    · exact h0
    · refine (stackAt_notReg fun _ => trivial).bind fun a _ => ?_
      refine (stackAt_notReg fun _ => trivial).bind fun b _ => ?_
      refine (ensures_bind ..).2 (setStackAt_notReg fun _ => ?_)
      exact (ensures_bind ..).2 (setStackAt_notReg fun _ => h0)
  case ENTER => exact enterFrame_safe h0
  case LEAVE => exact leaveFrame_safe h0
  case PUSHA => exact pushRegs_safe _ h0
  case POPA => exact popRegs_safe _ h0 (by decide)
  case STACK_CHK =>
    simp only [execStack]
    split_ifs
    · exact putReg_zero (r := fluxRegFlags) h0 (by decide) _
    · exact h0
  case STACK_ALLOC =>
    refine (fluxVmGetReg_safe (hrd rfl) fun _ => trivial).bind fun alloc _ => ?_
    simp only
    split_ifs
    · exact returnTrap_safe (show ({ vm with stackPtr := vm.stackSize } : FluxVm).regs 0 = 0 from h0) _
    · exact putReg_zero (r := fluxRegSp) h0 (by decide) _
  case STACK_FREE =>
    refine (fluxVmGetReg_safe (hrd rfl) fun _ => trivial).bind fun freeBytes _ => ?_
    exact putReg_zero (r := fluxRegSp) h0 (by decide) _

theorem callStackPush_safe (h0 : vm.regs 0 = 0) (retAddr : UInt64) :
    Ensures NotReg (fun r => r.2.regs 0 = 0 ∧ (r.1 = .ok → vm.callDepth < fluxVmMaxCallDepth))
      (vm.callStackPush retAddr) := by
  unfold callStackPush
  split_ifs with hdepth
  · exact ⟨h0, nofun⟩
  · exact ⟨h0, fun _ => by omega⟩
  · exact fun k => nofun

theorem callStackPop_safe (h0 : vm.regs 0 = 0) :
    Ensures NotReg (fun r => r.2.1.regs 0 = 0) vm.callStackPop := by
  unfold callStackPop
  split_ifs
  · exact h0
  · exact h0
  · exact fun k => nofun

/-- A call whose target is computed by `dest`, which runs only when the call stack has room. -/
theorem callCase_safe {dest : FluxVm → Except Fault UInt64} (h0 : vm.regs 0 = 0)
    (hdest : vm.callDepth < fluxVmMaxCallDepth → ∀ vm, Ensures NotReg (fun _ => True) (dest vm)) :
    RegSafe (vm.callCase dest) := by
  refine (callStackPush_safe h0 _).bind fun ⟨rc, vm'⟩ ⟨h, hdepth⟩ => ?_
  simp only
  split_ifs with hrc
  · exact h
  · exact (hdest (hdepth (not_not.1 hrc)) vm').bind fun _ _ => h

theorem execCall_safe (h0 : vm.regs 0 = 0) (op : CallOp)
    (hrd : op = .CALL_REG → vm.callDepth < fluxVmMaxCallDepth → i.rd.toNat < 64) :
    RegSafe (vm.execCall op i v1) := by
  cases op
  case CALL | CALLI | ICALL =>
    simp only [execCall]
    exact callCase_safe h0 fun _ _ => trivial
  case CALL_REG =>
    simp only [execCall]
    exact callCase_safe h0 fun hdepth vm => fluxVmGetReg_safe (hrd rfl hdepth) fun _ => trivial
  case RET =>
    refine (callStackPop_safe h0).bind fun r h => ?_
    obtain ⟨rc, vm', retAddr⟩ := r
    simp only
    split_ifs <;> exact h
  case RETI =>
    refine (callStackPop_safe h0).bind fun r h => ?_
    obtain ⟨rc, vm', retAddr⟩ := r
    simp only
    split_ifs
    · exact h
    · refine (stackPop_safe h).bind fun r h₂ => ?_
      obtain ⟨_, vm₂, flags⟩ := r
      exact putReg_zero (r := fluxRegFlags) h₂ (by decide) (flags.getD 0)
  case SYSCALL => exact putReg_zero (r := fluxRegRa) h0 (by decide) vm.pc
  case CATCH | SET_HANDLER => exact putReg_zero (r := fluxRegTrapHandler) h0 (by decide) v1
  case CALL_EXT | CALL_NATIVE | CALL_AGENT => exact returnTrap_safe h0 _
  all_goals exact h0

/-! ## The remaining categories -/

theorem execAgent_safe (h0 : vm.regs 0 = 0) (op : AgentOp)
    (hrd : op = .SPAWN ∨ op = .CAP_CHECK → i.rd.toNat < 64) : RegSafe (vm.execAgent op i v1) := by
  cases op
  case DELEGATE | TELL | ASK | REPLY | BARRIER =>
    exact putReg_zero (r := fluxRegErrorCode) h0 (by decide) 0
  case SPAWN =>
    refine (fluxVmSetReg_zero h0 (hrd (.inl rfl)) 42).bind fun vm' h => ?_
    exact putReg_zero (r := fluxRegErrorCode) h (by decide) 0
  case YIELD_AGENT => exact h0
  case CAP_GRANT | CAP_REVOKE => exact putReg_zero (r := fluxRegCapability) h0 (by decide) _
  case CAP_CHECK =>
    refine (fluxVmGetReg_safe (hrd (.inr rfl)) fun _ => trivial).bind fun required _ => ?_
    exact putReg_zero (r := fluxRegFlags) h0 (by decide) _
  all_goals exact returnTrap_safe h0 _

theorem execFlux_safe (host : Host) (h0 : vm.regs 0 = 0) (op : FluxOp)
    (hrd : vm.fluxUsesRd op v1 → i.rd.toNat < 64) : RegSafe (vm.execFlux host op i v1 v2) := by
  cases op
  case TILE_LOAD | TILE_COMPOSE => exact setRd_safe h0 (hrd rfl) _
  case REGION_CREATE =>
    obtain ⟨regions, activeRegion, heap, h⟩ :=
      fluxVmRegionCreate_update vm host (some dyn) v1 false
    have h0' : ({ vm with regions, activeRegion, heap } : FluxVm).regs 0 = 0 := h0
    simp only [execFlux, h]
    exact setRd_safe h0' (hrd rfl) _
  case REGION_DESTROY =>
    have h : Ensures _ (fun r => r.2.regs 0 = 0) (vm.fluxVmRegionDestroy (v1 &&& 0xFF).toNat) :=
      fluxVmRegionDestroy_ensures fun _ _ _ _ => h0
    refine (ensures_bind ..).2 (h.mono (fun fault hf k hk => ?_) fun _ h => h)
    obtain ⟨addr, rfl⟩ := hf
    cases hk
  case REGION_MAP =>
    simp only [execFlux]
    split_ifs with hv1 hactive
    · exact setRd_safe h0 (hrd (by simp [fluxUsesRd, hv1, hactive])) _
    all_goals exact h0
  case GAS_INIT =>
    refine (fluxVmGetReg_safe (hrd rfl) fun _ => trivial).bind fun v _ => ?_
    exact putReg_zero (r := fluxRegCycleCount) h0 (by decide) v
  case GAS_CHECK =>
    refine (fluxVmGetReg_safe (hrd rfl) fun _ => trivial).bind fun cost _ => ?_
    split_ifs
    · exact returnTrap_safe h0 _
    · exact putReg_zero (r := fluxRegCycleCount) h0 (by decide) _
  all_goals exact h0

theorem execNative_safe (h0 : vm.regs 0 = 0) (op : NativeOp)
    (hrd : op = .VEC_LOAD ∨ op = .VEC_ADD ∨ op = .VEC_MUL ∨ op = .VEC_DOT → i.rd.toNat < 64) :
    RegSafe (vm.execNative op i v1 v2) := by
  cases op
  case NATIVE_CALL | NATIVE_LOAD => exact returnTrap_safe h0 _
  case VEC_LOAD | VEC_ADD | VEC_MUL | VEC_DOT => exact setRd_safe h0 (hrd (by simp)) _
  all_goals exact h0

/-! ## The step -/

theorem execute_safe (host : Host) (h0 : vm.regs 0 = 0) (hrs2 : i.rs2.toNat < 64)
    (hrd : vm.usesRd i v1 v2 → i.rd.toNat < 64) : RegSafe (vm.execute host i v1 v2) := by
  unfold execute
  unfold usesRd at hrd
  cases hop : opcodeOf i.opcode with
  | system op => exact execSystem_safe h0 op
  | arith op => exact execArith_safe h0 op (by simpa [hop] using hrd)
  | logic op => exact setRd_safe h0 (hrd (by simp [hop])) _
  | compare op => exact putReg_zero (r := fluxRegFlags) h0 (by decide) _
  | branch op => exact execBranch_safe h0 op
  | memory op => exact execMemory_safe h0 op hrs2 (by simpa [hop] using hrd)
  | stack op => exact execStack_safe h0 op (by simpa [hop] using hrd)
  | call op => exact execCall_safe h0 op fun hreg hdepth => hrd (by simpa [hop, hreg] using hdepth)
  | agent op =>
    refine execAgent_safe h0 op fun h => hrd ?_
    rcases h with rfl | rfl <;> simp [hop]
  | io op => exact putReg_zero (r := fluxRegErrorCode) h0 (by decide) 0
  | flux op => exact execFlux_safe host h0 op (by simpa [hop] using hrd)
  | native op =>
    refine execNative_safe h0 op fun h => hrd ?_
    rcases h with rfl | rfl | rfl | rfl <;> simp [hop]
  | unknown => exact h0

theorem stopped?_zero (h0 : vm.regs 0 = 0) {r : FluxStatus × FluxVm} (h : vm.stopped? = some r) :
    r.2.regs 0 = 0 := by
  unfold stopped? at h
  split_ifs at h
  all_goals
    cases h
    exact h0

/-- A step whose operand bytes name registers stays inside the register file. -/
theorem fluxVmStep_safe (host : Host) (h0 : vm.regs 0 = 0) (hin : vm.OperandsInFile) :
    Ensures NotReg (fun r => r.2.regs 0 = 0) (vm.fluxVmStep host) := by
  refine fluxVmStep_ensures (fun r => stopped?_zero h0) (fun fault _ h => ?_) ?_ (fun k k' => nofun) ?_
  · obtain ⟨k, rfl⟩ := fetchInstruction_error h
    exact fun k' => nofun
  · intro i hi r hr hle
    obtain ⟨h1, h2, -⟩ := hin i hi
    rcases hr with rfl | rfl <;> omega
  · intro i vm₁ hi hvm₁
    obtain ⟨-, hrs2, hrd⟩ := hin i hi
    obtain ⟨trace, traceIdx, heq⟩ := hvm₁.eq
    have h0 : vm₁.regs 0 = 0 := by rw [heq]; exact h0
    have hrd : vm₁.usesRd i (vm.regValue i.rs1) (vm.regValue i.rs2) → i.rd.toNat < 64 := by
      rw [heq]
      exact hrd
    refine (execute_safe host h0 hrs2 hrd).imp fun r h => ?_
    rcases r with ⟨_ | status, vm'⟩
    · exact putReg_zero (r := fluxRegCycleCount) h (by decide) _
    · exact h

/-- Every access of the next step to the register file is inside it. -/
def RegAccessesInFile (vm : FluxVm) (host : Host) : Prop :=
  ∀ k, vm.fluxVmStep host ≠ .error (.reg k)

/-- Along a run whose instructions name registers, `R0` is zero and every access to the register file
is inside it. -/
theorem regAccessesInFile_of_run {host : Host}
    (h : ReachableUnder host OperandsInFile vm) :
    vm.regs 0 = 0 ∧ (vm.OperandsInFile → vm.RegAccessesInFile host) := by
  obtain ⟨vm₀, hload, hrun⟩ := h
  have h0 : vm.regs 0 = 0 := by
    refine hrun.invariant (I := fun vm => vm.regs 0 = 0) (fun vm rc vm' hin h0 h => ?_) ?_
    · exact (fluxVmStep_safe host h0 hin).of_ok h
    · rw [hload.spec.1]
      rfl
  exact ⟨h0, fun hin k hk => (fluxVmStep_safe host h0 hin).of_error hk k rfl⟩

theorem regAccessesInFile_iadd : (boot [0x10, 1, 2, 3]).RegAccessesInFile plentifulHost := by
  refine (regAccessesInFile_of_run ⟨_, boot_loaded _ (by decide), .refl _⟩).2 fun i hi => ?_
  cases hi
  decide

/-- `IADD R1, R64, R0` reads outside the register file. -/
theorem regAccess_outside :
    ∃ vm, Reachable plentifulHost vm ∧ ¬ vm.RegAccessesInFile plentifulHost :=
  ⟨boot [0x10, 1, 64, 0], bootSteps_reachable _ 0 (by decide) rfl, fun h => h 64 rfl⟩

end FluxVm

end FluxOs
