import FluxOs.Vm.MemoryEffects
import FluxOs.Vm.StepRules

/-!
# The operand stack and the call stack

The stack pointer stays at most the stack's size and the call depth between zero and
`FLUX_VM_MAX_CALL_DEPTH`, whatever the bytecode does.  The helpers that push and pop check their
bounds; `ENTER` and `STACK_ALLOC` clamp the stack pointer; only `LEAVE` takes it from a register
without a check.
-/

namespace FluxOs

open Faulting

/-- An access outside the operand stack or the call stack. -/
def StackFault : Fault → Prop
  | .stackWord _ | .callFrame _ => True
  | _ => False

namespace FluxVm

variable {vm : FluxVm} {i : FluxVmInsn} {v1 v2 : UInt64}

/-- The stack pointer and the call depth are inside their arrays. -/
structure StacksInBounds (vm : FluxVm) : Prop where
  stackSize : vm.stackSize = fluxStackSize
  stackPtr : vm.stackPtr ≤ vm.stackSize
  callDepth_nonneg : 0 ≤ vm.callDepth
  callDepth_le : vm.callDepth ≤ fluxVmMaxCallDepth

theorem StacksInBounds.of_keeps {vm' : FluxVm} (h : StacksInBounds vm) (hs : KeepsStack vm vm')
    (hc : KeepsCalls vm vm') : StacksInBounds vm' where
  stackSize := hs.stackSize.trans h.stackSize
  stackPtr := by rw [hs.stackPtr, hs.stackSize]; exact h.stackPtr
  callDepth_nonneg := by rw [hc.callDepth]; exact h.callDepth_nonneg
  callDepth_le := by rw [hc.callDepth]; exact h.callDepth_le

/-- The computation stays inside the stacks and keeps their bounds. -/
abbrev StackSafe (x : Exec) : Prop :=
  Ensures (fun fault => ¬ StackFault fault) (fun r => StacksInBounds r.2) x

/-! ## Arithmetic on indices -/

theorem sub_le_of_le {a n : UInt64} (k : UInt64) (hk : k ≤ a) (ha : a ≤ n) : a - k ≤ n := by
  rw [UInt64.le_iff_toNat_le] at *
  rw [UInt64.toNat_sub_of_le _ _ (UInt64.le_iff_toNat_le.2 hk)]
  omega

theorem sub_lt_of_le {a n k : UInt64} (hk : 0 < k) (hka : k ≤ a) (ha : a ≤ n) : a - k < n := by
  rw [UInt64.le_iff_toNat_le] at *
  rw [UInt64.lt_iff_toNat_lt] at *
  rw [UInt64.toNat_sub_of_le _ _ (UInt64.le_iff_toNat_le.2 hka)]
  have : (0 : UInt64).toNat = 0 := rfl
  omega

theorem add_one_le_of_lt {a n : UInt64} (h : a < n) : a + 1 ≤ n := by
  have := n.toNat_lt
  rw [UInt64.lt_iff_toNat_lt] at h
  rw [UInt64.le_iff_toNat_le, UInt64.toNat_add, Nat.mod_eq_of_lt]
  · exact h
  · have : (1 : UInt64).toNat = 1 := rfl
    omega

theorem one_le_of_ne_zero {a : UInt64} (h : a ≠ 0) : 1 ≤ a := by
  rw [UInt64.le_iff_toNat_le]
  have : a.toNat ≠ 0 := fun h0 => h (UInt64.toNat_inj.1 h0)
  have : (1 : UInt64).toNat = 1 := rfl
  omega

/-! ## The operand stack -/

/-- Only registers, the VM state, the error code and the words of the stack differ, and the stack
pointer is in bounds. -/
theorem StacksInBounds.of_update (h : StacksInBounds vm) (regs : Fin 64 → UInt64)
    (state : FluxVmState) (errorCode : UInt8) (stack : Nat → UInt64) {stackPtr : UInt64}
    (hptr : stackPtr ≤ vm.stackSize) :
    StacksInBounds { vm with regs, state, errorCode, stack, stackPtr } :=
  ⟨h.stackSize, hptr, h.callDepth_nonneg, h.callDepth_le⟩

theorem stackAt_inside {idx : UInt64} (h : idx < vm.stackSize) {Q : UInt64 → Prop} (hQ : ∀ v, Q v) :
    Ensures (fun fault => ¬ StackFault fault) Q (vm.stackAt idx) := by
  rw [stackAt, if_pos h]
  exact hQ _

theorem setStackAt_inside {idx val : UInt64} (h : idx < vm.stackSize) {Q : FluxVm → Prop}
    (hQ : ∀ stack, Q { vm with stack }) :
    Ensures (fun fault => ¬ StackFault fault) Q (vm.setStackAt idx val) := by
  rw [setStackAt, if_pos h]
  exact hQ _

theorem stackPush_inside (h : StacksInBounds vm) (val : UInt64) :
    Ensures (fun fault => ¬ StackFault fault) (fun r => StacksInBounds r.2) (vm.stackPush val) := by
  unfold stackPush
  split_ifs with hfull
  · exact h.of_update _ _ _ _ h.stackPtr
  · have hlt : vm.stackPtr < vm.stackSize := UInt64.not_le.1 hfull
    refine (ensures_bind ..).2 (setStackAt_inside hlt fun stack => ?_)
    exact h.of_update _ _ _ _ (add_one_le_of_lt hlt)

theorem stackPop_inside (h : StacksInBounds vm) :
    Ensures (fun fault => ¬ StackFault fault) (fun r => StacksInBounds r.2.1) vm.stackPop := by
  unfold stackPop
  split_ifs with hempty
  · exact h.of_update _ _ _ _ h.stackPtr
  · have hpos := one_le_of_ne_zero hempty
    refine (ensures_bind ..).2 (stackAt_inside (sub_lt_of_le (by decide) hpos h.stackPtr) fun v => ?_)
    exact h.of_update _ _ _ _ (sub_le_of_le 1 hpos h.stackPtr)

theorem putReg_inBounds (h : StacksInBounds vm) (r : Fin 64) (v : UInt64) :
    StacksInBounds (vm.putReg r v) :=
  h.of_update _ _ _ _ h.stackPtr

theorem pushCase_inside (h : StacksInBounds vm) (val : UInt64) : StackSafe (vm.pushCase val) := by
  refine (stackPush_inside h val).bind fun ⟨rc, vm'⟩ h' => ?_
  simp only
  split_ifs
  · exact h'
  · exact putReg_inBounds h' _ _

theorem fluxVmSetReg_inside (h : StacksInBounds vm) (r : UInt8) (v : UInt64) :
    Ensures (fun fault => ¬ StackFault fault) StacksInBounds (vm.fluxVmSetReg r v) := by
  unfold fluxVmSetReg
  split_ifs
  · exact h
  · exact putReg_inBounds h _ _
  · exact not_false

theorem fluxVmGetReg_inside {r : UInt8} {Q : UInt64 → Prop} (hQ : ∀ v, Q v) :
    Ensures (fun fault => ¬ StackFault fault) Q (vm.fluxVmGetReg r) := by
  unfold fluxVmGetReg
  split_ifs
  · exact hQ _
  · exact hQ _
  · exact not_false

theorem popCase_inside {put : FluxVm → UInt64 → Except Fault FluxVm} (h : StacksInBounds vm)
    (hput : ∀ vm val, StacksInBounds vm →
      Ensures (fun fault => ¬ StackFault fault) StacksInBounds (put vm val)) :
    StackSafe (vm.popCase put) := by
  refine (stackPop_inside h).bind fun ⟨rc, vm', val⟩ h' => ?_
  simp only
  split_ifs
  · exact h'
  · exact (hput vm' _ h').bind fun vm'' h'' => putReg_inBounds h'' _ _

theorem pushRegs_inside (rs : List (Fin 64)) (h : StacksInBounds vm) :
    StackSafe (pushRegs rs vm) := by
  induction rs generalizing vm with
  | nil => exact putReg_inBounds h _ _
  | cons r rs ih =>
    refine (stackPush_inside h _).bind fun ⟨rc, vm'⟩ h' => ?_
    simp only
    split_ifs
    · exact h'
    · exact ih h'

theorem popRegs_inside (rs : List (Fin 64)) (h : StacksInBounds vm) :
    StackSafe (popRegs rs vm) := by
  induction rs generalizing vm with
  | nil => exact putReg_inBounds h _ _
  | cons r rs ih =>
    refine (stackPop_inside h).bind fun ⟨rc, vm', val⟩ h' => ?_
    simp only
    split_ifs
    · exact h'
    · exact ih (putReg_inBounds h' _ _)

theorem enterFrame_inside (h : StacksInBounds vm) : StackSafe (vm.enterFrame i) := by
  unfold enterFrame
  simp only
  -- whatever the frame size is, the new stack pointer is compared with the size
  generalize (if i.imm < 0 then 0 else i.imm) = frameSize
  refine (stackPush_inside h _).bind fun ⟨_, vm₁⟩ h₁ => ?_
  refine (stackPush_inside h₁ _).bind fun ⟨_, vm₂⟩ h₂ => ?_
  simp only
  split_ifs with hover
  · exact h₂.of_update _ _ _ _ (UInt64.le_refl _)
  · exact h₂.of_update _ _ _ _ (UInt64.not_lt.1 hover)

theorem leaveFrame_inside (h : StacksInBounds vm) (hfp : vm.regs fluxRegFp ≤ vm.stackSize) :
    StackSafe vm.leaveFrame := by
  have h₀ : StacksInBounds { vm with stackPtr := vm.stackSize - vm.regs fluxRegFp } :=
    h.of_update _ _ _ _ (sub_le_of_le _ hfp (UInt64.le_refl _))
  refine (stackPop_inside h₀).bind fun ⟨_, vm₁, _⟩ h₁ => ?_
  refine (stackPop_inside h₁).bind fun ⟨_, vm₂, _⟩ h₂ => ?_
  exact h₂.of_update _ _ _ _ h₂.stackPtr

theorem swapTop_inside (h : StacksInBounds vm) : StackSafe vm.swapTop := by
  unfold swapTop
  split_ifs with htwo
  · exact h.of_update _ _ _ _ h.stackPtr
  · have htwo : 2 ≤ vm.stackPtr := UInt64.not_lt.1 htwo
    have hone : 1 ≤ vm.stackPtr := UInt64.le_trans (by decide) htwo
    have h1 := sub_lt_of_le (by decide) hone h.stackPtr
    have h2 := sub_lt_of_le (by decide) htwo h.stackPtr
    refine (stackAt_inside h1 fun _ => trivial).bind fun a _ => ?_
    refine (stackAt_inside h2 fun _ => trivial).bind fun b _ => ?_
    refine (ensures_bind ..).2 (setStackAt_inside h1 fun stack => ?_)
    have h2 : vm.stackPtr - 2 < ({ vm with stack } : FluxVm).stackSize := h2
    refine (ensures_bind ..).2 (setStackAt_inside h2 fun stack' => ?_)
    exact h.of_update _ _ _ _ h.stackPtr

theorem execStack_inside (h : StacksInBounds vm) (op : StackOp)
    (hleave : op = .LEAVE → vm.regs fluxRegFp ≤ vm.stackSize) : StackSafe (vm.execStack op i v1) := by
  cases op
  case PUSH => exact (fluxVmGetReg_inside fun _ => trivial).bind fun v _ => pushCase_inside h v
  case POP | POPR =>
    simp only [execStack]
    exact popCase_inside h fun vm val h => fluxVmSetReg_inside h _ _
  case PUSH_IMM | PUSHF | PUSHR => exact pushCase_inside h _
  case POPF =>
    simp only [execStack]
    exact popCase_inside h fun vm val h => putReg_inBounds h _ _
  case DUP =>
    simp only [execStack, duplicateTop]
    split_ifs with hempty
    · exact h.of_update _ _ _ _ h.stackPtr
    · have hlt := sub_lt_of_le (by decide) (one_le_of_ne_zero hempty) h.stackPtr
      exact (stackAt_inside hlt fun _ => trivial).bind fun v _ => pushCase_inside h v
  case SWAP => exact swapTop_inside h
  case ENTER => exact enterFrame_inside h
  case LEAVE => exact leaveFrame_inside h (hleave rfl)
  case PUSHA => exact pushRegs_inside _ h
  case POPA => exact popRegs_inside _ h
  case STACK_CHK =>
    simp only [execStack]
    split_ifs
    · exact putReg_inBounds h _ _
    · exact h
  case STACK_ALLOC =>
    refine (fluxVmGetReg_inside fun _ => trivial).bind fun alloc _ => ?_
    simp only
    split_ifs with hover
    · exact h.of_update _ _ _ _ (UInt64.le_refl _)
    · exact h.of_update _ _ _ _ (UInt64.not_lt.1 hover)
  case STACK_FREE =>
    refine (fluxVmGetReg_inside fun _ => trivial).bind fun freeBytes _ => ?_
    refine h.of_update _ _ _ _ ?_
    split_ifs with hge
    · exact sub_le_of_le _ hge h.stackPtr
    · exact UInt64.le_iff_toNat_le.2 (Nat.zero_le _)

/-! ## The call stack -/

theorem callStackPush_inside (h : StacksInBounds vm) (retAddr : UInt64) :
    Ensures (fun fault => ¬ StackFault fault) (fun r => StacksInBounds r.2)
      (vm.callStackPush retAddr) := by
  have h0 := h.callDepth_nonneg
  unfold callStackPush
  split_ifs with hfull
  · exact h.of_update _ _ _ _ h.stackPtr
  · exact ⟨h.stackSize, h.stackPtr, by simp only; omega, by simp only; omega⟩

theorem callStackPop_inside (h : StacksInBounds vm) :
    Ensures (fun fault => ¬ StackFault fault) (fun r => StacksInBounds r.2.1) vm.callStackPop := by
  have h0 := h.callDepth_nonneg
  have hle := h.callDepth_le
  unfold callStackPop
  split_ifs with hempty hin
  · exact h.of_update _ _ _ _ h.stackPtr
  · exact ⟨h.stackSize, h.stackPtr, hin.1, by simp only; omega⟩
  · omega

theorem callCase_inside {dest : FluxVm → Except Fault UInt64} (h : StacksInBounds vm)
    (hdest : ∀ vm, Ensures (fun fault => ¬ StackFault fault) (fun _ => True) (dest vm)) :
    StackSafe (vm.callCase dest) := by
  refine (callStackPush_inside h _).bind fun ⟨rc, vm'⟩ h' => ?_
  simp only
  split_ifs
  · exact h'
  · exact (hdest vm').bind fun pc _ => ⟨h'.1, h'.2, h'.3, h'.4⟩

theorem execCall_inside (h : StacksInBounds vm) (op : CallOp) : StackSafe (vm.execCall op i v1) := by
  cases op
  case CALL | CALLI | ICALL =>
    simp only [execCall]
    exact callCase_inside h fun _ => trivial
  case CALL_REG =>
    simp only [execCall]
    exact callCase_inside h fun _ => fluxVmGetReg_inside fun _ => trivial
  case RET =>
    refine (callStackPop_inside h).bind fun r h' => ?_
    obtain ⟨rc, vm', retAddr⟩ := r
    simp only
    split_ifs <;> exact ⟨h'.1, h'.2, h'.3, h'.4⟩
  case RETI =>
    refine (callStackPop_inside h).bind fun r h' => ?_
    obtain ⟨rc, vm', retAddr⟩ := r
    simp only
    split_ifs
    · exact ⟨h'.1, h'.2, h'.3, h'.4⟩
    · refine (stackPop_inside h').bind fun r h₂ => ?_
      obtain ⟨_, vm₂, flags⟩ := r
      exact ⟨h₂.1, h₂.2, h₂.3, h₂.4⟩
  all_goals exact ⟨h.1, h.2, h.3, h.4⟩

/-! ## The step -/

/-- The stack, frame and call opcodes. -/
def usesStacks : Opcode → Bool
  | .stack _ | .call _ => true
  | _ => false

theorem MemoryOutcome.stacksInBounds {op : MemoryOp} {vm' : FluxVm} (h : StacksInBounds vm)
    (hout : MemoryOutcome vm op v1 vm') : StacksInBounds vm' := by
  cases hout <;> exact ⟨h.1, h.2, h.3, h.4⟩

theorem execute_inside (host : Host) (h : StacksInBounds vm)
    (hleave : opcodeOf i.opcode = .stack .LEAVE → vm.regs fluxRegFp ≤ vm.stackSize) :
    Ensures (fun fault => usesStacks (opcodeOf i.opcode) → ¬ StackFault fault)
      (fun r => StacksInBounds r.2) (vm.execute host i v1 v2) := by
  -- the cases of the other categories leave the stack pointer and the call depth alone
  have other {x : Exec} {op : Opcode} (hop : opcodeOf i.opcode = op) (huse : usesStacks op = false)
      (hx : Ensures (fun _ => True) (fun r => StacksInBounds r.2) x) :
      Ensures (fun fault => usesStacks op → ¬ StackFault fault) (fun r => StacksInBounds r.2) x :=
    hx.mono (fun _ _ huse' => by rw [huse] at huse'; cases huse') fun _ hr => hr
  have cpu {x : Exec} (hx : Ensures (fun _ => True) (fun r => CpuEffect vm r.2) x) :
      Ensures (fun _ => True) (fun r => StacksInBounds r.2) x :=
    hx.imp fun _ he => h.of_keeps he.toKeepsStack he.toKeepsCalls
  unfold execute
  cases hop : opcodeOf i.opcode with
  | system op => exact other hop rfl (cpu (execSystem_effect op))
  | arith op => exact other hop rfl (cpu (execArith_effect op))
  | logic op => exact other hop rfl (cpu (execLogic_effect op))
  | compare op => exact other hop rfl (cpu (execCompare_effect op))
  | branch op => exact other hop rfl (cpu (execBranch_effect op))
  | memory op =>
    exact other hop rfl ((execMemory_outcome op).imp fun _ hout => hout.stacksInBounds h)
  | stack op =>
    have hin : StackSafe (vm.execStack op i v1) :=
      execStack_inside h op fun hop' => hleave (hop' ▸ hop)
    exact hin.mono (fun _ hf _ => hf) fun _ hr => hr
  | call op => exact (execCall_inside h op).mono (fun _ hf _ => hf) fun _ hr => hr
  | agent op => exact other hop rfl (cpu (execAgent_effect op))
  | io op => exact other hop rfl (cpu (execIo_effect op))
  | flux op =>
    refine other hop rfl ((execFlux_effect host op).imp fun _ he => ?_)
    exact h.of_keeps he.toKeepsStack he.toKeepsCalls
  | native op => exact other hop rfl (cpu (execNative_effect op))
  | unknown => exact other hop rfl ⟨h.1, h.2, h.3, h.4⟩

/-- When the next instruction is `LEAVE`, the frame pointer is at most the stack's size. -/
def LeaveInStack (vm : FluxVm) : Prop :=
  ∀ i, vm.nextInsn = some i → opcodeOf i.opcode = .stack .LEAVE →
    vm.regs fluxRegFp ≤ vm.stackSize

theorem fluxVmStep_inside (host : Host) (h : StacksInBounds vm) (hleave : vm.LeaveInStack) :
    Ensures (fun fault => ∀ i, vm.nextInsn = some i → usesStacks (opcodeOf i.opcode) →
        ¬ StackFault fault)
      (fun r => StacksInBounds r.2) (vm.fluxVmStep host) := by
  refine fluxVmStep_ensures (fun r hr => ?_) (fun fault _ hf _ _ _ => ?_)
    (fun _ _ _ _ _ _ _ _ => not_false) (fun _ _ _ _ => not_false) fun i vm₁ hi hvm₁ => ?_
  · unfold stopped? at hr
    split_ifs at hr
    all_goals
      cases hr
      exact ⟨h.1, h.2, h.3, h.4⟩
  · obtain ⟨k, rfl⟩ := fetchInstruction_error hf
    exact not_false
  · obtain ⟨trace, traceIdx, heq⟩ := hvm₁.eq
    have h₁ : StacksInBounds vm₁ := by rw [heq]; exact ⟨h.1, h.2, h.3, h.4⟩
    have hleave₁ : opcodeOf i.opcode = .stack .LEAVE → vm₁.regs fluxRegFp ≤ vm₁.stackSize := by
      rw [heq]
      exact hleave i hi
    refine (execute_inside host h₁ hleave₁).mono (fun fault hf i' hi' huse => ?_) fun r hr => ?_
    · rw [hi, Option.some.injEq] at hi'
      exact hf (hi' ▸ huse)
    · rcases r with ⟨_ | status, vm'⟩
      · exact putReg_inBounds hr _ _
      · exact hr

/-- Every index at which a stack, frame or call opcode of the next step accesses the operand stack or
the call stack is inside it. -/
def StackAccessesInBounds (vm : FluxVm) (host : Host) : Prop :=
  ∀ i fault, vm.nextInsn = some i → usesStacks (opcodeOf i.opcode) →
    vm.fluxVmStep host = .error fault → ¬ StackFault fault

/-- Along a run whose `LEAVE` instructions find the frame pointer inside the stack, the stack pointer
and the call depth are in bounds, and so is every access to the two stacks. -/
theorem stacksInBounds_of_run {host : Host} (h : ReachableUnder host LeaveInStack vm) :
    vm.stackPtr ≤ vm.stackSize ∧ 0 ≤ vm.callDepth ∧ vm.callDepth ≤ fluxVmMaxCallDepth ∧
      (vm.LeaveInStack → vm.StackAccessesInBounds host) := by
  obtain ⟨vm₀, hload, hrun⟩ := h
  have hin : StacksInBounds vm := by
    refine hrun.invariant (fun vm rc vm' hleave hin h => ?_) ?_
    · exact (fluxVmStep_inside host hin hleave).of_ok h
    · obtain ⟨-, hsize, hptr, hdepth, -⟩ := hload.spec
      have hmax : (0 : Int) ≤ fluxVmMaxCallDepth := by decide
      exact ⟨hsize, by rw [hptr, hsize]; decide, by omega, by omega⟩
  refine ⟨hin.stackPtr, hin.callDepth_nonneg, hin.callDepth_le, fun hleave i fault hi huse hf => ?_⟩
  exact (fluxVmStep_inside host hin hleave).of_error hf i hi huse

theorem stacksInBounds_leave : (boot [0x66, 0, 0, 0]).StackAccessesInBounds plentifulHost := by
  refine (stacksInBounds_of_run ⟨_, boot_loaded _ (by decide), .refl _⟩).2.2.2 fun i hi _ => ?_
  decide

/-- `DEC R6` makes the frame pointer `2 ^ 64 - 1`, and `LEAVE` then reads the word behind the stack. -/
theorem leave_outside :
    ∃ vm, Reachable plentifulHost vm ∧ ¬ vm.StackAccessesInBounds plentifulHost := by
  refine ⟨bootSteps [0x18, 6, 0, 0, 0x66, 0, 0, 0] 1, bootSteps_reachable _ _ (by decide) rfl, ?_⟩
  intro h
  exact h _ (.stackWord 65536) rfl rfl rfl trivial

end FluxVm

end FluxOs
