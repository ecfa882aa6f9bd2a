import FluxOs.Vm.StackFrames

/-!
# Failures of the stack operations

A stack or call instruction that finds too few words, too little room or a full call stack should return an
error and leave the stacks and the registers as they were.  The helpers that push and pop do so.  `PUSHA` and
`POPA` call them in a loop, which keeps what was done before the call that fails; `ENTER`, `LEAVE` and `RETI`
ignore what the helpers return.
-/

namespace FluxOs

open Faulting

namespace FluxVm

variable {host : Host} {vm vm₁ vm' : FluxVm} {i : FluxVmInsn} {v1 v2 val : UInt64} {rc : FluxStatus}
  {code : UInt8} {x : Exec}

/-! ## What an operation needs -/

/-- The words that an operation takes from the operand stack, and the free words that it takes. -/
def stackNeeds (op : StackOp) (imm : Int32) : Nat × Nat :=
  match op with
  | .PUSH | .PUSH_IMM | .PUSHF | .PUSHR => (0, 1)
  | .POP | .POPF | .POPR => (1, 0)
  | .DUP => (1, 1)
  | .SWAP => (2, 0)
  | .ENTER => (0, 2 + frameWords imm)
  | .LEAVE => (2, 0)
  | .PUSHA => (0, 15)
  | .POPA => (15, 0)
  | .STACK_CHK | .STACK_ALLOC | .STACK_FREE => (0, 0)

/-- The words that the operation can take: `LEAVE` takes those below the frame. -/
def wordsFor (vm : FluxVm) : StackOp → Int
  | .LEAVE => vm.stackSize.toNat - (vm.regs fluxRegFp).toNat
  | _ => vm.stackPtr.toNat

/-- The operation needs more words or more free words than the operand stack has. -/
def LacksStack (vm : FluxVm) (op : StackOp) (imm : Int32) : Prop :=
  vm.wordsFor op < (stackNeeds op imm).1 ∨
    0 < (stackNeeds op imm).2 ∧ vm.stackSize.toNat < vm.stackPtr.toNat + (stackNeeds op imm).2

/-- The instruction needs more than the operand stack or the call stack has.  `RETI` is asked for here only when
it has a return address. -/
def Lacks (vm : FluxVm) (i : FluxVmInsn) : Prop :=
  match opcodeOf i.opcode with
  | .stack op => vm.LacksStack op i.imm
  | .call .CALL | .call .CALLI | .call .CALL_REG | .call .ICALL => fluxVmMaxCallDepth ≤ vm.callDepth
  | .call .RETI => 0 < vm.callDepth ∧ vm.stackPtr = 0
  | _ => False

/-! ## Failures -/

/-- The stacks and the registers are what they were. -/
structure SameStacks (vm vm' : FluxVm) : Prop where
  stack : vm'.stack = vm.stack
  stackPtr : vm'.stackPtr = vm.stackPtr
  callStack : vm'.callStack = vm.callStack
  callDepth : vm'.callDepth = vm.callDepth
  regs : vm'.regs = vm.regs

/-- The step returns an error with the VM in state `ERROR`, and the stacks and the registers as they were. -/
def FailsAtomically (host : Host) (vm : FluxVm) : Prop :=
  ∃ rc vm', vm.fluxVmStep host = .ok (rc, vm') ∧ rc ≠ .ok ∧ vm'.state = .error ∧ vm.SameStacks vm'

/-- An opcode case ends so. -/
def CaseFails (vm : FluxVm) (x : Exec) : Prop :=
  ∃ rc vm', x = .ok (some rc, vm') ∧ rc ≠ .ok ∧ vm'.state = .error ∧ vm.SameStacks vm'

/-- Where an operation that lacks words or room fails before it has changed anything: `PUSHA` without any room,
`POPA` without any word, and `ENTER` on a full stack if it reserves a frame and `FP` has the value already that
it gets. -/
def StackFailsClean (vm : FluxVm) (op : StackOp) (i : FluxVmInsn) : Prop :=
  match op with
  | .PUSH => i.rd.toNat < 64
  | .DUP => vm.stackPtr ≤ vm.stackSize
  | .PUSHA => vm.stackSize ≤ vm.stackPtr
  | .POPA => vm.stackPtr = 0
  | .ENTER => vm.stackPtr = vm.stackSize ∧ vm.stackSize < vm.stackSize + UInt64.ofNat (frameWords i.imm) ∧
      vm.regs fluxRegFp = vm.regs fluxRegSp
  | .LEAVE => False
  | _ => True

/-- Where an instruction fails before it has changed anything. -/
def FailsClean (vm : FluxVm) (i : FluxVmInsn) : Prop :=
  vm.Preparable i ∧
    match opcodeOf i.opcode with
    | .stack op => vm.StackFailsClean op i
    | .call .RETI => False
    | _ => True

theorem caseFails_fail (hrc : rc ≠ .ok) : vm.CaseFails (.ok (some rc, vm.fail code)) :=
  ⟨rc, _, rfl, hrc, rfl, rfl, rfl, rfl, rfl, rfl⟩

/-- A case that leaves the switch, returns `FLUX_OK` or moves the stack pointer does not fail so. -/
theorem not_caseFails
    (h : Ensures (fun _ => True) (fun r => r.1 = none ∨ r.1 = some .ok ∨ r.2.stackPtr ≠ vm.stackPtr) x) :
    ¬ vm.CaseFails x := by
  rintro ⟨rc, vm', rfl, hrc, -, hsame⟩
  rcases h with hnone | hok | hmoved
  · cases hnone
  · exact hrc (Option.some.inj hok)
  · exact hmoved hsame.stackPtr

theorem SameStacks.of_dispatches (hvm₁ : vm.Dispatches i vm₁) : vm₁.SameStacks vm' ↔ vm.SameStacks vm' := by
  obtain ⟨trace, traceIdx, rfl⟩ := hvm₁.eq
  exact ⟨fun h => ⟨h.1, h.2, h.3, h.4, h.5⟩, fun h => ⟨h.1, h.2, h.3, h.4, h.5⟩⟩

/-- The step fails as its opcode case does. -/
theorem failsAtomically_iff_case (hvm₁ : vm.Dispatches i vm₁) (hstep : vm.fluxVmStep host = finish <$> x) :
    vm.FailsAtomically host ↔ vm₁.CaseFails x := by
  constructor
  · rintro ⟨rc, vm', hok, hrc, hstate, hsame⟩
    rw [hstep] at hok
    rcases x with fault | ⟨_ | rc', vm₂⟩
    · cases hok
    · cases hok
      exact absurd rfl hrc
    · cases hok
      exact ⟨rc, vm', rfl, hrc, hstate, (SameStacks.of_dispatches hvm₁).2 hsame⟩
  · rintro ⟨rc, vm', rfl, hrc, hstate, hsame⟩
    exact ⟨rc, vm', hstep, hrc, hstate, (SameStacks.of_dispatches hvm₁).1 hsame⟩

/-! ## Pushes and pops -/

theorem lt_add_one_of_lt {a n : UInt64} (h : a < n) : a < a + 1 := by
  have hn := n.toNat_lt
  have hone : (1 : UInt64).toNat = 1 := rfl
  rw [UInt64.lt_iff_toNat_lt] at h ⊢
  rw [UInt64.toNat_add]
  omega

theorem stackPush_of_full (h : vm.stackSize ≤ vm.stackPtr) : vm.stackPush val = .ok (.errOverflow, vm.fail 1) :=
  if_pos h

theorem stackPush_of_room (h : ¬ vm.stackSize ≤ vm.stackPtr) :
    Ensures (fun _ => True) (fun r => r.1 = .ok ∧ vm.stackPtr < r.2.stackPtr) (vm.stackPush val) := by
  unfold stackPush
  rw [if_neg h]
  refine (ensures_bind ..).2 (setStackAt_ensures fun stack => ⟨rfl, ?_⟩)
  exact lt_add_one_of_lt (UInt64.not_le.1 h)

theorem stackPop_of_empty (h : vm.stackPtr = 0) : vm.stackPop = .ok (.errGeneral, vm.fail 2, none) := if_pos h

theorem stackPop_of_word (h : vm.stackPtr ≠ 0) :
    Ensures (fun _ => True) (fun r => r.1 = .ok ∧ r.2.1.stackPtr < vm.stackPtr) vm.stackPop := by
  unfold stackPop
  rw [if_neg h]
  refine (ensures_bind ..).2 (stackAt_ensures fun v => ⟨rfl, ?_⟩)
  exact sub_lt_of_le (by decide) (one_le_of_ne_zero h) (UInt64.le_refl _)

theorem pushCase_full (h : vm.stackSize ≤ vm.stackPtr) : vm.CaseFails (vm.pushCase val) := by
  rw [pushCase, stackPush_of_full h]
  exact caseFails_fail (by simp)

theorem popCase_empty {put : FluxVm → UInt64 → Except Fault FluxVm} (h : vm.stackPtr = 0) :
    vm.CaseFails (vm.popCase put) := by
  rw [popCase, stackPop_of_empty h]
  exact caseFails_fail (by simp)

/-! ## The loops of `PUSHA` and `POPA` -/

theorem pushRegs_stackPtr (rs : List (Fin 64)) :
    Ensures (fun _ => True) (fun r => vm.stackPtr ≤ r.2.stackPtr) (pushRegs rs vm) := by
  induction rs generalizing vm with
  | nil => exact UInt64.le_refl _
  | cons r rs ih =>
    by_cases hfull : vm.stackSize ≤ vm.stackPtr
    · rw [pushRegs, stackPush_of_full hfull]
      exact UInt64.le_refl _
    · refine (stackPush_of_room hfull).bind fun ⟨rc, vm'⟩ ⟨hrc, hlt⟩ => ?_
      simp only
      rw [if_neg (not_not_intro hrc)]
      exact ih.imp fun _ hle => UInt64.le_trans (UInt64.le_of_lt hlt) hle

theorem popRegs_stackPtr (rs : List (Fin 64)) :
    Ensures (fun _ => True) (fun r => r.2.stackPtr ≤ vm.stackPtr) (popRegs rs vm) := by
  induction rs generalizing vm with
  | nil => exact UInt64.le_refl _
  | cons r rs ih =>
    by_cases hempty : vm.stackPtr = 0
    · rw [popRegs, stackPop_of_empty hempty]
      exact UInt64.le_refl _
    · refine (stackPop_of_word hempty).bind fun ⟨rc, vm', val⟩ ⟨hrc, hlt⟩ => ?_
      simp only
      rw [if_neg (not_not_intro hrc)]
      exact ih.imp fun _ hle => UInt64.le_trans hle (UInt64.le_of_lt hlt)

/-- A loop of pushes fails cleanly only at its first push. -/
theorem pushRegs_fails_iff (r : Fin 64) (rs : List (Fin 64)) :
    vm.CaseFails (pushRegs (r :: rs) vm) ↔ vm.stackSize ≤ vm.stackPtr := by
  constructor
  · intro h
    by_contra hroom
    refine not_caseFails ((stackPush_of_room hroom).bind fun ⟨rc, vm'⟩ ⟨hrc, hlt⟩ => ?_) h
    simp only
    rw [if_neg (not_not_intro hrc)]
    refine (pushRegs_stackPtr rs).imp fun r hle => .inr (.inr fun heq => ?_)
    rw [heq] at hle
    exact UInt64.not_le.2 hlt hle
  · intro hfull
    rw [pushRegs, stackPush_of_full hfull]
    exact caseFails_fail (by simp)

/-- A loop of pops fails cleanly only at its first pop. -/
theorem popRegs_fails_iff (r : Fin 64) (rs : List (Fin 64)) :
    vm.CaseFails (popRegs (r :: rs) vm) ↔ vm.stackPtr = 0 := by
  constructor
  · intro h
    by_contra hword
    refine not_caseFails ((stackPop_of_word hword).bind fun ⟨rc, vm', val⟩ ⟨hrc, hlt⟩ => ?_) h
    simp only
    rw [if_neg (not_not_intro hrc)]
    refine (popRegs_stackPtr rs).imp fun r hle => .inr (.inr fun heq => ?_)
    rw [heq] at hle
    exact UInt64.not_le.2 hlt hle
  · intro hempty
    rw [popRegs, stackPop_of_empty hempty]
    exact caseFails_fail (by simp)

/-! ## Frames -/

theorem toNat_toUInt64_of_nonneg {a : Int64} (h : 0 ≤ a.toInt) : a.toUInt64.toNat = a.toInt.toNat := by
  have hbits : 0 ≤ a.toBitVec.toInt := h
  have hlt := a.toBitVec.isLt
  show a.toBitVec.toNat = a.toBitVec.toInt.toNat
  rw [BitVec.toInt_eq_toNat_cond] at hbits ⊢
  split_ifs at hbits ⊢ <;> omega

/-- The words by which `ENTER` moves the stack pointer. -/
theorem frameRoom_eq (imm : Int32) :
    ((if imm < 0 then 0 else imm) / 8).toInt64.toUInt64 = UInt64.ofNat (frameWords imm) := by
  unfold frameWords
  split_ifs with hneg
  · have hnone : imm.toInt.toNat = 0 := Int.toNat_of_nonpos (Int.le_of_lt (Int32.lt_iff_toInt_lt.1 hneg))
    rw [hnone]
    rfl
  · have hle : 0 ≤ imm.toInt := Int.not_lt.1 fun hlt => hneg (Int32.lt_iff_toInt_lt.2 hlt)
    have hlt := imm.toInt_lt
    have hdiv : (imm / 8).toInt = imm.toInt / 8 := by
      rw [Int32.toInt_div]
      show (imm.toInt.tdiv 8).bmod (2 ^ 32) = imm.toInt / 8
      rw [Int.tdiv_eq_ediv_of_nonneg hle]
      apply Int.bmod_eq_of_le <;> omega
    have hwide : (imm / 8).toInt64.toInt = imm.toInt / 8 := by rw [Int32.toInt_toInt64, hdiv]
    apply UInt64.toNat_inj.1
    rw [toNat_toUInt64_of_nonneg (by omega), hwide, UInt64.toNat_ofNat']
    omega

/-- `ENTER` on a full stack: both pushes fail without effect. -/
theorem enterFrame_of_full (h : vm.stackSize ≤ vm.stackPtr) :
    vm.CaseFails (vm.enterFrame i) ↔ vm.stackPtr = vm.stackSize ∧
      vm.stackSize < vm.stackSize + UInt64.ofNat (frameWords i.imm) ∧ vm.regs fluxRegFp = vm.regs fluxRegSp := by
  have hagain : (vm.fail 1).stackSize ≤ (vm.fail 1).stackPtr := h
  unfold enterFrame
  simp only
  rw [frameRoom_eq, stackPush_of_full h]
  simp only [bind, Except.bind]
  rw [stackPush_of_full hagain]
  simp only
  split_ifs with hover
  · constructor
    · rintro ⟨rc, vm', heq, -, -, hsame⟩
      cases heq
      have hptr : vm.stackSize = vm.stackPtr := hsame.stackPtr
      have hfp : (Function.update vm.regs fluxRegFp (vm.regs fluxRegSp)) fluxRegFp = vm.regs fluxRegFp :=
        congrFun hsame.regs fluxRegFp
      rw [Function.update_self] at hfp
      have hlt : vm.stackSize < vm.stackPtr + UInt64.ofNat (frameWords i.imm) := hover
      exact ⟨hptr.symm, hptr ▸ hlt, hfp.symm⟩
    · rintro ⟨hptr, -, hfp⟩
      refine ⟨_, _, rfl, by simp, rfl, rfl, hptr.symm, rfl, rfl, ?_⟩
      show Function.update vm.regs fluxRegFp (vm.regs fluxRegSp) = vm.regs
      rw [← hfp, Function.update_eq_self]
  · refine iff_of_false (not_caseFails (.inl rfl)) ?_
    rintro ⟨hptr, hlt, -⟩
    have hle : ¬ vm.stackSize < vm.stackPtr + UInt64.ofNat (frameWords i.imm) := hover
    rw [hptr] at hle
    exact hle hlt

theorem enterFrame_of_room (h : ¬ vm.stackSize ≤ vm.stackPtr) : ¬ vm.CaseFails (vm.enterFrame i) := by
  refine not_caseFails ?_
  unfold enterFrame
  simp only
  generalize (if i.imm < 0 then 0 else i.imm) = frameSize
  refine (stackPush_effect _).bind fun ⟨_, vm₁⟩ he₁ => ?_
  refine (stackPush_effect _).bind fun ⟨_, vm₂⟩ he₂ => ?_
  simp only
  split_ifs
  · refine .inr (.inr fun heq => h ?_)
    rw [← heq, ← he₁.stackSize, ← he₂.stackSize]
    exact UInt64.le_refl _
  · exact .inl rfl

theorem leaveFrame_status : Ensures (fun _ => True) (fun r => r.1 = none) vm.leaveFrame := by
  unfold leaveFrame
  simp only
  refine stackPop_effect.bind fun ⟨_, vm₁, _⟩ _ => ?_
  exact stackPop_effect.bind fun ⟨_, vm₂, _⟩ _ => rfl

/-! ## The stack operations -/

theorem lacksStack_iff {op : StackOp} {imm : Int32} (hop : op ≠ .LEAVE) :
    vm.LacksStack op imm ↔ vm.stackPtr.toNat < (stackNeeds op imm).1 ∨
      0 < (stackNeeds op imm).2 ∧ vm.stackSize.toNat < vm.stackPtr.toNat + (stackNeeds op imm).2 := by
  have hwords : vm.wordsFor op = vm.stackPtr.toNat := by
    cases op <;> simp [wordsFor] at hop ⊢
  rw [LacksStack, hwords, Int.ofNat_lt]

/-- An operation that needs a free word only, and lacks it. -/
theorem full_of_lacks {op : StackOp} {imm : Int32} (hop : op ≠ .LEAVE) (hneeds : stackNeeds op imm = (0, 1))
    (h : vm.LacksStack op imm) : vm.stackSize ≤ vm.stackPtr := by
  rw [lacksStack_iff hop, hneeds] at h
  rw [UInt64.le_iff_toNat_le]
  omega

/-- An operation that needs a word only, and lacks it. -/
theorem empty_of_lacks {op : StackOp} {imm : Int32} (hop : op ≠ .LEAVE) (hneeds : stackNeeds op imm = (1, 0))
    (h : vm.LacksStack op imm) : vm.stackPtr = 0 := by
  rw [lacksStack_iff hop, hneeds] at h
  have hzero : vm.stackPtr.toNat = 0 := by omega
  exact UInt64.toNat_inj.1 hzero

theorem push_fails (val : UInt64) {op : StackOp} {imm : Int32} (hop : op ≠ .LEAVE)
    (hneeds : stackNeeds op imm = (0, 1)) (h : vm.LacksStack op imm) : vm.CaseFails (vm.pushCase val) ↔ True :=
  iff_true_intro (pushCase_full (full_of_lacks hop hneeds h))

theorem pop_fails (put : FluxVm → UInt64 → Except Fault FluxVm) {op : StackOp} {imm : Int32} (hop : op ≠ .LEAVE)
    (hneeds : stackNeeds op imm = (1, 0)) (h : vm.LacksStack op imm) : vm.CaseFails (vm.popCase put) ↔ True :=
  iff_true_intro (popCase_empty (empty_of_lacks hop hneeds h))

theorem not_caseFails_error {fault : Fault} : ¬ vm.CaseFails (.error fault) := by
  rintro ⟨_, _, heq, -⟩
  cases heq

/-- `DUP` needs a word to copy and room for the copy. -/
theorem duplicateTop_fails_iff (h : vm.LacksStack .DUP i.imm) :
    vm.CaseFails vm.duplicateTop ↔ vm.stackPtr ≤ vm.stackSize := by
  unfold duplicateTop
  by_cases hzero : vm.stackPtr = 0
  · rw [if_pos hzero]
    refine iff_of_true (caseFails_fail (by simp)) ?_
    rw [hzero]
    exact UInt64.le_iff_toNat_le.2 (Nat.zero_le _)
  · have hpos := one_le_of_ne_zero hzero
    have hsize : vm.stackSize ≤ vm.stackPtr := by
      rw [lacksStack_iff (by simp)] at h
      rw [UInt64.le_iff_toNat_le] at hpos ⊢
      have hone : (1 : UInt64).toNat = 1 := rfl
      simp only [stackNeeds] at h
      omega
    rw [if_neg hzero, stackAt]
    by_cases hptr : vm.stackPtr ≤ vm.stackSize
    · rw [if_pos (sub_lt_of_le (by decide) hpos hptr)]
      exact iff_of_true (pushCase_full hsize) hptr
    · rw [if_neg]
      · exact iff_of_false not_caseFails_error hptr
      · have hone : (1 : UInt64).toNat = 1 := rfl
        rw [UInt64.le_iff_toNat_le] at hpos hptr
        rw [UInt64.lt_iff_toNat_lt, UInt64.toNat_sub_of_le _ _ (UInt64.le_iff_toNat_le.2 hpos)]
        omega

/-- A stack operation that lacks words or room fails cleanly exactly where `StackFailsClean` says. -/
theorem execStack_fails_iff (op : StackOp) (hlacks : vm.LacksStack op i.imm) :
    vm.CaseFails (vm.execStack op i v1) ↔ vm.StackFailsClean op i := by
  cases op with
  | PUSH =>
    simp only [execStack, StackFailsClean]
    by_cases hrd : i.rd.toNat < 64
    · rw [fluxVmGetReg_of_lt hrd]
      exact iff_of_true (pushCase_full (full_of_lacks (by simp) rfl hlacks)) hrd
    · rw [fluxVmGetReg_of_not_lt hrd]
      exact iff_of_false not_caseFails_error hrd
  | PUSH_IMM => exact push_fails _ (by simp) rfl hlacks
  | PUSHF => exact push_fails _ (by simp) rfl hlacks
  | PUSHR => exact push_fails _ (by simp) rfl hlacks
  | POP | POPF | POPR =>
    simp only [execStack, StackFailsClean]
    exact pop_fails _ (by simp) rfl hlacks
  | DUP => exact duplicateTop_fails_iff hlacks
  | SWAP =>
    have htwo : vm.stackPtr < 2 := by
      rw [lacksStack_iff (by simp)] at hlacks
      simpa [stackNeeds, UInt64.lt_iff_toNat_lt] using hlacks
    simp only [execStack, swapTop]
    rw [if_pos htwo]
    exact iff_of_true (caseFails_fail (by simp)) trivial
  | ENTER =>
    by_cases hsize : vm.stackSize ≤ vm.stackPtr
    · exact enterFrame_of_full hsize
    · refine iff_of_false (enterFrame_of_room hsize) ?_
      rintro ⟨hptr, -⟩
      exact hsize (hptr ▸ UInt64.le_refl _)
  | LEAVE => exact iff_of_false (not_caseFails (leaveFrame_status.imp fun _ h => .inl h)) not_false
  | PUSHA => exact pushRegs_fails_iff _ _
  | POPA => exact popRegs_fails_iff _ _
  | STACK_CHK | STACK_ALLOC | STACK_FREE =>
    rw [lacksStack_iff (by simp)] at hlacks
    simp [stackNeeds] at hlacks

/-! ## The call stack -/

theorem callCase_full {dest : FluxVm → Except Fault UInt64} (h : fluxVmMaxCallDepth ≤ vm.callDepth) :
    vm.CaseFails (vm.callCase dest) := by
  unfold callCase callStackPush
  rw [if_pos h]
  exact caseFails_fail (by simp)

/-- `RETI` leaves the switch or returns `FLUX_OK`, also if there are no flags to pop. -/
theorem reti_status :
    Ensures (fun _ => True) (fun r => r.1 = none ∨ r.1 = some .ok) (vm.execCall .RETI i v1) := by
  unfold execCall callStackPop
  split_ifs
  · exact .inr rfl
  · refine (ensures_bind ..).2 ?_
    exact stackPop_effect.bind fun ⟨_, vm₂, _⟩ _ => .inl rfl
  · trivial

/-! ## The step -/

theorem Dispatches.lacksStack_iff {op : StackOp} (hvm₁ : vm.Dispatches i vm₁) :
    vm₁.LacksStack op i.imm ↔ vm.LacksStack op i.imm := by
  obtain ⟨trace, traceIdx, rfl⟩ := hvm₁.eq
  cases op <;> exact Iff.rfl

theorem Dispatches.stackFailsClean_iff {op : StackOp} (hvm₁ : vm.Dispatches i vm₁) :
    vm₁.StackFailsClean op i ↔ vm.StackFailsClean op i := by
  obtain ⟨trace, traceIdx, rfl⟩ := hvm₁.eq
  cases op <;> exact Iff.rfl

theorem Dispatches.callDepth (hvm₁ : vm.Dispatches i vm₁) : vm₁.callDepth = vm.callDepth := by
  obtain ⟨trace, traceIdx, rfl⟩ := hvm₁.eq
  rfl

/-- A stack or call instruction that lacks what it needs returns an error and leaves the stacks and the registers
as they were if and only if it fails before it has changed anything. -/
theorem stack_failure_atomic_iff (host : Host) (hi : vm.nextInsn = some i) (hlacks : vm.Lacks i) :
    vm.FailsAtomically host ↔ vm.FailsClean i := by
  unfold FailsClean
  by_cases hprep : vm.Preparable i
  · obtain ⟨vm₁, hvm₁, hstep⟩ := @fluxVmStep_of_preparable vm host i hi hprep
    rw [failsAtomically_iff_case hvm₁ hstep, and_iff_right hprep]
    unfold Lacks at hlacks
    unfold execute
    cases hop : opcodeOf i.opcode with
    | stack op =>
      simp only [hop] at hlacks ⊢
      rw [← hvm₁.stackFailsClean_iff]
      exact execStack_fails_iff op (hvm₁.lacksStack_iff.2 hlacks)
    | call op =>
      simp only [hop] at hlacks ⊢
      cases op with
      | CALL | CALLI | CALL_REG | ICALL =>
        simp only [execCall, iff_true]
        exact callCase_full (hvm₁.callDepth ▸ hlacks)
      | RETI =>
        simp only [iff_false]
        exact not_caseFails (reti_status.imp fun _ h => h.imp_right .inl)
      | _ => exact hlacks.elim
    | _ =>
      rw [hop] at hlacks
      exact hlacks.elim
  · rw [iff_false_right (fun h => hprep h.1)]
    rintro ⟨rc, vm', hstep, -⟩
    obtain ⟨fault, hfault⟩ := @fluxVmStep_eq_error vm host i hi hprep
    rw [hfault] at hstep
    cases hstep

/-- `POP R1` on an empty stack. -/
theorem stack_failure_atomic_pop : (boot [0x61, 1, 0, 0]).FailsAtomically plentifulHost := by
  have hi : (boot [0x61, 1, 0, 0]).nextInsn = some (decodeInsn 0x61010000) := rfl
  refine (stack_failure_atomic_iff plentifulHost hi (.inl (by decide))).2 ⟨?_, trivial⟩
  exact ⟨by decide, by decide, fun htracing => by cases htracing⟩

/-- `PUSH_IMM 7; POPA`: the 7 is popped into `R15` before the second pop fails. -/
theorem popa_not_atomic : ∃ vm i, Reachable plentifulHost vm ∧ vm.nextInsn = some i ∧ vm.Lacks i ∧
    ¬ vm.FailsAtomically plentifulHost := by
  have hrun : ((bootSteps [0x62, 0, 0, 7, 0x68, 0, 0, 0] 1).fluxVmStep plentifulHost).map (fun r => r.2.stackPtr) =
      .ok 0 := rfl
  refine ⟨bootSteps [0x62, 0, 0, 7, 0x68, 0, 0, 0] 1, decodeInsn 0x68000000,
    bootSteps_reachable _ _ (by decide) rfl, rfl, .inl (by decide), ?_⟩
  rintro ⟨rc, vm', hstep, -, -, hsame⟩
  rw [hstep] at hrun
  have hptr : (1 : UInt64) = 0 := hsame.stackPtr.symm.trans (Except.ok.inj hrun)
  exact absurd hptr (by decide)

end FluxVm

end FluxOs
