import FluxOs.Vm.Stacks

/-!
# Stack frames

`ENTER` saves `BP` and `FP` on the operand stack, sets `FP` to the register `SP` and reserves the words of the
frame; `LEAVE` takes the stack pointer from `FP` and pops the two saved registers.  But the pushes of `ENTER`
do not update `SP`, so `FP` holds the stack pointer from before them, and `LEAVE` pops the two words below the
frame instead of the saved registers.  A frame is restored only where there is nothing below it
(`frames_restored_iff`).
-/

namespace FluxOs

open Faulting

namespace FluxVm

/-- `SP` mirrors the stack pointer. -/
def MirrorsSp (vm : FluxVm) : Prop := vm.regs fluxRegSp = vm.stackSize - vm.stackPtr

/-- The words that an `ENTER` with this immediate reserves. -/
def frameWords (imm : Int32) : Nat := imm.toInt.toNat / 8

/-- The step from `a` to `b` executes `ENTER`, where `SP` mirrors the stack pointer and the stack has room for
the saved registers and the frame. -/
structure EnterStep (host : Host) (a b : FluxVm) : Prop where
  mirrors : a.MirrorsSp
  enters : ∃ i, a.nextInsn = some i ∧ opcodeOf i.opcode = .stack .ENTER ∧
    a.stackPtr.toNat + 2 + frameWords i.imm ≤ a.stackSize.toNat
  step : a.fluxVmStep host = .ok (.ok, b)

/-- The step from `c` to `d` executes `LEAVE`. -/
structure LeaveStep (host : Host) (c d : FluxVm) : Prop where
  leaves : ∃ i, c.nextInsn = some i ∧ opcodeOf i.opcode = .stack .LEAVE
  step : c.fluxVmStep host = .ok (.ok, d)

/-- The frame registers and the stack below `floor` are the same. -/
structure KeepsFrame (floor : UInt64) (s t : FluxVm) : Prop where
  bp : t.regs fluxRegBp = s.regs fluxRegBp
  fp : t.regs fluxRegFp = s.regs fluxRegFp
  below : ∀ k, k < floor.toNat → t.stack k = s.stack k

/-- Any steps that keep the frame registers and the stack below `floor`, after which `SP` mirrors the stack
pointer. -/
structure PlainSteps (host : Host) (floor : UInt64) (s t : FluxVm) : Prop where
  run : Run (fluxVmStep · host) s t
  keeps : KeepsFrame floor s t
  above : floor ≤ t.stackPtr
  mirrors : t.MirrorsSp

/-- A body above `floor`: plain steps and frames with balanced bodies of their own, in any order.  The list has
the states before and after each of its frames, at every depth. -/
inductive Body (host : Host) : UInt64 → FluxVm → List (FluxVm × FluxVm) → FluxVm → Prop
  | nil {floor : UInt64} {s : FluxVm} : Body host floor s [] s
  | plain {floor : UInt64} {s t u : FluxVm} {frames : List (FluxVm × FluxVm)} :
      PlainSteps host floor s t → Body host floor t frames u → Body host floor s frames u
  | frame {floor : UInt64} {a b c d u : FluxVm} {inner frames : List (FluxVm × FluxVm)} :
      floor ≤ a.stackPtr → EnterStep host a b → Body host b.stackPtr b inner c → c.stackPtr = b.stackPtr →
      LeaveStep host c d → Body host floor d frames u → Body host floor a ((a, d) :: (inner ++ frames)) u

/-- The stack pointer, the frame registers and the words of the stack are what they were. -/
structure Restored (a d : FluxVm) : Prop where
  stackPtr : d.stackPtr = a.stackPtr
  sp : d.regs fluxRegSp = a.regs fluxRegSp
  bp : d.regs fluxRegBp = a.regs fluxRegBp
  fp : d.regs fluxRegFp = a.regs fluxRegFp
  words : ∀ k, k < a.stackPtr.toNat → d.stack k = a.stack k

/-- The operand stack is empty, and `BP` and `FP` are zero. -/
structure Unframed (vm : FluxVm) : Prop where
  stackPtr : vm.stackPtr = 0
  bp : vm.regs fluxRegBp = 0
  fp : vm.regs fluxRegFp = 0

variable {host : Host} {vm vm' a b c d s t u : FluxVm} {i : FluxVmInsn} {v1 v2 floor : UInt64}
  {frames : List (FluxVm × FluxVm)}

/-! ## The size of the stack -/

theorem execute_stackSize :
    Ensures (fun _ => True) (fun r => r.2.stackSize = vm.stackSize) (vm.execute host i v1 v2) := by
  have cpu {x : Exec} (hx : Ensures (fun _ => True) (fun r => CpuEffect vm r.2) x) :
      Ensures (fun _ => True) (fun r => r.2.stackSize = vm.stackSize) x :=
        hx.imp fun _ he => he.toKeepsStack.stackSize
  unfold execute
  cases opcodeOf i.opcode with
  | system op => exact cpu (execSystem_effect op)
  | arith op => exact cpu (execArith_effect op)
  | logic op => exact cpu (execLogic_effect op)
  | compare op => exact cpu (execCompare_effect op)
  | branch op => exact cpu (execBranch_effect op)
  | memory op =>
    refine (execMemory_outcome op).imp fun r hout => ?_
    generalize r.2 = vm' at hout ⊢
    cases hout <;> rfl
  | stack op => exact (execStack_effect op).imp fun _ he => he.stackSize
  | call op => exact (execCall_effect op).imp fun _ he => he.stackSize
  | agent op => exact cpu (execAgent_effect op)
  | io op => exact cpu (execIo_effect op)
  | flux op => exact (execFlux_effect host op).imp fun _ he => he.toKeepsStack.stackSize
  | native op => exact cpu (execNative_effect op)
  | unknown => rfl

theorem fluxVmStep_stackSize {rc : FluxStatus} (h : vm.fluxVmStep host = .ok (rc, vm')) :
    vm'.stackSize = vm.stackSize := by
  refine (fluxVmStep_ensures (E := fun _ => True) (Q := fun r => r.2.stackSize = vm.stackSize) (fun r hr => ?_)
    (fun _ _ _ => trivial) (fun _ _ _ _ _ => trivial) (fun _ => trivial) fun i vm₁ _ hvm₁ => ?_).of_ok h
  · unfold stopped? at hr
    split_ifs at hr
    all_goals
      cases hr
      rfl
  · obtain ⟨trace, traceIdx, rfl⟩ := hvm₁.eq
    refine execute_stackSize.imp fun r hsize => ?_
    rcases r with ⟨_ | rc, vm₂⟩
    · exact hsize
    · exact hsize

theorem Body.stackSize (h : Body host floor s frames u) : u.stackSize = s.stackSize := by
  induction h with
  | nil => rfl
  | plain hplain _ ih =>
    rw [ih]
    exact hplain.run.invariant (fun _ _ _ hsize hstep => (fluxVmStep_stackSize hstep).trans hsize) rfl
  | frame _ henter _ _ hleave _ ihInner ihRest =>
    rw [ihRest, fluxVmStep_stackSize hleave.step, ihInner, fluxVmStep_stackSize henter.step]

/-! ## One frame -/

theorem stackPush_regs {val : UInt64} :
    Ensures (fun _ => True) (fun r => r.2.regs = vm.regs) (vm.stackPush val) := by
  unfold stackPush
  split_ifs
  · rfl
  · exact (ensures_bind ..).2 (setStackAt_ensures fun _ => rfl)

/-- `FP` becomes the register `SP`, which the pushes of `ENTER` leave as it was. -/
theorem enterFrame_fp :
    Ensures (fun _ => True) (fun r => r.2.regs fluxRegFp = vm.regs fluxRegSp) (vm.enterFrame i) := by
  unfold enterFrame
  simp only
  generalize (if i.imm < 0 then 0 else i.imm) = frameSize
  refine stackPush_regs.bind fun ⟨_, vm₁⟩ h₁ => ?_
  refine stackPush_regs.bind fun ⟨_, vm₂⟩ h₂ => ?_
  have hsp : vm₂.regs fluxRegSp = vm.regs fluxRegSp := congrFun (h₂.trans h₁) fluxRegSp
  simp only
  split_ifs
  · exact hsp
  · exact hsp

theorem EnterStep.fp (h : EnterStep host a b) : b.regs fluxRegFp = a.stackSize - a.stackPtr := by
  obtain ⟨i, hi, hop, -⟩ := h.enters
  refine (fluxVmStep_executes (Q := fun r => r.2.regs fluxRegFp = a.stackSize - a.stackPtr) hi
    fun vm₁ hvm₁ => ?_).of_ok h.step
  obtain ⟨trace, traceIdx, rfl⟩ := hvm₁.eq
  simp only [execute, hop, execStack]
  refine enterFrame_fp.imp fun r hfp => ?_
  rw [← h.mirrors]
  rcases r with ⟨_ | rc, vm₂⟩
  · exact hfp
  · exact hfp

/-- What `LEAVE` leaves behind when it takes the stack pointer `ptr` from `FP`. -/
inductive LeaveOutcome (ptr : UInt64) (vm' : FluxVm) : Prop
  | empty : ptr = 0 → vm'.stackPtr = 0 → vm'.MirrorsSp → vm'.regs fluxRegBp = 0 → vm'.regs fluxRegFp = 0 →
      LeaveOutcome ptr vm'
  | popped : vm'.stackPtr < ptr → LeaveOutcome ptr vm'

theorem leaveFrame_outcome :
    Ensures (fun _ => True) (fun r => LeaveOutcome (vm.stackSize - vm.regs fluxRegFp) r.2) vm.leaveFrame := by
  unfold leaveFrame
  simp only
  generalize hptr : vm.stackSize - vm.regs fluxRegFp = ptr
  by_cases hzero : ptr = 0
  · -- both pops fail, and the values they leave are zero
    subst hzero
    exact .empty rfl rfl rfl rfl rfl
  · have hlt : ptr - 1 < ptr := sub_lt_of_le (by decide) (one_le_of_ne_zero hzero) (UInt64.le_refl _)
    simp only [stackPop, hzero, if_false, ensures_bind]
    refine stackAt_ensures fun fp => ?_
    simp only [ensures_pure]
    split_ifs with hone
    · exact .popped hlt
    · refine (ensures_bind ..).2 (stackAt_ensures fun bp => ?_)
      refine .popped (UInt64.lt_of_le_of_lt ?_ hlt)
      exact sub_le_of_le _ (one_le_of_ne_zero hone) (UInt64.le_refl _)

theorem LeaveStep.outcome (h : LeaveStep host c d) : LeaveOutcome (c.stackSize - c.regs fluxRegFp) d := by
  obtain ⟨i, hi, hop⟩ := h.leaves
  refine (fluxVmStep_executes (Q := fun r => LeaveOutcome (c.stackSize - c.regs fluxRegFp) r.2) hi
    fun vm₁ hvm₁ => ?_).of_ok h.step
  obtain ⟨trace, traceIdx, rfl⟩ := hvm₁.eq
  simp only [execute, hop, execStack]
  refine leaveFrame_outcome.imp fun r hout => ?_
  rcases r with ⟨_ | rc, vm₂⟩
  · cases hout with
    | empty hptr hstack hmirrors hbp hfp => exact .empty hptr hstack hmirrors hbp hfp
    | popped hlt => exact .popped hlt
  · exact hout

/-- A frame whose body keeps `FP` is restored exactly when it is entered on an empty stack with `BP` and `FP`
zero. -/
theorem frame_restored_iff (henter : EnterStep host a b) (hfp : c.regs fluxRegFp = b.regs fluxRegFp)
    (hsize : c.stackSize = a.stackSize) (hleave : LeaveStep host c d) : a.Restored d ↔ a.Unframed := by
  have hptr : c.stackSize - c.regs fluxRegFp = a.stackPtr := by
    rw [hfp, henter.fp, hsize, UInt64.sub_eq_add_neg, UInt64.neg_sub, UInt64.add_comm, UInt64.sub_add_cancel]
  have hout := hleave.outcome
  rw [hptr] at hout
  constructor
  · intro h
    cases hout with
    | empty hzero _ _ hbp hfp => exact ⟨hzero, h.bp.symm.trans hbp, h.fp.symm.trans hfp⟩
    | popped hlt => exact absurd (h.stackPtr ▸ hlt) (UInt64.lt_irrefl _)
  · intro h
    cases hout with
    | empty hzero hstack hmirrors hbp hfp =>
      refine ⟨hstack.trans hzero.symm, ?_, hbp.trans h.bp.symm, hfp.trans h.fp.symm, fun k hk => ?_⟩
      · rw [hmirrors, henter.mirrors, hstack, hzero, fluxVmStep_stackSize hleave.step, hsize]
      · rw [hzero] at hk
        exact absurd hk (Nat.not_lt_zero k)
    | popped hlt =>
      rw [h.stackPtr] at hlt
      exact absurd hlt (UInt64.not_lt.2 (UInt64.le_iff_toNat_le.2 (Nat.zero_le _)))

/-! ## Nested frames -/

theorem KeepsFrame.refl (floor : UInt64) (s : FluxVm) : KeepsFrame floor s s := ⟨rfl, rfl, fun _ _ => rfl⟩

theorem KeepsFrame.trans (h : KeepsFrame floor s t) (h' : KeepsFrame floor t u) : KeepsFrame floor s u where
  bp := h'.bp.trans h.bp
  fp := h'.fp.trans h.fp
  below k hk := (h'.below k hk).trans (h.below k hk)

theorem Restored.keepsFrame (h : a.Restored d) (hfloor : floor ≤ a.stackPtr) : KeepsFrame floor a d :=
  ⟨h.bp, h.fp, fun k hk => h.words k (Nat.lt_of_lt_of_le hk (UInt64.le_iff_toNat_le.1 hfloor))⟩

/-- A body whose frames are all restored keeps the frame around it. -/
theorem Body.keepsFrame (h : Body host floor s frames u) (hall : ∀ f ∈ frames, f.1.Restored f.2) :
    KeepsFrame floor s u := by
  induction h with
  | nil => exact .refl _ _
  | plain hplain _ ih => exact hplain.keeps.trans (ih hall)
  | frame hfloor _ _ _ _ _ _ ihRest =>
    rw [List.forall_mem_cons, List.forall_mem_append] at hall
    exact (hall.1.keepsFrame hfloor).trans (ihRest hall.2.2)

/-- The frames of a body, at every depth, are all restored exactly when each of them is entered on an empty
stack with `BP` and `FP` zero. -/
theorem frames_restored_iff (h : Body host floor s frames u) :
    (∀ f ∈ frames, f.1.Restored f.2) ↔ ∀ f ∈ frames, f.1.Unframed := by
  induction h with
  | nil => simp
  | plain _ _ ih => exact ih
  | @frame _ a b c d _ _ _ _ henter hinner _ hleave _ ihInner ihRest =>
    simp only [List.forall_mem_cons, List.forall_mem_append, ihInner, ihRest]
    refine and_congr_left fun hrest => ?_
    have hkeeps := hinner.keepsFrame (ihInner.2 hrest.1)
    exact frame_restored_iff henter hkeeps.fp (hinner.stackSize.trans (fluxVmStep_stackSize henter.step)) hleave

/-- `ENTER 16; NOP; LEAVE` on an empty stack with `BP` zero. -/
def bareFrame : FluxVm := (boot [0x65, 0, 0, 16, 0, 0, 0, 0, 0x66, 0, 0, 0]).putReg fluxRegBp 0

/-- `bareFrame` after `n` steps. -/
def bareFrameSteps (n : Nat) : FluxVm := (next (fluxVmStep · plentifulHost))^[n] bareFrame

theorem bareFrame_body : Body plentifulHost 0 bareFrame [(bareFrame, bareFrameSteps 3)] (bareFrameSteps 3) := by
  have henter : EnterStep plentifulHost bareFrame (bareFrameSteps 1) := ⟨rfl, ⟨_, rfl, rfl, by decide⟩, rfl⟩
  have hnop : PlainSteps plentifulHost (bareFrameSteps 1).stackPtr (bareFrameSteps 1) (bareFrameSteps 2) :=
    ⟨.single ⟨.ok, rfl⟩, ⟨rfl, rfl, fun _ _ => rfl⟩, UInt64.le_refl _, rfl⟩
  exact .frame (UInt64.le_refl _) henter (.plain hnop .nil) rfl ⟨⟨_, rfl, rfl⟩, rfl⟩ .nil

theorem frames_restored_bareFrame : bareFrame.Restored (bareFrameSteps 3) := by
  refine (frames_restored_iff bareFrame_body).2 (fun f hf => ?_) _ List.mem_cons_self
  obtain rfl := List.mem_singleton.1 hf
  exact ⟨rfl, rfl, rfl⟩

/-- `PUSH_IMM 7; PUSH_IMM 9; ENTER 16; LEAVE`: `LEAVE` pops the 9 and the 7. -/
def pushedFrame : List UInt8 := [0x62, 0, 0, 7, 0x62, 0, 0, 9, 0x65, 0, 0, 16, 0x66, 0, 0, 0]

theorem pushedFrame_not_restored :
    ∃ a d, Reachable plentifulHost a ∧ Body plentifulHost 0 a [(a, d)] d ∧ ¬ a.Restored d := by
  have hmirrors : (bootSteps pushedFrame 2).MirrorsSp := by
    unfold MirrorsSp
    decide
  have henter : EnterStep plentifulHost (bootSteps pushedFrame 2) (bootSteps pushedFrame 3) :=
    ⟨hmirrors, ⟨_, rfl, rfl, by decide⟩, rfl⟩
  refine ⟨bootSteps pushedFrame 2, bootSteps pushedFrame 4, bootSteps_reachable _ _ (by decide) rfl, ?_,
    fun h => absurd h.stackPtr (by decide)⟩
  exact .frame (UInt64.le_iff_toNat_le.2 (Nat.zero_le _)) henter .nil rfl ⟨⟨_, rfl, rfl⟩, rfl⟩ .nil

end FluxVm

end FluxOs
