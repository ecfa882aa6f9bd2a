import FluxOs.Lib.Nesting
import FluxOs.Vm.MemoryEffects
import FluxOs.Vm.StepRules

/-!
# Calls and returns

A call pushes the address of the next instruction on the call stack, `RET` pops it, and no other
instruction but `RETI` touches the call stack.  So whatever the bodies do, in a well nested run every
`RET` continues behind the call that matches it (`returns_to_caller`).
-/

namespace FluxOs

open Faulting Nesting

/-- How an opcode nests: the four calls enter and `RET` leaves.  `RETI` has no place in a nested run. -/
def markOf : Opcode → Option Mark
  | .call .CALL | .call .CALLI | .call .CALL_REG | .call .ICALL => some .enter
  | .call .RET => some .leave
  | .call .RETI => none
  | _ => some .inner

namespace FluxVm

/-- A step returns `FLUX_OK` in state `RUNNING` and executes an instruction with this mark. -/
def CallStep (host : Host) (vm : FluxVm) (m : Mark) (vm' : FluxVm) : Prop :=
  ∃ i, vm.nextInsn = some i ∧ markOf (opcodeOf i.opcode) = some m ∧
    vm.fluxVmStep host = .ok (.ok, vm') ∧ vm'.state = .running

/-- What an instruction with this mark does with the call stack when the instruction behind it is at `next`. -/
inductive CallOutcome (vm : FluxVm) (next : UInt64) : Mark → FluxVm → Prop
  | inner {vm' : FluxVm} : KeepsCalls vm vm' → CallOutcome vm next .inner vm'
  | enter {vm' : FluxVm} : 0 ≤ vm.callDepth → vm'.callDepth = vm.callDepth + 1 →
      vm'.callStack = Function.update vm.callStack vm.callDepth.toNat next → CallOutcome vm next .enter vm'
  | leave {vm' : FluxVm} : 0 ≤ vm.callDepth - 1 → vm'.callDepth = vm.callDepth - 1 →
      vm'.callStack = vm.callStack → vm'.pc = vm.callStack (vm.callDepth - 1).toNat →
      CallOutcome vm next .leave vm'

variable {host : Host} {vm vm' a b c d : FluxVm} {i : FluxVmInsn} {v1 v2 : UInt64} {m : Mark}

/-! ## One instruction -/

theorem callCase_outcome {dest : FluxVm → Except Fault UInt64} :
    Ensures (fun _ => True) (fun r => r.2.state = .running → CallOutcome vm vm.pc .enter r.2) (vm.callCase dest) := by
  unfold callCase callStackPush
  split_ifs with hfull hneg
  · intro hstate
    cases hstate
  · simp only [ensures_bind, ensures_ok, ne_eq, not_true_eq_false, if_false]
    exact ensures_of_forall (fun _ _ _ => .enter hneg rfl rfl) fun _ _ => trivial
  · trivial

theorem ret_outcome :
    Ensures (fun _ => True) (fun r => r.2.state = .running → CallOutcome vm vm.pc .leave r.2)
      (vm.execCall .RET i v1) := by
  unfold execCall callStackPop
  split_ifs with hempty hin
  · intro hstate
    cases hstate
  · intro _
    exact .leave hin.1 rfl rfl rfl
  · trivial

theorem execCall_outcome (op : CallOp) (hm : markOf (.call op) = some m) :
    Ensures (fun _ => True) (fun r => r.2.state = .running → CallOutcome vm vm.pc m r.2)
      (vm.execCall op i v1) := by
  cases op
  case CALL | CALLI | CALL_REG | ICALL =>
    obtain rfl := Option.some.inj hm
    simp only [execCall]
    exact callCase_outcome
  case RET =>
    obtain rfl := Option.some.inj hm
    exact ret_outcome
  case RETI => simp [markOf] at hm
  all_goals
    obtain rfl := Option.some.inj hm
    exact fun _ => .inner ⟨rfl, rfl⟩

theorem MemoryOutcome.keepsCalls {op : MemoryOp} (h : MemoryOutcome vm op v1 vm') : KeepsCalls vm vm' := by
  cases h <;> exact ⟨rfl, rfl⟩

/-- An instruction that leaves the VM running does with the call stack what its mark says. -/
theorem execute_calls (hm : markOf (opcodeOf i.opcode) = some m) :
    Ensures (fun _ => True) (fun r => r.2.state = .running → CallOutcome vm vm.pc m r.2)
      (vm.execute host i v1 v2) := by
  -- the cases of the other categories leave the call stack alone
  have other {x : Exec} (hm : some .inner = some m)
      (hx : Ensures (fun _ => True) (fun r => KeepsCalls vm r.2) x) :
      Ensures (fun _ => True) (fun r => r.2.state = .running → CallOutcome vm vm.pc m r.2) x := by
    obtain rfl := Option.some.inj hm
    exact hx.imp fun _ hkeeps _ => .inner hkeeps
  have cpu {x : Exec} (hx : Ensures (fun _ => True) (fun r => CpuEffect vm r.2) x) :
      Ensures (fun _ => True) (fun r => KeepsCalls vm r.2) x := hx.imp fun _ he => he.toKeepsCalls
  unfold execute
  generalize opcodeOf i.opcode = opcode at hm ⊢
  cases opcode with
  | call op => exact execCall_outcome op hm
  | system op => exact other hm (cpu (execSystem_effect op))
  | arith op => exact other hm (cpu (execArith_effect op))
  | logic op => exact other hm (cpu (execLogic_effect op))
  | compare op => exact other hm (cpu (execCompare_effect op))
  | branch op => exact other hm (cpu (execBranch_effect op))
  | memory op => exact other hm ((execMemory_outcome op).imp fun _ h => h.keepsCalls)
  | stack op => exact other hm ((execStack_effect op).imp fun _ he => he.toKeepsCalls)
  | agent op => exact other hm (cpu (execAgent_effect op))
  | io op => exact other hm (cpu (execIo_effect op))
  | flux op => exact other hm ((execFlux_effect host op).imp fun _ he => he.toKeepsCalls)
  | native op => exact other hm (cpu (execNative_effect op))
  | unknown => exact other hm ⟨rfl, rfl⟩

/-- What a step does with the call stack. -/
theorem CallStep.outcome (h : CallStep host vm m vm') : CallOutcome vm (vm.pc + 4) m vm' := by
  obtain ⟨i, hi, hm, hstep, hstate⟩ := h
  refine (fluxVmStep_executes (Q := fun r => r.2.state = .running → CallOutcome vm (vm.pc + 4) m r.2) hi
    fun vm₁ hvm₁ => ?_).of_ok hstep hstate
  obtain ⟨trace, traceIdx, rfl⟩ := hvm₁.eq
  refine (execute_calls hm).imp fun r hout hrunning => ?_
  rcases r with ⟨_ | rc, vm₂⟩
  all_goals
    cases hout hrunning with
    | inner hkeeps => exact .inner ⟨hkeeps.callStack, hkeeps.callDepth⟩
    | enter hdepth hpush hstack => exact .enter hdepth hpush hstack
    | leave hdepth hpop hstack hpc => exact .leave hdepth hpop hstack hpc

/-! ## Nested calls -/

/-- The call depth is the same, and so are the return addresses that are pending. -/
structure KeepsPending (vm vm' : FluxVm) : Prop where
  callDepth : vm'.callDepth = vm.callDepth
  callStack : ∀ k : Nat, k < vm.callDepth → vm'.callStack k = vm.callStack k

theorem KeepsPending.refl (vm : FluxVm) : KeepsPending vm vm := ⟨rfl, fun _ _ => rfl⟩

theorem KeepsPending.trans (h : KeepsPending a b) (h' : KeepsPending b c) : KeepsPending a c where
  callDepth := h'.callDepth.trans h.callDepth
  callStack k hk := (h'.callStack k (h.callDepth ▸ hk)).trans (h.callStack k hk)

theorem CallStep.keepsPending (h : CallStep host vm .inner vm') : KeepsPending vm vm' := by
  cases h.outcome with
  | inner hkeeps => exact ⟨hkeeps.callDepth, fun k _ => congrFun hkeeps.callStack k⟩

/-- A call and the return that matches it: the return continues behind the call, and the return addresses
below are the same. -/
theorem call_return (hcall : CallStep host a .enter b) (hbody : KeepsPending b c)
    (hret : CallStep host c .leave d) : d.pc = a.pc + 4 ∧ KeepsPending a d := by
  cases hcall.outcome with
  | enter hnonneg hpush hstack =>
    cases hret.outcome with
    | leave _ hpop hsame hpc =>
      have hdepth : c.callDepth - 1 = a.callDepth := by rw [hbody.callDepth, hpush]; omega
      have hread (k : Nat) (hk : k ≤ a.callDepth) : c.callStack k =
          Function.update a.callStack a.callDepth.toNat (a.pc + 4) k := by
        rw [hbody.callStack k (by omega), hstack]
      refine ⟨?_, ⟨hpop.trans hdepth, fun k hk => ?_⟩⟩
      · rw [hpc, hdepth, hread _ (by omega), Function.update_self]
      · rw [hsame, hread k (by omega), Function.update_of_ne (by omega)]

/-- A nested run keeps the return addresses that were pending. -/
theorem keepsPending_of_nested {ms : List Mark} (hn : Nested ms) (h : MarkedRun (CallStep host) vm ms vm') :
    KeepsPending vm vm' :=
  hn.run KeepsPending.refl (fun _ _ _ => KeepsPending.trans) (fun _ _ => CallStep.keepsPending)
    (fun _ _ _ _ hcall hbody hret => (call_return hcall hbody hret).2) h

/-- In a well nested run every `RET` continues behind the call that matches it, and the call depth at the end
is the one at the start. -/
theorem returns_to_caller {ms : List Mark} (hn : Nested ms) (h : MarkedRun (CallStep host) vm ms vm') :
    vm'.callDepth = vm.callDepth ∧
      ∀ pre post c d, ms = pre ++ .leave :: post → MarkedRun (CallStep host) vm pre c → CallStep host c .leave d →
        ∃ pre' body a b, pre = pre' ++ .enter :: body ∧ Nested body ∧ MarkedRun (CallStep host) vm pre' a ∧
          CallStep host a .enter b ∧ MarkedRun (CallStep host) b body c ∧ d.pc = a.pc + 4 := by
  refine ⟨(keepsPending_of_nested hn h).callDepth, fun pre post c d heq hpre hret => ?_⟩
  obtain ⟨pre', body, rfl, hbody⟩ := hn.exists_enter heq
  obtain ⟨a, hfirst, hrest⟩ := markedRun_append.1 hpre
  cases hrest with
  | @cons _ b _ _ _ hcall hrun =>
    exact ⟨pre', body, a, b, rfl, hbody, hfirst, hcall, hrun,
      (call_return hcall (keepsPending_of_nested hbody hrun) hret).1⟩

/-- `CALLI 8; NOP; JMP 12; RET`. -/
def calliRet : List UInt8 := [0x71, 0, 0, 8, 0, 0, 0, 0, 0x40, 0, 0, 12, 0x72, 0, 0, 0]

theorem calliRet_call : CallStep plentifulHost (boot calliRet) .enter (bootSteps calliRet 1) :=
  ⟨_, rfl, rfl, rfl, rfl⟩

theorem calliRet_jump : CallStep plentifulHost (bootSteps calliRet 1) .inner (bootSteps calliRet 2) :=
  ⟨_, rfl, rfl, rfl, rfl⟩

theorem calliRet_ret : CallStep plentifulHost (bootSteps calliRet 2) .leave (bootSteps calliRet 3) :=
  ⟨_, rfl, rfl, rfl, rfl⟩

theorem returns_to_caller_calli :
    (bootSteps calliRet 3).callDepth = (boot calliRet).callDepth ∧
      ∃ pre' body a b, [.enter, .inner] = pre' ++ .enter :: body ∧ Nested body ∧
        MarkedRun (CallStep plentifulHost) (boot calliRet) pre' a ∧ CallStep plentifulHost a .enter b ∧
        MarkedRun (CallStep plentifulHost) b body (bootSteps calliRet 2) ∧
        (bootSteps calliRet 3).pc = a.pc + 4 := by
  have hn : Nested [.enter, .inner, .leave] := .pair (.inner .nil) .nil
  have hbody : MarkedRun (CallStep plentifulHost) (boot calliRet) [.enter, .inner] (bootSteps calliRet 2) :=
    .cons calliRet_call (.cons calliRet_jump .nil)
  have hrun : MarkedRun (CallStep plentifulHost) (boot calliRet) [.enter, .inner, .leave] (bootSteps calliRet 3) :=
    .cons calliRet_call (.cons calliRet_jump (.cons calliRet_ret .nil))
  obtain ⟨hdepth, hrets⟩ := returns_to_caller hn hrun
  exact ⟨hdepth, hrets [.enter, .inner] [] _ _ rfl hbody calliRet_ret⟩

end FluxVm

end FluxOs
