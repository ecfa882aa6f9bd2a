import FluxOs.Vm.MemoryEffects
import FluxOs.Vm.StepRules

/-!
# Instruction fetch

`flux_vm_step` and `fetch_instruction` both compare `pc + 4`, computed modulo `2 ^ 64`, with the length
of the bytecode.  The fetch reads inside the buffer exactly when that sum does not wrap around; calls,
`TAILCALL` and the trap handler can set `pc` to any register value.
-/

namespace FluxOs

open Faulting

namespace FluxVm

variable {vm : FluxVm} {i : FluxVmInsn} {v1 v2 : UInt64}

/-- The opcode byte that `sandbox_step` looks at before it steps the VM, if `pc` is in the buffer. -/
def sandboxPeek (vm : FluxVm) : Except Fault (Option UInt8) :=
  if vm.pc < vm.bytecodeLen then some <$> vm.codeAt vm.pc else .ok none

/-- The VM has halted or failed, or stands at a breakpoint: a step returns before it looks at the
instruction. -/
def Halted (vm : FluxVm) : Prop :=
  vm.state = .halted ∨ vm.state = .error ∨ vm.breakpointAddrs.any (· == vm.pc.toUInt32) = true

/-- The four bytes of the instruction at `pc` lie in the buffer. -/
def InsnInBuffer (vm : FluxVm) : Prop := vm.pc.toNat + 4 ≤ vm.bytecodeLen.toNat

/-- The fetch of the next step and the sandbox's peek read inside the buffer, and a step whose
instruction does not lie in the buffer ends in state `ERROR` with everything else unchanged. -/
structure FetchInBuffer (vm : FluxVm) (host : Host) : Prop where
  fetch : vm.stopped? = none → Defined vm.fetchInstruction
  peek : Defined vm.sandboxPeek
  outside : ¬ vm.Halted → ¬ vm.InsnInBuffer → vm.fluxVmStep host = .ok (.errGeneral, vm.fail 10)

/-! ## The program does not change -/

theorem MemoryOutcome.keepsProgram {op : MemoryOp} {vm' : FluxVm} (h : MemoryOutcome vm op v1 vm') :
    KeepsProgram vm vm' := by
  cases h <;> exact ⟨rfl, rfl, rfl, rfl⟩

theorem execute_keepsProgram (host : Host) :
    Ensures (fun _ => True) (fun r => KeepsProgram vm r.2) (vm.execute host i v1 v2) := by
  unfold execute
  cases opcodeOf i.opcode with
  | system op => exact (execSystem_effect op).imp fun _ h => h.toKeepsProgram
  | arith op => exact (execArith_effect op).imp fun _ h => h.toKeepsProgram
  | logic op => exact (execLogic_effect op).imp fun _ h => h.toKeepsProgram
  | compare op => exact (execCompare_effect op).imp fun _ h => h.toKeepsProgram
  | branch op => exact (execBranch_effect op).imp fun _ h => h.toKeepsProgram
  | memory op => exact (execMemory_outcome op).imp fun _ h => h.keepsProgram
  | stack op => exact (execStack_effect op).imp fun _ h => h.toKeepsProgram
  | call op => exact (execCall_effect op).imp fun _ h => h.toKeepsProgram
  | agent op => exact (execAgent_effect op).imp fun _ h => h.toKeepsProgram
  | io op => exact (execIo_effect op).imp fun _ h => h.toKeepsProgram
  | flux op => exact (execFlux_effect host op).imp fun _ h => h.toKeepsProgram
  | native op => exact (execNative_effect op).imp fun _ h => h.toKeepsProgram
  | unknown => exact ⟨rfl, rfl, rfl, rfl⟩

theorem fluxVmStep_keepsProgram (vm : FluxVm) (host : Host) :
    Ensures (fun _ => True) (fun r => KeepsProgram vm r.2) (vm.fluxVmStep host) := by
  refine fluxVmStep_ensures (fun r hr => ?_) (fun _ _ _ => trivial) (fun _ _ _ _ _ => trivial)
    (fun _ => trivial) fun i vm₁ _ hvm₁ => ?_
  · unfold stopped? at hr
    split_ifs at hr
    all_goals
      cases hr
      exact ⟨rfl, rfl, rfl, rfl⟩
  · obtain ⟨trace, traceIdx, heq⟩ := hvm₁.eq
    have h₁ : KeepsProgram vm vm₁ := by rw [heq]; exact ⟨rfl, rfl, rfl, rfl⟩
    refine (execute_keepsProgram host).imp fun r hr => ?_
    rcases r with ⟨_ | status, vm'⟩
    · exact h₁.trans ⟨hr.1, hr.2, hr.3, hr.4⟩
    · exact h₁.trans hr

/-- A loaded program has at least one instruction, and keeps its length. -/
theorem Reachable.four_le_bytecodeLen {host : Host} (h : Reachable host vm) :
    4 ≤ vm.bytecodeLen := by
  refine h.invariant (I := fun vm => 4 ≤ vm.bytecodeLen)
    (fun vm hload => hload.spec.2.2.2.2.2.2.2) fun vm rc vm' hlen hstep => ?_
  have hkeep : KeepsProgram vm vm' := (fluxVmStep_keepsProgram vm host).of_ok hstep
  rw [hkeep.bytecodeLen]
  exact hlen

/-! ## The bounds check -/

theorem codeAt_of_lt {pc : UInt64} (h : pc < vm.bytecodeLen) :
    vm.codeAt pc = .ok (vm.bytecode pc.toNat) :=
  if_pos h

/-- The check of `fetch_instruction` without wrap-around. -/
theorem check_iff (hpc : vm.pc.toNat + 4 < UInt64.size) :
    vm.pc + 4 > vm.bytecodeLen ↔ ¬ vm.InsnInBuffer := by
  have hword : UInt64.size = 2 ^ 64 := rfl
  rw [gt_iff_lt, UInt64.lt_iff_toNat_lt, UInt64.toNat_add, InsnInBuffer]
  have : (4 : UInt64).toNat = 4 := rfl
  rw [this, Nat.mod_eq_of_lt hpc]
  omega

theorem fetchInstruction_defined (h : vm.InsnInBuffer) : Defined vm.fetchInstruction := by
  have hword : UInt64.size = 2 ^ 64 := rfl
  have hlen := vm.bytecodeLen.toNat_lt
  unfold InsnInBuffer at h
  have code (k : UInt64) (hk : k.toNat < 4) :
      vm.codeAt (vm.pc + k) = .ok (vm.bytecode (vm.pc + k).toNat) := by
    refine codeAt_of_lt ?_
    rw [UInt64.lt_iff_toNat_lt, UInt64.toNat_add, Nat.mod_eq_of_lt (by omega)]
    omega
  have hcode0 : vm.codeAt vm.pc = .ok (vm.bytecode vm.pc.toNat) :=
    codeAt_of_lt (UInt64.lt_iff_toNat_lt.2 (by omega))
  unfold fetchInstruction
  rw [if_neg (mt (check_iff (by omega)).1 (not_not.2 h)), hcode0, code 1 (by decide),
    code 2 (by decide), code 3 (by decide)]
  exact ⟨_, rfl⟩

/-- When `pc + 4` wraps around, the fetch passes its check and reads the byte at `2 ^ 64 - 1`. -/
theorem fetchInstruction_faults (hlen : 4 ≤ vm.bytecodeLen) (hpc : UInt64.size ≤ vm.pc.toNat + 4) :
    ¬ vm.pc + 4 > vm.bytecodeLen ∧ ¬ Defined vm.fetchInstruction := by
  have hword : UInt64.size = 2 ^ 64 := rfl
  have hpc' := vm.pc.toNat_lt
  have hsize := vm.bytecodeLen.toNat_lt
  have h4 : (4 : UInt64).toNat = 4 := rfl
  have hcheck : ¬ vm.pc + 4 > vm.bytecodeLen := by
    rw [UInt64.le_iff_toNat_le] at hlen
    rw [gt_iff_lt, UInt64.lt_iff_toNat_lt, UInt64.toNat_add]
    omega
  refine ⟨hcheck, fun ⟨w, hw⟩ => ?_⟩
  have code {pc : UInt64} {b : UInt8} (h : vm.codeAt pc = .ok b) :
      pc.toNat < vm.bytecodeLen.toNat := by
    unfold codeAt at h
    split_ifs at h with hlt
    exact UInt64.lt_iff_toNat_lt.1 hlt
  unfold fetchInstruction at hw
  rw [if_neg hcheck] at hw
  obtain ⟨b0, h0, hw⟩ := bind_eq_ok.1 hw
  obtain ⟨b1, h1, hw⟩ := bind_eq_ok.1 hw
  obtain ⟨b2, h2, hw⟩ := bind_eq_ok.1 hw
  obtain ⟨b3, h3, hw⟩ := bind_eq_ok.1 hw
  -- one of the four bytes read is the one at `2 ^ 64 - 1`, which no buffer has
  have h0 := code h0
  have h1 := code h1
  have h2 := code h2
  have h3 := code h3
  have e1 : (1 : UInt64).toNat = 1 := rfl
  have e2 : (2 : UInt64).toNat = 2 := rfl
  have e3 : (3 : UInt64).toNat = 3 := rfl
  rw [UInt64.toNat_add] at h1 h2 h3
  omega

/-! ## The step -/

theorem stopped?_eq_none_iff : vm.stopped? = none ↔ ¬ vm.Halted ∧ ¬ vm.pc + 4 > vm.bytecodeLen := by
  unfold stopped? Halted
  split_ifs with hstate hbreak hcheck
  · exact iff_of_false nofun fun h => h.1 (hstate.imp id .inl)
  · exact iff_of_false nofun fun h => h.1 (.inr (.inr hbreak))
  · exact iff_of_false nofun fun h => h.2 hcheck
  · refine iff_of_true rfl ⟨?_, hcheck⟩
    rintro (h | h | h)
    · exact hstate (.inl h)
    · exact hstate (.inr h)
    · exact hbreak h

theorem fluxVmStep_outside {host : Host} (hhalt : ¬ vm.Halted)
    (hcheck : vm.pc + 4 > vm.bytecodeLen) :
    vm.fluxVmStep host = .ok (.errGeneral, vm.fail 10) := by
  have hstop : vm.stopped? = some (.errGeneral, vm.fail 10) := by
    unfold stopped?
    rw [if_neg fun h => hhalt (h.imp id .inl), if_neg fun h => hhalt (.inr (.inr h)), if_pos hcheck]
  unfold fluxVmStep
  rw [hstop]

theorem sandboxPeek_defined : Defined vm.sandboxPeek := by
  unfold sandboxPeek
  split_ifs with h
  · rw [codeAt_of_lt h]
    exact ⟨_, rfl⟩
  · exact ⟨_, rfl⟩

/-- In every reachable state, the fetch of the next step is safe exactly when the VM has stopped or
`pc + 4` does not wrap around. -/
theorem fetchInBuffer_iff {host : Host} (h : Reachable host vm) :
    vm.FetchInBuffer host ↔ vm.Halted ∨ vm.pc.toNat + 4 < UInt64.size := by
  have hword : UInt64.size = 2 ^ 64 := rfl
  constructor
  · intro hsafe
    by_contra hcon
    rw [not_or, Nat.not_lt] at hcon
    obtain ⟨hcheck, hfetch⟩ := fetchInstruction_faults h.four_le_bytecodeLen hcon.2
    exact hfetch (hsafe.fetch (stopped?_eq_none_iff.2 ⟨hcon.1, hcheck⟩))
  · intro hpc
    refine ⟨fun hstop => ?_, sandboxPeek_defined, fun hhalt hout => ?_⟩
    · obtain ⟨hhalt, hcheck⟩ := stopped?_eq_none_iff.1 hstop
      have hpc := hpc.resolve_left hhalt
      exact fetchInstruction_defined (not_not.1 (mt (check_iff hpc).2 hcheck))
    · have hpc := hpc.resolve_left hhalt
      exact fluxVmStep_outside hhalt ((check_iff hpc).2 hout)

theorem fetchInBuffer_nop :
    (boot [0, 0, 0, 0]).FetchInBuffer plentifulHost ↔
      (boot [0, 0, 0, 0]).Halted ∨ (boot [0, 0, 0, 0]).pc.toNat + 4 < UInt64.size :=
  fetchInBuffer_iff ⟨_, boot_loaded _ (by decide), Relation.ReflTransGen.refl⟩

/-- `TAILCALL R63` sets `pc` to `2 ^ 64 - 1`; the next fetch reads far outside the buffer. -/
theorem fetch_outside : ∃ vm, Reachable plentifulHost vm ∧ ¬ vm.FetchInBuffer plentifulHost := by
  refine ⟨bootSteps [0x76, 0, 63, 0] 1, bootSteps_reachable _ _ (by decide) rfl, fun h => ?_⟩
  obtain ⟨w, hw⟩ := h.fetch rfl
  cases hw

end FluxVm

end FluxOs
