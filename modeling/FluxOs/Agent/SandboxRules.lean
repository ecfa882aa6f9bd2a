import FluxOs.Agent.Execution

/-!
# Rules for the sandbox

What one call of `sandbox_step` does, case by case, and the rule that reduces a property of `flux_agent_run`
to a property of the rounds of its loop.
-/

namespace FluxOs

open AgentRuntime

/-! ## The instruction that the sandbox peeks at -/

theorem fluxDecodeOpcode_bytes (b0 b1 b2 b3 : UInt8) :
    fluxDecodeOpcode ((b0.toUInt32 <<< 24) ||| (b1.toUInt32 <<< 16) ||| (b2.toUInt32 <<< 8) |||
      b3.toUInt32) = b0 := by
  apply UInt8.toBitVec_inj.1
  unfold fluxDecodeOpcode
  ext i hi
  have hzero (b : UInt8) (k : Nat) (hk : 8 ≤ k) : b.toBitVec.getLsbD k = false := BitVec.getLsbD_of_ge _ _ hk
  have hwide : 24 + i < 32 ∧ i < 32 := by omega
  simp [hi, hwide, hzero b1 (24 + i - 16) (by omega), hzero b2 (24 + i - 8) (by omega),
    hzero b3 (24 + i) (by omega)]

namespace FluxVm

variable {vm : FluxVm} {insn : FluxVmInsn}

/-- The byte that the sandbox looks at is the opcode of the next instruction. -/
theorem sandboxPeek_of_nextInsn (h : vm.nextInsn = some insn) : vm.sandboxPeek = .ok (some insn.opcode) := by
  unfold nextInsn at h
  cases hstop : vm.stopped? with
  | some r =>
    rw [hstop] at h
    cases h
  | none =>
    have hcheck : ¬ vm.pc + 4 > vm.bytecodeLen := (stopped?_eq_none_iff.1 hstop).2
    have hfetch : ∃ w, vm.fetchInstruction = .ok w ∧ insn = decodeInsn w := by
      rw [hstop] at h
      cases hw : vm.fetchInstruction with
      | error fault =>
        rw [hw] at h
        cases h
      | ok w =>
        rw [hw] at h
        cases h
        exact ⟨w, rfl, rfl⟩
    obtain ⟨w, hw, rfl⟩ := hfetch
    unfold fetchInstruction at hw
    rw [if_neg hcheck] at hw
    obtain ⟨b0, h0, hw⟩ := Faulting.bind_eq_ok.1 hw
    obtain ⟨b1, h1, hw⟩ := Faulting.bind_eq_ok.1 hw
    obtain ⟨b2, h2, hw⟩ := Faulting.bind_eq_ok.1 hw
    obtain ⟨b3, h3, hw⟩ := Faulting.bind_eq_ok.1 hw
    cases hw
    have hopcode : (decodeInsn ((b0.toUInt32 <<< 24) ||| (b1.toUInt32 <<< 16) ||| (b2.toUInt32 <<< 8) |||
        b3.toUInt32)).opcode = b0 := fluxDecodeOpcode_bytes b0 b1 b2 b3
    have hpc : vm.pc < vm.bytecodeLen := by
      by_contra hpc
      rw [codeAt, if_neg hpc] at h0
      cases h0
    rw [hopcode, sandboxPeek, if_pos hpc, h0]
    rfl

/-- An A2A opcode is stepped without an error, unless the step stops in front of it, and leaves the regions
alone. -/
theorem fluxVmStep_a2a {opcode : UInt8} (host : Host) (hpeek : vm.sandboxPeek = .ok (some opcode))
    (ha2a : isA2aOpcode opcode = true) :
    Faulting.Ensures (fun _ => True) (fun r => KeepsRegions vm r.2 ∧
      (r.1 = .errGeneral ∧ vm.stopped? = some r ∨ r.1 = .ok ∧ vm.stopped? = none ∧
        r.2.state = if opcodeOf opcode = .agent .YIELD_AGENT then .waiting else .running))
      (vm.fluxVmStep host) := by
  refine fluxVmStep_ensures (fun r hr => ?_) (fun _ _ _ => trivial) (fun _ _ _ _ _ => trivial)
    (fun _ => trivial) fun i vm₁ hnext hvm₁ => ?_
  · have hkeep : KeepsRegions vm r.2 ∧ r.1 = .errGeneral := by
      unfold stopped? at hr
      split_ifs at hr
      all_goals
        cases hr
        exact ⟨⟨rfl, rfl, rfl⟩, rfl⟩
    exact ⟨hkeep.1, .inl ⟨hkeep.2, hr⟩⟩
  · have hopcode : i.opcode = opcode := by
      have hsame := (sandboxPeek_of_nextInsn hnext).symm.trans hpeek
      cases hsame
      rfl
    have hstop : vm.stopped? = none := by
      unfold nextInsn at hnext
      cases hstop : vm.stopped? with
      | none => rfl
      | some r =>
        rw [hstop] at hnext
        cases hnext
    obtain ⟨trace, traceIdx, heq⟩ := hvm₁.eq
    subst heq
    unfold execute
    unfold isA2aOpcode at ha2a
    rw [hopcode]
    generalize opcodeOf opcode = op at ha2a ⊢
    cases op with
    | agent op =>
      cases op
      case DELEGATE | TELL | ASK | REPLY | BARRIER | YIELD_AGENT =>
        exact ⟨⟨rfl, rfl, rfl⟩, .inr ⟨rfl, hstop, rfl⟩⟩
      all_goals cases ha2a
    | _ => cases ha2a

/-- The VM is in a state in which `sandbox_step` steps it. -/
def Runnable (vm : FluxVm) : Prop := vm.state = .idle ∨ vm.state = .running

instance : Decidable vm.Runnable := inferInstanceAs (Decidable (_ ∨ _))

end FluxVm

/-- A limit or a capability check was violated. -/
def SandboxEvent.Violates : SandboxEvent → Prop
  | .violation .. => True
  | .vmStep .. => False

instance : DecidablePred SandboxEvent.Violates
  | .violation .. => .isTrue trivial
  | .vmStep .. => .isFalse id

namespace AgentSlot

variable {slot slot' : AgentSlot} {host : Host} {now : UInt64} {r : Except Fault FluxStatus × AgentSlot}

/-! ## The resource checks -/

/-- The CPU limit is reached. -/
def CpuExceeded (slot : AgentSlot) : Prop :=
  slot.desc.limits.maxCpuTicks ≠ 0 ∧ slot.desc.limits.maxCpuTicks ≤ slot.desc.limits.usedCpuTicks

/-- The memory that the VM has is measured. -/
def Measures (slot : AgentSlot) : Prop := slot.desc.limits.maxMemory ≠ 0 ∧ slot.vmInitialized = true

instance : Decidable slot.CpuExceeded := inferInstanceAs (Decidable (_ ∧ _))

instance : Decidable slot.Measures := inferInstanceAs (Decidable (_ ∧ _))

/-- The active regions are larger than the memory limit. -/
def MemoryExceeded (slot : AgentSlot) : Prop :=
  slot.Measures ∧ slot.desc.limits.maxMemory < slot.activeRegionSize

instance : Decidable slot.MemoryExceeded := inferInstanceAs (Decidable (_ ∧ _))

/-- The slot after the memory check. -/
def measured (slot : AgentSlot) : AgentSlot :=
  if slot.Measures then slot.modifyLimits fun l => { l with usedMemory := slot.activeRegionSize } else slot

variable (slot) in
theorem sandboxCheckCpu_eq : slot.sandboxCheckCpu =
    if slot.CpuExceeded then (true, slot.withState .failed) else (false, slot) := by
  unfold sandboxCheckCpu CpuExceeded
  by_cases hmax : slot.desc.limits.maxCpuTicks = 0
  · simp [hmax]
  · simp [hmax]

variable (slot) in
theorem sandboxCheckMemory_eq : slot.sandboxCheckMemory =
    if slot.MemoryExceeded then (true, slot.measured.withState .failed) else (false, slot.measured) := by
  unfold sandboxCheckMemory MemoryExceeded measured Measures
  by_cases hmax : slot.desc.limits.maxMemory = 0
  · simp [hmax]
  · by_cases hvm : slot.vmInitialized = true
    · simp [hmax, hvm, modifyLimits]
    · simp [hmax, hvm]

/-- The checks in front of a step. -/
theorem withinLimits_eq (slot : AgentSlot) (next : AgentSlot → Except Fault FluxStatus × AgentSlot) :
    slot.withinLimits next =
      if slot.CpuExceeded then (.ok .errInvalid, slot.sandboxHandleViolation sandboxViolationCpuLimit)
      else if slot.MemoryExceeded then
        (.ok .errInvalid, slot.measured.sandboxHandleViolation sandboxViolationMemoryLimit)
      else next slot.measured := by
  rw [withinLimits, sandboxCheckCpu_eq]
  split_ifs with hcpu hmem
  · rfl
  · simp only [sandboxCheckMemory_eq, if_pos hmem]
    rfl
  · simp only [sandboxCheckMemory_eq, if_neg hmem]

theorem measured_of_not (h : ¬ slot.Measures) : slot.measured = slot := if_neg h

/-- A second check finds what the first one found. -/
theorem measured_measured : slot.measured.measured = slot.measured := by
  by_cases h : slot.Measures
  · have heq : slot.measured = slot.modifyLimits fun l => { l with usedMemory := slot.activeRegionSize } :=
      if_pos h
    have hmeasures : (slot.modifyLimits fun l => { l with usedMemory := slot.activeRegionSize }).Measures := h
    rw [heq, measured, if_pos hmeasures]
    rfl
  · rw [measured_of_not h, measured_of_not h]

/-- What is not the memory that is used is not changed by the memory check. -/
theorem measured_keeps {β : Type} (g : AgentSlot → β)
    (h : ∀ slot usedMemory, g (slot.modifyLimits fun l => { l with usedMemory }) = g slot) (slot : AgentSlot) :
    g slot.measured = g slot := by
  unfold measured
  split_ifs
  · exact h _ _
  · rfl

theorem cpuExceeded_measured : slot.measured.CpuExceeded ↔ slot.CpuExceeded :=
  iff_of_eq (measured_keeps CpuExceeded (fun _ _ => rfl) slot)

theorem memoryExceeded_measured : slot.measured.MemoryExceeded ↔ slot.MemoryExceeded :=
  iff_of_eq (measured_keeps MemoryExceeded (fun _ _ => rfl) slot)

/-! ## A round -/

/-- The violation that `sandbox_step` finds before an I/O instruction. -/
def ioViolation (slot : AgentSlot) : Option UInt8 :=
  if slot.desc.capabilities &&& fluxCapIoRead = 0 ∧ slot.desc.capabilities &&& fluxCapIoWrite = 0 then
    some sandboxViolationCapability
  else if slot.sandboxCheckIo then some sandboxViolationIoLimit
  else none

/-- What `sandbox_step` does after the resource checks. -/
inductive Checked (host : Host) (now : UInt64) (slot : AgentSlot) : Except Fault FluxStatus × AgentSlot → Prop
  | halted : slot.vm.state = .halted → Checked host now slot (.ok .errGeneral, slot.withState .terminated)
  | refused : ¬ slot.vm.Runnable → slot.vm.state ≠ .halted → Checked host now slot (.ok .errInvalid, slot)
  | denied (opcode violation : UInt8) : slot.vm.Runnable → slot.vm.sandboxPeek = .ok (some opcode) →
      isIoOpcode opcode = true → slot.ioViolation = some violation →
      Checked host now slot (.ok .errDenied, slot.sandboxHandleViolation violation)
  | io (opcode : UInt8) : slot.vm.Runnable → slot.vm.sandboxPeek = .ok (some opcode) →
      isIoOpcode opcode = true → slot.ioViolation = none →
      Checked host now slot (slot.sandboxAccountIo.stepPlain host now)
  | a2a (opcode : UInt8) : slot.vm.Runnable → slot.vm.sandboxPeek = .ok (some opcode) →
      isA2aOpcode opcode = true → Checked host now slot (slot.stepA2a host)
  | plain : slot.vm.Runnable → (∀ opcode, slot.vm.sandboxPeek = .ok (some opcode) →
      isIoOpcode opcode = false ∧ isA2aOpcode opcode = false) →
      Checked host now slot (slot.stepPlain host now)

/-- No opcode is both an I/O opcode and an A2A opcode. -/
theorem isA2aOpcode_of_isIoOpcode {opcode : UInt8} (h : isIoOpcode opcode = true) :
    isA2aOpcode opcode = false := by
  unfold isIoOpcode at h
  unfold isA2aOpcode
  generalize opcodeOf opcode = op at h ⊢
  cases op with
  | io => rfl
  | _ => cases h

theorem checkIoOpcode_eq {opcode : UInt8} (h : isIoOpcode opcode = true) : slot.checkIoOpcode opcode =
    (slot.ioViolation, if slot.ioViolation = none then slot.sandboxAccountIo else slot) := by
  unfold checkIoOpcode ioViolation
  rw [if_pos h]
  split_ifs <;> simp_all

variable (slot host now) in
theorem stepChecked_checked : Checked host now slot (slot.stepChecked host now) := by
  unfold stepChecked
  split_ifs with hrun hhalt
  · exact .halted hhalt
  · refine .refused ?_ hhalt
    rintro (h | h)
    · exact hrun.1 h
    · exact hrun.2 h
  have hrunnable : slot.vm.Runnable := by
    by_contra hnot
    exact hrun ⟨fun h => hnot (.inl h), fun h => hnot (.inr h)⟩
  cases hpeek : slot.vm.sandboxPeek with
  | error fault =>
    obtain ⟨op, hop⟩ : Faulting.Defined slot.vm.sandboxPeek := FluxVm.sandboxPeek_defined
    rw [hpeek] at hop
    cases hop
  | ok peek =>
    cases peek with
    | none => exact .plain hrunnable fun opcode h => by rw [hpeek] at h; cases h
    | some opcode =>
      simp only
      by_cases hio : isIoOpcode opcode = true
      · rw [checkIoOpcode_eq hio]
        cases hviolation : slot.ioViolation with
        | some violation => exact .denied opcode violation hrunnable hpeek hio hviolation
        | none =>
          simp only [isA2aOpcode_of_isIoOpcode hio]
          exact .io opcode hrunnable hpeek hio hviolation
      · have hcheck : slot.checkIoOpcode opcode = (none, slot) := if_neg hio
        rw [hcheck]
        simp only
        split_ifs with ha2a
        · exact .a2a opcode hrunnable hpeek ha2a
        · refine .plain hrunnable fun opcode' h => ?_
          rw [hpeek] at h
          cases h
          simpa using And.intro hio ha2a

/-! ## Violations -/

theorem state_sandboxHandleViolation {violation : UInt8} :
    (slot.sandboxHandleViolation violation).desc.state = .failed := by
  unfold sandboxHandleViolation
  simp only
  split_ifs <;> rfl

theorem log_sandboxHandleViolation {violation : UInt8} : (slot.sandboxHandleViolation violation).log =
    slot.log ++ [.violation slot.vm slot.desc.capabilities violation] := by
  unfold sandboxHandleViolation
  simp only
  split_ifs <;> rfl

/-! ## The VM step of a round -/

/-- What the sandbox logs when it steps the VM. -/
def vmStepEvent (slot : AgentSlot) (host : Host) : SandboxEvent :=
  .vmStep slot.vm slot.desc.capabilities (slot.vm.fluxVmStep host)

/-- The state of an agent after a VM step that is not an A2A operation. -/
def plainState : FluxStatus → AgentState
  | .ok => .thinking
  | .errGeneral => .terminated
  | _ => .failed

/-- The VM step was logged and left `vm`; the sandbox may have changed the VM state after it. -/
structure VmStepped (host : Host) (slot : AgentSlot) (vm : FluxVm) (slot' : AgentSlot) : Prop where
  log : slot'.log = slot.log ++ [slot.vmStepEvent host]
  vm : ∃ state, slot'.vm = { vm with state }
  vmInitialized : slot'.vmInitialized = slot.vmInitialized
  maxMemory : slot'.desc.limits.maxMemory = slot.desc.limits.maxMemory

theorem stepPlain_of_fault {fault : Fault} (h : slot.vm.fluxVmStep host = .error fault) :
    (slot.stepPlain host now).1 = .error fault := by
  unfold stepPlain stepVm
  rw [h]

theorem stepA2a_of_fault {fault : Fault} (h : slot.vm.fluxVmStep host = .error fault) :
    (slot.stepA2a host).1 = .error fault := by
  unfold stepA2a stepVm
  rw [h]

theorem log_stepPlain : (slot.stepPlain host now).2.log = slot.log ++ [slot.vmStepEvent host] := by
  unfold stepPlain stepVm vmStepEvent
  cases slot.vm.fluxVmStep host with
  | error fault => rfl
  | ok p =>
    obtain ⟨status, vm⟩ := p
    cases status <;> rfl

theorem log_stepA2a : (slot.stepA2a host).2.log = slot.log ++ [slot.vmStepEvent host] := by
  unfold stepA2a stepVm vmStepEvent
  cases slot.vm.fluxVmStep host with
  | error fault => rfl
  | ok p =>
    obtain ⟨status, vm⟩ := p
    cases status <;> rfl

theorem stepPlain_of_ok {status : FluxStatus} {vm : FluxVm} (now : UInt64)
    (h : slot.vm.fluxVmStep host = .ok (status, vm)) :
    (slot.stepPlain host now).1 = .ok (if status = .ok then .ok else .errGeneral) ∧
      (slot.stepPlain host now).2.desc.state = plainState status ∧
      VmStepped host slot vm (slot.stepPlain host now).2 := by
  have hevent : slot.vmStepEvent host = .vmStep slot.vm slot.desc.capabilities (.ok (status, vm)) := by
    rw [vmStepEvent, h]
  unfold stepPlain stepVm
  rw [h]
  cases status <;> exact ⟨rfl, rfl, by rw [hevent]; rfl, ⟨_, rfl⟩, rfl, rfl⟩

theorem stepA2a_of_ok {status : FluxStatus} {vm : FluxVm} (h : slot.vm.fluxVmStep host = .ok (status, vm)) :
    (slot.stepA2a host).1 = .ok (if status = .ok then .errBusy else status) ∧
      (slot.stepA2a host).2.desc.state = (if status = .ok then .waiting else slot.desc.state) ∧
      VmStepped host slot vm (slot.stepA2a host).2 := by
  have hevent : slot.vmStepEvent host = .vmStep slot.vm slot.desc.capabilities (.ok (status, vm)) := by
    rw [vmStepEvent, h]
  unfold stepA2a stepVm
  rw [h]
  cases status <;> exact ⟨rfl, rfl, by rw [hevent]; rfl, ⟨_, rfl⟩, rfl, rfl⟩

/-- What one call of `sandbox_step` does, or one round of the loop of `flux_agent_run`, which checks the limits
twice. -/
inductive Rounds (host : Host) (now : UInt64) (slot : AgentSlot) : Except Fault FluxStatus × AgentSlot → Prop
  | cpu : slot.CpuExceeded →
      Rounds host now slot (.ok .errInvalid, slot.sandboxHandleViolation sandboxViolationCpuLimit)
  | memory : slot.MemoryExceeded →
      Rounds host now slot (.ok .errInvalid, slot.measured.sandboxHandleViolation sandboxViolationMemoryLimit)
  | noVm : slot.vmInitialized = false → Rounds host now slot (.ok .errInvalid, slot)
  | checked (r : Except Fault FluxStatus × AgentSlot) : slot.vmInitialized = true → ¬ slot.CpuExceeded →
      ¬ slot.MemoryExceeded → Checked host now slot.measured r → Rounds host now slot r

theorem sandboxStep_of_vm (hvm : slot.vmInitialized = true) :
    slot.sandboxStep host now = slot.withinLimits fun slot => slot.stepChecked host now := by
  unfold sandboxStep
  rw [hvm]
  rfl

/-- The second check of a round changes nothing. -/
theorem round_eq_sandboxStep (hvm : slot.vmInitialized = true) :
    (slot.withinLimits fun slot => slot.sandboxStep host now) = slot.sandboxStep host now := by
  have hvm' : slot.measured.vmInitialized = true := by rw [measured_keeps vmInitialized fun _ _ => rfl, hvm]
  rw [sandboxStep_of_vm hvm, withinLimits_eq, withinLimits_eq]
  split_ifs with hcpu hmem
  · rfl
  · rfl
  · rw [sandboxStep_of_vm hvm', withinLimits_eq, if_neg (mt cpuExceeded_measured.1 hcpu),
      if_neg (mt memoryExceeded_measured.1 hmem), measured_measured]

variable (slot host now) in
theorem sandboxStep_rounds : Rounds host now slot (slot.sandboxStep host now) := by
  by_cases hvm : slot.vmInitialized = true
  · rw [sandboxStep_of_vm hvm, withinLimits_eq]
    split_ifs with hcpu hmem
    · exact .cpu hcpu
    · exact .memory hmem
    · exact .checked _ hvm hcpu hmem (stepChecked_checked ..)
  · have hno : slot.vmInitialized = false := by simpa using hvm
    unfold sandboxStep
    rw [hno]
    exact .noVm hno

variable (slot host now) in
theorem round_rounds : Rounds host now slot (slot.withinLimits fun slot => slot.sandboxStep host now) := by
  by_cases hvm : slot.vmInitialized = true
  · rw [round_eq_sandboxStep hvm]
    exact sandboxStep_rounds ..
  · have hno : slot.vmInitialized = false := by simpa using hvm
    have hmeasured : slot.measured = slot := measured_of_not fun h => hvm h.2
    rw [withinLimits_eq, hmeasured]
    split_ifs with hcpu hmem
    · exact .cpu hcpu
    · exact absurd hmem.1.2 hvm
    · unfold sandboxStep
      rw [hno]
      exact .noVm hno

theorem rounds_of_eq (h : (slot.withinLimits fun slot => slot.sandboxStep host now) = r) :
    Rounds host now slot r :=
  h ▸ round_rounds slot host now

theorem stepA2a_ne_ok : (slot.stepA2a host).1 ≠ .ok .ok := by
  cases hstep : slot.vm.fluxVmStep host with
  | error fault => simp [stepA2a_of_fault hstep]
  | ok p =>
    obtain ⟨status, vm⟩ := p
    rw [(stepA2a_of_ok hstep).1]
    split_ifs with hok
    · simp
    · simpa using hok

/-! ## Rounds of a run -/

/-- The slot in which round `n + 1` of a run without a budget begins, unless the run has ended before. -/
def afterRounds (host : Host) (now : UInt64) : Nat → AgentSlot → Option AgentSlot
  | 0, slot => some slot
  | n + 1, slot =>
    match slot.withinLimits fun slot => slot.sandboxStep host now with
    | (.ok .ok, slot) => afterRounds host now n slot
    | _ => none

theorem afterRounds_succ (n : Nat)
    (h : (slot.withinLimits fun slot => slot.sandboxStep host now) = (.ok .ok, slot')) :
    afterRounds host now (n + 1) slot = afterRounds host now n slot' := by
  rw [afterRounds, h]

/-- One more round that goes on. -/
theorem afterRounds_snoc {n : Nat} {last : AgentSlot} (h : afterRounds host now n slot = some last)
    (hround : (last.withinLimits fun slot => slot.sandboxStep host now) = (.ok .ok, slot')) :
    afterRounds host now (n + 1) slot = some slot' := by
  induction n generalizing slot with
  | zero =>
    cases h
    exact afterRounds_succ 0 hround
  | succ n ih =>
    rw [afterRounds] at h
    split at h
    · rename_i next heq
      rw [afterRounds_succ (n + 1) heq]
      exact ih h
    · cases h

/-! ## A run -/

theorem state_startRun : (slot.startRun now).desc.state = .thinking := by
  unfold startRun
  simp only
  split_ifs <;> rfl

theorem log_startRun : (slot.startRun now).log = slot.log := by
  unfold startRun
  simp only
  split_ifs <;> rfl

section Loop

variable {maxTicks : UInt32} {tickLimit startTicks : UInt64} {fuel steps : Nat}

/-- The loop ends with a round that does not go on. -/
theorem runLoop_of_ends
    (hbudget : ¬ (tickLimit > 0 ∧ slot.desc.limits.usedCpuTicks - startTicks ≥ tickLimit))
    (hround : (slot.withinLimits fun slot => slot.sandboxStep host now) = r) (hr : r.1 ≠ .ok .ok) :
    runLoop host now maxTicks tickLimit startTicks (fuel + 1) steps slot = some r := by
  rw [runLoop, if_neg hbudget, hround]
  obtain ⟨result, slot'⟩ := r
  cases result with
  | error => rfl
  | ok status =>
    cases status
    case ok => exact absurd rfl hr
    all_goals rfl

/-- The loop goes on after a round, unless it was the last one that it may take. -/
theorem runLoop_of_continues
    (hbudget : ¬ (tickLimit > 0 ∧ slot.desc.limits.usedCpuTicks - startTicks ≥ tickLimit))
    (hround : (slot.withinLimits fun slot => slot.sandboxStep host now) = (.ok .ok, slot')) :
    runLoop host now maxTicks tickLimit startTicks (fuel + 1) steps slot =
      if steps + 1 ≥ maxRunSteps ∧ maxTicks = 0 then some (.ok .errBusy, slot'.withState .idle)
      else runLoop host now maxTicks tickLimit startTicks fuel (steps + 1) slot' := by
  rw [runLoop, if_neg hbudget, hround]

end Loop

/-- The rule for the loop: `I` holds before each round, and `Q` when the loop ends. -/
theorem runLoop_rule {I : AgentSlot → Prop} {Q : Except Fault FluxStatus × AgentSlot → Prop}
    (hidle : ∀ slot, I slot → Q (.ok .errBusy, slot.withState .idle))
    (hround : ∀ slot r, I slot → (slot.withinLimits fun slot => slot.sandboxStep host now) = r →
      (r.1 = .ok .ok → I r.2) ∧ (r.1 ≠ .ok .ok → Q r))
    {maxTicks : UInt32} {tickLimit startTicks : UInt64} {fuel steps : Nat} (hslot : I slot)
    (h : runLoop host now maxTicks tickLimit startTicks fuel steps slot = some r) : Q r ∧ r.1 ≠ .ok .ok := by
  induction fuel generalizing slot steps with
  | zero => cases h
  | succ fuel ih =>
    by_cases hbudget : tickLimit > 0 ∧ slot.desc.limits.usedCpuTicks - startTicks ≥ tickLimit
    · rw [runLoop, if_pos hbudget] at h
      cases h
      exact ⟨hidle slot hslot, by simp⟩
    obtain ⟨hgoes, hends⟩ := hround slot _ hslot rfl
    generalize heq : (slot.withinLimits fun slot => slot.sandboxStep host now) = r' at hgoes hends
    by_cases hok : r'.1 = .ok .ok
    · obtain ⟨result, slot'⟩ := r'
      have hslot' : I slot' := hgoes hok
      subst hok
      rw [runLoop_of_continues hbudget heq] at h
      split_ifs at h
      · cases h
        exact ⟨hidle slot' hslot', by simp⟩
      · exact ih hslot' h
    · rw [runLoop_of_ends hbudget heq hok] at h
      cases h
      exact ⟨hends hok, hok⟩

/-- The rule for `flux_agent_run`, which halts the VM when the agent was terminated. -/
theorem run_rule {I : AgentSlot → Prop} {Q : Except Fault FluxStatus × AgentSlot → Prop}
    (hidle : ∀ slot, I slot → Q (.ok .errBusy, slot.withState .idle))
    (hround : ∀ slot r, I slot → (slot.withinLimits fun slot => slot.sandboxStep host now) = r →
      (r.1 = .ok .ok → I r.2) ∧ (r.1 ≠ .ok .ok → Q r))
    {maxTicks : UInt32} (hslot : I (slot.startRun now)) (h : slot.run host now maxTicks = some r) :
    ∃ r', Q r' ∧ r'.1 ≠ .ok .ok ∧ r = finishRun r' := by
  obtain ⟨r', hloop, rfl⟩ := Option.map_eq_some_iff.1 h
  obtain ⟨hQ, hresult⟩ := runLoop_rule hidle hround hslot hloop
  exact ⟨r', hQ, hresult, rfl⟩

theorem finishRun_eq (hresult : r.1 ≠ .ok .ok) : (finishRun r).1 = r.1 ∧
    ((finishRun r).2 = r.2 ∨ r.2.desc.state = .terminated ∧ (finishRun r).2 = r.2.withVmState .halted) := by
  obtain ⟨result, slot⟩ := r
  cases result with
  | error fault => exact ⟨rfl, .inl rfl⟩
  | ok status =>
    have hne : status ≠ .ok := fun h => hresult (by rw [h])
    rw [finishRun]
    split_ifs with h
    · exact ⟨rfl, .inr ⟨h.1.resolve_left hne, rfl⟩⟩
    · exact ⟨rfl, .inl rfl⟩

/-! ## A step -/

/-- What `flux_agent_step` does before `sandbox_step`. -/
def startStep (slot : AgentSlot) (now : UInt64) : AgentSlot :=
  let slot := if slot.vm.state = .idle then slot.withVmState .running else slot
  { slot with desc := { slot.desc with lastActive := now } }

theorem log_startStep : (slot.startStep now).log = slot.log := by
  unfold startStep
  dsimp only
  split_ifs <;> rfl

/-! ## The first round of a run -/

/-- The first round of a run. -/
def firstRound (slot : AgentSlot) (host : Host) (now : UInt64) : Except Fault FluxStatus × AgentSlot :=
  (slot.startRun now).withinLimits fun slot => slot.sandboxStep host now

theorem usedCpuTicks_startRun : (slot.startRun now).desc.limits.usedCpuTicks = slot.desc.limits.usedCpuTicks := by
  unfold startRun
  simp only
  split_ifs <;> rfl

/-- The budget is counted from the ticks that are used at the start, so that it is not spent yet. -/
theorem not_budget_spent_startRun (tickLimit : UInt64) : ¬ (tickLimit > 0 ∧
    (slot.startRun now).desc.limits.usedCpuTicks - slot.desc.limits.usedCpuTicks ≥ tickLimit) := by
  rw [usedCpuTicks_startRun, UInt64.sub_self]
  rintro ⟨hpos, hspent⟩
  exact absurd hpos (UInt64.not_lt.2 hspent)

/-- A run is over if its first round does not go on. -/
theorem run_of_ends (maxTicks : UInt32) (h : (slot.firstRound host now).1 ≠ .ok .ok) :
    slot.run host now maxTicks = some (finishRun (slot.firstRound host now)) := by
  obtain ⟨fuel, hfuel⟩ : ∃ fuel, runFuel maxTicks = fuel + 1 := by
    unfold runFuel
    split_ifs <;> exact ⟨_, rfl⟩
  rw [run, hfuel, runLoop_of_ends (not_budget_spent_startRun _) rfl h]
  rfl

/-- A run goes on after its first round. -/
theorem run_of_continues (maxTicks : UInt32) (h : slot.firstRound host now = (.ok .ok, slot')) :
    ∃ fuel, runFuel maxTicks = fuel + 1 ∧ slot.run host now maxTicks =
      (if 0 + 1 ≥ maxRunSteps ∧ maxTicks = 0 then some (.ok .errBusy, slot'.withState .idle)
      else runLoop host now maxTicks (if maxTicks > 0 then maxTicks.toUInt64 else slot.desc.limits.maxCpuTicks)
        slot.desc.limits.usedCpuTicks fuel (0 + 1) slot').map finishRun := by
  obtain ⟨fuel, hfuel⟩ : ∃ fuel, runFuel maxTicks = fuel + 1 := by
    unfold runFuel
    split_ifs <;> exact ⟨_, rfl⟩
  refine ⟨fuel, hfuel, ?_⟩
  rw [run, hfuel, runLoop_of_continues (not_budget_spent_startRun _) h]

end AgentSlot

namespace AgentRuntime

variable {rt : AgentRuntime} {id maxTicks : UInt32} {host : Host}

/-- A run is refused, or it changes the slot of its agent. -/
theorem fluxAgentRun_cases {r : Except Fault FluxStatus × AgentRuntime}
    (h : rt.fluxAgentRun host id maxTicks = some r) :
    (∃ status, status ≠ .ok ∧ r = (.ok status, rt)) ∨
    ∃ i r', rt.agentSlotById id = some i ∧ ¬ (rt.agents i).MayNotRun ∧
      (rt.agents i).run host rt.agentNow maxTicks = some r' ∧ r = (r'.1, rt.modifySlot i fun _ => r'.2) := by
  unfold fluxAgentRun at h
  split at h
  · exact .inl ⟨.errInvalid, by simp, (Option.some.inj h).symm⟩
  cases hi : rt.agentSlotById id with
  | none =>
    rw [hi] at h
    exact .inl ⟨.errNotfound, by simp, (Option.some.inj h).symm⟩
  | some i =>
    rw [hi] at h
    simp only at h
    split_ifs at h with hmay
    · exact .inl ⟨.errInvalid, by simp, (Option.some.inj h).symm⟩
    · obtain ⟨r', hrun, heq⟩ := Option.map_eq_some_iff.1 h
      exact .inr ⟨i, r', rfl, hmay, hrun, heq.symm⟩

/-- A step is refused, or it changes the slot of its agent. -/
theorem fluxAgentStep_cases (rt : AgentRuntime) (host : Host) (id : UInt32) :
    (∃ status, status ≠ .ok ∧ rt.fluxAgentStep host id = (.ok status, rt)) ∨
    ∃ i, rt.agentSlotById id = some i ∧ ¬ (rt.agents i).MayNotRun ∧ (rt.agents i).vmInitialized = true ∧
      rt.fluxAgentStep host id = (((rt.agents i).step host rt.agentNow).1,
        rt.modifySlot i fun _ => ((rt.agents i).step host rt.agentNow).2) := by
  unfold fluxAgentStep
  split
  · exact .inl ⟨.errInvalid, by simp, rfl⟩
  cases hi : rt.agentSlotById id with
  | none => exact .inl ⟨.errNotfound, by simp, rfl⟩
  | some i =>
    simp only
    split_ifs with hmay hvm
    · exact .inl ⟨.errInvalid, by simp, rfl⟩
    · exact .inl ⟨.errInvalid, by simp, rfl⟩
    · refine .inr ⟨i, rfl, hmay, ?_, rfl⟩
      simpa using (not_or.1 hvm).1

end AgentRuntime

/-! ## Calls that go through the sandbox -/

/-- The action executes an agent, or is the clock. -/
def AgentAction.Executes : AgentAction → Prop
  | .run .. | .step .. | .tick => True
  | _ => False

/-- The host on which a call executes an agent. -/
def AgentAction.host? : AgentAction → Option Host
  | .run host _ _ | .step host _ => some host
  | _ => none

/-- A run or a step of an agent. -/
inductive AgentSlot.Call (host : Host) (now : UInt64) (slot : AgentSlot) :
    Except Fault FluxStatus × AgentSlot → Prop
  | run (maxTicks : UInt32) (r : Except Fault FluxStatus × AgentSlot) :
      slot.run host now maxTicks = some r → Call host now slot r
  | step : slot.vmInitialized = true → Call host now slot (slot.step host now)

namespace AgentSystem

variable {s t : AgentSystem} {a : AgentAction} {rt : AgentRuntime}

/-- The runtime after a call that goes through the sandbox, also if the VM faults in it. -/
def sandboxed (s : AgentSystem) : AgentAction → Option AgentRuntime
  | .run host id maxTicks => (s.rt.fluxAgentRun host id maxTicks).map Prod.snd
  | .step host id => some (s.rt.fluxAgentStep host id).2
  | _ => none

/-- What a call has added to the log of an agent. -/
def newEvents (s : AgentSystem) (rt : AgentRuntime) (i : AgentIdx) : List SandboxEvent :=
  (rt.agents i).log.drop (s.rt.agents i).log.length

/-- A call of `flux_agent_run` leaves an agent alone, or it is a run of it. -/
theorem sandboxed_run {host : Host} {id maxTicks : UInt32} (h : s.sandboxed (.run host id maxTicks) = some rt)
    (i : AgentIdx) : rt.agents i = s.rt.agents i ∨
      ∃ r, (s.rt.agents i).run host s.rt.agentNow maxTicks = some r ∧ (s.rt.agents i).active = true ∧
        ¬ (s.rt.agents i).MayNotRun ∧ rt.agents i = r.2 ∧
          ∀ t, step (.run host id maxTicks) s = some t → ∃ status, r.1 = .ok status := by
  obtain ⟨r, hr, hrt⟩ := Option.map_eq_some_iff.1 h
  obtain ⟨status, -, rfl⟩ | ⟨j, r', hj, hmay, hrun, rfl⟩ := fluxAgentRun_cases hr
  · exact .inl (congrFun (congrArg agents hrt.symm) i)
  · subst hrt
    dsimp only
    by_cases hij : i = j
    · subst hij
      refine .inr ⟨r', hrun, (agentSlotById_eq_some.1 hj).2, hmay, modifySlot_self, fun t ht => ?_⟩
      rw [step, hr] at ht
      obtain ⟨result, slot⟩ := r'
      cases result with
      | error => cases ht
      | ok status => exact ⟨status, rfl⟩
    · exact .inl (modifySlot_of_ne hij)

/-- A call of `flux_agent_step` leaves an agent alone, or it is a step of it. -/
theorem sandboxed_step {host : Host} {id : UInt32} (h : s.sandboxed (.step host id) = some rt)
    (i : AgentIdx) : rt.agents i = s.rt.agents i ∨
      (s.rt.agents i).vmInitialized = true ∧ (s.rt.agents i).active = true ∧ ¬ (s.rt.agents i).MayNotRun ∧
        rt.agents i = ((s.rt.agents i).step host s.rt.agentNow).2 ∧
          ∀ t, step (.step host id) s = some t →
            ∃ status, ((s.rt.agents i).step host s.rt.agentNow).1 = .ok status := by
  obtain ⟨status, -, heq⟩ | ⟨j, hj, hmay, hvm, heq⟩ := fluxAgentStep_cases s.rt host id
  · rw [sandboxed, heq] at h
    cases h
    exact .inl rfl
  · rw [sandboxed, heq] at h
    cases h
    dsimp only
    by_cases hij : i = j
    · subst hij
      refine .inr ⟨hvm, (agentSlotById_eq_some.1 hj).2, hmay, modifySlot_self, fun t ht => ?_⟩
      rw [step, heq] at ht
      cases hresult : ((s.rt.agents i).step host s.rt.agentNow).1 with
      | error =>
        rw [hresult] at ht
        cases ht
      | ok status => exact ⟨status, rfl⟩
    · exact .inl (modifySlot_of_ne hij)

/-- A call of `flux_agent_run` or `flux_agent_step` leaves an agent alone, or it is a run or a step of it. -/
theorem sandboxed_cases (h : s.sandboxed a = some rt) (i : AgentIdx) :
    rt.agents i = s.rt.agents i ∨
      ∃ host r, a.host? = some host ∧ (s.rt.agents i).active = true ∧ ¬ (s.rt.agents i).MayNotRun ∧
        (s.rt.agents i).Call host s.rt.agentNow r ∧ rt.agents i = r.2 ∧
          ∀ t, step a s = some t → ∃ status, r.1 = .ok status := by
  cases a with
  | run host id maxTicks =>
    refine (sandboxed_run h i).imp_right ?_
    rintro ⟨r, hrun, hactive, hmay, heq, hreturns⟩
    exact ⟨host, r, rfl, hactive, hmay, .run maxTicks r hrun, heq, hreturns⟩
  | step host id =>
    refine (sandboxed_step h i).imp_right ?_
    rintro ⟨hvm, hactive, hmay, heq, hreturns⟩
    exact ⟨host, _, rfl, hactive, hmay, .step hvm, heq, hreturns⟩
  | _ => cases h

/-- A call that returns leaves the runtime that it left. -/
theorem sandboxed_of_step {host : Host} (hhost : a.host? = some host) (h : step a s = some t) :
    s.sandboxed a = some t.rt := by
  cases a with
  | run host id maxTicks =>
    obtain ⟨r, hr, hafter⟩ := Option.bind_eq_some_iff.1 h
    obtain ⟨result, rt⟩ := r
    cases result with
    | error => cases hafter
    | ok status =>
      cases hafter
      rw [sandboxed, hr]
      rfl
  | step host id =>
    rw [step] at h
    rw [sandboxed]
    generalize s.rt.fluxAgentStep host id = r at h
    obtain ⟨result, rt⟩ := r
    cases result with
    | error => cases h
    | ok status =>
      cases h
      rfl
  | _ => cases hhost

end AgentSystem

/-! ## Programs of one instruction -/

/-- The first agent of `spawnedWith`. -/
def firstAgent : AgentIdx := ⟨1, by decide⟩

/-- A runtime with an agent whose program is one instruction. -/
def spawnedWith (opcode : UInt8) : AgentSystem :=
  ⟨((fluxAgentInit none).fluxAgentSpawn FluxVm.plentifulHost true none none 0
    (some fun k => [opcode, 0, 0, 0].getD k 0) 4).2, []⟩

/-- One run of the agent. -/
def oneRun : List AgentAction := [.run FluxVm.plentifulHost 5 10]

/-- The runtime after the run. -/
def ranWith (opcode : UInt8) : AgentSystem :=
  (Actions.execute AgentSystem.step oneRun (spawnedWith opcode)).getD (spawnedWith opcode)

end FluxOs
