import FluxOs.Agent.Effects
import FluxOs.Vm.Budget

/-!
# Execution of agents

What the sandbox changes of an agent and what it charges for a VM instruction.  An agent executes at most as
many instructions as it has ticks: in one run those of the call, over its lifetime those of its limit.
-/

namespace FluxOs

open AgentRuntime

/-! ## What execution leaves alone -/

namespace AgentSlot

/-- Execution changes the VM, the state and the limits of an agent, and nothing else that its view shows. -/
structure KeepsAgent (slot slot' : AgentSlot) : Prop where
  active : slot'.active = slot.active
  agentId : slot'.desc.agentId = slot.desc.agentId
  vmInitialized : slot'.vmInitialized = slot.vmInitialized
  capabilities : slot'.desc.capabilities = slot.desc.capabilities
  caps : slot'.desc.caps = slot.desc.caps
  inbox : slot'.inbox = slot.inbox
  delegations : slot'.delegations = slot.delegations

variable {slot slot' slot'' : AgentSlot} {host : Host} {now : UInt64}

theorem KeepsAgent.refl : KeepsAgent slot slot := ⟨rfl, rfl, rfl, rfl, rfl, rfl, rfl⟩

theorem KeepsAgent.trans (h : KeepsAgent slot slot') (h' : KeepsAgent slot' slot'') : KeepsAgent slot slot'' :=
  ⟨h'.1.trans h.1, h'.2.trans h.2, h'.3.trans h.3, h'.4.trans h.4, h'.5.trans h.5, h'.6.trans h.6,
   h'.7.trans h.7⟩

theorem keepsAgent_withState {state : AgentState} : KeepsAgent slot (slot.withState state) :=
  ⟨rfl, rfl, rfl, rfl, rfl, rfl, rfl⟩

theorem keepsAgent_withVmState {state : FluxVmState} : KeepsAgent slot (slot.withVmState state) :=
  ⟨rfl, rfl, rfl, rfl, rfl, rfl, rfl⟩

theorem keepsAgent_handleViolation {violation : UInt8} :
    KeepsAgent slot (slot.sandboxHandleViolation violation) := by
  unfold sandboxHandleViolation
  simp only
  split_ifs <;> exact ⟨rfl, rfl, rfl, rfl, rfl, rfl, rfl⟩

theorem keepsAgent_sandboxCheckCpu : KeepsAgent slot slot.sandboxCheckCpu.2 := by
  unfold sandboxCheckCpu
  simp only
  split_ifs <;> exact ⟨rfl, rfl, rfl, rfl, rfl, rfl, rfl⟩

theorem keepsAgent_sandboxCheckMemory : KeepsAgent slot slot.sandboxCheckMemory.2 := by
  unfold sandboxCheckMemory
  simp only
  split_ifs <;> exact ⟨rfl, rfl, rfl, rfl, rfl, rfl, rfl⟩

theorem keepsAgent_checkIoOpcode {opcode : UInt8} : KeepsAgent slot (slot.checkIoOpcode opcode).2 := by
  unfold checkIoOpcode
  split_ifs <;> exact ⟨rfl, rfl, rfl, rfl, rfl, rfl, rfl⟩

theorem keepsAgent_stepVm : KeepsAgent slot (slot.stepVm host).2 := by
  unfold stepVm
  simp only
  split <;> exact ⟨rfl, rfl, rfl, rfl, rfl, rfl, rfl⟩

theorem keepsAgent_stepA2a : KeepsAgent slot (slot.stepA2a host).2 := by
  have h : KeepsAgent slot (slot.stepVm host).2 := keepsAgent_stepVm
  unfold stepA2a
  generalize slot.stepVm host = r at h
  obtain ⟨result, slot'⟩ := r
  cases result with
  | error fault => exact h
  | ok status =>
    refine h.trans ?_
    simp only
    split_ifs <;> exact ⟨rfl, rfl, rfl, rfl, rfl, rfl, rfl⟩

theorem keepsAgent_stepPlain : KeepsAgent slot (slot.stepPlain host now).2 := by
  have h : KeepsAgent slot (slot.stepVm host).2 := keepsAgent_stepVm
  unfold stepPlain
  generalize slot.stepVm host = r at h
  obtain ⟨result, slot'⟩ := r
  cases result with
  | error fault => exact h
  | ok status =>
    refine h.trans ?_
    cases status <;> exact ⟨rfl, rfl, rfl, rfl, rfl, rfl, rfl⟩

theorem keepsAgent_stepChecked : KeepsAgent slot (slot.stepChecked host now).2 := by
  unfold stepChecked
  split_ifs
  · exact keepsAgent_withState
  · exact .refl
  split
  · exact .refl
  · exact keepsAgent_stepPlain
  rename_i opcode _
  have h : KeepsAgent slot (slot.checkIoOpcode opcode).2 := keepsAgent_checkIoOpcode
  generalize slot.checkIoOpcode opcode = r at h
  obtain ⟨violation, slot'⟩ := r
  cases violation with
  | some violation => exact h.trans keepsAgent_handleViolation
  | none =>
    simp only
    split_ifs
    · exact h.trans keepsAgent_stepA2a
    · exact h.trans keepsAgent_stepPlain

theorem keepsAgent_withinLimits {next : AgentSlot → Except Fault FluxStatus × AgentSlot}
    (hnext : ∀ slot, KeepsAgent slot (next slot).2) : KeepsAgent slot (slot.withinLimits next).2 := by
  have hcpu : KeepsAgent slot slot.sandboxCheckCpu.2 := keepsAgent_sandboxCheckCpu
  unfold withinLimits
  generalize slot.sandboxCheckCpu = r at hcpu
  obtain ⟨violated, slot'⟩ := r
  cases violated with
  | true => exact hcpu.trans keepsAgent_handleViolation
  | false =>
    have hmem : KeepsAgent slot' slot'.sandboxCheckMemory.2 := keepsAgent_sandboxCheckMemory
    simp only
    generalize slot'.sandboxCheckMemory = r at hmem
    obtain ⟨violated, slot''⟩ := r
    cases violated with
    | true => exact (hcpu.trans hmem).trans keepsAgent_handleViolation
    | false => exact (hcpu.trans hmem).trans (hnext slot'')

theorem keepsAgent_sandboxStep : KeepsAgent slot (slot.sandboxStep host now).2 := by
  unfold sandboxStep
  split_ifs
  · exact .refl
  · exact keepsAgent_withinLimits fun _ => keepsAgent_stepChecked

theorem keepsAgent_runLoop {maxTicks : UInt32} {tickLimit startTicks : UInt64} {fuel steps : Nat}
    {r : Except Fault FluxStatus × AgentSlot}
    (h : runLoop host now maxTicks tickLimit startTicks fuel steps slot = some r) : KeepsAgent slot r.2 := by
  induction fuel generalizing slot steps with
  | zero => cases h
  | succ fuel ih =>
    rw [runLoop] at h
    split at h
    · cases h
      exact keepsAgent_withState
    have hstep : KeepsAgent slot (slot.withinLimits fun slot => slot.sandboxStep host now).2 :=
      keepsAgent_withinLimits fun _ => keepsAgent_sandboxStep
    split at h
    · rename_i slot' heq
      rw [heq] at hstep
      split_ifs at h
      · cases h
        exact hstep.trans keepsAgent_withState
      · exact hstep.trans (ih h)
    · cases h
      exact hstep

theorem keepsAgent_run {maxTicks : UInt32} {r : Except Fault FluxStatus × AgentSlot}
    (h : slot.run host now maxTicks = some r) : KeepsAgent slot r.2 := by
  obtain ⟨r', hloop, rfl⟩ := Option.map_eq_some_iff.1 h
  have hstart : KeepsAgent slot (slot.startRun now) := by
    unfold startRun
    simp only
    split_ifs <;> exact ⟨rfl, rfl, rfl, rfl, rfl, rfl, rfl⟩
  refine (hstart.trans (keepsAgent_runLoop hloop)).trans ?_
  obtain ⟨result, slot'⟩ := r'
  cases result with
  | error fault => exact .refl
  | ok status =>
    simp only [finishRun]
    split_ifs
    · exact keepsAgent_withVmState
    · exact .refl

theorem keepsAgent_step : KeepsAgent slot (slot.step host now).2 := by
  unfold step
  refine KeepsAgent.trans ?_ keepsAgent_sandboxStep
  split_ifs <;> exact ⟨rfl, rfl, rfl, rfl, rfl, rfl, rfl⟩

end AgentSlot

namespace AgentRuntime

variable {rt : AgentRuntime} {id : UInt32} {host : Host}

/-- An agent is executed, or nothing happens. -/
inductive Executed (rt : AgentRuntime) (id : UInt32) (slot : AgentIdx → AgentSlot → Prop) : AgentView → Prop
  | refused : Executed rt id slot rt.view
  | executed (i : AgentIdx) (slot' : AgentSlot) : rt.agentSlotById id = some i → slot i slot' →
      (rt.agents i).KeepsAgent slot' →
      Executed rt id slot
        (rt.view.withUsage i slot'.desc.limits slot'.vm.lastOpCycles slot'.executed)

theorem view_execute {i : AgentIdx} {slot' : AgentSlot} (h : (rt.agents i).KeepsAgent slot') :
    (rt.modifySlot i fun _ => slot').view =
      rt.view.withUsage i slot'.desc.limits slot'.vm.lastOpCycles slot'.executed := by
  rw [view_modifySlot_at, AgentView.withUsage, AgentView.modify, AgentView.modify]
  have : slot'.view = { (rt.agents i).view with
      limits := slot'.desc.limits
      lastOpCycles := slot'.vm.lastOpCycles
      executed := slot'.executed } := by
    simp only [AgentSlot.view, h.active, h.agentId, h.vmInitialized, h.capabilities, h.caps, h.inbox, h.delegations]
  rw [this]
  rfl

theorem fluxAgentRun_executed {maxTicks : UInt32} {r : Except Fault FluxStatus × AgentRuntime}
    (h : rt.fluxAgentRun host id maxTicks = some r) :
    Executed rt id (fun i slot' => ∃ result, (rt.agents i).run host rt.agentNow maxTicks = some (result, slot') ∧
      r.1 = result) r.2.view := by
  unfold fluxAgentRun at h
  split at h
  · cases h
    exact .refused
  split at h
  · cases h
    exact .refused
  rename_i i hi
  split_ifs at h
  · cases h
    exact .refused
  · obtain ⟨r', hrun, rfl⟩ := Option.map_eq_some_iff.1 h
    have hkeep := AgentSlot.keepsAgent_run hrun
    rw [view_execute hkeep]
    exact .executed i r'.2 hi ⟨r'.1, hrun, rfl⟩ hkeep

theorem fluxAgentStep_executed :
    Executed rt id (fun i slot' => (rt.agents i).step host rt.agentNow = ((rt.fluxAgentStep host id).1, slot'))
      (rt.fluxAgentStep host id).2.view := by
  generalize hr : rt.fluxAgentStep host id = r
  unfold fluxAgentStep at hr
  split at hr
  · subst hr
    exact .refused
  split at hr
  · subst hr
    exact .refused
  rename_i i hi
  simp only at hr
  split_ifs at hr
  · subst hr
    exact .refused
  · subst hr
    exact .refused
  · subst hr
    rw [view_execute AgentSlot.keepsAgent_step]
    exact .executed i _ hi rfl AgentSlot.keepsAgent_step

end AgentRuntime

/-! ## What a step costs -/

/-- The CPU account of an agent. -/
structure CpuUsage where
  maxTicks : UInt64
  usedTicks : UInt64
  lastOpCycles : UInt64
  executed : Nat

namespace CpuUsage

/-- A step may be charged: there is no limit, or it is not reached. -/
def Allows (u : CpuUsage) : Prop := u.maxTicks = 0 ∨ u.usedTicks < u.maxTicks

/-- Every instruction was paid for with a tick, and the limit was kept. -/
structure Sound (u : CpuUsage) : Prop where
  lastOpCycles : u.lastOpCycles = 0 ∨ u.lastOpCycles = 1
  executed : u.maxTicks ≠ 0 → u.executed ≤ u.usedTicks.toNat
  used : u.maxTicks ≠ 0 → u.usedTicks ≤ u.maxTicks

/-- A step is charged: one after which the agent goes on costs one tick, and one that executes an instruction
costs a tick unless the VM faults. -/
structure Charged (u : CpuUsage) (result : Except Fault FluxStatus) (u' : CpuUsage) : Prop where
  maxTicks : u'.maxTicks = u.maxTicks
  executed_le : u'.executed ≤ u.executed + 1
  continues : result = .ok .ok → u'.usedTicks = u.usedTicks + 1
  pays : (u.lastOpCycles = 0 ∨ u.lastOpCycles = 1) → (u'.lastOpCycles = 0 ∨ u'.lastOpCycles = 1) ∧
    (u'.usedTicks = u.usedTicks + 1 ∨
      u'.usedTicks = u.usedTicks ∧ ∀ status, result = .ok status → u'.executed = u.executed)

/-- What follows for an account that was sound. -/
structure Kept (u : CpuUsage) (result : Except Fault FluxStatus) (u' : CpuUsage) : Prop where
  maxTicks : u'.maxTicks = u.maxTicks
  sound : ∀ status, result = .ok status → u'.Sound
  executed_le : u.maxTicks ≠ 0 → u'.executed ≤ u.maxTicks.toNat

variable {u u' u'' : CpuUsage} {result : Except Fault FluxStatus}

theorem Sound.executed_le_max (h : u.Sound) (hmax : u.maxTicks ≠ 0) : u.executed ≤ u.maxTicks.toNat :=
  Nat.le_trans (h.executed hmax) (UInt64.le_iff_toNat_le.1 (h.used hmax))

theorem Sound.kept (h : u.Sound) (status : FluxStatus) : Kept u (.ok status) u :=
  ⟨rfl, fun _ _ => h, h.executed_le_max⟩

theorem Charged.kept (h : Charged u result u') (hu : u.Sound) (hallow : u.Allows) : Kept u result u' := by
  have hlt (hmax : u.maxTicks ≠ 0) : u.usedTicks.toNat < u.maxTicks.toNat :=
    UInt64.lt_iff_toNat_lt.1 (hallow.resolve_left hmax)
  obtain ⟨hlast, hpays⟩ := h.pays hu.lastOpCycles
  refine ⟨h.maxTicks, fun status hok => ⟨hlast, fun hmax => ?_, fun hmax => ?_⟩, fun hmax => ?_⟩
  · rw [h.maxTicks] at hmax
    have hexec := hu.executed hmax
    rcases hpays with hused | ⟨hused, hsame⟩
    · rw [hused, FluxVm.toNat_succ (hlt hmax)]
      have := h.executed_le
      omega
    · rw [hused, hsame status hok]
      exact hexec
  · rw [h.maxTicks] at hmax ⊢
    rcases hpays with hused | ⟨hused, -⟩
    · rw [hused, UInt64.le_iff_toNat_le, FluxVm.toNat_succ (hlt hmax)]
      exact hlt hmax
    · rw [hused]
      exact hu.used hmax
  · have := h.executed_le
    have := hu.executed hmax
    have := hlt hmax
    omega

theorem Kept.within (h : Kept u result u') (hmax : u'.maxTicks ≠ 0) : u'.executed ≤ u'.maxTicks.toNat := by
  rw [h.maxTicks] at hmax ⊢
  exact h.executed_le hmax

theorem Kept.trans {status : FluxStatus} (h : Kept u (.ok status) u') (h' : u'.Sound → Kept u' result u'') :
    Kept u result u'' := by
  have h' := h' (h.sound status rfl)
  exact ⟨h'.maxTicks.trans h.maxTicks, h'.sound, fun hmax => h.maxTicks ▸ h'.executed_le (h.maxTicks ▸ hmax)⟩

end CpuUsage

namespace AgentSlot

/-- The CPU account of an agent. -/
def usage (slot : AgentSlot) : CpuUsage :=
  ⟨slot.desc.limits.maxCpuTicks, slot.desc.limits.usedCpuTicks, slot.vm.lastOpCycles, slot.executed⟩

variable {slot slot' : AgentSlot} {host : Host} {now : UInt64}

open CpuUsage

variable (slot host) in
/-- A VM step faults, returns before it executes an instruction, or executes one. -/
theorem stepVm_cases :
    (∃ fault executed log, slot.stepVm host = (.error fault, { slot with executed, log }) ∧
      executed ≤ slot.executed + 1) ∨
    (∃ vm log, slot.stepVm host = (.ok .errGeneral, { slot with vm, log }) ∧
      vm.lastOpCycles = slot.vm.lastOpCycles) ∨
    (∃ status vm log, slot.stepVm host = (.ok status, { slot with vm, executed := slot.executed + 1, log }) ∧
      vm.lastOpCycles = 1) := by
  unfold stepVm
  cases hstep : slot.vm.fluxVmStep host with
  | error fault =>
    refine .inl ⟨fault, _, _, rfl, ?_⟩
    split_ifs <;> omega
  | ok r =>
    obtain ⟨status, vm⟩ := r
    rcases FluxVm.lastOpCycles_of_step hstep with ⟨hstop, rfl, hlast⟩ | ⟨hstop, hlast⟩
    · let log := slot.log ++ [.vmStep slot.vm slot.desc.capabilities (.ok (.errGeneral, vm))]
      refine .inr (.inl ⟨vm, log, ?_, hlast⟩)
      simp [hstop, log]
    · let log := slot.log ++ [.vmStep slot.vm slot.desc.capabilities (.ok (status, vm))]
      refine .inr (.inr ⟨status, vm, log, ?_, hlast⟩)
      simp [hstop, log]

theorem stepA2a_charged : Charged slot.usage (slot.stepA2a host).1 (slot.stepA2a host).2.usage := by
  unfold stepA2a
  rcases stepVm_cases slot host with
    ⟨fault, executed, log, h, hle⟩ | ⟨vm, log, h, hlast⟩ | ⟨status, vm, log, h, hlast⟩
  · rw [h]
    exact ⟨rfl, hle, by simp, fun hold => ⟨hold, .inr ⟨rfl, by simp⟩⟩⟩
  · rw [h]
    refine ⟨rfl, Nat.le_succ _, by simp, fun hold => ?_⟩
    simp only [usage, modifyLimits, hlast, reduceCtorEq, if_false]
    refine ⟨hold, ?_⟩
    rcases hold with hold | hold
    · exact .inr ⟨by simp only [usage] at hold; simp [hold], by simp⟩
    · exact .inl (by simp only [usage] at hold; rw [hold])
  · rw [h]
    by_cases hok : status = .ok
    · simp only [hok, if_true]
      exact ⟨rfl, Nat.le_refl _, by simp, fun _ =>
        ⟨.inr hlast, .inl (by simp [usage, withState, modifyLimits, hlast])⟩⟩
    · simp only [if_neg hok]
      exact ⟨rfl, Nat.le_refl _, by simp [hok],
        fun _ => ⟨.inr hlast, .inl (by simp [usage, modifyLimits, hlast])⟩⟩

theorem stepPlain_charged : Charged slot.usage (slot.stepPlain host now).1 (slot.stepPlain host now).2.usage := by
  unfold stepPlain
  rcases stepVm_cases slot host with
    ⟨fault, executed, log, h, hle⟩ | ⟨vm, log, h, hlast⟩ | ⟨status, vm, log, h, hlast⟩
  · rw [h]
    exact ⟨rfl, hle, by simp, fun hold => ⟨hold, .inr ⟨rfl, by simp⟩⟩⟩
  · rw [h]
    refine ⟨rfl, Nat.le_succ _, by simp, fun hold => ⟨?_, .inl ?_⟩⟩
    · simp only [usage, withState, modifyLimits, hlast]
      exact hold
    · simp only [usage, withState, modifyLimits, stepTicks, hlast]
      simp only [usage] at hold
      rcases hold with hold | hold <;> simp [hold]
  · rw [h]
    have hcharged (slot' : AgentSlot) (result : Except Fault FluxStatus)
        (hmax : slot'.desc.limits.maxCpuTicks = slot.desc.limits.maxCpuTicks)
        (hused : slot'.desc.limits.usedCpuTicks = slot.desc.limits.usedCpuTicks + 1)
        (hcycles : slot'.vm.lastOpCycles = 1) (hexec : slot'.executed = slot.executed + 1) :
        Charged slot.usage result slot'.usage :=
      ⟨hmax, Nat.le_of_eq hexec, fun _ => hused, fun _ => ⟨.inr hcycles, .inl hused⟩⟩
    cases status <;> exact hcharged _ _ rfl (by simp [withState, withVmState, modifyLimits, stepTicks, hlast])
      hlast rfl

/-- What a step is charged that executes nothing and does not go on. -/
theorem charged_of_same {result : Except Fault FluxStatus} {u u' : CpuUsage} (h : u' = u)
    (hresult : result ≠ .ok .ok) : Charged u result u' := by
  subst h
  exact ⟨rfl, Nat.le_succ _, fun hok => absurd hok hresult, fun hold => ⟨hold, .inr ⟨rfl, fun _ _ => rfl⟩⟩⟩

theorem usage_sandboxHandleViolation {violation : UInt8} :
    (slot.sandboxHandleViolation violation).usage = slot.usage := by
  unfold sandboxHandleViolation
  simp only
  split_ifs <;> rfl

theorem usage_checkIoOpcode {opcode : UInt8} : (slot.checkIoOpcode opcode).2.usage = slot.usage := by
  unfold checkIoOpcode
  split_ifs <;> rfl

theorem stepChecked_charged :
    Charged slot.usage (slot.stepChecked host now).1 (slot.stepChecked host now).2.usage := by
  unfold stepChecked
  split_ifs
  · exact charged_of_same rfl (by simp)
  · exact charged_of_same rfl (by simp)
  split
  · exact charged_of_same rfl (by simp)
  · exact stepPlain_charged
  rename_i opcode _
  have husage : (slot.checkIoOpcode opcode).2.usage = slot.usage := usage_checkIoOpcode
  generalize slot.checkIoOpcode opcode = r at husage
  obtain ⟨violation, slot'⟩ := r
  cases violation with
  | some violation => exact charged_of_same (usage_sandboxHandleViolation.trans husage) (by simp)
  | none =>
    rw [← husage]
    simp only
    split_ifs
    · exact stepA2a_charged
    · exact stepPlain_charged

/-- The resource checks report a violation, or the next step may be charged. -/
theorem withinLimits_cases (slot : AgentSlot)
    (next : AgentSlot → Except Fault FluxStatus × AgentSlot) :
    ∃ slot', slot'.usage = slot.usage ∧
      (slot.withinLimits next = (.ok .errInvalid, slot') ∨
        slot.usage.Allows ∧ slot.withinLimits next = next slot') := by
  unfold withinLimits
  have hcpu : slot.sandboxCheckCpu.2.usage = slot.usage ∧
      (slot.sandboxCheckCpu.1 = false → slot.usage.Allows) := by
    unfold sandboxCheckCpu
    simp only
    split_ifs with hmax hused
    · exact ⟨rfl, fun _ => .inl hmax⟩
    · exact ⟨rfl, by simp⟩
    · exact ⟨rfl, fun _ => .inr (UInt64.not_le.1 hused)⟩
  generalize slot.sandboxCheckCpu = r at hcpu
  obtain ⟨violated, slot₁⟩ := r
  obtain ⟨hsame, hallow⟩ := hcpu
  cases violated with
  | true => exact ⟨_, usage_sandboxHandleViolation.trans hsame, .inl rfl⟩
  | false =>
    have hmem : slot₁.sandboxCheckMemory.2.usage = slot₁.usage := by
      unfold sandboxCheckMemory
      simp only
      split_ifs <;> rfl
    simp only
    generalize slot₁.sandboxCheckMemory = r at hmem
    obtain ⟨violated, slot₂⟩ := r
    cases violated with
    | true => exact ⟨_, usage_sandboxHandleViolation.trans (hmem.trans hsame), .inl rfl⟩
    | false => exact ⟨slot₂, hmem.trans hsame, .inr ⟨hallow rfl, rfl⟩⟩

theorem sandboxStep_charged (slot : AgentSlot) :
    Charged slot.usage (slot.sandboxStep host now).1 (slot.sandboxStep host now).2.usage := by
  unfold sandboxStep
  split_ifs
  · exact charged_of_same rfl (by simp)
  obtain ⟨slot', husage, h | ⟨-, h⟩⟩ := withinLimits_cases slot fun slot => slot.stepChecked host now
  · rw [h]
    exact charged_of_same husage (by simp)
  · rw [h, ← husage]
    exact stepChecked_charged

theorem sandboxStep_kept (hsound : slot.usage.Sound) :
    Kept slot.usage (slot.sandboxStep host now).1 (slot.sandboxStep host now).2.usage := by
  unfold sandboxStep
  split_ifs
  · exact hsound.kept _
  obtain ⟨slot', husage, h | ⟨hallow, h⟩⟩ := withinLimits_cases slot fun slot => slot.stepChecked host now
  · rw [h, husage]
    exact hsound.kept _
  · rw [h]
    rw [← husage] at hsound hallow ⊢
    exact stepChecked_charged.kept hsound hallow

/-! ## A run -/

/-- A round of the loop of `flux_agent_run`. -/
theorem round_charged (host : Host) (now : UInt64) (slot : AgentSlot) :
    Charged slot.usage (slot.withinLimits fun slot => slot.sandboxStep host now).1
      (slot.withinLimits fun slot => slot.sandboxStep host now).2.usage := by
  obtain ⟨slot', husage, h | ⟨-, h⟩⟩ := withinLimits_cases slot fun slot => slot.sandboxStep host now
  · rw [h]
    exact charged_of_same husage (by simp)
  · rw [h, ← husage]
    exact sandboxStep_charged slot'

theorem round_kept (host : Host) (now : UInt64) (hsound : slot.usage.Sound) :
    Kept slot.usage (slot.withinLimits fun slot => slot.sandboxStep host now).1
      (slot.withinLimits fun slot => slot.sandboxStep host now).2.usage := by
  obtain ⟨slot', husage, h | ⟨-, h⟩⟩ := withinLimits_cases slot fun slot => slot.sandboxStep host now
  · rw [h, husage]
    exact hsound.kept _
  · rw [h]
    rw [← husage] at hsound ⊢
    exact sandboxStep_kept hsound

theorem runLoop_kept {maxTicks : UInt32} {tickLimit startTicks : UInt64} {fuel steps : Nat}
    {r : Except Fault FluxStatus × AgentSlot} (hsound : slot.usage.Sound)
    (h : runLoop host now maxTicks tickLimit startTicks fuel steps slot = some r) :
    Kept slot.usage r.1 r.2.usage := by
  induction fuel generalizing slot steps with
  | zero => cases h
  | succ fuel ih =>
    rw [runLoop] at h
    split at h
    · cases h
      exact hsound.kept _
    have hround := round_kept host now hsound
    split at h
    · rename_i slot' heq
      rw [heq] at hround
      split_ifs at h
      · cases h
        exact hround.trans fun hsound' => hsound'.kept _
      · exact hround.trans fun hsound' => ih hsound' h
    · cases h
      exact hround

theorem usage_startRun (slot : AgentSlot) (now : UInt64) : (slot.startRun now).usage = slot.usage := by
  unfold startRun
  simp only
  split_ifs <;> rfl

theorem finishRun_fst (r : Except Fault FluxStatus × AgentSlot) :
    (finishRun r).1 = r.1 ∧ (finishRun r).2.usage = r.2.usage := by
  obtain ⟨result, slot⟩ := r
  cases result with
  | error fault => exact ⟨rfl, rfl⟩
  | ok status =>
    rw [finishRun]
    split_ifs <;> exact ⟨rfl, rfl⟩

theorem run_kept {maxTicks : UInt32} {r : Except Fault FluxStatus × AgentSlot}
    (hsound : slot.usage.Sound) (h : slot.run host now maxTicks = some r) :
    Kept slot.usage r.1 r.2.usage := by
  obtain ⟨r', hloop, rfl⟩ := Option.map_eq_some_iff.1 h
  obtain ⟨hresult, husage⟩ := finishRun_fst r'
  rw [hresult, husage, ← usage_startRun slot now]
  exact runLoop_kept (by rwa [usage_startRun]) hloop

theorem step_kept (host : Host) (now : UInt64) (hsound : slot.usage.Sound) :
    Kept slot.usage (slot.step host now).1 (slot.step host now).2.usage := by
  unfold step
  have hstart : ({ if slot.vm.state = .idle then slot.withVmState .running else slot with
      desc := { (if slot.vm.state = .idle then slot.withVmState .running else slot).desc with
        lastActive := now } } : AgentSlot).usage = slot.usage := by
    split_ifs <;> rfl
  rw [← hstart] at hsound ⊢
  exact sandboxStep_kept hsound

end AgentSlot

end FluxOs
