import FluxOs.Agent.Changes
import FluxOs.Agent.SandboxRules

/-!
# CPU limits

A call of `flux_agent_run` with a tick budget executes at most that many VM instructions and returns, unless
one of them is undefined in C.  An agent with a limit executes at most that many over its lifetime.
-/

namespace FluxOs

open Actions AgentRuntime AgentView

/-! ## One run -/

namespace AgentSlot

variable {slot : AgentSlot} {host : Host} {now : UInt64} {maxTicks : UInt32}

/-- The budget is spent after as many ticks. -/
theorem budget_spent_iff {startTicks : UInt64} {n : Nat} (hpos : 0 < maxTicks) (hn : n ≤ maxTicks.toNat) :
    (maxTicks.toUInt64 > 0 ∧ startTicks + UInt64.ofNat n - startTicks ≥ maxTicks.toUInt64) ↔
      n = maxTicks.toNat := by
  have hlimit : maxTicks.toNat < 2 ^ 32 := maxTicks.toNat_lt
  have hspent : startTicks + UInt64.ofNat n - startTicks = UInt64.ofNat n := by
    rw [UInt64.add_comm, UInt64.add_sub_cancel]
  have hn_toNat : (UInt64.ofNat n).toNat = n :=
    UInt64.toNat_ofNat_of_lt' (by simp only [UInt64.size]; omega)
  have hmax_toNat : maxTicks.toUInt64.toNat = maxTicks.toNat := UInt32.toNat_toUInt64 maxTicks
  have hpos' : 0 < maxTicks.toNat := UInt32.lt_iff_toNat_lt.1 hpos
  rw [hspent, gt_iff_lt, ge_iff_le, UInt64.lt_iff_toNat_lt, UInt64.le_iff_toNat_le, hn_toNat, hmax_toNat]
  constructor
  · rintro ⟨-, hle⟩
    exact Nat.le_antisymm hn hle
  · intro heq
    exact ⟨hpos', Nat.le_of_eq heq.symm⟩

/-- A round after which the run goes on takes one tick more. -/
theorem usedCpuTicks_of_continues {startTicks : UInt64} {n : Nat} {slot' : AgentSlot}
    (h : (slot.withinLimits fun slot => slot.sandboxStep host now) = (.ok .ok, slot'))
    (hused : slot.desc.limits.usedCpuTicks = startTicks + UInt64.ofNat n) :
    slot'.desc.limits.usedCpuTicks = startTicks + UInt64.ofNat (n + 1) := by
  have hround := round_charged host now slot
  rw [h] at hround
  have hnext : slot'.desc.limits.usedCpuTicks = slot.desc.limits.usedCpuTicks + 1 := hround.continues rfl
  rw [hnext, hused, UInt64.ofNat_add, UInt64.add_assoc]
  rfl

/-- The loop with a tick budget, after `n` ticks, ends after at most as many instructions as ticks are left. -/
theorem runLoop_bound {startTicks : UInt64} {fuel n : Nat} (host : Host) (now : UInt64) (steps : Nat)
    (hpos : 0 < maxTicks)
    (hn : n ≤ maxTicks.toNat) (hused : slot.desc.limits.usedCpuTicks = startTicks + UInt64.ofNat n)
    (hfuel : maxTicks.toNat < n + fuel) :
    ∃ r, runLoop host now maxTicks maxTicks.toUInt64 startTicks fuel steps slot = some r ∧
      r.2.executed ≤ slot.executed + (maxTicks.toNat - n) := by
  induction fuel generalizing slot steps n with
  | zero => omega
  | succ fuel ih =>
    by_cases hdone : n = maxTicks.toNat
    · rw [runLoop, hused, if_pos ((budget_spent_iff hpos hn).2 hdone)]
      exact ⟨_, rfl, Nat.le_add_right ..⟩
    have hbudget : ¬ (maxTicks.toUInt64 > 0 ∧ slot.desc.limits.usedCpuTicks - startTicks ≥ maxTicks.toUInt64) := by
      rw [hused]
      exact mt (budget_spent_iff hpos hn).1 hdone
    have hround := round_charged host now slot
    generalize heq : (slot.withinLimits fun slot => slot.sandboxStep host now) = r at hround
    have hstep : r.2.executed ≤ slot.executed + 1 := hround.executed_le
    by_cases hcontinues : r.1 = .ok .ok
    · obtain ⟨result, slot'⟩ := r
      simp only at hcontinues hstep
      subst hcontinues
      have hzero : maxTicks ≠ 0 := fun h => by simp [h] at hpos
      rw [runLoop_of_continues hbudget heq, if_neg fun h => hzero h.2]
      obtain ⟨r, hr, hle⟩ := ih (steps + 1) (by omega) (usedCpuTicks_of_continues heq hused) (by omega)
      refine ⟨r, hr, ?_⟩
      omega
    · refine ⟨r, runLoop_of_ends hbudget heq hcontinues, ?_⟩
      omega

/-! ## Rounds that fault -/

/-- `sandbox_step` finds nothing to refuse and calls `flux_vm_step`. -/
structure StepsVm (slot : AgentSlot) : Prop where
  vmInitialized : slot.vmInitialized = true
  cpu : ¬ slot.CpuExceeded
  memory : ¬ slot.MemoryExceeded
  runnable : slot.vm.Runnable
  io : ∀ opcode, slot.vm.sandboxPeek = .ok (some opcode) → isIoOpcode opcode = true → slot.ioViolation = none

/-- `sandbox_step` calls `flux_vm_step` for an instruction that C leaves undefined. -/
def StepFaults (slot : AgentSlot) (host : Host) : Prop :=
  slot.StepsVm ∧ ∃ fault, slot.vm.fluxVmStep host = .error fault

/-- One of the first `n` rounds faults. -/
def FaultsWithin (host : Host) (now : UInt64) (n : Nat) (slot : AgentSlot) : Prop :=
  ∃ k < n, ∃ slot' ∈ afterRounds host now k slot, slot'.StepFaults host

/-- The loop without a tick budget stops after `maxRunSteps` steps. -/
theorem runLoop_returns (host : Host) (now tickLimit startTicks : UInt64) {fuel steps : Nat}
    (hsteps : steps < maxRunSteps)
    (hfuel : maxRunSteps ≤ steps + fuel) (slot : AgentSlot) :
    ∃ r, runLoop host now 0 tickLimit startTicks fuel steps slot = some r := by
  induction fuel generalizing slot steps with
  | zero => omega
  | succ fuel ih =>
    rw [runLoop]
    split
    · exact ⟨_, rfl⟩
    split
    · split_ifs with hlast
      · exact ⟨_, rfl⟩
      · have hnext : steps + 1 < maxRunSteps := Nat.lt_of_not_le fun h => hlast ⟨h, rfl⟩
        exact ih hnext (by omega) _
    · exact ⟨_, rfl⟩

/-- A run with a tick budget returns after at most as many instructions. -/
theorem run_bound (slot : AgentSlot) (host : Host) (now : UInt64) (hpos : 0 < maxTicks) :
    ∃ r, slot.run host now maxTicks = some r ∧ r.2.executed ≤ slot.executed + maxTicks.toNat := by
  have hstart := usage_startRun slot now
  have hused : (slot.startRun now).desc.limits.usedCpuTicks = slot.desc.limits.usedCpuTicks :=
    congrArg CpuUsage.usedTicks hstart
  have hexec : (slot.startRun now).executed = slot.executed := congrArg CpuUsage.executed hstart
  have hfuel : maxTicks.toNat < 0 + runFuel maxTicks := by
    rw [runFuel, if_pos hpos]
    omega
  obtain ⟨r, hr, hle⟩ := runLoop_bound host now 0 hpos (Nat.zero_le _)
    (show _ = slot.desc.limits.usedCpuTicks + UInt64.ofNat 0 by rw [hused]; simp) hfuel
  refine ⟨finishRun r, ?_, ?_⟩
  · rw [run, if_pos hpos, hr]
    rfl
  · have : (finishRun r).2.executed = r.2.executed := congrArg CpuUsage.executed (finishRun_fst r).2
    rw [this, ← hexec]
    exact hle

theorem run_returns (slot : AgentSlot) (host : Host) (now : UInt64) (maxTicks : UInt32) :
    ∃ r, slot.run host now maxTicks = some r := by
  by_cases hpos : 0 < maxTicks
  · obtain ⟨r, hr, -⟩ := run_bound slot host now hpos
    exact ⟨r, hr⟩
  · obtain rfl : maxTicks = 0 := UInt32.le_antisymm (UInt32.not_lt.1 hpos) (UInt32.zero_le)
    have hloop := runLoop_returns host now slot.desc.limits.maxCpuTicks slot.desc.limits.usedCpuTicks
      (by decide : 0 < maxRunSteps) (by decide : maxRunSteps ≤ 0 + maxRunSteps) (slot.startRun now)
    obtain ⟨r, hr⟩ := hloop
    exact ⟨finishRun r, by rw [run]; simp [runFuel, hr]⟩

/-- Nothing was executed or charged yet. -/
def Unused (slot : AgentSlot) : Prop :=
  slot.desc.limits.usedCpuTicks = 0 ∧ slot.vm.lastOpCycles = 0 ∧ slot.executed = 0

/-- An agent with a limit executed at most as many instructions. -/
def KeepsCpuLimit (slot : AgentSlot) : Prop :=
  slot.desc.limits.maxCpuTicks ≠ 0 → slot.executed ≤ slot.desc.limits.maxCpuTicks.toNat

end AgentSlot

/-! ## The runtime -/

theorem CpuUsage.sound_unused {maxTicks : UInt64} : Sound ⟨maxTicks, 0, 0, 0⟩ :=
  ⟨.inl rfl, fun _ => Nat.zero_le _, fun _ => UInt64.zero_le⟩

/-- Without a limit only the cycles of the last instruction matter. -/
theorem CpuUsage.sound_unlimited {usedTicks lastOpCycles : UInt64} {executed : Nat}
    (h : lastOpCycles = 0 ∨ lastOpCycles = 1) : Sound ⟨0, usedTicks, lastOpCycles, executed⟩ :=
  ⟨h, fun h => absurd rfl h, fun h => absurd rfl h⟩

namespace AgentView

/-- The accounts of all agents are sound. -/
def Paid (V : AgentView) : Prop := ∀ i, (V.slots i).usage.Sound

variable {V V' : AgentView} {k : ChangeKind}

/-- The account of a slot is sound. -/
def SoundAt (_ : AgentIdx) (slot : SlotView) : Prop := slot.usage.Sound

theorem Change.paid (h : Change k V V') (hV : V.Paid) : V'.Paid := by
  cases k with
  | mail =>
    intro i
    rw [h.mail_keeps (g := SlotView.usage) (fun _ _ _ => rfl) i]
    exact hV i
  | lifecycle =>
    cases h with
    | clears i =>
      have hnew : SoundAt i AgentSlot.zero.view := CpuUsage.sound_unused
      exact forall_renewed hnew hV
    | spawns i slot caps _ hslot =>
      have hnew : SoundAt i slot := by
        rw [SoundAt, SlotView.usage, hslot.usedCpuTicks, hslot.lastOpCycles, hslot.executed]
        exact CpuUsage.sound_unused
      exact forall_renewed hnew hV
    | terminates i lastOpCycles _ hlast =>
      have hold : lastOpCycles = 0 ∨ lastOpCycles = 1 := by
        rcases hlast with rfl | rfl
        · exact .inl rfl
        · exact (hV i).lastOpCycles
      refine forall_renewed (P := SoundAt) ?_ hV
      exact CpuUsage.sound_unlimited hold
  | capabilities =>
    cases h
    exact hV
  | registry =>
    cases h
    exact hV
  | execution =>
    cases h with
    | executes i limits lastOpCycles executed hsound =>
      refine forall_modify (P := SoundAt) ?_ hV
      exact hsound (hV i)

end AgentView

namespace AgentRuntime

variable {rt : AgentRuntime} {id maxTicks : UInt32} {host : Host}

theorem paid_of_unused (h : ∀ i, (rt.agents i).Unused) : rt.view.Paid := by
  intro i
  obtain ⟨hused, hlast, hexec⟩ := h i
  show CpuUsage.Sound ⟨_, (rt.agents i).desc.limits.usedCpuTicks, (rt.agents i).vm.lastOpCycles,
    (rt.agents i).executed⟩
  rw [hused, hlast, hexec]
  exact CpuUsage.sound_unused

theorem keepsCpuLimit_of_paid (h : rt.view.Paid) (i : AgentIdx) : (rt.agents i).KeepsCpuLimit :=
  (h i).executed_le_max

end AgentRuntime

/-! ## Calls that return -/

namespace AgentRuntime

variable {rt : AgentRuntime} {host : Host} {id maxTicks : UInt32}

end AgentRuntime

end FluxOs
