import FluxOs.Agent.Runs
import FluxOs.Kernel.Runs
import FluxOs.Kernel.Syscall
import FluxOs.Lib.Masks
import FluxOs.Vm.StepRules

/-!
# Checks of capabilities

The kernel, the agent runtime and the VM each check whether required capabilities are held.  The last two want all
of the required bits; the kernel wants one of them.
-/

namespace FluxOs

open Actions Faulting Masks AgentRuntime

/-- All required capabilities are held. -/
def AllHeld (held required : UInt64) : Prop := ∀ n, hasBit required n = true → hasBit held n = true

/-- None of the required capabilities is held. -/
def NoneHeld (held required : UInt64) : Prop := ∀ n, hasBit required n = true → hasBit held n = false

/-- A process other than the kernel process is the current one, with these capabilities. -/
def Os.CallerHolds (s : Os) (held : UInt64) : Prop := s.kernel.ks.currentPid ≠ fluxPidKernel ∧
  ∃ i, s.kernel.procs.fluxGetPcb s.kernel.ks.currentPid = some i ∧ (s.kernel.pcb i).capabilities = held

/-- An active agent has these capabilities. -/
def AgentRuntime.AgentHolds (rt : AgentRuntime) (id : UInt32) (held : UInt64) : Prop := rt.initialized = true ∧
  ∃ i, rt.agentSlotById id = some i ∧ (rt.agents i).desc.capabilities = held

/-- A step of `vm` executes a `CAP_CHECK` of the required capabilities and leads to `vm'`. -/
def FluxVm.ChecksCap (host : Host) (vm : FluxVm) (held required : UInt64) (vm' : FluxVm) : Prop :=
  ∃ i, vm.nextInsn = some i ∧ opcodeOf i.opcode = .agent .CAP_CHECK ∧ vm.regValue i.rd = required ∧
    vm.regs fluxRegCapability = held ∧ Steps (FluxVm.fluxVmStep · host) vm vm'

variable {s : Os} {rt : AgentRuntime} {vm vm' : FluxVm} {host : Host} {id : UInt32} {held required : UInt64}

/-! ## Masks -/

theorem allHeld_iff : AllHeld held required ↔ held &&& required = required := by
  rw [UInt64.and_comm]
  exact within_iff.symm

theorem noneHeld_iff : NoneHeld held required ↔ held &&& required = 0 := by
  constructor
  · intro hnone
    apply eq_of_hasBit
    intro n
    rw [hasBit_and, hasBit_zero]
    cases hn : hasBit required n with
    | false => exact Bool.and_false _
    | true => rw [hnone n hn, Bool.false_and]
  · intro hzero n hn
    have hbit : hasBit (held &&& required) n = false := by rw [hzero, hasBit_zero]
    rwa [hasBit_and, hn, Bool.and_true] at hbit

/-! ## The three checks -/

/-- The kernel grants access for any bit. -/
theorem Os.CallerHolds.check (h : s.CallerHolds held) :
    s.syscallCheckCap required = true ↔ ¬NoneHeld held required := by
  obtain ⟨hpid, i, hi, rfl⟩ := h
  unfold Os.syscallCheckCap
  rw [if_neg hpid, hi, noneHeld_iff]
  exact decide_eq_true_iff

theorem AgentRuntime.AgentHolds.check (h : rt.AgentHolds id held) :
    (rt.fluxAgentHasCap id required).1 = true ↔ AllHeld held required := by
  obtain ⟨hinit, i, hi, rfl⟩ := h
  unfold AgentRuntime.fluxAgentHasCap
  rw [hinit, allHeld_iff]
  by_cases hnone : required = fluxCapNone
  · subst hnone
    rw [if_neg (by decide), if_pos rfl]
    exact iff_of_true rfl UInt64.and_zero
  · rw [if_neg (by decide), if_neg hnone, hi]
    exact decide_eq_true_iff

theorem FluxVm.ChecksCap.check (h : vm.ChecksCap host held required vm') :
    vm'.regs fluxRegFlags = fluxFlagEqual ↔ AllHeld held required := by
  obtain ⟨i, hi, hop, rfl, rfl, rc, hstep⟩ := h
  rw [allHeld_iff]
  refine (FluxVm.fluxVmStep_executes (Q := fun r => r.2.regs fluxRegFlags = fluxFlagEqual ↔
    vm.regs fluxRegCapability &&& vm.regValue i.rd = vm.regValue i.rd) hi fun vm₁ hvm₁ => ?_).of_ok hstep
  obtain ⟨trace, traceIdx, heq⟩ := hvm₁.eq
  have hregs : vm₁.regs = vm.regs := by rw [heq]
  have hvalue : vm₁.regValue i.rd = vm.regValue i.rd := by rw [FluxVm.regValue, FluxVm.regValue, hregs]
  unfold FluxVm.execute
  rw [hop]
  dsimp only [FluxVm.execAgent]
  cases hget : vm₁.fluxVmGetReg i.rd with
  | error fault => trivial
  | ok v =>
    rw [(FluxVm.fluxVmGetReg_ok hget).2, hvalue, hregs]
    have hflags (flags : UInt64) :
        (FluxVm.finish (none, vm₁.putReg fluxRegFlags flags)).2.regs fluxRegFlags = flags :=
      (FluxVm.putReg_of_ne _ (by decide) _).trans (FluxVm.putReg_self ..)
    refine (Eq.congr_left (hflags _)).trans ?_
    by_cases hheld : vm.regs fluxRegCapability &&& vm.regValue i.rd = vm.regValue i.rd
    · rw [if_pos hheld]
      exact iff_of_true rfl hheld
    · rw [if_neg hheld]
      exact iff_of_false (by decide) hheld

/-! ## When the checks agree -/

/-- Every check grants exactly what holding all of the required capabilities allows. -/
def ChecksRight (kernel agent : Bool) (flags held required : UInt64) : Prop :=
  (kernel = true ↔ AllHeld held required) ∧ (agent = true ↔ AllHeld held required) ∧
    (flags = fluxFlagEqual ↔ AllHeld held required)

/-- The checks agree exactly when something is required of which the caller holds all or none. -/
theorem checksRight_iff (hkernel : s.CallerHolds held) (hagent : rt.AgentHolds id held)
    (hvm : vm.ChecksCap host held required vm') :
    ChecksRight (s.syscallCheckCap required) (rt.fluxAgentHasCap id required).1 (vm'.regs fluxRegFlags)
      held required ↔ required ≠ 0 ∧ (AllHeld held required ∨ NoneHeld held required) := by
  have hzero : AllHeld held required → NoneHeld held required → required = 0 := by
    intro hall hnone
    exact (allHeld_iff.1 hall).symm.trans (noneHeld_iff.1 hnone)
  unfold ChecksRight
  rw [hkernel.check, hagent.check, hvm.check]
  constructor
  · rintro ⟨hgrants, -⟩
    by_cases hnone : NoneHeld held required
    · have hnot : ¬AllHeld held required := fun hall => hgrants.2 hall hnone
      refine ⟨fun hz => hnot (allHeld_iff.2 ?_), .inr hnone⟩
      rw [hz, UInt64.and_zero]
    · have hall := hgrants.1 hnone
      refine ⟨fun hz => hnone (noneHeld_iff.2 ?_), .inl hall⟩
      rw [hz, UInt64.and_zero]
  · rintro ⟨hne, hall | hnone⟩
    · exact ⟨iff_of_true (fun hnone => hne (hzero hall hnone)) hall, Iff.rfl, Iff.rfl⟩
    · exact ⟨iff_of_false (fun hn => hn hnone) (fun hall => hne (hzero hall hnone)), Iff.rfl, Iff.rfl⟩

/-- The state after a spawn and a pass of the scheduler, the spawned process with these capabilities. -/
def osWith (caps : UInt64) : Os where
  kernel := ((execute System.step [.spawn 0 0 false, .schedule] bootSystem).getD bootSystem).kernel.modifyPcb 1
    fun pcb => { pcb with capabilities := caps }
  permTable := []
  console := fun _ => 0

/-- The freshly initialised runtime with one agent. -/
def agentWith (caps : UInt64) : AgentRuntime := (fluxAgentInit none).withBare caps

/-- A VM about to execute `CAP_CHECK R1`. -/
def checkerOf (caps required : UInt64) : FluxVm :=
  ((FluxVm.boot [0x88, 1, 0, 0]).putReg fluxRegCapability caps).putReg ⟨1, by decide⟩ required

theorem checksRight_iff_compile : ChecksRight ((osWith fluxCapCompile).syscallCheckCap fluxCapCompile)
    ((agentWith fluxCapCompile).fluxAgentHasCap (agentIdOf 1) fluxCapCompile).1
    ((next (FluxVm.fluxVmStep · FluxVm.plentifulHost) (checkerOf fluxCapCompile fluxCapCompile)).regs fluxRegFlags)
      fluxCapCompile fluxCapCompile ↔
    fluxCapCompile ≠ 0 ∧ (AllHeld fluxCapCompile fluxCapCompile ∨ NoneHeld fluxCapCompile fluxCapCompile) := by
  have hvm : (checkerOf fluxCapCompile fluxCapCompile).ChecksCap FluxVm.plentifulHost fluxCapCompile fluxCapCompile
      (next (FluxVm.fluxVmStep · FluxVm.plentifulHost) (checkerOf fluxCapCompile fluxCapCompile)) :=
    ⟨_, rfl, rfl, rfl, rfl, _, rfl⟩
  exact checksRight_iff ⟨by decide +kernel, 1, by decide +kernel, rfl⟩ ⟨rfl, 1, by decide +kernel, rfl⟩ hvm

/-- A process that holds only the first of the two capabilities of `FLUX_SYSCALL_DEVCODE` passes its check, an
agent or a VM that holds just the same does not. -/
theorem devcode_not_all_held : ∃ (s : Os) (rt : AgentRuntime) (vm vm' : FluxVm) (id : UInt32),
    s.CallerHolds fluxCapCompile ∧ rt.AgentHolds id fluxCapCompile ∧
    vm.ChecksCap FluxVm.plentifulHost fluxCapCompile (fluxCapCompile ||| fluxCapSupervisor) vm' ∧
    s.syscallCheckCap (fluxCapCompile ||| fluxCapSupervisor) = true ∧
    (rt.fluxAgentHasCap id (fluxCapCompile ||| fluxCapSupervisor)).1 = false ∧
    vm'.regs fluxRegFlags = 0 ∧ ¬AllHeld fluxCapCompile (fluxCapCompile ||| fluxCapSupervisor) := by
  refine ⟨osWith fluxCapCompile, agentWith fluxCapCompile,
    checkerOf fluxCapCompile (fluxCapCompile ||| fluxCapSupervisor), _, agentIdOf 1,
    ⟨by decide +kernel, 1, by decide +kernel, rfl⟩, ⟨rfl, 1, by decide +kernel, rfl⟩,
    ⟨_, rfl, rfl, rfl, rfl, _, rfl⟩, by decide +kernel, by decide +kernel, by decide +kernel, ?_⟩
  rw [allHeld_iff]
  decide

end FluxOs
