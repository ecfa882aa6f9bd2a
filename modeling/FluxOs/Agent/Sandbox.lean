import FluxOs.Agent.State
import FluxOs.Vm.Fetch

/-!
# Sandboxed execution

The functions of `agent/sandbox.c` that execute an agent.  A step keeps the slot even where the VM does
something that C leaves undefined, so that the instructions executed up to there can be counted.
-/

namespace FluxOs

/-! ## Opcodes -/

/-- `is_a2a_opcode`. -/
def isA2aOpcode (opcode : UInt8) : Bool :=
  match opcodeOf opcode with
  | .agent .TELL | .agent .ASK | .agent .REPLY | .agent .DELEGATE | .agent .BARRIER
  | .agent .YIELD_AGENT => true
  | _ => false

/-- `is_io_opcode`. -/
def isIoOpcode (opcode : UInt8) : Bool :=
  match opcodeOf opcode with
  | .io .IO_READ | .io .IO_WRITE | .io .IO_READ8 | .io .IO_WRITE8 | .io .IO_READ16 | .io .IO_WRITE16
  | .io .IO_READ32 | .io .IO_WRITE32 => true
  | _ => false

/-! ## Violations -/

def sandboxViolationCpuLimit : UInt8 := 1

def sandboxViolationMemoryLimit : UInt8 := 2

def sandboxViolationIoLimit : UInt8 := 3

def sandboxViolationCapability : UInt8 := 5

namespace AgentSlot

variable (slot : AgentSlot)

def withState (state : AgentState) : AgentSlot := { slot with desc := { slot.desc with state } }

/-- Change the resource limits. -/
def modifyLimits (f : AgentLimits → AgentLimits) : AgentSlot :=
  { slot with desc := { slot.desc with limits := f slot.desc.limits } }

def withVmState (state : FluxVmState) : AgentSlot := { slot with vm := { slot.vm with state } }

/-- `sandbox_handle_violation`, without the message that it prints. -/
def sandboxHandleViolation (violation : UInt8) : AgentSlot :=
  let log := slot.log ++ [.violation slot.vm slot.desc.capabilities violation]
  let slot : AgentSlot := { slot.withState .failed with log }
  if slot.vmInitialized then { slot with vm := slot.vm.fail violation } else slot

/-! ## Resource accounting -/

/-- `sandbox_check_cpu`. -/
def sandboxCheckCpu : Bool × AgentSlot :=
  let limits := slot.desc.limits
  if limits.maxCpuTicks = 0 then (false, slot)
  else if limits.usedCpuTicks ≥ limits.maxCpuTicks then (true, slot.withState .failed)
  else (false, slot)

/-- The total size of the active regions, a 64-bit sum. -/
def activeRegionSize : UInt64 :=
  (List.finRange 16).foldl
    (fun total i => if (slot.vm.regions i).active then total + (slot.vm.regions i).size else total) 0

/-- `sandbox_check_memory`. -/
def sandboxCheckMemory : Bool × AgentSlot :=
  if slot.desc.limits.maxMemory = 0 then (false, slot)
  else if !slot.vmInitialized then (false, slot)
  else
    let total := slot.activeRegionSize
    let slot := slot.modifyLimits fun l => { l with usedMemory := total }
    if total > slot.desc.limits.maxMemory then (true, slot.withState .failed) else (false, slot)

/-- `sandbox_check_io`. -/
def sandboxCheckIo : Bool :=
  let limits := slot.desc.limits
  limits.maxIoPerSec ≠ 0 && limits.usedIoPerSec ≥ limits.maxIoPerSec

/-- `sandbox_account_io`. -/
def sandboxAccountIo : AgentSlot :=
  slot.modifyLimits fun l => { l with usedIoPerSec := l.usedIoPerSec + 1 }

/-- The checks of an I/O opcode: the violation, if there is one. -/
def checkIoOpcode (opcode : UInt8) : Option UInt8 × AgentSlot :=
  if isIoOpcode opcode then
    if slot.desc.capabilities &&& fluxCapIoRead = 0 ∧ slot.desc.capabilities &&& fluxCapIoWrite = 0 then
      (some sandboxViolationCapability, slot)
    else if slot.sandboxCheckIo then (some sandboxViolationIoLimit, slot)
    else (none, slot.sandboxAccountIo)
  else (none, slot)

/-! ## A step -/

/-- `flux_vm_step(&slot->vm)`; a step that does not stop before the fetch executes an instruction. -/
def stepVm (host : Host) : Except Fault FluxStatus × AgentSlot :=
  let executed := if slot.vm.stopped?.isNone then slot.executed + 1 else slot.executed
  let log := slot.log ++ [.vmStep slot.vm slot.desc.capabilities (slot.vm.fluxVmStep host)]
  match slot.vm.fluxVmStep host with
  | .error fault => (.error fault, { slot with executed, log })
  | .ok (status, vm) => (.ok status, { slot with vm, executed, log })

/-- The step of an opcode that makes the agent yield. -/
def stepA2a (host : Host) : Except Fault FluxStatus × AgentSlot :=
  match slot.stepVm host with
  | (.error fault, slot) => (.error fault, slot)
  | (.ok status, slot) =>
    let slot := slot.modifyLimits fun l => { l with usedCpuTicks := l.usedCpuTicks + slot.vm.lastOpCycles }
    if status = .ok then (.ok .errBusy, slot.withState .waiting) else (.ok status, slot)

/-- The ticks that a step costs. -/
def stepTicks : UInt64 := if slot.vm.lastOpCycles = 0 then 1 else slot.vm.lastOpCycles

/-- The step of any other opcode. -/
def stepPlain (host : Host) (now : UInt64) : Except Fault FluxStatus × AgentSlot :=
  match slot.stepVm host with
  | (.error fault, slot) => (.error fault, slot)
  | (.ok status, slot) =>
    let slot := slot.modifyLimits fun l => { l with usedCpuTicks := l.usedCpuTicks + slot.stepTicks }
    let slot := { slot with lastTickUpdate := now }
    match status with
    | .ok => (.ok .ok, slot.withState .thinking)
    | .errGeneral => (.ok .errGeneral, slot.withState .terminated)
    | _ => (.ok .errGeneral, (slot.withState .failed).withVmState .error)

/-- `sandbox_step` after the resource checks. -/
def stepChecked (host : Host) (now : UInt64) : Except Fault FluxStatus × AgentSlot :=
  if slot.vm.state ≠ .idle ∧ slot.vm.state ≠ .running then
    if slot.vm.state = .halted then (.ok .errGeneral, slot.withState .terminated)
    else (.ok .errInvalid, slot)
  else
    match slot.vm.sandboxPeek with
    | .error fault => (.error fault, slot)
    | .ok none => slot.stepPlain host now
    | .ok (some opcode) =>
      match slot.checkIoOpcode opcode with
      | (some violation, slot) => (.ok .errDenied, slot.sandboxHandleViolation violation)
      | (none, slot) => if isA2aOpcode opcode then slot.stepA2a host else slot.stepPlain host now

/-- The CPU and memory checks, then `next`. -/
def withinLimits (next : AgentSlot → Except Fault FluxStatus × AgentSlot) :
    Except Fault FluxStatus × AgentSlot :=
  match slot.sandboxCheckCpu with
  | (true, slot) => (.ok .errInvalid, slot.sandboxHandleViolation sandboxViolationCpuLimit)
  | (false, slot) =>
    match slot.sandboxCheckMemory with
    | (true, slot) => (.ok .errInvalid, slot.sandboxHandleViolation sandboxViolationMemoryLimit)
    | (false, slot) => next slot

/-- `sandbox_step`. -/
def sandboxStep (host : Host) (now : UInt64) : Except Fault FluxStatus × AgentSlot :=
  if !slot.vmInitialized then (.ok .errInvalid, slot)
  else slot.withinLimits fun slot => slot.stepChecked host now

/-! ## A run -/

/-- The number of steps after which a run without a tick budget yields. -/
def maxRunSteps : Nat := 10000000

/-- The main loop of `flux_agent_run` after `steps` steps; `none` when `fuel` rounds do not end it. -/
def runLoop (host : Host) (now : UInt64) (maxTicks : UInt32) (tickLimit startTicks : UInt64) :
    Nat → Nat → AgentSlot → Option (Except Fault FluxStatus × AgentSlot)
  | 0, _, _ => none
  | fuel + 1, steps, slot =>
    if tickLimit > 0 ∧ slot.desc.limits.usedCpuTicks - startTicks ≥ tickLimit then
      some (.ok .errBusy, slot.withState .idle)
    else
      match slot.withinLimits fun slot => slot.sandboxStep host now with
      | (.ok .ok, slot) =>
        if steps + 1 ≥ maxRunSteps ∧ maxTicks = 0 then some (.ok .errBusy, slot.withState .idle)
        else runLoop host now maxTicks tickLimit startTicks fuel (steps + 1) slot
      | result => some result

/-- As many rounds of the loop as it can take. -/
def runFuel (maxTicks : UInt32) : Nat := if maxTicks > 0 then maxTicks.toNat + 1 else maxRunSteps

/-- What `flux_agent_run` does before the loop: the agent is `THINKING` and an idle VM is running. -/
def startRun (now : UInt64) : AgentSlot :=
  let slot := { slot with desc := { slot.desc with state := .thinking, lastActive := now } }
  if slot.vmInitialized ∧ slot.vm.state = .idle then slot.withVmState .running else slot

/-- What `flux_agent_run` does after the loop. -/
def finishRun : Except Fault FluxStatus × AgentSlot → Except Fault FluxStatus × AgentSlot
  | (.error fault, slot) => (.error fault, slot)
  | (.ok result, slot) =>
    if (result = .ok ∨ slot.desc.state = .terminated) ∧ slot.vmInitialized then
      (.ok result, slot.withVmState .halted)
    else (.ok result, slot)

/-- `flux_agent_run` once the agent may run. -/
def run (host : Host) (now : UInt64) (maxTicks : UInt32) : Option (Except Fault FluxStatus × AgentSlot) :=
  let tickLimit := if maxTicks > 0 then maxTicks.toUInt64 else slot.desc.limits.maxCpuTicks
  let startTicks := slot.desc.limits.usedCpuTicks
  (runLoop host now maxTicks tickLimit startTicks (runFuel maxTicks) 0 (slot.startRun now)).map finishRun

/-- `flux_agent_step` once the agent may run. -/
def step (host : Host) (now : UInt64) : Except Fault FluxStatus × AgentSlot :=
  let slot := if slot.vm.state = .idle then slot.withVmState .running else slot
  { slot with desc := { slot.desc with lastActive := now } }.sandboxStep host now

/-- The agent has ended or is paused. -/
def MayNotRun : Prop := slot.desc.state = .terminated ∨ slot.desc.state = .failed ∨ slot.paused = true

instance : Decidable slot.MayNotRun := inferInstanceAs (Decidable (_ ∨ _ ∨ _))

end AgentSlot

namespace AgentRuntime

variable (rt : AgentRuntime)

/-- `flux_agent_run`; `none` if the loop does not end. -/
def fluxAgentRun (host : Host) (agentId maxTicks : UInt32) :
    Option (Except Fault FluxStatus × AgentRuntime) :=
  if !rt.initialized then some (.ok .errInvalid, rt)
  else
    match rt.agentSlotById agentId with
    | none => some (.ok .errNotfound, rt)
    | some i =>
      if (rt.agents i).MayNotRun then some (.ok .errInvalid, rt)
      else
        ((rt.agents i).run host rt.agentNow maxTicks).map fun r => (r.1, rt.modifySlot i fun _ => r.2)

/-- `flux_agent_step`; a VM without bytecode has no program loaded. -/
def fluxAgentStep (host : Host) (agentId : UInt32) : Except Fault FluxStatus × AgentRuntime :=
  if !rt.initialized then (.ok .errInvalid, rt)
  else
    match rt.agentSlotById agentId with
    | none => (.ok .errNotfound, rt)
    | some i =>
      let slot := rt.agents i
      if slot.MayNotRun then (.ok .errInvalid, rt)
      else if !slot.vmInitialized ∨ slot.vm.bytecodeLen = 0 then (.ok .errInvalid, rt)
      else
        let r := slot.step host rt.agentNow
        (r.1, rt.modifySlot i fun _ => r.2)

end AgentRuntime

end FluxOs
