import FluxOs.Agent.A2a

/-!
# The lifecycle of agents

The functions of `agent/agent.c`.  The id of an agent is the index of its slot and four.
-/

namespace FluxOs

open Rings

/-- The characters of an ASCII text. -/
def asciiBytes (s : String) : List UInt8 := s.toList.map fun c => UInt8.ofNat c.toNat

/-- `"agent_workspace"`. -/
def agentWorkspace : List UInt8 := [97, 103, 101, 110, 116, 95, 119, 111, 114, 107, 115, 112, 97, 99, 101]

namespace AgentRuntime

/-! ## Initialization -/

/-- `s_default_config`. -/
def defaultConfig : AgentConfig where
  maxAgents := 64
  defaultCpuTicks := 1000000
  defaultMemory := 256 * 1024

/-- `flux_agent_init`, from a runtime that is not initialized.  The bit of the first slot is set, so that its
id is never given. -/
def fluxAgentInit (config : Option AgentConfig) : AgentRuntime :=
  let config := config.getD defaultConfig
  let config := if config.maxAgents > 64 then { config with maxAgents := 64 } else config
  { initialized := true
    config
    agents := fun _ => .zero
    agentBitmap := Function.update (fun _ => false) ⟨0, by decide⟩ true
    msgPool := .zero
    nextMsgId := 1
    topics := []
    pubCaps := fun _ => .zero
    numPubCaps := 0
    tickCounter := 0
    history := ⟨[], 0⟩ }

variable (rt : AgentRuntime)

/-! ## Ids and slots -/

/-- `agent_count_active`. -/
def agentCountActive : Nat := ((List.finRange fluxAgentMax).filter fun i => (rt.agents i).active).length

/-- `agent_alloc_id`: the slot of the new id. -/
def agentAllocId : Option (AgentIdx × AgentRuntime) :=
  match (List.finRange fluxAgentMax).find? fun i => !rt.agentBitmap i with
  | none => none
  | some i => some (i, { rt with agentBitmap := Function.update rt.agentBitmap i true })

/-- `agent_free_id`. -/
def agentFreeId (id : UInt32) : AgentRuntime :=
  match agentIndexFromId id with
  | none => rt
  | some i => { rt with agentBitmap := Function.update rt.agentBitmap i false }

/-- `memset(slot, 0, sizeof(flux_agent_slot_t))`. -/
def clearSlot (i : AgentIdx) : AgentRuntime := (rt.modifySlot i fun _ => .zero).record (.clear i)

/-- `flux_vm_destroy`: all buffers of the VM are freed. -/
def vmDestroy (vm : FluxVm) : FluxVm := .zero ⟨vm.heap.calls, []⟩

/-- The loop of `agent_slot_cleanup` that frees the messages in the inbox. -/
def drainPool (pool : MsgPool) (inbox : RingBuffer (Option MsgRef)) : MsgPool :=
  (inbox.contents fluxInboxSize).foldl MsgPool.freeUnlessNull pool

/-- The inbox that `agent_slot_cleanup` leaves. -/
def drainInbox (inbox : RingBuffer (Option MsgRef)) : RingBuffer (Option MsgRef) :=
  { inbox.mapEntries fluxInboxSize fun _ => none with head := 0, tail := 0, count := 0 }

/-- What `agent_slot_cleanup` leaves in the slot. -/
def cleanSlot (slot : AgentSlot) : AgentSlot :=
  { slot with
    bytecode := none
    bytecodeLen := if slot.bytecode.isSome then 0 else slot.bytecodeLen
    vm := if slot.vmInitialized then vmDestroy slot.vm else slot.vm
    vmInitialized := false
    inbox := drainInbox slot.inbox
    delegations := []
    auditCount := 0
    auditLog := AgentSlot.zero.auditLog
    active := false
    paused := false
    desc := .zero }

/-- `agent_slot_cleanup`. -/
def agentSlotCleanup (i : AgentIdx) : AgentRuntime :=
  let pool := drainPool rt.msgPool (rt.agents i).inbox
  ({ rt.modifySlot i cleanSlot with msgPool := pool }).record (.clear i)

/-! ## Spawn -/

/-- The VM after `flux_vm_init`.  If its stack cannot be allocated, the function returns with the registers
cleared, and `flux_agent_spawn` ignores the status. -/
def initVm (host : Host) : FluxVm :=
  match FluxVm.fluxVmInit host ⟨0, []⟩ with
  | .ok vm => vm
  | .error _ => { FluxVm.zero ⟨1, []⟩ with stackSize := fluxStackSize }

/-- The VM of a new agent. -/
def spawnVm (host : Host) (id : UInt32) (bytecode : Option (Nat → UInt8)) (len memory : UInt64) : FluxVm :=
  let vm := { initVm host with ownerPid := id }
  let vm := if bytecode.isSome then (vm.fluxVmLoad bytecode len).2 else vm
  (vm.fluxVmRegionCreate host (some agentWorkspace) memory false).2

/-- The slot of a new agent. -/
def spawnSlot (host : Host) (id : UInt32) (name model : Option CString) (caps : UInt64)
    (bytecode : Option (Nat → UInt8)) (len : UInt64) : AgentSlot :=
  { AgentSlot.zero with
    bytecode
    bytecodeLen := len
    vm := spawnVm host id bytecode len rt.config.defaultMemory
    vmInitialized := true
    desc :=
      { AgentDesc.zero with
        agentId := id
        name := (name.getD (.read (asciiBytes s!"agent-{id.toNat}"))).copyTo fluxAgentNameMax
        model := (model.getD (.read (asciiBytes "bytecode"))).copyTo fluxAgentModelMax
        state := .created
        capabilities := caps
        pid := id
        limits :=
          { maxCpuTicks := rt.config.defaultCpuTicks.toUInt64
            usedCpuTicks := 0
            maxMemory := rt.config.defaultMemory
            usedMemory := 0
            maxIoPerSec := 1024
            usedIoPerSec := 0 }
        createTime := rt.agentNow
        lastActive := rt.agentNow }
    active := true }

/-- `flux_agent_spawn`; `mem` says whether the bytecode can be copied. -/
def fluxAgentSpawn (host : Host) (mem : Bool) (name model : Option CString) (caps : UInt64)
    (bytecode : Option (Nat → UInt8)) (len : UInt64) : UInt32 × AgentRuntime :=
  if !rt.initialized then (fluxAgentIdInvalid, rt)
  else if rt.agentCountActive ≥ rt.config.maxAgents.toNat then (fluxAgentIdInvalid, rt)
  else
    match rt.agentAllocId with
    | none => (fluxAgentIdInvalid, rt)
    | some (i, rt) =>
      let id := agentIdOf i
      let rt := rt.clearSlot i
      if bytecode.isSome ∧ len > 0 then
        if mem then (id, rt.modifySlot i fun _ => rt.spawnSlot host id name model caps bytecode len)
        else (fluxAgentIdInvalid, rt.agentFreeId id)
      else (id, rt.modifySlot i fun _ => rt.spawnSlot host id name model caps none 0)

/-! ## Terminate, pause and resume -/

/-- `flux_agent_terminate`. -/
def fluxAgentTerminate (agentId : UInt32) : FluxStatus × AgentRuntime :=
  if !rt.initialized then (.errInvalid, rt)
  else
    match rt.agentSlotById agentId with
    | none => (.errNotfound, rt)
    | some i =>
      if agentId ≤ fluxAgentIdCompiler then (.errDenied, rt)
      else
        let rt := rt.modifyDesc i fun d => { d with state := .terminated }
        (.ok, (rt.agentSlotCleanup i).agentFreeId agentId)

/-- The slot of an agent that is paused: a running VM is halted. -/
def pauseSlot (now : UInt64) (slot : AgentSlot) : AgentSlot :=
  { slot with
    paused := true
    vm := if slot.vmInitialized ∧ slot.vm.state = .running then slot.vm.fluxVmHalt.2 else slot.vm
    desc := { slot.desc with lastActive := now } }

/-- The slot of an agent that is resumed: the VM of an agent that was thinking is idle again. -/
def resumeSlot (now : UInt64) (slot : AgentSlot) : AgentSlot :=
  { slot with
    paused := false
    vm := if slot.desc.state = .thinking ∧ slot.vmInitialized then { slot.vm with state := .idle } else slot.vm
    desc := { slot.desc with lastActive := now } }

/-- `flux_agent_pause`. -/
def fluxAgentPause (agentId : UInt32) : FluxStatus × AgentRuntime :=
  if !rt.initialized then (.errInvalid, rt)
  else
    match rt.agentSlotById agentId with
    | none => (.errNotfound, rt)
    | some i =>
      let slot := rt.agents i
      if slot.desc.state = .terminated ∨ slot.desc.state = .failed then (.errInvalid, rt)
      else if slot.paused then (.ok, rt)
      else
        (.ok, rt.modifySlot i (pauseSlot rt.agentNow))

/-- `flux_agent_resume`. -/
def fluxAgentResume (agentId : UInt32) : FluxStatus × AgentRuntime :=
  if !rt.initialized then (.errInvalid, rt)
  else
    match rt.agentSlotById agentId with
    | none => (.errNotfound, rt)
    | some i =>
      if !(rt.agents i).paused then (.ok, rt)
      else
        (.ok, rt.modifySlot i (resumeSlot rt.agentNow))

end AgentRuntime

end FluxOs
