import FluxOs.Agent.Capability
import FluxOs.Agent.Discovery
import FluxOs.Agent.Lifecycle
import FluxOs.Agent.Sandbox
import FluxOs.Lib.Actions

/-!
# Runs of the agent runtime

The functions of the agent runtime as actions of one machine, from the state after `flux_agent_init`.  What
the host answers to an allocation is part of the action.  A receive that waits takes one section of its loop
at a time, and `tick` is the end of a scheduler round, which advances the clock.
-/

namespace FluxOs

open Actions AgentRuntime

/-- The agent runtime, with the receives that wait. -/
structure AgentSystem where
  rt : AgentRuntime
  receives : List A2aReceive

/-- A call of a function of the agent runtime, or a section of a loop. -/
inductive AgentAction
  | spawn (host : Host) (mem : Bool) (name model : Option CString) (caps : UInt64)
      (bytecode : Option (Nat → UInt8)) (len : UInt64)
  | terminate (id : UInt32)
  | pause (id : UInt32)
  | resume (id : UInt32)
  | grant (id : UInt32) (cap : UInt64)
  | revoke (id : UInt32) (cap : UInt64)
  | hasCap (id : UInt32) (cap : UInt64)
  | transfer (source target : UInt32) (cap : UInt64)
  | inherit (parent child : UInt32)
  | send (mem : Bool) (sender target : UInt32) (type : A2aType) (payload : List UInt8)
  | recv (id timeout : UInt32)
  | recvRound (r : A2aReceive)
  | broadcast (mem : Nat → Bool) (sender : UInt32) (topic : CString) (payload : List UInt8)
  | reply (mem : Bool) (original : A2aMsg) (payload : List UInt8)
  | delegate (mem : Bool) (source target : UInt32) (task : List UInt8)
  | delegateResult (mem : Bool) (worker id : UInt32) (result : List UInt8)
  | publish (id : UInt32) (name : CString) (description : Option CString)
  | unpublish (id : UInt32) (name : CString)
  | subscribe (id : UInt32) (topic : CString)
  | unsubscribe (id : UInt32) (topic : CString)
  | run (host : Host) (id maxTicks : UInt32)
  | step (host : Host) (id : UInt32)
  | tick

/-- Spawn an agent without bytecode on a host that has no memory for its VM. -/
def AgentAction.spawnBare (caps : UInt64) : AgentAction :=
  .spawn ⟨fun _ _ => none, fun _ _ _ => none⟩ true none none caps none 0

/-- The runtime after `spawnBare`. -/
def AgentRuntime.withBare (rt : AgentRuntime) (caps : UInt64) : AgentRuntime :=
  (rt.fluxAgentSpawn ⟨fun _ _ => none, fun _ _ _ => none⟩ true none none caps none 0).2

namespace A2aRecvOutcome

/-- The receives that wait after the first part of `flux_a2a_recv`. -/
def enter (receives : List A2aReceive) : A2aRecvOutcome → List A2aReceive
  | .done .. => receives
  | .waiting r => r :: receives

/-- The receives that wait after a section of the loop of `r`. -/
def leave (r : A2aReceive) (receives : List A2aReceive) : A2aRecvOutcome → List A2aReceive
  | .done .. => receives.erase r
  | .waiting r' => r' :: receives.erase r

end A2aRecvOutcome

namespace AgentSystem

variable (s : AgentSystem)

def withRt (rt : AgentRuntime) : AgentSystem := { s with rt }

/-- The state after an execution, unless the VM did something that C leaves undefined. -/
def afterExecution : Except Fault FluxStatus × AgentRuntime → Option AgentSystem
  | (.ok _, rt) => some (s.withRt rt)
  | (.error _, _) => none

/-- One action.  It is not possible where the code is undefined. -/
def step : AgentAction → AgentSystem → Option AgentSystem
  | .spawn host mem name model caps bytecode len, s =>
    some (s.withRt (s.rt.fluxAgentSpawn host mem name model caps bytecode len).2)
  | .terminate id, s => some (s.withRt (s.rt.fluxAgentTerminate id).2)
  | .pause id, s => some (s.withRt (s.rt.fluxAgentPause id).2)
  | .resume id, s => some (s.withRt (s.rt.fluxAgentResume id).2)
  | .grant id cap, s => some (s.withRt (s.rt.fluxAgentGrantCap id cap).2)
  | .revoke id cap, s => some (s.withRt (s.rt.fluxAgentRevokeCap id cap).2)
  | .hasCap id cap, s => some (s.withRt (s.rt.fluxAgentHasCap id cap).2)
  | .transfer source target cap, s => some (s.withRt (s.rt.fluxAgentTransferCap source target cap).2)
  | .inherit parent child, s => some (s.withRt (s.rt.fluxAgentInheritCaps parent child).2)
  | .send mem sender target type payload, s =>
    some (s.withRt (s.rt.fluxA2aSend mem sender target type payload).2)
  | .recv id timeout, s =>
    let r := s.rt.fluxA2aRecv id timeout
    some ⟨r.2, r.1.enter s.receives⟩
  | .recvRound p, s =>
    if p ∈ s.receives then
      let r := s.rt.recvRound p
      some ⟨r.2, r.1.leave p s.receives⟩
    else none
  | .broadcast mem sender topic payload, s =>
    some (s.withRt (s.rt.fluxA2aBroadcast mem sender topic payload).2)
  | .reply mem original payload, s => some (s.withRt (s.rt.fluxA2aReply mem original payload).2)
  | .delegate mem source target task, s =>
    some (s.withRt (s.rt.fluxA2aDelegate mem source target task).2)
  | .delegateResult mem worker id result, s =>
    some (s.withRt (s.rt.fluxA2aDelegateResult mem worker id result).2)
  | .publish id name description, s => some (s.withRt (s.rt.fluxAgentPublishCap id name description).2)
  | .unpublish id name, s => some (s.withRt (s.rt.fluxAgentUnpublishCap id name).2)
  | .subscribe id topic, s => some (s.withRt (s.rt.fluxAgentSubscribe id topic).2)
  | .unsubscribe id topic, s => some (s.withRt (s.rt.fluxAgentUnsubscribe id topic).2)
  | .run host id maxTicks, s => (s.rt.fluxAgentRun host id maxTicks).bind s.afterExecution
  | .step host id, s => s.afterExecution (s.rt.fluxAgentStep host id)
  | .tick, s => some (s.withRt { s.rt with tickCounter := s.rt.tickCounter + 1 })

/-- The state after `flux_agent_init`. -/
def boot (config : Option AgentConfig) : AgentSystem := ⟨fluxAgentInit config, []⟩

/-- The states that a run from `boot` with the allowed actions reaches. -/
def Reachable (allowed : AgentAction → AgentSystem → Prop) (s : AgentSystem) : Prop :=
  ∃ config, Reaches step allowed (boot config) s

end AgentSystem

end FluxOs
