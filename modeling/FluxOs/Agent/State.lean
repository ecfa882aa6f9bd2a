import FluxOs.Kernel.State
import FluxOs.Vm.Step

/-!
# The agent runtime state

The data types of `flux/agent.h` and `agent/agent_internal.h`: messages and their pool, agent slots, topics
and the registry of published capabilities.  The statistics that only reports print and the cursor of the
scheduler are left out.

A pointer to a message is a `MsgRef`: a slot of the pool, or a heap block, which is named by the number of
heap messages allocated before it.
-/

namespace FluxOs

open Rings

/-! ## Constants -/

abbrev fluxAgentMax : Nat := 64

abbrev fluxMsgPoolSize : Nat := 512

abbrev fluxInboxSize : Nat := 64

/-- The number of topics, and the size of the buffer of a topic's name. -/
abbrev fluxTopicMax : Nat := 32

abbrev fluxTopicSubsMax : Nat := 64

abbrev fluxPubCapsMax : Nat := 256

abbrev fluxAuditLogSize : Nat := 512

abbrev fluxA2aMaxPayload : Nat := 4096

abbrev fluxA2aMaxTopic : Nat := 64

abbrev fluxAgentNameMax : Nat := 64

abbrev fluxAgentModelMax : Nat := 32

abbrev fluxAgentMaxCaps : Nat := 16

/-- The size of the `delegations` array of a slot. -/
abbrev fluxDelegationsMax : Nat := 16

/-- The size of the buffer of a published capability's name. -/
abbrev fluxPubCapNameMax : Nat := 32

/-- The size of the buffer of a published capability's description. -/
abbrev fluxPubCapDescMax : Nat := 128

def fluxAgentIdInvalid : UInt32 := 0

def fluxAgentIdCompiler : UInt32 := 3

def fluxCapNone : UInt64 := 0

instance : NeZero fluxMsgPoolSize := ⟨by decide⟩

instance : NeZero fluxPubCapsMax := ⟨by decide⟩

instance : NeZero fluxAuditLogSize := ⟨by decide⟩

/-! ## Strings -/

/-- A C string: the bytes in front of the terminating zero. -/
structure CString where
  bytes : List UInt8
  noNul : 0 ∉ bytes
  deriving DecidableEq

namespace CString

/-- The string that a sequence of bytes starts with. -/
def read (l : List UInt8) : CString :=
  ⟨l.takeWhile (· ≠ 0), fun h => by simpa using List.all_eq_true.1 List.all_takeWhile 0 h⟩

def empty : CString := ⟨[], List.not_mem_nil⟩

/-- The copy of a string in a buffer of `size` bytes, the last of which is the terminating zero. -/
def copyTo (size : Nat) (s : CString) : CString :=
  ⟨s.bytes.take (size - 1), fun h => s.noNul (List.mem_of_mem_take h)⟩

/-- The bytes of a buffer that was zero before the string was copied to it. -/
def toBuffer (size : Nat) (s : CString) : Fin size → UInt8 := fun i => (s.copyTo size).bytes.getD i 0

theorem eq_of_bytes {s t : CString} (h : s.bytes = t.bytes) : s = t := by
  cases s
  cases t
  cases h
  rfl

/-- A string that fits is copied whole. -/
theorem copyTo_of_lt {size : Nat} {s : CString} (h : s.bytes.length < size) : s.copyTo size = s :=
  eq_of_bytes (List.take_of_length_le (by omega))

theorem length_copyTo_lt {size : Nat} {s : CString} (h : 0 < size) : (s.copyTo size).bytes.length < size := by
  have : (s.bytes.take (size - 1)).length ≤ size - 1 := List.length_take_le ..
  show (s.bytes.take (size - 1)).length < size
  omega

end CString

/-! ## Messages -/

/-- `flux_a2a_type_t`. -/
inductive A2aType
  | tell | ask | reply | delegate | result | barrier | subscribe | event | error | capability | heartbeat
  deriving DecidableEq, Repr

/-- `flux_a2a_msg_t`; the payload is the list of its `payload_len` bytes. -/
structure A2aMsg where
  msgId : UInt32
  replyTo : UInt32
  type : A2aType
  sender : UInt32
  target : UInt32
  requiredCap : UInt64
  timestamp : UInt64
  deadline : UInt64
  priority : UInt32
  topic : Fin fluxA2aMaxTopic → UInt8
  payload : List UInt8

/-- A message after `memset` to zero. -/
def A2aMsg.zero : A2aMsg where
  msgId := 0
  replyTo := 0
  type := .tell
  sender := 0
  target := 0
  requiredCap := 0
  timestamp := 0
  deadline := 0
  priority := 0
  topic := fun _ => 0
  payload := []

/-- A pointer to a message. -/
inductive MsgRef
  | pool (slot : Fin fluxMsgPoolSize)
  | heap (serial : Nat)
  deriving DecidableEq

/-- `flux_msg_pool_t`, with the messages on the heap.  `doubleFree` records that a message was freed that was
not allocated. -/
structure MsgPool where
  messages : Fin fluxMsgPoolSize → A2aMsg
  allocated : Fin fluxMsgPoolSize → Bool
  heap : Nat → Option A2aMsg
  heapSerial : Nat
  doubleFree : Bool

/-- An empty pool. -/
def MsgPool.zero : MsgPool := ⟨fun _ => .zero, fun _ => false, fun _ => none, 0, false⟩

/-! ## Agents -/

/-- `flux_agent_state_t`. -/
inductive AgentState
  | created | initializing | idle | thinking | waiting | delegating | terminated | failed
  deriving DecidableEq, Repr

/-- An entry of the `caps` of a descriptor. -/
structure CapDesc where
  name : CString
  description : CString
  deriving DecidableEq

/-- The `limits` of a descriptor. -/
structure AgentLimits where
  maxCpuTicks : UInt64
  usedCpuTicks : UInt64
  maxMemory : UInt64
  usedMemory : UInt64
  maxIoPerSec : UInt32
  usedIoPerSec : UInt32
  deriving DecidableEq

/-- `flux_agent_desc_t`; `caps` is the list of the first `num_caps` entries. -/
structure AgentDesc where
  agentId : UInt32
  name : CString
  model : CString
  state : AgentState
  capabilities : UInt64
  pid : UInt32
  caps : List CapDesc
  limits : AgentLimits
  msgCountSent : UInt32
  msgCountRecv : UInt32
  delegateCount : UInt32
  createTime : UInt64
  lastActive : UInt64
  deriving DecidableEq

/-- A cleared descriptor; its `agent_id` is `FLUX_AGENT_ID_INVALID`. -/
def AgentDesc.zero : AgentDesc where
  agentId := fluxAgentIdInvalid
  name := .empty
  model := .empty
  state := .created
  capabilities := 0
  pid := 0
  caps := []
  limits := ⟨0, 0, 0, 0, 0, 0⟩
  msgCountSent := 0
  msgCountRecv := 0
  delegateCount := 0
  createTime := 0
  lastActive := 0

/-- An entry of the `delegations` of a slot. -/
structure Delegation where
  originalMsgId : UInt32
  targetAgent : UInt32
  active : Bool
  deriving DecidableEq

/-- The actions in the audit log. -/
inductive AuditAction
  | grant | revoke | transfer | check
  deriving DecidableEq, Repr

/-- An entry of the audit log. -/
structure AuditEntry where
  timestamp : UInt64
  agentId : UInt32
  targetId : UInt32
  cap : UInt64
  action : AuditAction
  deriving DecidableEq

/-- What the sandbox does with an agent that has the VM and the capability bits: it calls `flux_vm_step`, or
handles a violation. -/
inductive SandboxEvent
  | vmStep (vm : FluxVm) (capabilities : UInt64) (result : Except Fault (FluxStatus × FluxVm))
  | violation (vm : FluxVm) (capabilities : UInt64) (code : UInt8)

/-- `flux_agent_slot_t`; `delegations` is the list of the first `num_delegations` entries.  `executed` and
`log` are not in the source: the number of VM instructions that the agent has executed since it was spawned,
and what the sandbox did with it. -/
structure AgentSlot where
  desc : AgentDesc
  vm : FluxVm
  vmInitialized : Bool
  bytecode : Option (Nat → UInt8)
  bytecodeLen : UInt64
  active : Bool
  paused : Bool
  inbox : RingBuffer (Option MsgRef)
  delegations : List Delegation
  auditLog : Fin fluxAuditLogSize → AuditEntry
  auditCount : Nat
  lastTickUpdate : UInt64
  executed : Nat
  log : List SandboxEvent

/-- A slot after `memset` to zero. -/
def AgentSlot.zero : AgentSlot where
  desc := .zero
  vm := .zero ⟨0, []⟩
  vmInitialized := false
  bytecode := none
  bytecodeLen := 0
  active := false
  paused := false
  inbox := ⟨fun _ => none, 0, 0, 0⟩
  delegations := []
  auditLog := fun _ => ⟨0, 0, 0, 0, .grant⟩
  auditCount := 0
  lastTickUpdate := 0
  executed := 0
  log := []

/-- An index of the agent table. -/
abbrev AgentIdx := Fin fluxAgentMax

/-! ## Registries -/

/-- `flux_topic_t`. -/
structure FluxTopic where
  name : CString
  subscribers : List UInt32
  deriving DecidableEq

/-- `flux_published_cap_t`. -/
structure PublishedCap where
  name : CString
  agentId : UInt32
  description : CString
  active : Bool
  deriving DecidableEq

/-- An entry after `memset` to zero. -/
def PublishedCap.zero : PublishedCap := ⟨.empty, fluxAgentIdInvalid, .empty, false⟩

/-! ## The runtime -/

/-- The fields of `flux_agent_config_t` that the runtime uses. -/
structure AgentConfig where
  maxAgents : UInt32
  defaultCpuTicks : UInt32
  defaultMemory : UInt64

/-- What happens to an inbox: a message comes in, one is taken out, or the slot is cleared. -/
inductive InboxEvent
  | enqueue (j : AgentIdx) (m : A2aMsg)
  | dequeue (j : AgentIdx) (m : A2aMsg)
  | clear (j : AgentIdx)

/-- The run so far, which the source does not record: the events of the inboxes, and the number of message
ids that were generated. -/
structure MailHistory where
  events : List InboxEvent
  generated : Nat

/-- `flux_agent_runtime_t`; `topics` is the list of the first `num_topics` entries. -/
structure AgentRuntime where
  initialized : Bool
  config : AgentConfig
  agents : AgentIdx → AgentSlot
  agentBitmap : AgentIdx → Bool
  msgPool : MsgPool
  nextMsgId : UInt32
  topics : List FluxTopic
  pubCaps : Fin fluxPubCapsMax → PublishedCap
  numPubCaps : Nat
  tickCounter : UInt64
  history : MailHistory

namespace AgentRuntime

variable (rt : AgentRuntime)

/-- Change an agent slot. -/
def modifySlot (i : AgentIdx) (f : AgentSlot → AgentSlot) : AgentRuntime :=
  { rt with agents := Function.update rt.agents i (f (rt.agents i)) }

/-- Change the descriptor of an agent. -/
def modifyDesc (i : AgentIdx) (f : AgentDesc → AgentDesc) : AgentRuntime :=
  rt.modifySlot i fun slot => { slot with desc := f slot.desc }

/-- Note an event of an inbox. -/
def record (e : InboxEvent) : AgentRuntime :=
  { rt with history := { rt.history with events := rt.history.events ++ [e] } }

/-- `agent_now`. -/
def agentNow : UInt64 := rt.tickCounter

/-! ## Agent ids -/

/-- `agent_index_from_id`. -/
def agentIndexFromId (id : UInt32) : Option AgentIdx :=
  if h : id.toNat < 4 ∨ id.toNat ≥ fluxAgentMax + 4 then none else some ⟨id.toNat - 4, by omega⟩

/-- The id of the agent in a slot. -/
def agentIdOf (i : AgentIdx) : UInt32 := UInt32.ofNat (i.val + 4)

/-- `agent_slot_by_id`. -/
def agentSlotById (id : UInt32) : Option AgentIdx :=
  (agentIndexFromId id).filter fun i => (rt.agents i).active

/-- The agent holds one of the capability bits. -/
def holds (i : AgentIdx) (cap : UInt64) : Bool := (rt.agents i).desc.capabilities &&& cap ≠ 0

variable {rt} {i j : AgentIdx} {id : UInt32}

theorem toNat_agentIdOf : (agentIdOf i).toNat = i.val + 4 := by
  have hi : i.val < 64 := i.isLt
  exact UInt32.toNat_ofNat_of_lt' (Nat.lt_trans (by omega : i.val + 4 < 68) (by decide))

theorem agentIdOf_inj : agentIdOf i = agentIdOf j ↔ i = j := by
  refine ⟨fun h => Fin.ext ?_, fun h => h ▸ rfl⟩
  have := congrArg UInt32.toNat h
  rw [toNat_agentIdOf, toNat_agentIdOf] at this
  omega

theorem agentIndexFromId_eq_some : agentIndexFromId id = some i ↔ id = agentIdOf i := by
  unfold agentIndexFromId
  constructor
  · intro h
    split_ifs at h with hid
    cases h
    refine UInt32.toNat_inj.1 ?_
    rw [toNat_agentIdOf]
    show id.toNat = id.toNat - 4 + 4
    omega
  · rintro rfl
    have hi := i.isLt
    rw [dif_neg (by rw [toNat_agentIdOf]; omega)]
    simp only [toNat_agentIdOf]
    congr 1

@[simp] theorem agentIndexFromId_agentIdOf : agentIndexFromId (agentIdOf i) = some i :=
  agentIndexFromId_eq_some.2 rfl

theorem agentSlotById_eq_some :
    rt.agentSlotById id = some i ↔ id = agentIdOf i ∧ (rt.agents i).active = true := by
  rw [agentSlotById, Option.filter_eq_some_iff, agentIndexFromId_eq_some]

/-! ## Changing slots -/

variable {f : AgentSlot → AgentSlot}

@[simp] theorem modifySlot_self : (rt.modifySlot i f).agents i = f (rt.agents i) := by
  simp [modifySlot]

theorem modifySlot_of_ne (h : j ≠ i) : (rt.modifySlot i f).agents j = rt.agents j := by
  simp [modifySlot, h]

/-- What a change of a slot leaves alone. -/
theorem modifySlot_keeps {β : Type} (g : AgentSlot → β) (h : ∀ slot, g (f slot) = g slot) (j : AgentIdx) :
    g ((rt.modifySlot i f).agents j) = g (rt.agents j) := by
  by_cases hj : j = i
  · subst hj
    rw [modifySlot_self, h]
  · rw [modifySlot_of_ne hj]

end AgentRuntime

end FluxOs
